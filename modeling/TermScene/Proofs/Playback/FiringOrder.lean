import Mathlib.Data.List.Nodup
import TermScene.Playback.Player
import TermScene.Proofs.Playback.Agenda

/-!
# The order in which timers fire

The timers of a queue in the order in which they leave it, as entries of an agenda:
`TimerQueue.agenda`. A push places an entry behind all that are due no later
(`agenda_push`), and a pop takes the first entry (`agenda_of_pop?`). From here on
nothing is said about heaps or registration numbers.
-/

namespace TermScene

open Agenda

/-- The timer as an entry of an agenda. -/
def Timer.entry (t : Timer) : Nat × TimerTask := (t.deadline, t.task)

namespace TimerQueue

/-- The timers in the order in which they fire. -/
def firing (q : TimerQueue) : List Timer := q.toList.mergeSort fun a b => a ≤ b

def agenda (q : TimerQueue) : List (Nat × TimerTask) := q.firing.map Timer.entry

theorem firing_perm (q : TimerQueue) : q.firing.Perm q.toList := List.mergeSort_perm _ _

theorem pairwise_firing (q : TimerQueue) : q.firing.Pairwise (· ≤ ·) := by
  have trans (a b c : Timer) (hab : decide (a ≤ b) = true) (hbc : decide (b ≤ c) = true) :
      decide (a ≤ c) = true :=
    decide_eq_true (Timer.le_trans (of_decide_eq_true hab) (of_decide_eq_true hbc))
  have total (a b : Timer) : (decide (a ≤ b) || decide (b ≤ a)) = true := by
    rw [Bool.or_eq_true, decide_eq_true_eq, decide_eq_true_eq]
    by_cases h : a ≤ b
    · exact .inl h
    · exact .inr (Timer.le_of_not_le h)
  exact (List.pairwise_mergeSort trans total q.toList).imp of_decide_eq_true

/-- Timers with registration numbers of their own fire in one order only. -/
theorem eq_firing {q : TimerQueue} {l : List Timer} (perm : l.Perm q.toList)
    (sorted : l.Pairwise (· ≤ ·)) : l = q.firing := by
  refine List.Perm.eq_of_pairwise ?_ sorted q.pairwise_firing
    (perm.trans q.firing_perm.symm)
  intro a b ha hb hab hba
  have seqs : a.seq = b.seq := by
    rw [Timer.le_def] at hab hba
    omega
  exact List.inj_on_of_nodup_map q.distinct (perm.mem_iff.1 ha) (q.firing_perm.mem_iff.1 hb) seqs

@[simp] theorem agenda_empty : empty.agenda = [] := by
  simp [agenda, firing]

theorem inOrder_agenda (q : TimerQueue) : InOrder q.agenda := by
  unfold agenda InOrder
  rw [List.pairwise_map]
  apply q.pairwise_firing.imp
  intro a b h
  rw [Timer.le_def] at h
  show a.deadline ≤ b.deadline
  omega

theorem agenda_of_pop? {q rest : TimerQueue} {t : Timer} (h : q.pop? = some (t, rest)) :
    q.agenda = t.entry :: rest.agenda := by
  obtain ⟨perm, least, -⟩ := pop?_eq_some h
  have le : ∀ u ∈ rest.firing, t ≤ u := fun u hu =>
    least u (perm.mem_iff.2 (List.mem_cons_of_mem _ (rest.firing_perm.mem_iff.1 hu)))
  have order : t :: rest.firing = q.firing :=
    eq_firing ((rest.firing_perm.cons t).trans perm.symm)
      (List.pairwise_cons.2 ⟨le, rest.pairwise_firing⟩)
  rw [agenda, ← order, List.map_cons]
  rfl

theorem pop?_eq_none_iff_agenda {q : TimerQueue} : q.pop? = none ↔ q.agenda = [] := by
  rw [pop?_eq_none_iff, agenda, List.map_eq_nil_iff]
  constructor
  · intro h
    exact List.Perm.eq_nil (h ▸ q.firing_perm)
  · intro h
    exact List.Perm.eq_nil (h ▸ q.firing_perm).symm

theorem pop?_of_agenda {q : TimerQueue} {e : Nat × TimerTask} {l : List (Nat × TimerTask)}
    (h : q.agenda = e :: l) :
    ∃ t rest, q.pop? = some (t, rest) ∧ t.entry = e ∧ rest.agenda = l := by
  cases hp : q.pop? with
  | none => rw [pop?_eq_none_iff_agenda.1 hp] at h; cases h
  | some p =>
    obtain ⟨t, rest⟩ := p
    rw [agenda_of_pop? hp] at h
    injection h with he hl
    exact ⟨t, rest, rfl, he, hl⟩

/-- A timer that was registered last goes behind all that are due no later. -/
theorem exists_place {l : List Timer} (sorted : l.Pairwise (· ≤ ·)) {t : Timer}
    (last : ∀ u ∈ l, u.seq < t.seq) :
    ∃ m : List Timer, m.Perm (t :: l) ∧ m.Pairwise (· ≤ ·) ∧
      m.map Timer.entry = place t.entry (l.map Timer.entry) := by
  induction l with
  | nil => exact ⟨[t], .refl _, List.pairwise_singleton _ _, rfl⟩
  | cons u l ih =>
    obtain ⟨hu, hl⟩ := List.pairwise_cons.1 sorted
    by_cases le : u.deadline ≤ t.deadline
    · obtain ⟨m, perm, hm, em⟩ := ih hl fun v hv => last v (List.mem_cons_of_mem _ hv)
      refine ⟨u :: m, (perm.cons u).trans (.swap t u l), List.pairwise_cons.2 ⟨fun v hv => ?_, hm⟩,
        ?_⟩
      · rcases List.mem_cons.1 (perm.mem_iff.1 hv) with rfl | hv
        · have := last u List.mem_cons_self
          rw [Timer.le_def]
          omega
        · exact hu v hv
      · rw [List.map_cons, em, List.map_cons, place, if_pos (show u.entry.1 ≤ t.entry.1 from le)]
    · refine ⟨t :: u :: l, .refl _, List.pairwise_cons.2 ⟨fun v hv => ?_, sorted⟩, ?_⟩
      · have htu : t ≤ u := by
          rw [Timer.le_def]
          omega
        rcases List.mem_cons.1 hv with rfl | hv
        · exact htu
        · exact Timer.le_trans htu (hu v hv)
      · rw [List.map_cons, List.map_cons, place, if_neg (show ¬ u.entry.1 ≤ t.entry.1 from le)]

theorem agenda_push (q : TimerQueue) (deadline : Nat) (task : TimerTask) :
    (q.push deadline task).agenda = place (deadline, task) q.agenda := by
  obtain ⟨m, perm, sorted, entries⟩ := exists_place q.pairwise_firing
    (t := ⟨deadline, q.nextSeq, task⟩)
    fun u hu => q.fresh u (q.firing_perm.mem_iff.1 hu)
  have order : m = (q.push deadline task).firing :=
    eq_firing ((perm.trans (q.firing_perm.cons _)).trans (q.toList_push deadline task).symm) sorted
  rw [agenda, ← order, entries]
  rfl

end TimerQueue

end TermScene
