import Mathlib.Data.List.Induction
import Mathlib.Data.List.Nodup
import TermScene.Playback.TimerQueue

/-!
# What a timer queue gives out

A queue is used by pushes and pops in any order. Its history keeps beside it what was pushed and
which timers it gave out, and so which are still waiting, in the order in which they were pushed.
Nothing gets lost and nothing is given out twice (`accounted_of`), and the next timer is the first
of the waiting ones that is due no later than any other (`pops_in_order`), whatever the heap
looks like.
-/

namespace TermScene.TimerQueue

inductive Operation where
  | push (deadline : Nat) (task : TimerTask)
  | pop
  deriving Repr, DecidableEq

/-- A queue with what was pushed and what it gave out, each in order. -/
structure History where
  queue : TimerQueue
  pushed : List (Nat × TimerTask)
  popped : List Timer

namespace History

def perform (h : History) : Operation → History
  | .push deadline task =>
    { h with queue := h.queue.push deadline task, pushed := h.pushed ++ [(deadline, task)] }
  | .pop =>
    match h.queue.pop? with
    | none => h
    | some (timer, rest) => { h with queue := rest, popped := h.popped ++ [timer] }

/-- The history of a new queue after operations. -/
def of (operations : List Operation) : History := operations.foldl perform ⟨.empty, [], []⟩

/-- The timers that were pushed, each with the number of pushes before it. -/
def registered (h : History) : List Timer :=
  h.pushed.zipIdx.map fun ((deadline, task), index) => ⟨deadline, index, task⟩

/-- The timers that were pushed and not given out, in the order of the pushes. -/
def waiting (h : History) : List Timer := h.registered.filter (· ∉ h.popped)

/-- The first timer of a list that is due no later than any other. -/
def earliest? (l : List Timer) : Option Timer :=
  l.find? fun t => l.all fun u => t.deadline ≤ u.deadline

theorem of_concat (operations : List Operation) (operation : Operation) :
    of (operations ++ [operation]) = (of operations).perform operation :=
  List.foldl_concat ..

/-! ## What was pushed -/

theorem map_seq_registered (h : History) :
    h.registered.map (·.seq) = List.range h.pushed.length := by
  rw [registered, List.map_map, List.range_eq_range', ← List.zipIdx_map_snd]
  rfl

theorem length_registered (h : History) : h.registered.length = h.pushed.length := by
  rw [registered, List.length_map, List.length_zipIdx]

theorem mem_registered {h : History} {t : Timer} :
    t ∈ h.registered ↔ h.pushed[t.seq]? = some (t.deadline, t.task) := by
  rw [registered, List.mem_map]
  constructor
  · rintro ⟨⟨⟨deadline, task⟩, index⟩, mem, rfl⟩
    exact List.mem_zipIdx_iff_getElem?.1 mem
  · intro there
    exact ⟨((t.deadline, t.task), t.seq), List.mem_zipIdx_iff_getElem?.2 there, rfl⟩

theorem nodup_registered (h : History) : h.registered.Nodup := by
  have seqs : (h.registered.map (·.seq)).Nodup := by
    rw [map_seq_registered]
    exact List.nodup_range
  exact .of_map _ seqs

/-! ## What became of it -/

/-- Every timer that was pushed was given out or is in the queue, and none is twice. -/
structure Accounted (h : History) : Prop where
  nextSeq : h.queue.nextSeq = h.pushed.length
  perm : (h.popped ++ h.queue.toList).Perm h.registered

theorem Accounted.push {h : History} (accounted : h.Accounted) (deadline : Nat)
    (task : TimerTask) : (h.perform (.push deadline task)).Accounted := by
  obtain ⟨nextSeq, perm⟩ := accounted
  have registered : (h.perform (.push deadline task)).registered =
      h.registered ++ [⟨deadline, h.pushed.length, task⟩] := by
    show (List.map _ (h.pushed ++ [(deadline, task)]).zipIdx) = _
    rw [List.zipIdx_append, List.map_append, Nat.zero_add]
    rfl
  refine ⟨?_, ?_⟩
  · show h.queue.nextSeq + 1 = (h.pushed ++ [(deadline, task)]).length
    rw [nextSeq, List.length_append, List.length_singleton]
  · have added := h.queue.toList_push deadline task
    rw [nextSeq] at added
    rw [registered]
    calc h.popped ++ (h.queue.push deadline task).toList
      _ |>.Perm (h.popped ++ ⟨deadline, h.pushed.length, task⟩ :: h.queue.toList) :=
        added.append_left _
      _ |>.Perm (⟨deadline, h.pushed.length, task⟩ :: (h.popped ++ h.queue.toList)) :=
        List.perm_middle
      _ |>.Perm (⟨deadline, h.pushed.length, task⟩ :: h.registered) := perm.cons _
      _ |>.Perm (h.registered ++ [⟨deadline, h.pushed.length, task⟩]) :=
        (List.perm_append_singleton _ _).symm

theorem Accounted.pop {h : History} (accounted : h.Accounted) :
    (h.perform .pop).Accounted := by
  obtain ⟨nextSeq, perm⟩ := accounted
  unfold perform
  cases pop : h.queue.pop? with
  | none => exact ⟨nextSeq, perm⟩
  | some found =>
    obtain ⟨timer, rest⟩ := found
    obtain ⟨taken, -, seq⟩ := pop?_eq_some pop
    refine ⟨seq.trans nextSeq, ?_⟩
    show (h.popped ++ [timer] ++ rest.toList).Perm h.registered
    rw [List.append_assoc, List.singleton_append]
    exact (taken.symm.append_left _).trans perm

/-- **Nothing that is pushed gets lost, and nothing is given out twice.** -/
theorem accounted_of (operations : List Operation) : (of operations).Accounted := by
  induction operations using List.reverseRecOn with
  | nil => exact ⟨rfl, .refl _⟩
  | append_singleton operations operation ih =>
    rw [of_concat]
    cases operation with
    | push deadline task => exact ih.push deadline task
    | pop => exact ih.pop

namespace Accounted

variable {h : History}

/-- The timers in the queue are the waiting ones. -/
theorem waiting_perm (accounted : h.Accounted) : h.waiting.Perm h.queue.toList := by
  have nodup : (h.popped ++ h.queue.toList).Nodup := accounted.perm.nodup_iff.2 h.nodup_registered
  have apart := (List.nodup_append.1 nodup).2.2
  have kept := accounted.perm.symm.filter (· ∉ h.popped)
  have gone : h.popped.filter (· ∉ h.popped) = [] :=
    List.filter_eq_nil_iff.2 fun t mem => by simpa using mem
  have left : h.queue.toList.filter (· ∉ h.popped) = h.queue.toList :=
    List.filter_eq_self.2 fun t mem => decide_eq_true fun out => apart t out t mem rfl
  rwa [List.filter_append, gone, left, List.nil_append] at kept

theorem length_add_size (accounted : h.Accounted) :
    h.popped.length + h.queue.size = h.pushed.length := by
  rw [size_eq_length, ← List.length_append, accounted.perm.length_eq, length_registered]

theorem nodup_map_seq (accounted : h.Accounted) : (h.popped.map (·.seq)).Nodup := by
  have all := accounted.perm.map (·.seq)
  rw [map_seq_registered, List.map_append] at all
  exact (List.nodup_append.1 (all.nodup_iff.2 List.nodup_range)).1

theorem getElem?_pushed (accounted : h.Accounted) {t : Timer} (mem : t ∈ h.popped) :
    h.pushed[t.seq]? = some (t.deadline, t.task) :=
  mem_registered.1 (accounted.perm.mem_iff.1 (List.mem_append_left _ mem))

end Accounted

/-! ## What comes next -/

/-- Waiting timers stand in the order of their pushes. -/
theorem pairwise_waiting (h : History) : h.waiting.Pairwise (·.seq < ·.seq) := by
  have seqs : (h.registered.map (·.seq)).Pairwise (· < ·) := by
    rw [map_seq_registered]
    exact List.pairwise_lt_range
  exact (List.pairwise_map.1 seqs).sublist List.filter_sublist

/-- A timer that goes before all others is the first of the earliest, if timers stand in the
order of their pushes. -/
theorem earliest?_of_le {l : List Timer} (sorted : l.Pairwise (·.seq < ·.seq)) {t : Timer}
    (mem : t ∈ l) (least : ∀ u ∈ l, t ≤ u) : earliest? l = some t := by
  obtain ⟨before, behind, rfl⟩ := List.append_of_mem mem
  refine List.find?_eq_some_iff_append.2 ⟨?_, before, behind, rfl, ?_⟩
  · refine List.all_eq_true.2 fun u there => decide_eq_true ?_
    have le := Timer.le_def.1 (least u there)
    omega
  · intro u ahead
    -- it was pushed earlier and still does not go first, so it is due later
    have earlier : u.seq < t.seq := (List.pairwise_append.1 sorted).2.2 u ahead t List.mem_cons_self
    have le := Timer.le_def.1 (least u (List.mem_append_left _ ahead))
    have late : ¬ u.deadline ≤ t.deadline := by omega
    rw [Bool.not_eq_true', List.all_eq_false]
    exact ⟨t, List.mem_append_right _ List.mem_cons_self, by simpa using late⟩

theorem Accounted.pop?_eq {h : History} (accounted : h.Accounted) :
    h.queue.pop?.map (·.1) = earliest? h.waiting := by
  have same := accounted.waiting_perm
  cases pop : h.queue.pop? with
  | none =>
    rw [pop?_eq_none_iff.1 pop] at same
    rw [same.eq_nil]
    rfl
  | some found =>
    obtain ⟨timer, rest⟩ := found
    obtain ⟨taken, least, -⟩ := pop?_eq_some pop
    have mem : timer ∈ h.waiting := same.mem_iff.2 (taken.mem_iff.2 List.mem_cons_self)
    exact (earliest?_of_le h.pairwise_waiting mem fun u there =>
      least u (same.mem_iff.1 there)).symm

theorem Accounted.next_of_pop? {h : History} (accounted : h.Accounted) {t : Timer}
    {rest : TimerQueue} (pop : h.queue.pop? = some (t, rest)) :
    t ∈ h.waiting ∧ ∀ u ∈ h.waiting, u ≠ t →
      t.deadline < u.deadline ∨ t.deadline = u.deadline ∧ t.seq < u.seq := by
  obtain ⟨taken, least, -⟩ := pop?_eq_some pop
  have same := accounted.waiting_perm
  have mem : t ∈ h.waiting := same.mem_iff.2 (taken.mem_iff.2 List.mem_cons_self)
  refine ⟨mem, fun u there other => ?_⟩
  have apart : u.seq ≠ t.seq := fun eq =>
    other (List.inj_on_of_nodup_map h.queue.distinct (same.mem_iff.1 there) (same.mem_iff.1 mem) eq)
  have le := Timer.le_def.1 (least u (same.mem_iff.1 there))
  omega

/-- **Timers leave in the order of their deadlines, those of one deadline in the order of their
pushes**, however pushes and pops alternate. A pop finds none exactly if all that were pushed have
left; each leaves once and as it was pushed, and the size counts those that have not. -/
theorem pops_in_order (operations : List Operation) :
    let h := of operations
    h.queue.pop?.map (·.1) = earliest? h.waiting ∧
      (∀ t rest, h.queue.pop? = some (t, rest) → t ∈ h.waiting ∧ ∀ u ∈ h.waiting, u ≠ t →
        t.deadline < u.deadline ∨ t.deadline = u.deadline ∧ t.seq < u.seq) ∧
      (h.queue.pop? = none ↔ h.popped.length = h.pushed.length) ∧
      (h.popped.map (·.seq)).Nodup ∧
      (∀ t ∈ h.popped, h.pushed[t.seq]? = some (t.deadline, t.task)) ∧
      h.popped.length + h.queue.size = h.pushed.length := by
  intro h
  have accounted : h.Accounted := accounted_of operations
  have count := accounted.length_add_size
  refine ⟨accounted.pop?_eq, fun t rest => accounted.next_of_pop?, ?_, accounted.nodup_map_seq,
    fun t => accounted.getElem?_pushed, count⟩
  rw [pop?_eq_none_iff, ← List.length_eq_zero_iff, ← size_eq_length]
  omega

/-- Timers of one deadline, one of them pushed after the first had left. -/
example : (of [.push 3 (.advance 0), .push 1 (.advance 1), .push 1 (.advance 2), .pop,
    .push 1 (.advance 3), .pop, .pop, .pop, .pop]).popped.map (·.task) =
    [.advance 1, .advance 2, .advance 3, .advance 0] := by
  decide

end History

end TermScene.TimerQueue
