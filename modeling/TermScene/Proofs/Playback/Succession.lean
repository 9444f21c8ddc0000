import TermScene.Proofs.Playback.Pacing

/-!
# Things one after another

The parts of an action, the items of a printed block and the keystrokes of a typed text each
have their time and begin when those before them have lasted theirs. `inTurn` says so in closed
form, by what stands before each; a plan that walks through parts with a cursor comes to the
same (`emitted_walk`).
-/

namespace TermScene

open Agenda

section InTurn

variable {α β : Type}

/-- How long things last together. -/
def lasting (cost : α → Nat) (l : List α) : Nat := l.foldr (fun a n => cost a + n) 0

/-- What things do one after another, each once those before it have lasted. -/
def inTurn (cost : α → Nat) (own : α → List (Nat × β)) (start : Nat) (l : List α) :
    List (Nat × β) :=
  l.zipIdx.flatMap fun (a, i) => later (start + lasting cost (l.take i)) (own a)

variable (cost : α → Nat) (own : α → List (Nat × β))

theorem lasting_append (l m : List α) :
    lasting cost (l ++ m) = lasting cost l + lasting cost m := by
  induction l with
  | nil => exact (Nat.zero_add _).symm
  | cons a l ih => exact (congrArg (cost a + ·) ih).trans (Nat.add_assoc ..).symm

theorem lasting_cons (a : α) (l : List α) : lasting cost (a :: l) = cost a + lasting cost l := rfl

theorem lasting_map {γ : Type} (f : γ → α) (l : List γ) :
    lasting cost (l.map f) = lasting (fun c => cost (f c)) l :=
  List.foldr_map

theorem lasting_congr {cost cost' : α → Nat} {l : List α} (h : ∀ a ∈ l, cost a = cost' a) :
    lasting cost l = lasting cost' l := by
  induction l with
  | nil => rfl
  | cons a l ih =>
    obtain ⟨here, others⟩ := List.forall_mem_cons.1 h
    rw [lasting_cons, lasting_cons, here, ih others]

/-- What lasts no time may be left out. -/
theorem lasting_filterMap {f : α → Option β} {cost : α → Nat} {cost' : β → Nat} {l : List α}
    (h : ∀ a ∈ l, cost a = ((f a).map cost').getD 0) :
    lasting cost l = lasting cost' (l.filterMap f) := by
  induction l with
  | nil => rfl
  | cons a l ih =>
    obtain ⟨here, others⟩ := List.forall_mem_cons.1 h
    rw [lasting_cons, here, ih others]
    cases kept : f a with
    | none => rw [List.filterMap_cons_none kept]; exact Nat.zero_add _
    | some b => rw [List.filterMap_cons_some kept]; rfl

theorem inTurn_nil (start : Nat) : inTurn cost own start [] = [] := rfl

theorem inTurn_cons (start : Nat) (a : α) (l : List α) : inTurn cost own start (a :: l) =
    later start (own a) ++ inTurn cost own (start + cost a) l := by
  have behind (i : Nat) :
      start + lasting cost ((a :: l).take (i + 1)) = start + cost a + lasting cost (l.take i) :=
    (Nat.add_assoc ..).symm
  rw [inTurn, List.zipIdx_cons, List.zipIdx_succ, List.flatMap_cons, List.flatMap_map]
  simp only [behind]
  rfl

theorem inTurn_append (start : Nat) (l m : List α) : inTurn cost own start (l ++ m) =
    inTurn cost own start l ++ inTurn cost own (start + lasting cost l) m := by
  induction l generalizing start with
  | nil => rfl
  | cons a l ih =>
    rw [List.cons_append, inTurn_cons, inTurn_cons, ih, List.append_assoc, Nat.add_assoc]
    rfl

/-- Without the times, things do what each of them does. -/
theorem map_snd_inTurn (start : Nat) (l : List α) :
    (inTurn cost own start l).map (·.2) = l.flatMap fun a => (own a).map (·.2) := by
  induction l generalizing start with
  | nil => rfl
  | cons a l ih =>
    rw [inTurn_cons, List.map_append, ih, List.flatMap_cons, later, List.map_map]
    rfl

end InTurn

/-! ## Plans -/

namespace Plan

/-- A walk whose parts do the same wherever the cursor is does it part after part. -/
theorem emitted_walk {walked : Nat → Part → List Part → List Step} {cost cost' : Part → Nat}
    {own : Part → List (Nat × TerminalOp)} {parts : List Part}
    (costs : ∀ part ∈ parts, cost part = cost' part)
    (steps : ∀ part ∈ parts, ∀ cursor rest,
      emitted (walked cursor part rest) = later cursor (own part)) (cursor : Nat) :
    emitted (walk walked cost cursor parts) = inTurn cost' own cursor parts := by
  induction parts generalizing cursor with
  | nil => rfl
  | cons part rest ih =>
    obtain ⟨here, costs⟩ := List.forall_mem_cons.1 costs
    obtain ⟨first, steps⟩ := List.forall_mem_cons.1 steps
    rw [walk, emitted_append, emitted_hold, first, ih costs steps, inTurn_cons, here]

theorem total_eq_lasting {cost cost' : Part → Nat} {parts : List Part}
    (costs : ∀ part ∈ parts, cost part = cost' part) : total cost parts = lasting cost' parts := by
  induction parts with
  | nil => rfl
  | cons part rest ih =>
    obtain ⟨here, costs⟩ := List.forall_mem_cons.1 costs
    rw [total_cons, here, ih costs]
    rfl

end Plan

end TermScene
