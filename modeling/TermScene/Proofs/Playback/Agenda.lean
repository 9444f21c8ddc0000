/-!
# Entries arranged by their deadlines

An entry is a value with the deadline at which it is due. `arrange` sorts entries by
deadline and keeps entries of one deadline in their order; `place` puts one entry
behind all that are due no later. A list in order is determined by what it holds at
each deadline (`InOrder.eq_of_filter_eq`), so sorting is placing entry by entry
(`arrange_eq_foldl`), and leaving entries out commutes with sorting (`keep_arrange`).
-/

namespace TermScene.Agenda

variable {α β : Type}

/-- Sorts entries by deadline; entries of one deadline keep their order. -/
def arrange (l : List (Nat × α)) : List (Nat × α) := l.mergeSort fun x y => x.1 ≤ y.1

/-- Puts an entry behind all that are due no later. -/
def place (x : Nat × α) : List (Nat × α) → List (Nat × α)
  | [] => [x]
  | y :: l => if y.1 ≤ x.1 then y :: place x l else x :: y :: l

/-- Deadlines never go down from one entry to a later one. -/
def InOrder (l : List (Nat × α)) : Prop := l.Pairwise fun x y => x.1 ≤ y.1

/-! ## Lists in order -/

theorem InOrder.append {l m : List (Nat × α)} (hl : InOrder l) (hm : InOrder m)
    (h : ∀ x ∈ l, ∀ y ∈ m, x.1 ≤ y.1) : InOrder (l ++ m) :=
  List.pairwise_append.2 ⟨hl, hm, h⟩

theorem due_trans (x y z : Nat × α) (hxy : decide (x.1 ≤ y.1) = true)
    (hyz : decide (y.1 ≤ z.1) = true) : decide (x.1 ≤ z.1) = true := by
  rw [decide_eq_true_eq] at hxy hyz ⊢
  exact Nat.le_trans hxy hyz

theorem due_total (x y : Nat × α) : (decide (x.1 ≤ y.1) || decide (y.1 ≤ x.1)) = true := by
  rw [Bool.or_eq_true, decide_eq_true_eq, decide_eq_true_eq]
  exact Nat.le_total _ _

theorem inOrder_arrange (l : List (Nat × α)) : InOrder (arrange l) :=
  (List.pairwise_mergeSort due_trans due_total l).imp of_decide_eq_true

theorem arrange_perm (l : List (Nat × α)) : (arrange l).Perm l := List.mergeSort_perm l _

theorem mem_arrange {x : Nat × α} {l : List (Nat × α)} : x ∈ arrange l ↔ x ∈ l :=
  (arrange_perm l).mem_iff

/-- Entries of one deadline are arranged in the order in which they stand. -/
theorem filter_deadline_arrange (l : List (Nat × α)) (d : Nat) :
    (arrange l).filter (·.1 = d) = l.filter (·.1 = d) := by
  have sorted : (l.filter (·.1 = d)).Pairwise fun x y => decide (x.1 ≤ y.1) = true := by
    apply List.pairwise_of_forall_mem_list
    intro x hx y hy
    have hx := of_decide_eq_true (List.mem_filter.1 hx).2
    have hy := of_decide_eq_true (List.mem_filter.1 hy).2
    exact decide_eq_true (by omega)
  have sub : (l.filter (·.1 = d)).Sublist (arrange l) :=
    List.sublist_mergeSort due_trans due_total sorted List.filter_sublist
  have sub := sub.filter (fun x : Nat × α => decide (x.1 = d))
  rw [List.filter_filter] at sub
  simp only [Bool.and_self] at sub
  exact (sub.eq_of_length ((arrange_perm l).filter _).length_eq.symm).symm

/-- A list is another one sorted by deadline, entries of one deadline in the same order. -/
structure StableSort (l sorted : List (Nat × α)) : Prop where
  perm : sorted.Perm l
  inOrder : InOrder sorted
  stable : ∀ d, sorted.filter (·.1 = d) = l.filter (·.1 = d)

theorem stableSort_arrange (l : List (Nat × α)) : StableSort l (arrange l) :=
  ⟨arrange_perm l, inOrder_arrange l, filter_deadline_arrange l⟩

/-! ## What determines a list in order -/

theorem InOrder.eq_of_filter_eq {l m : List (Nat × α)} (hl : InOrder l) (hm : InOrder m)
    (h : ∀ d, l.filter (·.1 = d) = m.filter (·.1 = d)) : l = m := by
  induction l generalizing m with
  | nil =>
    cases m with
    | nil => rfl
    | cons y m => simpa using h y.1
  | cons x l ih =>
    have le_head {x : Nat × α} {l m : List (Nat × α)} (hm : InOrder m)
        (h : (x :: l).filter (·.1 = x.1) = m.filter (·.1 = x.1)) : ∀ y ∈ m.head?, y.1 ≤ x.1 := by
      have hx : x ∈ m.filter (·.1 = x.1) := h ▸ List.mem_filter.2 ⟨by simp, by simp⟩
      have hx := (List.mem_filter.1 hx).1
      cases m with
      | nil => cases hx
      | cons z m =>
        intro y hy
        obtain rfl : z = y := by simpa using hy
        rcases List.mem_cons.1 hx with rfl | hx
        · exact Nat.le_refl _
        · exact (List.pairwise_cons.1 hm).1 x hx
    cases m with
    | nil => simpa using h x.1
    | cons y m =>
      have hyx : y.1 ≤ x.1 := le_head hm (h x.1) y (by simp)
      have hxy : x.1 ≤ y.1 := le_head hl (h y.1).symm x (by simp)
      have e : x.1 = y.1 := Nat.le_antisymm hxy hyx
      have heads := h x.1
      simp only [List.filter_cons, e, decide_true, if_true, List.cons.injEq] at heads
      obtain ⟨rfl, -⟩ := heads
      rw [ih (List.pairwise_cons.1 hl).2 (List.pairwise_cons.1 hm).2 fun d => ?_]
      have hd := h d
      by_cases hx : x.1 = d
      · simpa [List.filter_cons, hx] using hd
      · simpa [List.filter_cons, hx] using hd

theorem arrange_eq_self {l : List (Nat × α)} (h : InOrder l) : arrange l = l :=
  List.mergeSort_of_pairwise (h.imp fun h => decide_eq_true h)

/-- Arranging a part beforehand changes nothing. -/
theorem arrange_arrange_append (l m : List (Nat × α)) :
    arrange (arrange l ++ m) = arrange (l ++ m) := by
  apply (inOrder_arrange _).eq_of_filter_eq (inOrder_arrange _)
  intro d
  rw [filter_deadline_arrange, filter_deadline_arrange, List.filter_append,
    filter_deadline_arrange, List.filter_append]

/-- An entry that nothing is due before comes first. -/
theorem arrange_cons {x : Nat × α} {l : List (Nat × α)} (h : ∀ y ∈ l, x.1 ≤ y.1) :
    arrange (x :: l) = x :: arrange l := by
  have sorted : InOrder (x :: arrange l) :=
    List.pairwise_cons.2 ⟨fun y hy => h y (mem_arrange.1 hy), inOrder_arrange l⟩
  apply (inOrder_arrange _).eq_of_filter_eq sorted
  intro d
  rw [filter_deadline_arrange, List.filter_cons, List.filter_cons, filter_deadline_arrange]

/-- Entries in order that are due no later than all others come first. -/
theorem arrange_append {l m : List (Nat × α)} (h : InOrder l)
    (before : ∀ x ∈ l, ∀ y ∈ m, x.1 ≤ y.1) : arrange (l ++ m) = l ++ arrange m := by
  induction l with
  | nil => rfl
  | cons x l ih =>
    obtain ⟨first, sorted⟩ := List.pairwise_cons.1 h
    have behind := ih sorted fun x hx => before x (List.mem_cons_of_mem _ hx)
    rw [List.cons_append, arrange_cons, behind, List.cons_append]
    exact List.forall_mem_append.2 ⟨first, before x List.mem_cons_self⟩

/-- Entries of the values that a function keeps, at their deadlines. -/
def keep (f : α → Option β) (l : List (Nat × α)) : List (Nat × β) :=
  l.filterMap fun x => (f x.2).map fun b => (x.1, b)

theorem keep_append (f : α → Option β) (l m : List (Nat × α)) :
    keep f (l ++ m) = keep f l ++ keep f m :=
  List.filterMap_append

theorem keep_cons_some {f : α → Option β} {x : Nat × α} {b : β} (h : f x.2 = some b)
    (l : List (Nat × α)) : keep f (x :: l) = (x.1, b) :: keep f l :=
  List.filterMap_cons_some (by rw [h]; rfl)

theorem keep_cons_none {f : α → Option β} {x : Nat × α} (h : f x.2 = none)
    (l : List (Nat × α)) : keep f (x :: l) = keep f l :=
  List.filterMap_cons_none (by rw [h]; rfl)

theorem keep_flatMap {γ : Type} (f : α → Option β) (l : List γ) (g : γ → List (Nat × α)) :
    keep f (l.flatMap g) = l.flatMap fun x => keep f (g x) := by
  induction l with
  | nil => rfl
  | cons x l ih => rw [List.flatMap_cons, keep_append, ih, List.flatMap_cons]

theorem keep_map (f : α → Option β) (g : Nat → Nat) (l : List (Nat × α)) :
    keep f (l.map fun x => (g x.1, x.2)) = (keep f l).map fun x => (g x.1, x.2) := by
  induction l with
  | nil => rfl
  | cons x l ih =>
    rw [List.map_cons]
    cases hf : f x.2 with
    | none => rw [keep_cons_none (x := (g x.1, x.2)) hf, keep_cons_none hf, ih]
    | some b =>
      rw [keep_cons_some (x := (g x.1, x.2)) hf, keep_cons_some hf, ih, List.map_cons]

theorem map_snd_keep (f : α → Option β) (l : List (Nat × α)) :
    (keep f l).map (·.2) = (l.map (·.2)).filterMap f := by
  induction l with
  | nil => rfl
  | cons x l ih =>
    rw [List.map_cons]
    cases hf : f x.2 with
    | none => rw [keep_cons_none hf, ih, List.filterMap_cons_none hf]
    | some b => rw [keep_cons_some hf, List.map_cons, ih, List.filterMap_cons_some hf]

/-- Which entries are kept by their deadlines does not matter to the values. -/
theorem filter_keep (f : α → Option β) (p : Nat → Bool) (l : List (Nat × α)) :
    (keep f l).filter (fun x => p x.1) = keep f (l.filter fun x => p x.1) := by
  induction l with
  | nil => rfl
  | cons x l ih =>
    rw [List.filter_cons]
    cases hf : f x.2 with
    | none =>
      rw [keep_cons_none hf, ih]
      split
      · rw [keep_cons_none hf]
      · rfl
    | some b =>
      rw [keep_cons_some hf, List.filter_cons, ih]
      split
      · rw [keep_cons_some hf]
      · rfl

theorem InOrder.keep {l : List (Nat × α)} (h : InOrder l) (f : α → Option β) :
    InOrder (keep f l) := by
  unfold Agenda.keep InOrder
  rw [List.pairwise_filterMap]
  apply h.imp
  intro x y le b hb c hc
  obtain ⟨b, -, rfl⟩ := Option.map_eq_some_iff.1 hb
  obtain ⟨c, -, rfl⟩ := Option.map_eq_some_iff.1 hc
  exact le

/-- Keeping some of the values before or after arranging comes to the same. -/
theorem keep_arrange (f : α → Option β) (l : List (Nat × α)) :
    keep f (arrange l) = arrange (keep f l) := by
  apply ((inOrder_arrange l).keep f).eq_of_filter_eq (inOrder_arrange _)
  intro d
  rw [filter_deadline_arrange, filter_keep f (· = d), filter_deadline_arrange,
    filter_keep f (· = d)]

/-! ## Placing entries -/

theorem mem_place {x y : Nat × α} {l : List (Nat × α)} : y ∈ place x l ↔ y = x ∨ y ∈ l := by
  induction l with
  | nil => simp [place]
  | cons z l ih =>
    unfold place
    split
    · rw [List.mem_cons, ih, List.mem_cons]
      exact or_left_comm
    · exact List.mem_cons

theorem InOrder.place {l : List (Nat × α)} (h : InOrder l) (x : Nat × α) :
    InOrder (place x l) := by
  induction l with
  | nil => exact List.pairwise_singleton _ _
  | cons y l ih =>
    obtain ⟨hy, hl⟩ := List.pairwise_cons.1 h
    unfold Agenda.place
    split
    · next le =>
      refine List.pairwise_cons.2 ⟨?_, ih hl⟩
      intro z hz
      rcases mem_place.1 hz with rfl | hz
      · exact le
      · exact hy z hz
    · next lt =>
      refine List.pairwise_cons.2 ⟨?_, h⟩
      intro z hz
      rcases List.mem_cons.1 hz with rfl | hz
      · omega
      · have := hy z hz
        omega

theorem filter_deadline_place {l : List (Nat × α)} (h : InOrder l) (x : Nat × α) (d : Nat) :
    (place x l).filter (·.1 = d) = (l ++ [x]).filter (·.1 = d) := by
  induction l with
  | nil => rfl
  | cons y l ih =>
    obtain ⟨hy, hl⟩ := List.pairwise_cons.1 h
    unfold place
    split
    · rw [List.cons_append, List.filter_cons, List.filter_cons, ih hl]
    · next lt =>
      rw [List.filter_append]
      by_cases hx : x.1 = d
      · -- everything in the list is due later
        have none : (y :: l).filter (·.1 = d) = [] := by
          apply List.filter_eq_nil_iff.2
          intro z hz
          rw [decide_eq_true_eq]
          rcases List.mem_cons.1 hz with rfl | hz
          · omega
          · have := hy z hz
            omega
        rw [List.filter_cons, none]
        simp [hx]
      · simp [List.filter_cons, hx]

theorem arrange_append_singleton (l : List (Nat × α)) (x : Nat × α) :
    arrange (l ++ [x]) = place x (arrange l) := by
  apply (inOrder_arrange _).eq_of_filter_eq ((inOrder_arrange l).place x)
  intro d
  rw [filter_deadline_arrange, filter_deadline_place (inOrder_arrange l), List.filter_append,
    List.filter_append, filter_deadline_arrange]

/-- Entries placed one after another into an arranged list are arranged with it. -/
theorem foldl_place_arrange (l m : List (Nat × α)) :
    m.foldl (fun l x => place x l) (arrange l) = arrange (l ++ m) := by
  induction m generalizing l with
  | nil => rw [List.append_nil, List.foldl_nil]
  | cons x m ih =>
    rw [List.foldl_cons, ← arrange_append_singleton, ih, List.append_assoc, List.singleton_append]

theorem arrange_eq_foldl (l : List (Nat × α)) :
    arrange l = l.foldl (fun l x => place x l) [] := by
  have nil : arrange ([] : List (Nat × α)) = [] := arrange_eq_self List.Pairwise.nil
  have all := foldl_place_arrange [] l
  rw [nil] at all
  exact all.symm

/-! ## Later entries -/

/-- Entries that are due later by a time. -/
def later (ns : Nat) (l : List (Nat × α)) : List (Nat × α) := l.map fun x => (ns + x.1, x.2)

theorem arrange_later (ns : Nat) (l : List (Nat × α)) :
    arrange (later ns l) = later ns (arrange l) := by
  refine (List.map_mergeSort ?_).symm
  intro x _ y _
  exact decide_eq_decide.2 (Nat.add_le_add_iff_left).symm

theorem later_append (ns : Nat) (l m : List (Nat × α)) :
    later ns (l ++ m) = later ns l ++ later ns m :=
  List.map_append

end TermScene.Agenda
