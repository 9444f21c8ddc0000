import TermScene.Terminal.Op

/-!
# The timer queue

Timers wait in a queue and leave it in the order of their deadlines; timers of one
deadline leave it in the order in which they were registered. The queue is a heap
whose halves change sides whenever they are merged, which keeps it balanced in
the long run. Main statements: a push adds one timer (`toList_push`), and a pop
takes out one that no other goes before (`pop?_eq_some`), failing on the empty
queue only (`pop?_eq_none_iff`).
-/

namespace TermScene

/-- What happens when a timer fires. -/
inductive TimerTask where
  | emit (op : TerminalOp)
  | advance (index : Nat)
  deriving Repr, DecidableEq

/-- A task with its deadline and its registration number. -/
structure Timer where
  deadline : Nat
  seq : Nat
  task : TimerTask
  deriving Repr, DecidableEq

namespace Timer

/-- Timers are ordered by deadline, those of one deadline by registration. -/
instance : LE Timer where
  le a b := a.deadline < b.deadline ∨ a.deadline = b.deadline ∧ a.seq ≤ b.seq

theorem le_def {a b : Timer} :
    a ≤ b ↔ a.deadline < b.deadline ∨ a.deadline = b.deadline ∧ a.seq ≤ b.seq := Iff.rfl

instance (a b : Timer) : Decidable (a ≤ b) :=
  inferInstanceAs (Decidable (a.deadline < b.deadline ∨ a.deadline = b.deadline ∧ a.seq ≤ b.seq))

theorem le_refl (a : Timer) : a ≤ a := .inr ⟨rfl, Nat.le_refl _⟩

theorem le_trans {a b c : Timer} (h : a ≤ b) (k : b ≤ c) : a ≤ c := by
  rw [le_def] at *
  omega

theorem le_of_not_le {a b : Timer} (h : ¬ a ≤ b) : b ≤ a := by
  rw [le_def] at *
  omega

end Timer

inductive TimerHeap where
  | empty
  | node (top : Timer) (left right : TimerHeap)

namespace TimerHeap

def toList : TimerHeap → List Timer
  | empty => []
  | node top left right => top :: (left.toList ++ right.toList)

/-- Whether no timer goes before the ones above it. -/
def Ordered : TimerHeap → Prop
  | empty => True
  | node top left right =>
    (∀ t ∈ left.toList ++ right.toList, top ≤ t) ∧ left.Ordered ∧ right.Ordered

/-- The sum of a weight over the timers. -/
def weigh (weight : Timer → Nat) : TimerHeap → Nat
  | empty => 0
  | node top left right => weight top + left.weigh weight + right.weigh weight

/-- Merges a heap into one with the given top and halves; `below` merges a heap
into the right half. -/
def mergeInto (top : Timer) (left right : TimerHeap) (below : TimerHeap → TimerHeap) :
    TimerHeap → TimerHeap
  | empty => node top left right
  | node top' left' right' =>
    if top ≤ top' then node top (below (node top' left' right')) left
    else node top' (mergeInto top left right below right') left'

def merge : TimerHeap → TimerHeap → TimerHeap
  | empty => id
  | node top left right => mergeInto top left right (merge right)

@[simp] theorem weigh_merge (weight : Timer → Nat) (a b : TimerHeap) :
    (a.merge b).weigh weight = a.weigh weight + b.weigh weight := by
  induction a generalizing b with
  | empty => simp [merge, weigh]
  | node top left right _ ih =>
    induction b with
    | empty => simp [merge, mergeInto, weigh]
    | node top' left' right' _ ih' =>
      simp only [merge, mergeInto] at ih' ⊢
      split
      · simp only [weigh, ih]; omega
      · simp only [weigh, ih']; omega

theorem count_toList (t : Timer) (h : TimerHeap) :
    h.toList.count t = h.weigh fun u => if u == t then 1 else 0 := by
  induction h with
  | empty => rfl
  | node top left right ihl ihr =>
    simp only [toList, weigh, List.count_cons, List.count_append, ihl, ihr]
    omega

/-- Merging loses and adds nothing. -/
theorem toList_merge (a b : TimerHeap) : (a.merge b).toList.Perm (a.toList ++ b.toList) := by
  refine List.perm_iff_count.2 ?_
  intro t
  rw [List.count_append, count_toList, count_toList, count_toList, weigh_merge]

/-- In an ordered heap, no timer goes before the top. -/
theorem Ordered.top_le {top : Timer} {left right : TimerHeap}
    (h : (node top left right).Ordered) : ∀ t ∈ (node top left right).toList, top ≤ t := by
  intro t ht
  rcases List.mem_cons.1 ht with rfl | ht
  · exact t.le_refl
  · exact h.1 t ht

theorem Ordered.merge {a b : TimerHeap} (ha : a.Ordered) (hb : b.Ordered) :
    (a.merge b).Ordered := by
  induction a generalizing b with
  | empty => exact hb
  | node top left right _ ih =>
    induction b with
    | empty => exact ha
    | node top' left' right' _ ih' =>
      have whole := toList_merge (node top left right) right'
      simp only [TimerHeap.merge, mergeInto] at ih' whole ⊢
      split
      · next le =>
        refine ⟨?_, ih ha.2.2 hb, ha.2.1⟩
        intro t ht
        rcases List.mem_append.1 ht with ht | ht
        · rcases List.mem_append.1 ((toList_merge right _).mem_iff.1 ht) with ht | ht
          · exact ha.1 t (List.mem_append_right _ ht)
          · exact Timer.le_trans le (hb.top_le t ht)
        · exact ha.1 t (List.mem_append_left _ ht)
      · next le =>
        refine ⟨?_, ih' hb.2.2, hb.2.1⟩
        intro t ht
        rcases List.mem_append.1 ht with ht | ht
        · rcases List.mem_append.1 (whole.mem_iff.1 ht) with ht | ht
          · exact Timer.le_trans (Timer.le_of_not_le le) (ha.top_le t ht)
          · exact hb.1 t (List.mem_append_right _ ht)
        · exact hb.1 t (List.mem_append_left _ ht)

end TimerHeap

/-- The timers that wait, each with a registration number of its own, and the number
of the next one. -/
structure TimerQueue where
  heap : TimerHeap
  nextSeq : Nat
  ordered : heap.Ordered
  fresh : ∀ t ∈ heap.toList, t.seq < nextSeq
  distinct : (heap.toList.map (·.seq)).Nodup

namespace TimerQueue

/-- The timers that wait, in no particular order. -/
def toList (q : TimerQueue) : List Timer := q.heap.toList

/-- The sum of a weight over the timers that wait. -/
def weigh (weight : Timer → Nat) (q : TimerQueue) : Nat := q.heap.weigh weight

def size (q : TimerQueue) : Nat := q.weigh fun _ => 1

def empty : TimerQueue := ⟨.empty, 0, trivial, by simp [TimerHeap.toList], .nil⟩

instance : Inhabited TimerQueue := ⟨empty⟩

/-- Registers a task at a deadline. -/
def push (q : TimerQueue) (deadline : Nat) (task : TimerTask) : TimerQueue where
  heap := (TimerHeap.node ⟨deadline, q.nextSeq, task⟩ .empty .empty).merge q.heap
  nextSeq := q.nextSeq + 1
  ordered := .merge ⟨by simp [TimerHeap.toList], trivial, trivial⟩ q.ordered
  fresh t ht := by
    rcases List.mem_append.1 ((TimerHeap.toList_merge _ _).mem_iff.1 ht) with ht | ht
    · simp [TimerHeap.toList] at ht
      simp [ht]
    · exact Nat.lt_succ_of_lt (q.fresh t ht)
  distinct := by
    refine ((TimerHeap.toList_merge _ _).map _).nodup_iff.2
      (List.nodup_cons.2 ⟨?_, q.distinct⟩)
    intro hs
    obtain ⟨t, ht, e⟩ := List.mem_map.1 hs
    exact absurd (q.fresh t ht) (Nat.not_lt.2 (Nat.le_of_eq e.symm))

/-- Takes out the timer that goes first. -/
def pop? (q : TimerQueue) : Option (Timer × TimerQueue) :=
  match q with
  | ⟨.empty, _, _, _, _⟩ => none
  | ⟨.node top left right, nextSeq, ordered, fresh, distinct⟩ =>
    some (top, {
      heap := left.merge right
      nextSeq := nextSeq
      ordered := .merge ordered.2.1 ordered.2.2
      fresh := fun t ht =>
        fresh t (List.mem_cons_of_mem _ ((TimerHeap.toList_merge _ _).mem_iff.1 ht))
      distinct :=
        ((TimerHeap.toList_merge _ _).map _).nodup_iff.2 (List.nodup_cons.1 distinct).2 })

@[simp] theorem toList_empty : empty.toList = [] := rfl

/-- A push adds one timer, numbered after all that were registered before. -/
theorem toList_push (q : TimerQueue) (deadline : Nat) (task : TimerTask) :
    (q.push deadline task).toList.Perm (⟨deadline, q.nextSeq, task⟩ :: q.toList) :=
  TimerHeap.toList_merge _ _

@[simp] theorem nextSeq_push (q : TimerQueue) (deadline : Nat) (task : TimerTask) :
    (q.push deadline task).nextSeq = q.nextSeq + 1 := rfl

theorem weigh_push (weight : Timer → Nat) (q : TimerQueue) (deadline : Nat) (task : TimerTask) :
    (q.push deadline task).weigh weight = weight ⟨deadline, q.nextSeq, task⟩ + q.weigh weight := by
  simp [weigh, push, TimerHeap.weigh]

/-- A pop takes out one timer, and no other goes before it. -/
theorem pop?_eq_some {q rest : TimerQueue} {t : Timer} (h : q.pop? = some (t, rest)) :
    q.toList.Perm (t :: rest.toList) ∧ (∀ u ∈ q.toList, t ≤ u) ∧ rest.nextSeq = q.nextSeq := by
  obtain ⟨heap, nextSeq, ordered, fresh, distinct⟩ := q
  cases heap with
  | empty => simp [pop?] at h
  | node top left right =>
    simp only [pop?, Option.some.injEq, Prod.mk.injEq] at h
    obtain ⟨rfl, rfl⟩ := h
    exact ⟨.cons top (TimerHeap.toList_merge left right).symm, ordered.top_le, rfl⟩

theorem pop?_eq_none_iff {q : TimerQueue} : q.pop? = none ↔ q.toList = [] := by
  obtain ⟨heap, nextSeq, ordered, fresh, distinct⟩ := q
  cases heap <;> simp [pop?, toList, TimerHeap.toList]

theorem weigh_pop {q rest : TimerQueue} {t : Timer} (h : q.pop? = some (t, rest))
    (weight : Timer → Nat) : q.weigh weight = weight t + rest.weigh weight := by
  obtain ⟨heap, nextSeq, ordered, fresh, distinct⟩ := q
  cases heap with
  | empty => simp [pop?] at h
  | node top left right =>
    simp only [pop?, Option.some.injEq, Prod.mk.injEq] at h
    obtain ⟨rfl, rfl⟩ := h
    simp [weigh, TimerHeap.weigh, Nat.add_assoc]

theorem size_eq_length (q : TimerQueue) : q.size = q.toList.length := by
  have heap (h : TimerHeap) : h.weigh (fun _ => 1) = h.toList.length := by
    induction h with
    | empty => rfl
    | node top left right ihl ihr =>
      simp [TimerHeap.weigh, TimerHeap.toList, ihl, ihr]
      omega
  exact heap q.heap

end TimerQueue

end TermScene
