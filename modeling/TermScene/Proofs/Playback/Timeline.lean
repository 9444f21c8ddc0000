import TermScene.Playback.Player
import TermScene.Proofs.Playback.Agenda

/-!
# The timeline of a run

When every action has its turn, computed from the actions alone: the first turn is at
the start of the run, each later one when the action before has lasted its time, and
each action is planned in the state that the ones before it leave behind
(`getElem?_timeline`). From the turns follow the operations of a run with their
deadlines (`Turn.emissions`) and every timer a run registers (`timers`).
-/

namespace TermScene

open Agenda

/-- The dispatch of an action at an instant, by a plan. -/
structure Turn where
  start : Nat
  plan : Plan
  deriving Repr, DecidableEq

namespace Turn

/-- The operations of a turn with their deadlines, in the order in which they are queued. -/
def emissions (t : Turn) : List (Nat × TerminalOp) :=
  t.plan.emits.map fun (offset, op) => (t.start + offset, op)

def finish (t : Turn) : Nat := t.start + t.plan.duration

def overflow? (t : Turn) : Option Overflow := t.plan.overflow? t.start

/-- The timers that the turn of the action with an index registers, in order. -/
def timers (index : Nat) (t : Turn) : List (Nat × TimerTask) :=
  t.emissions.map (fun x => (x.1, .emit x.2)) ++ [(t.finish, .advance (index + 1))]

end Turn

/-- The turns of actions, the first one in a state and at an instant. -/
def timeline (config : Config) : State → Nat → List Action → List Turn
  | _, _, [] => []
  | s, start, a :: more =>
    ⟨start, .of config s a⟩ ::
      timeline config (s.after a) (start + (Plan.of config s a).duration) more

/-- The timers that turns register, one turn after another; the first one is the turn of
the action with an index. -/
def timers : (index : Nat) → List Turn → List (Nat × TimerTask)
  | _, [] => []
  | index, t :: more => t.timers index ++ timers (index + 1) more

/-- The turns from the one of the action with an index on, with the instants at which they
come; one more turn completes the scenario. -/
def turnTimes : (index now : Nat) → List Turn → List (Nat × Nat)
  | index, now, [] => [(now, index)]
  | index, now, t :: more => (now, index) :: turnTimes (index + 1) t.finish more

/-- The operations of turns in the order of their deadlines; of one deadline, the one
that is queued first comes first. -/
def schedule (turns : List Turn) : List (Nat × TerminalOp) :=
  arrange (turns.flatMap Turn.emissions)

/-- How long turns take together. -/
def elapsed : List Turn → Nat
  | [] => 0
  | t :: more => t.plan.duration + elapsed more

/-! ## The closed form of a timeline -/

/-- The turn of an action comes when all actions before it have lasted their time, in
the state they leave behind. -/
theorem getElem?_timeline (config : Config) (s : State) (start : Nat) (actions : List Action)
    (i : Nat) :
    (timeline config s start actions)[i]? = actions[i]?.map fun a =>
      ⟨start + elapsed ((timeline config s start actions).take i),
        .of config ((actions.take i).foldl State.after s) a⟩ := by
  induction actions generalizing s start i with
  | nil => rfl
  | cons a more ih =>
    cases i with
    | zero => rfl
    | succ i =>
      rw [timeline, List.getElem?_cons_succ, List.getElem?_cons_succ, ih, List.take_succ_cons,
        List.take_succ_cons, List.foldl_cons, elapsed, Nat.add_assoc]

theorem timeline_eq_map_zipIdx (config : Config) (s : State) (start : Nat)
    (actions : List Action) : timeline config s start actions = actions.zipIdx.map fun (a, i) =>
      ⟨start + elapsed ((timeline config s start actions).take i),
        .of config ((actions.take i).foldl State.after s) a⟩ := by
  refine List.ext_getElem? fun i => ?_
  rw [getElem?_timeline, List.getElem?_map, List.getElem?_zipIdx, Option.map_map]
  cases actions[i]? <;> simp

/-- The turns of later actions come behind those of earlier ones, in the state they leave. -/
theorem timeline_append (config : Config) (s : State) (start : Nat) (l m : List Action) :
    timeline config s start (l ++ m) = timeline config s start l ++
      timeline config (l.foldl State.after s) (start + elapsed (timeline config s start l)) m := by
  induction l generalizing s start with
  | nil => rfl
  | cons a l ih =>
    rw [List.cons_append, timeline, timeline, ih, elapsed, Nat.add_assoc]
    rfl

theorem timers_append (index : Nat) (l m : List Turn) :
    timers index (l ++ m) = timers index l ++ timers (index + l.length) m := by
  induction l generalizing index with
  | nil => rfl
  | cons t l ih =>
    rw [List.cons_append, timers, timers, ih, List.append_assoc, List.length_cons, Nat.add_assoc,
      Nat.add_comm 1]

/-! ## What the timers of a timeline are -/

def TimerTask.op? : TimerTask → Option TerminalOp
  | .emit op => some op
  | .advance _ => none

def TimerTask.turn? : TimerTask → Option Nat
  | .emit _ => none
  | .advance index => some index

theorem keep_op?_emits (l : List (Nat × TerminalOp)) :
    keep TimerTask.op? (l.map fun x => (x.1, .emit x.2)) = l := by
  induction l with
  | nil => rfl
  | cons x l ih =>
    rw [List.map_cons, keep_cons_some (f := TimerTask.op?) rfl, ih]

theorem keep_turn?_emits (l : List (Nat × TerminalOp)) :
    keep TimerTask.turn? (l.map fun x => (x.1, .emit x.2)) = [] := by
  induction l with
  | nil => rfl
  | cons x l ih => rw [List.map_cons, keep_cons_none (f := TimerTask.turn?) rfl, ih]

theorem keep_op?_turnTimers (index : Nat) (t : Turn) :
    keep TimerTask.op? (t.timers index) = t.emissions := by
  rw [Turn.timers, keep_append, keep_op?_emits]
  exact List.append_nil _

theorem keep_turn?_turnTimers (index : Nat) (t : Turn) :
    keep TimerTask.turn? (t.timers index) = [(t.finish, index + 1)] := by
  rw [Turn.timers, keep_append, keep_turn?_emits]
  rfl

theorem keep_op?_timers (index : Nat) (turns : List Turn) :
    keep TimerTask.op? (timers index turns) = turns.flatMap Turn.emissions := by
  induction turns generalizing index with
  | nil => rfl
  | cons t more ih =>
    rw [timers, keep_append, keep_op?_turnTimers, ih, List.flatMap_cons]

/-- The turns among the timers, the first turn counted as a timer. -/
theorem keep_turn?_timers (index now : Nat) (turns : List Turn) :
    keep TimerTask.turn? ((now, .advance index) :: timers index turns) =
      turnTimes index now turns := by
  rw [keep_cons_some (f := TimerTask.turn?) rfl]
  induction turns generalizing index now with
  | nil => rfl
  | cons t more ih =>
    rw [timers, keep_append, keep_turn?_turnTimers, List.singleton_append, ih, turnTimes]

theorem turnTimes_ne_nil (index now : Nat) (turns : List Turn) :
    turnTimes index now turns ≠ [] := by
  cases turns with
  | nil => exact List.cons_ne_nil _ _
  | cons t more => exact List.cons_ne_nil _ _

theorem start_le_of_mem_turnTimes {config : Config} {s : State} {now index : Nat}
    {actions : List Action} {x : Nat × Nat}
    (h : x ∈ turnTimes index now (timeline config s now actions)) : now ≤ x.1 := by
  induction actions generalizing s now index with
  | nil =>
    obtain rfl := List.mem_singleton.1 h
    exact Nat.le_refl _
  | cons a more ih =>
    rcases List.mem_cons.1 h with rfl | h
    · exact Nat.le_refl _
    · exact Nat.le_trans (Nat.le_add_right _ _) (ih h)

theorem inOrder_turnTimes (config : Config) (s : State) (now index : Nat)
    (actions : List Action) : InOrder (turnTimes index now (timeline config s now actions)) := by
  induction actions generalizing s now index with
  | nil => exact List.pairwise_singleton _ _
  | cons a more ih =>
    refine List.pairwise_cons.2 ⟨?_, ih _ _ _⟩
    intro x hx
    exact Nat.le_trans (Nat.le_add_right _ _) (start_le_of_mem_turnTimes hx)

theorem Turn.start_le_of_mem_emissions {t : Turn} {x : Nat × TerminalOp} (h : x ∈ t.emissions) :
    t.start ≤ x.1 := by
  obtain ⟨y, -, rfl⟩ := List.mem_map.1 h
  exact Nat.le_add_right _ _

theorem Turn.start_le_of_mem_timers {t : Turn} {index : Nat} {x : Nat × TimerTask}
    (h : x ∈ t.timers index) : t.start ≤ x.1 := by
  unfold Turn.timers at h
  rcases List.mem_append.1 h with h | h
  · obtain ⟨y, hy, rfl⟩ := List.mem_map.1 h
    exact Turn.start_le_of_mem_emissions hy
  · obtain rfl := List.mem_singleton.1 h
    exact Nat.le_add_right _ _

theorem start_le_of_mem_timers {config : Config} {s : State} {start index : Nat}
    {actions : List Action} {x : Nat × TimerTask}
    (h : x ∈ timers index (timeline config s start actions)) : start ≤ x.1 := by
  induction actions generalizing s start index with
  | nil => cases h
  | cons a more ih =>
    rw [timeline, timers] at h
    rcases List.mem_append.1 h with h | h
    · exact Turn.start_le_of_mem_timers h
    · exact Nat.le_trans (Nat.le_add_right _ _) (ih h)

end TermScene
