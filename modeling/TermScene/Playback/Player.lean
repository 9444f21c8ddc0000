import TermScene.Playback.Plan
import TermScene.Playback.TimerQueue
import TermScene.Terminal.Sink

/-!
# Playing a scenario

A player takes the actions of a scenario one at a time. Dispatching an action
registers a timer for each of its operations and one for the turn of the next
action; the loop fires timers until none is left. A turn past the last action
completes the scenario, and operations that are still waiting then play on. Main
statement: each firing leaves fewer turns to come, or as many turns and fewer
timers (`Performance.step_decreases`), so that the loop ends.
-/

namespace TermScene

inductive Phase where
  | idle
  /-- The action with this index is the latest one dispatched. -/
  | running (index : Nat)
  /-- Every action was dispatched and has lasted its time. -/
  | completed
  deriving Repr, DecidableEq

/-- What is known when a scenario is complete: how many actions it has, how many
nanoseconds they lasted, and the state they left behind. -/
structure Report where
  actions : Nat
  elapsed : Nat
  state : State
  deriving DecidableEq

/-- A player between or within runs. -/
structure Player where
  config : Config
  loaded : Option (List Action)
  state : State
  queue : TimerQueue
  phase : Phase
  /-- The name under which completions are signalled, if somebody listens. -/
  listener : Option Text

namespace Player

def new (config : Config) : Player := ⟨config, none, .initial config, .empty, .idle, none⟩

/-- Loads a scenario in place of the one before and forgets what that left. -/
def load (p : Player) (actions : List Action) : Player :=
  { p with loaded := some actions, state := .initial p.config, queue := .empty, phase := .idle }

/-- Signals completions under another name from now on. -/
def listen (p : Player) (name : Text) : Player := { p with listener := some name }

/-- Registers operations at offsets from an instant, in order. -/
def enqueue (queue : TimerQueue) (now : Nat) (emits : List (Nat × TerminalOp)) : TimerQueue :=
  emits.foldl (fun queue (offset, op) => queue.push (now + offset) (.emit op)) queue

/-- The player after it dispatched an action at an instant by a plan. -/
def dispatched (p : Player) (index now : Nat) (a : Action) (plan : Plan) : Player :=
  { p with
    state := p.state.after a
    queue := (enqueue p.queue now plan.emits).push (now + plan.duration) (.advance (index + 1))
    phase := .running index }

/-- Ends a run: one that did not complete drops its timers. -/
def release (p : Player) : Player :=
  match p.phase with
  | .running _ => { p with queue := .empty, phase := .idle }
  | _ => p

end Player

inductive Ending where
  | finished (report : Report)
  /-- The timers ran out before the last action was over. -/
  | endedEarly
  | noScenario
  | malformed (index : Nat) (keyword : Keyword) (defect : Defect)
  | sinkFailed (op : TerminalOp) (fault : SinkFault)
  | cancelled
  deriving DecidableEq

/-- A player with its sink, a clock in whole milliseconds, and the completions
signalled so far. -/
structure Playback (σ : Type) where
  player : Player
  sink : σ
  clock : Nat
  signals : List (Text × Report)

/-- What stays the same during a run: the actions, the millisecond at which it
began, and the last one it may reach, if there is a limit. -/
structure Run where
  actions : List Action
  start : Nat
  limit : Option Nat

/-- A playback within a run, with the report if the scenario is complete. -/
structure Performance (σ : Type) extends Playback σ where
  report : Option Report

inductive Progress (σ : Type) where
  | more (p : Performance σ)
  | stopped (ending : Ending) (p : Performance σ)
  | overflow (cause : Overflow)

namespace Performance

variable {σ : Type}

def complete (run : Run) (now : Nat) (p : Performance σ) : Performance σ :=
  let report : Report := ⟨run.actions.length, now - Time.ofMillis run.start, p.player.state⟩
  { p with
    player := { p.player with phase := .completed }
    signals := p.signals ++ (p.player.listener.map fun name => (name, report)).toList
    report := some report }

/-- The turn of the action with this index, at an instant. -/
def advance (run : Run) (index now : Nat) (p : Performance σ) : Progress σ :=
  match run.actions[index]? with
  | none => .more (p.complete run now)
  | some a =>
    match Defect.of? a with
    | some defect => .stopped (.malformed index a.keyword defect) p
    | none =>
      let plan := Plan.of p.player.config p.player.state a
      match plan.overflow? now with
      | some cause => .overflow cause
      | none => .more { p with player := p.player.dispatched index now a plan }

/-- Fires a timer that was taken out of the queue. -/
def fire [Sink σ] (run : Run) (timer : Timer) (p : Performance σ) : Progress σ :=
  match timer.task with
  | .advance index => p.advance run index timer.deadline
  | .emit op =>
    match Sink.take p.sink p.clock op with
    | (sink, none) => .more { p with sink := sink }
    | (sink, some fault) => .stopped (.sinkFailed op fault) { p with sink := sink }

/-- The performance with a timer taken out of its queue and the clock moved. -/
def moved (p : Performance σ) (rest : TimerQueue) (clock : Nat) : Performance σ :=
  { p with player := { p.player with queue := rest }, clock := clock }

/-- Waits for a timer that was taken out of the queue and fires it; `rest` is the queue
without it. The clock moves to the first whole millisecond that is not before the
timer's deadline, or stops at the limit. -/
def attend [Sink σ] (run : Run) (timer : Timer) (rest : TimerQueue) (p : Performance σ) :
    Progress σ :=
  let due := Time.ceilMillis timer.deadline
  match run.limit with
  | some limit =>
    if limit < due then .stopped .cancelled (p.moved rest limit)
    else fire run timer (p.moved rest (max p.clock due))
  | none => fire run timer (p.moved rest (max p.clock due))

def step [Sink σ] (run : Run) (p : Performance σ) : Progress σ :=
  match p.player.queue.pop? with
  | none =>
    match p.report with
    | some report => .stopped (.finished report) p
    | none => .stopped .endedEarly p
  | some (timer, rest) => p.attend run timer rest

/-- How many turns a timer stands for, of a scenario of `n` actions. -/
def turns (n : Nat) (t : Timer) : Nat :=
  match t.task with
  | .advance index => n + 1 - index
  | .emit _ => 0

def turnsLeft (run : Run) (p : Performance σ) : Nat :=
  p.player.queue.weigh (turns run.actions.length)

theorem weigh_enqueue (n now : Nat) (queue : TimerQueue) (emits : List (Nat × TerminalOp)) :
    (Player.enqueue queue now emits).weigh (turns n) = queue.weigh (turns n) := by
  unfold Player.enqueue
  induction emits generalizing queue with
  | nil => rfl
  | cons e more ih =>
    rw [List.foldl_cons, ih, TimerQueue.weigh_push]
    simp [turns]

/-- A turn that goes on completes the scenario or dispatches its action. -/
theorem advance_eq_more {run : Run} {index now : Nat} {p q : Performance σ}
    (h : p.advance run index now = .more q) :
    run.actions[index]? = none ∧ q = p.complete run now ∨
      ∃ a, run.actions[index]? = some a ∧
        q = { p with player :=
          p.player.dispatched index now a (.of p.player.config p.player.state a) } := by
  unfold advance at h
  split at h
  · next none =>
    injection h with h
    exact .inl ⟨none, h.symm⟩
  · next a some =>
    split at h
    · cases h
    · simp only at h
      split at h
      · cases h
      · injection h with h
        exact .inr ⟨a, some, h.symm⟩

/-- A turn leaves the queue alone or is followed by the turn of the next action. -/
theorem turnsLeft_advance {run : Run} {index now : Nat} {p q : Performance σ}
    (h : p.advance run index now = .more q) :
    (q.player.queue = p.player.queue) ∨
      index < run.actions.length ∧
        q.turnsLeft run = p.turnsLeft run + (run.actions.length - index) := by
  rcases advance_eq_more h with ⟨-, rfl⟩ | ⟨a, some, rfl⟩
  · exact .inl rfl
  · refine .inr ⟨(List.getElem?_eq_some_iff.1 some).1, ?_⟩
    simp only [turnsLeft, Player.dispatched, TimerQueue.weigh_push, weigh_enqueue]
    simp only [turns]
    omega

theorem attend_eq_more [Sink σ] {run : Run} {timer : Timer} {rest : TimerQueue}
    {p q : Performance σ} (h : p.attend run timer rest = .more q) :
    ∃ clock, fire run timer (p.moved rest clock) = .more q := by
  refine ⟨max p.clock (Time.ceilMillis timer.deadline), ?_⟩
  unfold attend at h
  simp only at h
  split at h
  · split at h
    · cases h
    · exact h
  · exact h

theorem step_eq_fire [Sink σ] {run : Run} {p q : Performance σ} (h : p.step run = .more q) :
    ∃ timer rest clock, p.player.queue.pop? = some (timer, rest) ∧
      fire run timer (p.moved rest clock) = .more q := by
  unfold step at h
  split at h
  · split at h <;> simp at h
  · next timer rest hpop =>
    obtain ⟨clock, hfire⟩ := attend_eq_more h
    exact ⟨timer, rest, clock, hpop, hfire⟩

/-- A step leaves fewer turns to come, or as many turns and fewer timers. -/
theorem step_decreases [Sink σ] {run : Run} {p q : Performance σ} (h : p.step run = .more q) :
    Prod.Lex (· < ·) (· < ·) (q.turnsLeft run, q.player.queue.size)
      (p.turnsLeft run, p.player.queue.size) := by
  obtain ⟨timer, rest, clock, hpop, hfire⟩ := step_eq_fire h
  have turnsPop := TimerQueue.weigh_pop hpop (turns run.actions.length)
  have sizePop : p.player.queue.size = 1 + rest.size := TimerQueue.weigh_pop hpop fun _ => 1
  have same (e : q.player.queue = rest) : Prod.Lex (· < ·) (· < ·)
      (q.turnsLeft run, q.player.queue.size) (p.turnsLeft run, p.player.queue.size) := by
    have left : p.turnsLeft run = turns run.actions.length timer + q.turnsLeft run := by
      rw [turnsLeft, turnsLeft, e, turnsPop]
    rw [e, left, sizePop]
    by_cases hz : turns run.actions.length timer = 0
    · rw [hz, Nat.zero_add]
      exact .right _ (by omega)
    · exact .left _ _ (by omega)
  unfold fire at hfire
  split at hfire
  · next index htask =>
    rcases turnsLeft_advance hfire with e | ⟨hi, e⟩
    · exact same e
    · refine .left _ _ ?_
      have moved : (p.moved rest clock).turnsLeft run = rest.weigh (turns run.actions.length) :=
        rfl
      have weight : turns run.actions.length timer = run.actions.length + 1 - index := by
        simp only [turns, htask]
      rw [e, moved, turnsLeft, turnsPop, weight]
      omega
  · split at hfire
    · injection hfire with hfire
      subst hfire
      exact same rfl
    · simp at hfire

/-- Fires timers until the run stops. -/
def play [Sink σ] (run : Run) (p : Performance σ) : Except Overflow (Ending × Performance σ) :=
  match _ : p.step run with
  | .more q => q.play run
  | .stopped ending q => .ok (ending, q)
  | .overflow cause => .error cause
termination_by (p.turnsLeft run, p.player.queue.size)
decreasing_by exact step_decreases ‹_›

end Performance

namespace Playback

variable {σ : Type} [Sink σ]

def after (p : Performance σ) : Playback σ :=
  { p.toPlayback with player := p.player.release }

/-- Plays the loaded scenario, which is then loaded no more. With `cancel`, the run
stops when that many milliseconds have passed and a timer is still waiting. -/
def run (p : Playback σ) (cancel : Option Nat) : Except Overflow (Ending × Playback σ) :=
  match p.player.loaded with
  | none => .ok (.noScenario, p)
  | some actions =>
    let run : Run := ⟨actions, p.clock, cancel.map (p.clock + ·)⟩
    let first : Performance σ :=
      { p with player := { p.player with loaded := none }, report := none }
    match first.advance run 0 (Time.ofMillis p.clock) with
    | .more q => (q.play run).map fun (ending, q) => (ending, after q)
    | .stopped ending q => .ok (ending, after q)
    | .overflow cause => .error cause

end Playback

end TermScene
