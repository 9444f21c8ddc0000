import TermScene.Proofs.Playback.Enactment

/-!
# The trace of a run

What a turn and a step of the loop can do, said once (`advance_cases`, `step_cases`), and
the way of a run through its loop: `Reaches` lists the timers that fired before the loop
takes its next one, `Ends` the timers that fired in all. Every run ends in one way
(`run_ends`).
-/

namespace TermScene

/-- A timer with this deadline may still fire. -/
def Run.InTime (run : Run) (deadline : Nat) : Prop :=
  ∀ limit ∈ run.limit, Time.ceilMillis deadline ≤ limit

/-- The turns among timers that fired, in order. -/
def turnsOf (fired : List (Nat × TimerTask)) : List Nat := fired.filterMap fun e => e.2.turn?

theorem turnsOf_append (l m : List (Nat × TimerTask)) :
    turnsOf (l ++ m) = turnsOf l ++ turnsOf m :=
  List.filterMap_append

/-- Where a run stands that goes on no longer. -/
def Progress.outcome? {σ : Type} : Progress σ → Option (Except Overflow (Ending × Performance σ))
  | .more _ => none
  | .stopped ending p => some (.ok (ending, p))
  | .overflow cause => some (.error cause)

theorem Progress.outcome?_eq_ok {σ : Type} {progress : Progress σ} {ending : Ending}
    {p : Performance σ} :
    progress.outcome? = some (.ok (ending, p)) ↔ progress = .stopped ending p := by
  cases progress <;> simp [outcome?]

namespace Performance

variable {σ : Type}

/-- The plan of an action whose turn has come. -/
def planOf (p : Performance σ) (a : Action) : Plan := .of p.player.config p.player.state a

def dispatch (p : Performance σ) (index now : Nat) (a : Action) : Performance σ :=
  { p with player := p.player.dispatched index now a (p.planOf a) }

/-- What the turn of the action with an index comes to. -/
inductive Advance (run : Run) (index now : Nat) (p : Performance σ) : Progress σ → Prop
  | completed (none : run.actions[index]? = none) :
      Advance run index now p (.more (p.complete run now))
  | dispatched {a} (action : run.actions[index]? = some a) (sound : Defect.of? a = none)
      (fits : (p.planOf a).overflow? now = none) :
      Advance run index now p (.more (p.dispatch index now a))
  | malformed {a defect} (action : run.actions[index]? = some a)
      (defective : Defect.of? a = some defect) :
      Advance run index now p (.stopped (.malformed index a.keyword defect) p)
  | overflow {a cause} (action : run.actions[index]? = some a) (sound : Defect.of? a = none)
      (exceeds : (p.planOf a).overflow? now = some cause) :
      Advance run index now p (.overflow cause)

theorem advance_cases (run : Run) (index now : Nat) (p : Performance σ) :
    p.Advance run index now (p.advance run index now) := by
  unfold advance
  cases action : run.actions[index]? with
  | none => exact .completed action
  | some a =>
    cases defect : Defect.of? a with
    | some defect =>
      simp only [defect]
      exact .malformed action ‹_›
    | none =>
      simp only [defect]
      split
      · next cause exceeds => exact .overflow action defect exceeds
      · next fits => exact .dispatched action defect fits

/-- The performance that has waited for a timer taken out of its queue. -/
def awake (p : Performance σ) (timer : Timer) (rest : TimerQueue) : Performance σ :=
  p.moved rest (max p.clock (Time.ceilMillis timer.deadline))

variable [Sink σ]

/-- What a step of the loop comes to. -/
inductive Step (run : Run) (p : Performance σ) : Progress σ → Prop
  | finished {report} (empty : p.player.queue.pop? = none) (reported : p.report = some report) :
      Step run p (.stopped (.finished report) p)
  | early (empty : p.player.queue.pop? = none) (unreported : p.report = none) :
      Step run p (.stopped .endedEarly p)
  | cancelled {timer rest limit} (pop : p.player.queue.pop? = some (timer, rest))
      (limited : run.limit = some limit) (late : limit < Time.ceilMillis timer.deadline) :
      Step run p (.stopped .cancelled (p.moved rest limit))
  | emitted {timer rest op sink} (pop : p.player.queue.pop? = some (timer, rest))
      (inTime : run.InTime timer.deadline) (task : timer.task = .emit op)
      (taken : Sink.take p.sink (p.awake timer rest).clock op = (sink, none)) :
      Step run p (.more { p.awake timer rest with sink := sink })
  | sinkFailed {timer rest op sink fault} (pop : p.player.queue.pop? = some (timer, rest))
      (inTime : run.InTime timer.deadline) (task : timer.task = .emit op)
      (taken : Sink.take p.sink (p.awake timer rest).clock op = (sink, some fault)) :
      Step run p (.stopped (.sinkFailed op fault) { p.awake timer rest with sink := sink })
  | turn {timer rest index progress} (pop : p.player.queue.pop? = some (timer, rest))
      (inTime : run.InTime timer.deadline) (task : timer.task = .advance index)
      (turn : (p.awake timer rest).Advance run index timer.deadline progress) :
      Step run p progress

theorem fire_cases {run : Run} {p : Performance σ} {timer : Timer} {rest : TimerQueue}
    (pop : p.player.queue.pop? = some (timer, rest)) (inTime : run.InTime timer.deadline) :
    p.Step run (fire run timer (p.awake timer rest)) := by
  unfold fire
  cases task : timer.task with
  | advance index => exact .turn pop inTime task (advance_cases ..)
  | emit op =>
    simp only
    split
    · next taken => exact .emitted pop inTime task taken
    · next taken => exact .sinkFailed pop inTime task taken

theorem step_cases (run : Run) (p : Performance σ) : p.Step run (p.step run) := by
  unfold step
  cases pop : p.player.queue.pop? with
  | none =>
    cases report : p.report with
    | none => exact .early pop report
    | some r => exact .finished pop report
  | some found =>
    obtain ⟨timer, rest⟩ := found
    show p.Step run (p.attend run timer rest)
    unfold attend
    cases limited : run.limit with
    | none =>
      apply fire_cases pop
      intro limit h
      rw [limited] at h
      cases h
    | some limit =>
      simp only
      split
      · next late => exact .cancelled pop limited late
      · next inTime =>
        apply fire_cases pop
        intro limit' h
        rw [limited] at h
        injection h with h
        omega

end Performance

namespace Playback

variable {σ : Type} [Sink σ]

/-- The run of a playback that is to play actions. -/
def runOf (p : Playback σ) (actions : List Action) (cancel : Option Nat) : Run :=
  ⟨actions, p.clock, cancel.map (p.clock + ·)⟩

/-- The first turn of a run. -/
def begin (p : Playback σ) (run : Run) : Progress σ :=
  p.opening.advance run 0 (Time.ofMillis run.start)

/-- A run comes to a performance, at which the loop takes its next timer, after timers have
fired; the first turn counts as one. -/
inductive Reaches (p : Playback σ) (run : Run) : List (Nat × TimerTask) → Performance σ → Prop
  | opening {q} (more : p.begin run = .more q) :
      Reaches p run [(Time.ofMillis run.start, .advance 0)] q
  | fire {fired q r timer rest} (reached : Reaches p run fired q)
      (pop : q.player.queue.pop? = some (timer, rest)) (more : q.step run = .more r) :
      Reaches p run (fired ++ [timer.entry]) r

/-- A run ends in some way after timers have fired. -/
inductive Ends (p : Playback σ) (run : Run) :
    List (Nat × TimerTask) → Except Overflow (Ending × Performance σ) → Prop
  | opening {outcome} (stop : (p.begin run).outcome? = some outcome) : Ends p run [] outcome
  | loop {fired q outcome} (reached : Reaches p run fired q)
      (stop : (q.step run).outcome? = some outcome) : Ends p run fired outcome

variable {p : Playback σ} {run : Run}

/-- Induction along a run: after the first turn, each timer that fires is an operation that
the sink takes or a turn that goes on. -/
@[elab_as_elim]
theorem Reaches.induction
    {motive : (fired : List (Nat × TimerTask)) → (q : Performance σ) → p.Reaches run fired q → Prop}
    (opening : ∀ {q} (more : p.begin run = .more q)
      (_ : p.opening.Advance run 0 (Time.ofMillis run.start) (.more q)), motive _ q (.opening more))
    (emitted : ∀ {fired q timer rest op sink} (reached : p.Reaches run fired q)
      (pop : q.player.queue.pop? = some (timer, rest)) (_ : run.InTime timer.deadline)
      (_ : timer.task = .emit op)
      (_ : Sink.take q.sink (q.awake timer rest).clock op = (sink, none))
      (more : q.step run = .more { q.awake timer rest with sink := sink }),
      motive fired q reached → motive _ _ (reached.fire pop more))
    (turn : ∀ {fired q r timer rest index} (reached : p.Reaches run fired q)
      (pop : q.player.queue.pop? = some (timer, rest)) (_ : run.InTime timer.deadline)
      (_ : timer.task = .advance index)
      (_ : (q.awake timer rest).Advance run index timer.deadline (.more r))
      (more : q.step run = .more r), motive fired q reached → motive _ r (reached.fire pop more))
    {fired : List (Nat × TimerTask)} {q : Performance σ} (reached : p.Reaches run fired q) :
    motive fired q reached := by
  induction reached with
  | opening more =>
    have cases := Performance.advance_cases run 0 (Time.ofMillis run.start) p.opening
    rw [show p.opening.advance run 0 (Time.ofMillis run.start) = _ from more] at cases
    exact opening more cases
  | @fire fired q r timer rest reached pop more ih =>
    have same {found} (pop' : q.player.queue.pop? = some found) : found = (timer, rest) :=
      (Option.some.inj (pop.symm.trans pop')).symm
    have cases := q.step_cases run
    rw [more] at cases
    cases cases with
    | emitted pop' inTime task taken =>
      obtain ⟨rfl, rfl⟩ := Prod.mk.inj (same pop')
      exact emitted reached pop inTime task taken more ih
    | turn pop' inTime task advance =>
      obtain ⟨rfl, rfl⟩ := Prod.mk.inj (same pop')
      exact turn reached pop inTime task advance more ih

/-- A run has been at every performance that it came past, the first turn behind it. -/
theorem Reaches.front {l m : List (Nat × TimerTask)} {q : Performance σ}
    (reached : p.Reaches run (l ++ m) q) (begun : l ≠ []) : ∃ c, p.Reaches run l c := by
  generalize all : l ++ m = fired at reached
  induction reached generalizing m with
  | opening more =>
    cases l with
    | nil => exact absurd rfl begun
    | cons e l =>
      obtain ⟨rfl, none⟩ := List.cons.inj all
      obtain ⟨rfl, -⟩ := List.append_eq_nil_iff.1 none
      exact ⟨_, .opening more⟩
  | fire reached pop more ih =>
    rcases List.eq_nil_or_concat m with rfl | ⟨m, e, rfl⟩
    · rw [List.append_nil] at all
      rw [all]
      exact ⟨_, reached.fire pop more⟩
    · rw [List.concat_eq_append, ← List.append_assoc] at all
      exact ih (List.append_inj_left' all rfl)

theorem Reaches.ends {p : Playback σ} {run : Run} {fired : List (Nat × TimerTask)}
    {q : Performance σ} (reached : p.Reaches run fired q) :
    ∃ fired, p.Ends run fired (q.play run) := by
  revert fired
  refine Performance.play.induct run (motive := fun q => ∀ {fired}, p.Reaches run fired q →
    ∃ fired, p.Ends run fired (q.play run)) ?more ?stopped ?overflow q
  case more =>
    intro q r more ih fired reached
    rw [Performance.play_eq, more]
    obtain ⟨timer, rest, -, pop, -⟩ := Performance.step_eq_fire more
    exact ih (reached.fire pop more)
  case stopped =>
    intro q ending r stopped fired reached
    rw [Performance.play_eq, stopped]
    exact ⟨fired, .loop reached (congrArg Progress.outcome? stopped)⟩
  case overflow =>
    intro q cause overflow fired reached
    rw [Performance.play_eq, overflow]
    exact ⟨fired, .loop reached (congrArg Progress.outcome? overflow)⟩

theorem Ends.cases_ok {fired : List (Nat × TimerTask)} {ending : Ending} {q : Performance σ}
    (ends : p.Ends run fired (.ok (ending, q))) :
    fired = [] ∧ p.opening.Advance run 0 (Time.ofMillis run.start) (.stopped ending q) ∨
      ∃ c, p.Reaches run fired c ∧ c.Step run (.stopped ending q) := by
  cases ends with
  | opening stop =>
    have cases := Performance.advance_cases run 0 (Time.ofMillis run.start) p.opening
    rw [show p.opening.advance run 0 (Time.ofMillis run.start) = _ from
      Progress.outcome?_eq_ok.1 stop] at cases
    exact .inl ⟨rfl, cases⟩
  | @loop _ c _ reached stop =>
    have cases := c.step_cases run
    rw [Progress.outcome?_eq_ok.1 stop] at cases
    exact .inr ⟨c, reached, cases⟩

theorem run_eq_begin {p : Playback σ} {actions : List Action}
    (loaded : p.player.loaded = some actions) (cancel : Option Nat) :
    p.run cancel =
      match p.begin (p.runOf actions cancel) with
      | .more q => (q.play (p.runOf actions cancel)).map fun (ending, q) => (ending, after q)
      | .stopped ending q => .ok (ending, after q)
      | .overflow cause => .error cause := by
  unfold run
  simp only [loaded]
  rfl

/-- **A run ends in one way**, and what it leaves is released. -/
theorem run_ends {p : Playback σ} {actions : List Action}
    (loaded : p.player.loaded = some actions) (cancel : Option Nat) :
    ∃ fired outcome, p.Ends (p.runOf actions cancel) fired outcome ∧
      p.run cancel = outcome.map fun (ending, q) => (ending, after q) := by
  rw [run_eq_begin loaded]
  cases begun : p.begin (p.runOf actions cancel) with
  | more q =>
    obtain ⟨fired, ends⟩ := (Reaches.opening begun).ends
    exact ⟨fired, _, ends, rfl⟩
  | stopped ending q => exact ⟨[], _, .opening (congrArg Progress.outcome? begun), rfl⟩
  | overflow cause => exact ⟨[], _, .opening (congrArg Progress.outcome? begun), rfl⟩

theorem ends_of_run {actions : List Action} (loaded : p.player.loaded = some actions)
    {cancel : Option Nat} {ending : Ending} {r : Playback σ}
    (ran : p.run cancel = .ok (ending, r)) :
    ∃ fired q, p.Ends (p.runOf actions cancel) fired (.ok (ending, q)) ∧ r = after q := by
  obtain ⟨fired, outcome, ends, result⟩ := run_ends loaded cancel
  rw [ran] at result
  cases outcome with
  | error cause => cases result
  | ok found =>
    injection result with result
    injection result with endings left
    subst endings
    exact ⟨fired, found.2, ends, left⟩

end Playback

end TermScene
