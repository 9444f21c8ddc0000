import TermScene.Proofs.Playback.Dispatching
import TermScene.Proofs.Playback.RunningTime

/-!
# Times that can be held

No step of an action needs more time than the action lasts, except a line of a scroll, which
needs a part of the time of that scroll (`Plan.extent_le_of_mem_of`). So a run overflows nowhere
if its start, its length and its longest scroll together stay below 2 ^ 62 seconds. The length of
an input is added up before anything else is done, and nothing else of the input is longer: an
input of which that sum cannot be held leaves no trace, and one of which it can comes through
(`run_fits`).
-/

namespace TermScene

/-! ## Runs -/

/-- The time of the scroll among actions that takes the longest. -/
def longestScroll (config : Config) (actions : List Action) : Nat :=
  actions.foldr (fun a longest => max (a.scrollTime config) longest) 0

theorem scrollTime_le_longestScroll (config : Config) {a : Action} {actions : List Action}
    (mem : a ∈ actions) : a.scrollTime config ≤ longestScroll config actions := by
  induction actions with
  | nil => cases mem
  | cons b more ih =>
    rcases List.mem_cons.1 mem with rfl | mem
    · exact Nat.le_max_left _ _
    · exact Nat.le_trans (ih mem) (Nat.le_max_right _ _)

/-- Every time of a turn can be held: the durations that its plan goes through, the instants of
its operations, and that of the next turn. -/
structure Turn.Fits (t : Turn) : Prop where
  durations : ∀ operation duration, .hold operation duration ∈ t.plan.steps →
    duration < Time.durationLimit
  instants : ∀ x ∈ t.emissions, x.1 < Time.instantLimit
  finish : t.finish < Time.instantLimit

theorem Turn.fits_of_overflow?_eq_none {t : Turn} (fits : t.overflow? = none) : t.Fits := by
  obtain ⟨steps, finish⟩ := Plan.overflow?_eq_none_iff.1 fits
  refine ⟨fun operation duration mem => ?_, fun x mem => ?_, finish⟩
  · exact Step.overflow?_hold_eq_none_iff.1 (steps _ mem)
  · obtain ⟨y, emitted, rfl⟩ := List.mem_map.1 mem
    obtain ⟨step, mem, emits⟩ := List.mem_filterMap.1 emitted
    have fits := steps step mem
    cases step with
    | hold operation duration => cases emits
    | emit offset op =>
      obtain rfl := Option.some.inj emits
      exact Step.overflow?_emit_eq_none_iff.1 fits

/-- Each turn of a timeline is planned for one of the actions and over before the timeline is. -/
theorem finish_le_of_mem_timeline {config : Config} {s : State} {start : Nat}
    {actions : List Action} {t : Turn} (mem : t ∈ timeline config s start actions) :
    (∃ a ∈ actions, ∃ s', t.plan = .of config s' a) ∧
      t.finish ≤ start + elapsed (timeline config s start actions) := by
  induction actions generalizing s start with
  | nil => cases mem
  | cons a more ih =>
    rw [timeline, elapsed, ← Nat.add_assoc]
    rcases List.mem_cons.1 mem with rfl | mem
    · exact ⟨⟨a, List.mem_cons_self, s, rfl⟩, Nat.le_add_right _ _⟩
    · obtain ⟨⟨b, later, planned⟩, finish⟩ := ih mem
      exact ⟨⟨b, List.mem_cons_of_mem _ later, planned⟩, finish⟩

/-- Nothing overflows in the turns of actions that are over, with the longest scroll behind them,
before the first instant that cannot be held. -/
theorem overflow?_of_mem_timeline {config : Config} {start : Nat} {actions : List Action}
    (kinded : ∀ a ∈ actions, a.WellKinded) (countable : ∀ a ∈ actions, a.Countable)
    (below : start + runningTime config actions + longestScroll config actions <
      Time.instantLimit) :
    ∀ t ∈ timeline config (.initial config) start actions, t.overflow? = none := by
  intro t mem
  obtain ⟨⟨a, here, s, planned⟩, finish⟩ := finish_le_of_mem_timeline mem
  rw [elapsed_timeline config start kinded countable] at finish
  have scroll := scrollTime_le_longestScroll config here
  have lasts : t.finish = t.start + t.plan.duration := rfl
  refine Plan.overflow?_eq_none_iff.2 ⟨fun step mem => Step.overflow?_of_lt ?_, by omega⟩
  rw [planned] at mem lasts
  have extent := Plan.extent_le_of_mem_of config s (countable a here) step mem
  omega

theorem Playback.run_of_fits {σ : Type} [Sink σ] {p : Playback σ} {actions : List Action}
    (fits : ∀ t ∈ p.turns actions, t.overflow? = none) (cancel : Option Nat) :
    ∃ ending q, (p.withPlayer (·.load actions)).run cancel = .ok (ending, q) := by
  have fresh := p.player.fresh_load actions
  obtain ⟨fired, outcome, ends, ran⟩ := run_ends (p := p.withPlayer (·.load actions)) fresh.loaded
    cancel
  cases outcome with
  | ok found => exact ⟨_, _, ran⟩
  | error cause =>
    cases halts_of_ends ends fresh with
    | overflow _ _ _ turn exceeds =>
      cases (fits _ (List.mem_of_getElem? turn)).symm.trans exceeds

/-! ## Inputs -/

namespace Plan

variable {timeout : Nat} {parts : List Part}

theorem length_inputDuration (fits : total (inputCost timeout) parts < Time.durationLimit) :
    (inputDuration timeout parts).length = .ok (total (inputCost timeout) parts) := by
  have none : (inputDuration timeout parts).steps.findSome? (Step.overflow? 0) = none :=
    findSome?_sumSteps_eq_none_iff.2 fits
  unfold length
  rw [none]
  rfl

/-- If its durations can be held, only an instant of a plan can overflow. -/
theorem eq_instant_of_overflow? {plan : Plan} {now : Nat} {cause : Overflow}
    (held : ∀ operation duration, .hold operation duration ∈ plan.steps →
      duration < Time.durationLimit) (exceeds : plan.overflow? now = some cause) :
    cause = .instant := by
  unfold overflow? at exceeds
  split at exceeds
  · next found =>
    obtain ⟨step, mem, found⟩ := List.exists_of_findSome?_eq_some found
    obtain rfl := Option.some.inj exceeds
    cases step with
    | emit offset op =>
      simp only [Step.overflow?, Option.ite_none_left_eq_some, Option.some.injEq] at found
      exact found.2.symm
    | hold operation duration =>
      cases (Step.overflow?_hold_eq_none_iff.2 (held _ _ mem)).symm.trans found
  · simp only [Option.ite_none_left_eq_some, Option.some.injEq] at exceeds
    exact exceeds.2.symm

end Plan

theorem Performance.overflow?_of_advance {σ : Type} {run : Run} {index now : Nat} {a : Action}
    {c : Performance σ} {cause : Overflow} (action : run.actions[index]? = some a)
    (exceeds : c.advance run index now = .overflow cause) :
    (c.planOf a).overflow? now = some cause := by
  have cases := c.advance_cases run index now
  rw [exceeds] at cases
  cases cases with
  | overflow action' _ exceeds =>
    obtain rfl := Option.some.inj (action.symm.trans action')
    exact exceeds

/-- An input whose length cannot be held is given up before it has queued anything. -/
theorem Player.attempt_input {p : Player} {parts : List Part} {timeout : Nat}
    (speed : p.state.typingTimeout p.config.baseTypingTimeout = timeout)
    (exceeds : Time.durationLimit ≤ Plan.total (Plan.inputCost timeout) parts) (index now : Nat) :
    ∃ cause, (Plan.inputDuration timeout parts).length = .error cause ∧
      p.attempt index now (.input parts) = ({ p with phase := .running index }, some cause) := by
  subst speed
  let timeout := p.state.typingTimeout p.config.baseTypingTimeout
  let steps := Plan.sumSteps (Plan.inputCost timeout) 0 0 parts
  let begun : Player := { p with phase := .running index }
  have silent : Plan.emitted steps = [] := Plan.emitted_sumSteps ..
  cases first : steps.findSome? (Step.overflow? 0) with
  | none => exact absurd (Plan.findSome?_sumSteps_eq_none_iff.1 first) (Nat.not_lt.2 exceeds)
  | some cause =>
    have length : (Plan.inputDuration timeout parts).length = .error cause := by
      unfold Plan.length
      rw [show (Plan.inputDuration timeout parts).steps.findSome? _ = _ from first]
    have summed : begun.makeAll now steps = (begun, some cause) := by
      rw [makeAll_of_silent begun silent, Step.findSome?_overflow?_of_silent silent now 0, first]
    refine ⟨cause, length, ?_⟩
    -- the sum is what the plan begins with, so nothing behind it is made
    have made : begun.makeAll now (Plan.of p.config p.state (.input parts)).steps =
        (begun, some cause) := by
      show begun.makeAll now (steps ++ _ ++ _ ++ _) = _
      rw [List.append_assoc, List.append_assoc]
      exact makeAll_append summed _
    unfold attempt
    dsimp only
    rw [show ({ p with state := p.state.after (.input parts), phase := .running index } : Player) =
      begun from rfl, made]

namespace Playback

-- Powers are those of the natural numbers, whatever other instance is in scope.
attribute [local instance (2000)] instPowNat

/-- **Below 2 ^ 62 seconds nothing overflows, and an input fails before it queues anything or none
of its durations does.** A run whose start, in whole seconds, comes with its length and its longest
scroll to less than that has only turns that fit, and ends in some way. An input whose length has
more seconds than 64 bits hold fails while that length is added up, with the state and the queue
as they were; if it has no more, every duration in it can be held, and only an instant can be one
that cannot. -/
theorem run_fits :
    (∀ config start actions, (∀ a ∈ actions, a.WellKinded) → (∀ a ∈ actions, a.Countable) →
      start / Time.second * Time.second + runningTime config actions +
        longestScroll config actions < 2 ^ (62 : Nat) * Time.second →
      (∀ t ∈ timeline config (.initial config) start actions, t.Fits) ∧
      ∀ {σ : Type} [Sink σ] (p : Playback σ) (cancel : Option Nat), p.player.config = config →
        Time.ofMillis p.clock = start →
        ∃ ending q, (p.withPlayer (·.load actions)).run cancel = .ok (ending, q)) ∧
    ∀ {σ : Type} (c : Performance σ) (run : Run) (index now : Nat) (parts : List Part),
      run.actions[index]? = some (.input parts) →
      (∀ part ∈ parts, part.Suits .typed) → (∀ part ∈ parts, part.Countable) →
      let timeout := c.player.state.typingTimeout c.player.config.baseTypingTimeout
      let total := lasting (Part.inputTime timeout) parts
      let length := (Plan.inputDuration timeout parts).length
      (UInt64.size ≤ total / Time.second →
        ∃ cause, length = .error cause ∧ c.advance run index now = .overflow cause ∧
          c.player.attempt index now (.input parts) =
            ({ c.player with phase := .running index }, some cause)) ∧
      (total / Time.second < UInt64.size → length = .ok total ∧
        (∀ operation duration, .hold operation duration ∈
            (Plan.input c.player.config c.player.state parts).steps →
          duration < Time.durationLimit) ∧
        ∀ cause, c.advance run index now = .overflow cause → cause = .instant) := by
  constructor
  · intro config start actions kinded countable below
    have beside : start < start / Time.second * Time.second + Time.second :=
      Nat.lt_div_mul_add (by decide)
    have limits : 2 ^ (62 : Nat) * Time.second + Time.second ≤ Time.instantLimit := by decide
    have below : start + runningTime config actions + longestScroll config actions <
        Time.instantLimit := by
      omega
    have fits := overflow?_of_mem_timeline kinded countable below
    refine ⟨fun t mem => Turn.fits_of_overflow?_eq_none (fits t mem), ?_⟩
    rintro σ _ p cancel rfl rfl
    exact run_of_fits fits cancel
  · intro σ c run index now parts action typed countable timeout total length
    have whole : Plan.total (Plan.inputCost timeout) parts = total :=
      Plan.total_inputCost timeout typed countable
    have seconds : UInt64.size ≤ total / Time.second ↔ Time.durationLimit ≤ total :=
      Nat.le_div_iff_mul_le (by decide)
    constructor
    · intro exceeds
      obtain ⟨cause, summed, attempted⟩ :=
        c.player.attempt_input rfl (by rw [whole]; exact seconds.1 exceeds) index now
      have sound : Defect.of? (.input parts) = none := Defect.inParts_eq_none_iff.2 typed
      refine ⟨cause, summed, ?_, attempted⟩
      rw [Performance.advance_eq_attempt action sound, attempted]
    · intro fits
      have fits : total < Time.durationLimit := by omega
      have held : ∀ operation duration, .hold operation duration ∈
          (Plan.input c.player.config c.player.state parts).steps →
          duration < Time.durationLimit := by
        intro operation duration mem
        have le := Plan.extent_le_of_mem_input _ _ countable _ mem
        exact Nat.lt_of_le_of_lt (le.trans (Nat.le_of_eq whole)) fits
      refine ⟨?_, held, fun cause exceeds => ?_⟩
      · rw [← whole] at fits ⊢
        exact Plan.length_inputDuration fits
      · exact Plan.eq_instant_of_overflow? held (Performance.overflow?_of_advance action exceeds)

/-- A long pause, a delay and a scroll that come to more than 2 ^ 61 seconds, and an input whose
length can be held just up to its eighth character. -/
theorem run_fits_up_to_limit :
    let pause : Part := .token (.delay 18446744073709551615)
    let actions : List Action := [.input [.literal .typed ['a'], pause], .scroll 2147483647,
      .delay (2 ^ (60 : Nat) * Time.second)]
    let parts (n : Nat) : List Part :=
      .literal .typed (List.replicate n 'a') :: List.replicate 1000 pause
    let config := { Config.default with scrollStep := 2 ^ (30 : Nat) * Time.second }
    let p : Playback Recorder :=
      { new config (Recorder.new none none) with clock := 2 ^ (60 : Nat) }
    let c : Performance Recorder := { p with report := none }
    let length (n : Nat) := (Plan.inputDuration (Time.ofMillis 100) (parts n)).length
    (∀ t ∈ p.turns actions, t.Fits) ∧
      (∃ ending q, (p.withPlayer (·.load actions)).run none = .ok (ending, q)) ∧
      length 8 = .ok (Time.durationLimit - Time.ofMillis 100) ∧
      ∃ cause, length 9 = .error cause ∧
        c.advance ⟨[.input (parts 9)], 0, none⟩ 0 0 = .overflow cause ∧
        c.player.attempt 0 0 (.input (parts 9)) =
          ({ c.player with phase := .running 0 }, some cause) := by
  intro pause actions parts config p c length
  have kinded : ∀ a ∈ actions, a.WellKinded := by
    simp [actions, pause, Action.WellKinded, Part.Suits]
  have countable : ∀ a ∈ actions, a.Countable := by
    simp [actions, pause, Action.Countable, Part.Countable, UInt32.size]
  have below : Time.ofMillis p.clock / Time.second * Time.second +
      runningTime p.player.config actions + longestScroll p.player.config actions <
        2 ^ (62 : Nat) * Time.second := by
    decide +kernel
  have typed (n : Nat) : ∀ part ∈ parts n, part.Suits .typed :=
    List.forall_mem_cons.2 ⟨rfl, fun part mem => List.eq_of_mem_replicate mem ▸ trivial⟩
  have counted (n : Nat) (lt : n < 10) : ∀ part ∈ parts n, part.Countable := by
    refine List.forall_mem_cons.2 ⟨?_, fun part mem => List.eq_of_mem_replicate mem ▸ trivial⟩
    show (List.replicate n 'a').length + 1 < UInt32.size
    rw [List.length_replicate, UInt32.size]
    omega
  have timeout : c.player.state.typingTimeout c.player.config.baseTypingTimeout =
      Time.ofMillis 100 := by
    decide +kernel
  have held : lasting (Part.inputTime (Time.ofMillis 100)) (parts 8) =
      Time.durationLimit - Time.ofMillis 100 := by
    decide +kernel
  have exceeded : lasting (Part.inputTime (Time.ofMillis 100)) (parts 9) = Time.durationLimit := by
    decide +kernel
  obtain ⟨turns, runs⟩ := run_fits.1 _ _ actions kinded countable below
  have input (n : Nat) (lt : n < 10) := run_fits.2 c ⟨[.input (parts n)], 0, none⟩ 0 0 (parts n) rfl
    (typed n) (counted n lt)
  rw [timeout] at input
  have summed := ((input 8 (by decide)).2 (by rw [held]; decide)).1
  rw [held] at summed
  exact ⟨turns, runs p none rfl rfl, summed, (input 9 (by decide)).1 (by rw [exceeded]; decide)⟩

end Playback

end TermScene
