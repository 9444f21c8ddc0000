import TermScene.Proofs.Playback.Pacing
import TermScene.Proofs.Playback.Restart

/-!
# Dispatching step by step

A turn goes on with all of its plan or not at all; what has been registered when a time overflows
is lost with the run. Here a plan is made one step after another, so that the player can be seen
at the step that overflows (`Player.attempt`). Main statement: a turn is such an attempt
(`advance_eq_attempt`).
-/

namespace TermScene

namespace Player

/-- Makes one step: an operation is registered, a duration leaves no trace. -/
def make (now : Nat) (p : Player) : Step → Player
  | .emit offset op => { p with queue := p.queue.push (now + offset) (.emit op) }
  | .hold _ _ => p

/-- Makes steps one after another, up to the first that overflows. -/
def makeAll (now : Nat) : Player → List Step → Player × Option Overflow
  | p, [] => (p, none)
  | p, step :: more =>
    match step.overflow? now with
    | some cause => (p, some cause)
    | none => makeAll now (p.make now step) more

/-- Dispatches an action step by step. The state is changed first, and the turn of the next
action is registered last. -/
def attempt (p : Player) (index now : Nat) (a : Action) : Player × Option Overflow :=
  let plan := Plan.of p.config p.state a
  match makeAll now { p with state := p.state.after a, phase := .running index } plan.steps with
  | (q, some cause) => (q, some cause)
  | (q, none) =>
    if now + plan.duration < Time.instantLimit then
      ({ q with queue := q.queue.push (now + plan.duration) (.advance (index + 1)) }, none)
    else (q, some .instant)

variable {now : Nat}

theorem makeAll_snd (p : Player) (steps : List Step) :
    (makeAll now p steps).2 = steps.findSome? (Step.overflow? now) := by
  induction steps generalizing p with
  | nil => rfl
  | cons step more ih =>
    rw [makeAll, List.findSome?_cons]
    cases step.overflow? now with
    | some cause => rfl
    | none => exact ih _

/-- If no step overflows, every operation is registered. -/
theorem makeAll_of_fits (p : Player) {steps : List Step}
    (fits : ∀ step ∈ steps, step.overflow? now = none) :
    makeAll now p steps =
      ({ p with queue := enqueue p.queue now (Plan.emitted steps) }, none) := by
  induction steps generalizing p with
  | nil => rfl
  | cons step more ih =>
    obtain ⟨here, others⟩ := List.forall_mem_cons.1 fits
    rw [makeAll, here]
    cases step with
    | emit offset op => exact ih _ others
    | hold operation duration => exact ih _ others

/-- Behind a step that overflows, none is made. -/
theorem makeAll_append {p q : Player} {steps : List Step} {cause : Overflow}
    (overflows : makeAll now p steps = (q, some cause)) (more : List Step) :
    makeAll now p (steps ++ more) = (q, some cause) := by
  induction steps generalizing p with
  | nil => cases overflows
  | cons step rest ih =>
    rw [makeAll] at overflows
    rw [List.cons_append, makeAll]
    cases exceeds : step.overflow? now with
    | some cause' =>
      rw [exceeds] at overflows
      exact overflows
    | none =>
      rw [exceeds] at overflows
      exact ih overflows

/-- Steps that emit nothing leave the player as it is, wherever they stop. -/
theorem makeAll_of_silent (p : Player) {steps : List Step} (silent : Plan.emitted steps = []) :
    makeAll now p steps = (p, steps.findSome? (Step.overflow? now)) := by
  induction steps with
  | nil => rfl
  | cons step more ih =>
    cases step with
    | emit offset op => cases silent
    | hold operation duration =>
      rw [makeAll, List.findSome?_cons]
      cases (Step.hold operation duration).overflow? now with
      | some cause => rfl
      | none => exact ih silent

/-- What overflows in an attempt is what overflows first in the plan. -/
theorem attempt_snd (p : Player) (index now : Nat) (a : Action) :
    (p.attempt index now a).2 = (Plan.of p.config p.state a).overflow? now := by
  let begun := { p with state := p.state.after a, phase := .running index }
  have outcome : (makeAll now begun (Plan.of p.config p.state a).steps).2 = _ := makeAll_snd _ _
  unfold attempt Plan.overflow?
  rw [← outcome]
  dsimp only
  split
  · next made => rw [made]
  · next made =>
    rw [made]
    split <;> rfl

/-- An attempt in which nothing overflows dispatches the action. -/
theorem attempt_of_fits {p : Player} {now : Nat} {a : Action}
    (fits : (Plan.of p.config p.state a).overflow? now = none) (index : Nat) :
    p.attempt index now a = (p.dispatched index now a (.of p.config p.state a), none) := by
  obtain ⟨steps, next⟩ := Plan.overflow?_eq_none_iff.1 fits
  unfold attempt
  dsimp only
  rw [makeAll_of_fits _ steps]
  exact if_pos next

end Player

namespace Performance

variable {σ : Type}

/-- **The turn of an action without a defect is an attempt to dispatch it**; an overflow leaves
nothing of the player. -/
theorem advance_eq_attempt {run : Run} {index : Nat} {a : Action}
    (action : run.actions[index]? = some a) (sound : Defect.of? a = none) (now : Nat)
    (c : Performance σ) :
    c.advance run index now =
      match c.player.attempt index now a with
      | (player, none) => .more { c with player := player }
      | (_, some cause) => .overflow cause := by
  cases exceeds : (Plan.of c.player.config c.player.state a).overflow? now with
  | none => rw [advance_of_sound action sound exceeds, Player.attempt_of_fits exceeds]
  | some cause =>
    have attempted : c.player.attempt index now a = (_, some cause) :=
      Prod.ext rfl ((c.player.attempt_snd index now a).trans exceeds)
    rw [attempted]
    simp only [advance, action, sound, exceeds]

end Performance

end TermScene
