import TermScene.Proofs.Playback.Announcement
import TermScene.Proofs.Playback.Typing

/-!
# How long a run takes

The report measures a run from its start to the turn that completes the scenario. That is what
the actions take one after another (`elapsed_turns`), each a time that its own parts, the setup
and the typing speed in force give in closed form (`Plan.duration_of`). Scrolls that outlast
their actions do not count, nor does anything that only concerns what is shown (`run_lasts`).
-/

namespace TermScene

open Agenda

/-! ## The time of one action -/

/-- The nanoseconds for one typed character at a speed. -/
def characterTime (config : Config) (speed : Double) : Nat :=
  ((Double.ofNat config.baseTypingTimeout).div speed).toNatUpTo (UInt64.size - 1)

/-- Its literals are of the kind that it has a use for. -/
def Action.WellKinded : Action → Prop
  | input parts => ∀ part ∈ parts, part.Suits .typed
  | output parts => ∀ part ∈ parts, part.Suits .printed
  | paste parts => ∀ part ∈ parts, part.Suits .pasted
  | _ => True

theorem Action.wellKinded_of_sound {a : Action} (sound : Defect.of? a = none) : a.WellKinded := by
  cases a with
  | input parts => exact Defect.inParts_eq_none_iff.1 sound
  | output parts => exact Defect.inParts_eq_none_iff.1 sound
  | paste parts => exact Defect.inParts_eq_none_iff.1 sound
  | _ => trivial

/-- How long an action takes at a typing speed. -/
def Action.span (config : Config) (speed : Double) : Action → Nat
  | input parts => lasting (Part.inputTime (characterTime config speed)) parts
  | output parts => config.outputPriming + lasting Plan.pause parts
  | paste parts => config.pastePart * parts.countP Part.isLiteral + lasting Plan.pause parts
  | delay ns => ns
  | _ => config.settle

/-- How long actions take, each at the speed that the last action before it has set. -/
def runningTime (config : Config) (actions : List Action) : Nat :=
  lasting (fun (a, i) => a.span config (lastOf Action.speedSet? .one (actions.take i)))
    actions.zipIdx

namespace Plan

theorem total_inputCost (timeout : Nat) {parts : List Part}
    (typed : ∀ part ∈ parts, part.Suits .typed) (countable : ∀ part ∈ parts, part.Countable) :
    total (inputCost timeout) parts = lasting (Part.inputTime timeout) parts :=
  total_eq_lasting fun part mem => inputCost_eq timeout (typed part mem) (countable part mem)

theorem total_pasteCost (chunk : Nat) {parts : List Part}
    (pasted : ∀ part ∈ parts, part.Suits .pasted) :
    total (pasteCost chunk) parts = chunk * parts.countP Part.isLiteral + lasting pause parts := by
  induction parts with
  | nil => rfl
  | cons part rest ih =>
    obtain ⟨here, others⟩ := List.forall_mem_cons.1 pasted
    rw [total_cons, ih others, lasting_cons]
    cases part with
    | token t =>
      rw [List.countP_cons_of_neg (by simp [Part.isLiteral])]
      exact Nat.add_left_comm ..
    | literal kind text =>
      obtain rfl : kind = .pasted := here
      rw [List.countP_cons_of_pos rfl, Nat.mul_succ]
      show chunk + _ = _ + (0 + _)
      omega

/-- An action takes the time that its parts and the setup give. -/
theorem duration_of (config : Config) (s : State) {a : Action} (kinded : a.WellKinded)
    (countable : a.Countable) : (of config s a).duration = a.span config s.typingSpeed := by
  cases a with
  | input parts => exact total_inputCost _ kinded countable
  | output parts => rfl
  | paste parts => exact total_pasteCost _ kinded
  | _ => rfl

end Plan

/-! ## The time of a run -/

theorem elapsed_eq_lasting (turns : List Turn) :
    elapsed turns = lasting (fun t => t.plan.duration) turns := by
  induction turns with
  | nil => rfl
  | cons t more ih => rw [elapsed, ih]; rfl

theorem elapsed_timeline (config : Config) (start : Nat) {actions : List Action}
    (kinded : ∀ a ∈ actions, a.WellKinded) (countable : ∀ a ∈ actions, a.Countable) :
    elapsed (timeline config (.initial config) start actions) = runningTime config actions := by
  rw [elapsed_eq_lasting, timeline_eq_map_zipIdx, lasting_map]
  refine lasting_congr ?_
  rintro ⟨a, i⟩ mem
  have here : a ∈ actions := List.mem_of_getElem? (List.mem_zipIdx_iff_getElem?.1 mem)
  let s := (actions.take i).foldl State.after (.initial config)
  have speed : s.typingSpeed = lastOf Action.speedSet? .one (actions.take i) :=
    congrArg State.typingSpeed (State.latest_eq_foldl config (actions.take i)).symm
  have spans := Plan.duration_of config s (kinded a here) (countable a here)
  rw [speed] at spans
  exact spans

theorem elapsed_turns {σ : Type} (p : Playback σ) {actions : List Action}
    (sound : ∀ a ∈ actions, Defect.of? a = none) (countable : ∀ a ∈ actions, a.Countable) :
    elapsed (p.turns actions) = runningTime p.player.config actions :=
  elapsed_timeline _ _ (fun a mem => Action.wellKinded_of_sound (sound a mem)) countable

/-! ## What the time does not depend on -/

/-- The setup without what only concerns what is shown, and without the scroll step. -/
def Config.pace (c : Config) : Config :=
  { c with scrollStep := 0, prompt := none, promptColor := 0 }

/-- What of a part takes time: a pause, a pasted text, and the characters of a typed one. -/
def Part.timing : Part → Option Part
  | .literal .typed text => some (.literal .typed (List.replicate text.length ' '))
  | .literal .pasted _ => some (.literal .pasted [])
  | .token (.delay ms) => some (.token (.delay ms))
  | _ => none

/-- What of an action takes time, or sets how much time others take. -/
def Action.timing : Action → Action
  | .input parts => .input (parts.filterMap Part.timing)
  | .output parts => .output (parts.filterMap Part.timing)
  | .paste parts => .paste (parts.filterMap Part.timing)
  | .delay ns => .delay ns
  | .typingSpeed multiplier => .typingSpeed multiplier
  | _ => .clear

theorem Part.pause_timing (part : Part) :
    Plan.pause part = (part.timing.map Plan.pause).getD 0 := by
  cases part with
  | literal kind text => cases kind <;> rfl
  | token t => cases t <;> rfl

theorem Part.inputTime_timing (timeout : Nat) {part : Part} (typed : part.Suits .typed) :
    part.inputTime timeout = (part.timing.map (Part.inputTime timeout)).getD 0 := by
  cases part with
  | token t => cases t <;> rfl
  | literal kind text =>
    obtain rfl : kind = .typed := typed
    show _ = timeout * ((List.replicate text.length ' ').length + 1)
    rw [List.length_replicate]
    rfl

theorem Part.countP_timing {parts : List Part} (pasted : ∀ part ∈ parts, part.Suits .pasted) :
    (parts.filterMap Part.timing).countP Part.isLiteral = parts.countP Part.isLiteral := by
  rw [List.countP_filterMap]
  refine List.countP_congr fun part mem => ?_
  cases part with
  | token t => cases t <;> simp [Part.timing, Part.isLiteral]
  | literal kind text =>
    obtain rfl : kind = .pasted := pasted _ mem
    simp [Part.timing, Part.isLiteral]

theorem Action.speedSet?_timing (a : Action) : a.timing.speedSet? = a.speedSet? := by
  cases a <;> rfl

theorem Action.span_timing (config : Config) (speed : Double) {a : Action}
    (sound : Defect.of? a = none) : a.timing.span config.pace speed = a.span config speed := by
  have pauses (parts : List Part) :
      lasting Plan.pause (parts.filterMap Part.timing) = lasting Plan.pause parts :=
    (lasting_filterMap fun part _ => part.pause_timing).symm
  cases a with
  | input parts =>
    have typed : ∀ part ∈ parts, part.Suits .typed := Defect.inParts_eq_none_iff.1 sound
    exact (lasting_filterMap fun part mem => Part.inputTime_timing _ (typed part mem)).symm
  | output parts => exact congrArg (config.outputPriming + ·) (pauses parts)
  | paste parts =>
    have count := Part.countP_timing (Defect.inParts_eq_none_iff.1 sound)
    show config.pastePart * (parts.filterMap Part.timing).countP Part.isLiteral + _ = _
    rw [count, pauses]
    rfl
  | _ => rfl

theorem runningTime_timing (config : Config) {actions : List Action}
    (sound : ∀ a ∈ actions, Defect.of? a = none) :
    runningTime config.pace (actions.map Action.timing) = runningTime config actions := by
  rw [runningTime, List.zipIdx_map, lasting_map]
  refine lasting_congr ?_
  rintro ⟨a, i⟩ mem
  have here : a ∈ actions := List.mem_of_getElem? (List.mem_zipIdx_iff_getElem?.1 mem)
  have speed : lastOf Action.speedSet? .one ((actions.map Action.timing).take i) =
      lastOf Action.speedSet? .one (actions.take i) := by
    have same : Action.speedSet? ∘ Action.timing = Action.speedSet? :=
      funext Action.speedSet?_timing
    rw [lastOf, ← List.map_take, List.filterMap_map, same]
    rfl
  show a.timing.span config.pace (lastOf _ _ ((actions.map Action.timing).take i)) = a.span _ _
  rw [speed, Action.span_timing config _ (sound a here)]

namespace Playback

variable {σ : Type} [Sink σ]

/-- **A run takes the time that its actions take one after another.** That is the same for every
scroll, for every text that is not typed, for every color and whenever the run begins. -/
theorem run_lasts {p : Playback σ} {actions : List Action} {sink : σ}
    (h : p.Undisturbed actions sink) (countable : ∀ a ∈ actions, a.Countable) :
    (∃ report q, (p.withPlayer (·.load actions)).run none = .ok (.finished report, q)) ∧
    (∀ cancel report q, (p.withPlayer (·.load actions)).run cancel = .ok (.finished report, q) →
      report.actions = actions.length ∧
        report.elapsed = runningTime p.player.config actions) ∧
    ∀ {τ : Type} [Sink τ] {p' : Playback τ} {actions' : List Action} {sink' : τ},
      p'.Undisturbed actions' sink' → (∀ a ∈ actions', a.Countable) →
      p'.player.config.pace = p.player.config.pace →
      actions'.map Action.timing = actions.map Action.timing →
      ∃ report q, (p'.withPlayer (·.load actions')).run none = .ok (.finished report, q) ∧
        report.elapsed = runningTime p.player.config actions := by
  obtain ⟨q, ran, -⟩ := run_of_undisturbed h
  refine ⟨⟨_, q, ran⟩, ?_, ?_⟩
  · intro cancel report r ran'
    have fresh := p.player.fresh_load actions
    obtain ⟨fired, c, ends, -⟩ := ends_of_run fresh.loaded ran'
    obtain ⟨rfl, -⟩ := (completed_of_ends ends fresh).1 report rfl
    exact ⟨rfl, elapsed_turns p h.sound countable⟩
  · intro τ _ p' actions' sink' h' countable' config similar
    obtain ⟨q', ran', -⟩ := run_of_undisturbed h'
    refine ⟨_, q', ran', (elapsed_turns p' h'.sound countable').trans ?_⟩
    rw [← runningTime_timing _ h'.sound, config, similar, runningTime_timing _ h.sound]

/-- Typing at two speeds, next to a scroll that outlasts its action, and the same time with other
texts and no scroll. -/
theorem run_lasts_at_two_speeds :
    let parts : List Part := [.literal .typed ['a', 'b'], .token (.delay 5)]
    let actions : List Action := [.input parts, .typingSpeed (.ofNat 2), .input parts, .scroll 40,
      .output [.literal .printed ['c'], .token (.delay 7)], .paste [.literal .pasted ['d']]]
    let actions' : List Action := [.input parts, .typingSpeed (.ofNat 2),
      .input [.token (.beginColor none 1), .literal .typed ['\\', 'b'], .token (.delay 5)],
      .prompt none, .output [.token (.delay 7)],
      .paste [.literal .pasted ['e', 'f'], .token .endColor]]
    let p : Playback Recorder := .new .default (Recorder.new none none)
    (∃ report q, (p.withPlayer (·.load actions)).run none = .ok (.finished report, q) ∧
      report.actions = 6 ∧ report.elapsed = Time.ofMillis 867) ∧
    ∃ report q, (p.withPlayer (·.load actions')).run none = .ok (.finished report, q) ∧
      report.elapsed = Time.ofMillis 867 := by
  intro parts actions actions' p
  have countable : ∀ a ∈ actions, a.Countable := by
    simp [actions, parts, Action.Countable, Part.Countable, UInt32.size]
  have countable' : ∀ a ∈ actions', a.Countable := by
    simp [actions', parts, Action.Countable, Part.Countable, UInt32.size]
  have sound : ∀ a ∈ actions, Defect.of? a = none := by decide +kernel
  have sound' : ∀ a ∈ actions', Defect.of? a = none := by decide +kernel
  have fits : ∀ t ∈ p.turns actions, t.overflow? = none := by decide +kernel
  have fits' : ∀ t ∈ p.turns actions', t.overflow? = none := by decide +kernel
  have length : runningTime .default actions = Time.ofMillis 867 := by decide +kernel
  obtain ⟨⟨report, q, ran⟩, lasts, others⟩ :=
    run_lasts (.of_feed sound fits (Recorder.feed_new _)) countable
  obtain ⟨report', q', ran', same⟩ :=
    others (.of_feed sound' fits' (Recorder.feed_new _)) countable' rfl (by decide +kernel)
  obtain ⟨count, elapsed⟩ := lasts none report q ran
  exact ⟨⟨report, q, ran, count, elapsed.trans length⟩, report', q', ran', same.trans length⟩

end Playback

end TermScene
