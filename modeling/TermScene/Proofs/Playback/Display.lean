import TermScene.Proofs.Playback.Pacing
import TermScene.Proofs.Playback.Schedule

/-!
# What a run shows

Scrolling apart, a run shows what its actions queue, one action after another
(`keep_schedule`): each action is over before the next one shows anything. What an action
queues does not depend on any duration (`shown_untimed`), so neither does what a run shows
(`run_shows`).
-/

namespace TermScene

open Agenda

/-! ## One action after another -/

theorem within_emissions (config : Config) (s : State) (start : Nat) {a : Action}
    (h : a.Countable) : Within start (Turn.finish ⟨start, .of config s a⟩)
      (keep TerminalOp.shown? (Turn.emissions ⟨start, .of config s a⟩)) := by
  have mono (m n : Nat) (le : m ≤ n) (_ : n ≤ (Plan.of config s a).duration) :
      start + m ≤ start + n := Nat.add_le_add_left le _
  have shifted := (Plan.within_of config s h).map mono
  rw [← keep_map] at shifted
  exact shifted

theorem within_timeline (config : Config) (s : State) (start : Nat) {actions : List Action}
    (h : ∀ a ∈ actions, a.Countable) :
    Within start (start + elapsed (timeline config s start actions))
      ((timeline config s start actions).flatMap fun t => keep TerminalOp.shown? t.emissions) := by
  induction actions generalizing s start with
  | nil => exact .nil _ _
  | cons a more ih =>
    have first := within_emissions config s start (h a List.mem_cons_self)
    have others (s : State) (start : Nat) :=
      ih s start fun a ha => h a (List.mem_cons_of_mem _ ha)
    rw [timeline, List.flatMap_cons, elapsed, ← Nat.add_assoc]
    exact first.append (others _ _) (Nat.le_add_right _ _) (Nat.le_add_right _ _)

/-- The schedule leaves in place what does not scroll. -/
theorem keep_schedule (config : Config) (s : State) (start : Nat) {actions : List Action}
    (h : ∀ a ∈ actions, a.Countable) :
    keep TerminalOp.shown? (schedule (timeline config s start actions)) =
      (timeline config s start actions).flatMap fun t => keep TerminalOp.shown? t.emissions := by
  rw [schedule, keep_arrange, keep_flatMap]
  exact arrange_eq_self (within_timeline config s start h).inOrder

/-- What a plan shows, in the order in which it is queued. -/
def Plan.shown (p : Plan) : List TerminalOp := (p.emits.map (·.2)).filterMap TerminalOp.shown?

/-- What a sink is told to show. -/
def shown (records : List Record) : List TerminalOp := records.filterMap (·.op.shown?)

theorem shown_punctual (l : List (Nat × TerminalOp)) :
    shown (l.map punctual) = (keep TerminalOp.shown? l).map (·.2) := by
  rw [shown, List.filterMap_map, map_snd_keep, List.filterMap_map]
  rfl

theorem shown_emissions (t : Turn) :
    (keep TerminalOp.shown? t.emissions).map (·.2) = t.plan.shown := by
  rw [map_snd_keep, Turn.emissions, List.map_map]
  rfl

theorem shown_schedule (config : Config) (s : State) (start : Nat) {actions : List Action}
    (h : ∀ a ∈ actions, a.Countable) :
    shown ((schedule (timeline config s start actions)).map punctual) =
      (timeline config s start actions).flatMap fun t => t.plan.shown := by
  rw [shown_punctual, keep_schedule _ _ _ h, List.map_flatMap]
  exact List.flatMap_congr fun t _ => shown_emissions t

/-! ## Without durations -/

/-- The setup with all its durations at zero. -/
def Config.untimed (c : Config) : Config where
  baseTypingTimeout := 0
  settle := 0
  outputPriming := 0
  pastePart := 0
  scrollStep := 0
  prompt := c.prompt
  promptColor := c.promptColor

def Part.untimed : Part → Part
  | .token (.delay _) => .token (.delay 0)
  | part => part

/-- The action without what only concerns time and scrolling. -/
def Action.untimed : Action → Action
  | .input parts => .input (parts.map Part.untimed)
  | .output parts => .output (parts.map Part.untimed)
  | .paste parts => .paste (parts.map Part.untimed)
  | .delay _ => .delay 0
  | .typingSpeed _ => .typingSpeed .one
  | .scroll _ => .scroll 0
  | a => a

theorem Part.countable_untimed (part : Part) : part.untimed.Countable ↔ part.Countable := by
  cases part with
  | literal kind text => exact Iff.rfl
  | token t => cases t <;> exact Iff.rfl

theorem Action.countable_untimed (a : Action) : a.untimed.Countable ↔ a.Countable := by
  cases a with
  | input parts =>
    have each : (∀ part ∈ parts.map Part.untimed, part.Countable) ↔
        ∀ part ∈ parts, part.untimed.Countable := List.forall_mem_map
    refine each.trans ?_
    simp only [Part.countable_untimed]
    exact Iff.rfl
  | _ => exact Iff.rfl

theorem forall_countable_of_untimed {actions actions' : List Action}
    (h : ∀ a ∈ actions, a.Countable)
    (similar : actions'.map Action.untimed = actions.map Action.untimed) :
    ∀ a ∈ actions', a.Countable := by
  have untimed : ∀ a ∈ actions'.map Action.untimed, a.Countable := by
    rw [similar]
    exact List.forall_mem_map.2 fun a ha => a.countable_untimed.2 (h a ha)
  intro a ha
  exact a.countable_untimed.1 (List.forall_mem_map.1 untimed a ha)

def State.untimed (s : State) : State := { s with typingSpeed := .one }

theorem State.untimed_initial (config : Config) :
    (State.initial config).untimed = State.initial config.untimed := rfl

theorem State.untimed_after (s : State) (a : Action) :
    (s.after a).untimed = s.untimed.after a.untimed := by
  cases a with
  | margin axis px => cases axis <;> rfl
  | _ => rfl

namespace Plan

def ops (steps : List Step) : List TerminalOp := (emitted steps).map (·.2)

theorem ops_append (l m : List Step) : ops (l ++ m) = ops l ++ ops m := by
  rw [ops, emitted_append, List.map_append]
  rfl

theorem ops_emit (offset : Nat) (op : TerminalOp) (more : List Step) :
    ops (.emit offset op :: more) = op :: ops more := rfl

/-- If the operations of each part stay the same, so do the operations of all. -/
theorem ops_walk {own own' : Nat → Part → List Part → List Step} {cost cost' : Part → Nat}
    (h : ∀ cursor cursor' part rest, ops (own cursor part rest) =
      ops (own' cursor' part.untimed (rest.map Part.untimed)))
    (cursor cursor' : Nat) (parts : List Part) :
    ops (walk own cost cursor parts) = ops (walk own' cost' cursor' (parts.map Part.untimed)) := by
  induction parts generalizing cursor cursor' with
  | nil => rfl
  | cons part rest ih =>
    rw [List.map_cons, walk, walk, ops_append, ops_append, h cursor cursor']
    exact congrArg _ (ih _ _)

theorem ops_typingSteps (timeout timeout' cursor cursor' : Nat) (part : Part) (rest : List Part) :
    ops (typingSteps timeout cursor part rest) =
      ops (typingSteps timeout' cursor' part.untimed (rest.map Part.untimed)) := by
  have strokes (timeout cursor : Nat) (text : Text) (rest : List Part) :
      ops (typingSteps timeout cursor (.literal .typed text) rest) =
        (keystrokes 0 text).map (·.2) := by
    rw [ops, emitted_typingSteps, List.map_map]
    rfl
  cases part with
  | token t => cases t <;> rfl
  | literal kind text =>
    cases kind with
    | typed => exact (strokes _ _ _ _).trans (strokes _ _ _ _).symm
    | printed => rfl
    | pasted => rfl

theorem breaksBefore_untimed (rest : List Part) :
    Part.breaksBefore (rest.map Part.untimed) = Part.breaksBefore rest := by
  cases rest with
  | nil => rfl
  | cons part rest =>
    cases part with
    | literal kind text => rfl
    | token t => cases t <;> rfl

theorem ops_printingSteps (cursor cursor' : Nat) (part : Part) (rest : List Part) :
    ops (printingSteps cursor part rest) =
      ops (printingSteps cursor' part.untimed (rest.map Part.untimed)) := by
  cases part with
  | token t => cases t <;> rfl
  | literal kind text =>
    cases kind with
    | typed => rfl
    | pasted => rfl
    | printed =>
      have same : (Part.literal .printed text).untimed = .literal .printed text := rfl
      rw [same, printingSteps, printingSteps, breaksBefore_untimed]
      generalize text ++ _ = line
      split <;> rfl

theorem ops_pasteSteps (cursor cursor' : Nat) (part : Part) (rest : List Part) :
    ops (pasteSteps cursor part rest) =
      ops (pasteSteps cursor' part.untimed (rest.map Part.untimed)) := by
  cases part with
  | token t => cases t <;> rfl
  | literal kind text => cases kind <;> rfl

theorem ops_sumSteps (cost : Part → Nat) (seconds nanos : Nat) (parts : List Part) :
    ops (sumSteps cost seconds nanos parts) = [] := by
  rw [ops, emitted_sumSteps]
  rfl

theorem ops_promptSteps (config : Config) (s : State) :
    ops (promptSteps config s) = ops (promptSteps config.untimed s.untimed) := by
  unfold promptSteps
  cases h : s.prompt with
  | none =>
    have none : s.untimed.prompt = none := h
    rw [none]
  | some prompt =>
    have some : s.untimed.prompt = some prompt := h
    rw [some]
    rfl

theorem ops_input (config : Config) (s : State) (parts : List Part) :
    ops (input config s parts).steps =
      ops (input config.untimed s.untimed (parts.map Part.untimed)).steps := by
  rw [input, input, ops_append, ops_append, ops_append, ops_append, ops_append, ops_append,
    inputDuration, inputDuration, ops_sumSteps, ops_sumSteps, ops_promptSteps config s,
    ops_walk (ops_typingSteps (s.typingTimeout config.baseTypingTimeout)
      (s.untimed.typingTimeout config.untimed.baseTypingTimeout)) 0 0 parts, ops_emit, ops_emit]

theorem ops_paste (config : Config) (s : State) (parts : List Part) :
    ops (paste config s parts).steps =
      ops (paste config.untimed s.untimed (parts.map Part.untimed)).steps := by
  rw [paste, paste, ops_append, ops_append, ops_append, ops_append, ops_promptSteps config s,
    ops_walk ops_pasteSteps 0 0 parts, ops_emit, ops_emit]

/-- What an action shows does not depend on any duration. -/
theorem shown_untimed (config : Config) (s : State) (a : Action) :
    (of config s a).shown = (of config.untimed s.untimed a.untimed).shown := by
  have same {p q : Plan} (h : ops p.steps = ops q.steps) : p.shown = q.shown :=
    congrArg (List.filterMap TerminalOp.shown?) h
  cases a with
  | input parts => exact same (ops_input config s parts)
  | output parts => exact same (ops_walk ops_printingSteps _ _ parts)
  | paste parts => exact same (ops_paste config s parts)
  | scroll lines =>
    have none (step : Nat) (lines : Int32) (last : Nat) :
        (Plan.mk (scrollSteps step lines) last).shown = [] := by
      have kept := keep_scrollSteps step lines
      rw [shown, ← map_snd_keep]
      exact congrArg _ kept
    exact (none _ _ _).trans (none _ _ _).symm
  | margin axis px => cases axis <;> rfl
  | _ => rfl

end Plan

theorem flatMap_shown_untimed (config : Config) (s : State) (start start' : Nat)
    (actions : List Action) :
    ((timeline config s start actions).flatMap fun t => t.plan.shown) =
      (timeline config.untimed s.untimed start' (actions.map Action.untimed)).flatMap
        fun t => t.plan.shown := by
  induction actions generalizing s start start' with
  | nil => rfl
  | cons a more ih =>
    rw [List.map_cons, timeline, timeline, List.flatMap_cons, List.flatMap_cons,
      ih (s.after a) _ (start' + (Plan.of config.untimed s.untimed a.untimed).duration),
      State.untimed_after, Plan.shown_untimed]

namespace Playback

variable {σ : Type} [Sink σ]

/-- **What a run shows does not depend on time.** It is what the actions queue, one after
another, and the same for every setup, every pause, every typing speed and every scrolling. -/
theorem run_shows {p : Playback σ} {actions : List Action} {sink : σ}
    (h : p.Undisturbed actions sink) (countable : ∀ a ∈ actions, a.Countable) :
    (∃ q, (p.withPlayer (·.load actions)).run none = .ok (.finished (p.reportOn actions), q) ∧
      q.sink = sink ∧
      shown (p.script actions) = (p.turns actions).flatMap fun t => t.plan.shown) ∧
    ∀ {τ : Type} [Sink τ] {p' : Playback τ} {actions' : List Action} {sink' : τ},
      p'.Undisturbed actions' sink' → p'.player.config.untimed = p.player.config.untimed →
      actions'.map Action.untimed = actions.map Action.untimed →
      ∃ q', (p'.withPlayer (·.load actions')).run none =
          .ok (.finished (p'.reportOn actions'), q') ∧
        q'.sink = sink' ∧ shown (p'.script actions') = shown (p.script actions) := by
  refine ⟨?_, ?_⟩
  · obtain ⟨q, ran, same, -⟩ := run_of_undisturbed h
    exact ⟨q, ran, same, shown_schedule _ _ _ countable⟩
  · intro τ _ p' actions' sink' h' config similar
    obtain ⟨q', ran, same, -⟩ := run_of_undisturbed h'
    have countable' := forall_countable_of_untimed countable similar
    refine ⟨q', ran, same, ?_⟩
    rw [script, script, turns, turns, shown_schedule _ _ _ countable',
      shown_schedule _ _ _ countable,
      flatMap_shown_untimed _ _ _ 0, flatMap_shown_untimed p.player.config _ _ 0,
      State.untimed_initial, State.untimed_initial, config, similar]

/-- A scroll that runs into typed input, and one that is over before it. -/
theorem shows_after_scroll :
    let p : Playback Recorder := .new .default (Recorder.new none none)
    let p' : Playback Recorder :=
      .new { Config.default with scrollStep := 0 } (Recorder.new none none)
    ∃ q q', ((p.withPlayer (·.load [.scroll 12, .input [.literal .typed ['a']]])).run none).map
        (·.2.sink) = .ok q ∧
      ((p'.withPlayer (·.load [.scroll 1, .input [.literal .typed ['a']]])).run none).map
        (·.2.sink) = .ok q' ∧
      q.log.size = 18 ∧ q'.log.size = 7 ∧ shown q.log.toList = shown q'.log.toList := by
  intro p p'
  have sound : ∀ a ∈ [Action.scroll 12, .input [.literal .typed ['a']]], Defect.of? a = none := by
    decide
  have sound' : ∀ a ∈ [Action.scroll 1, .input [.literal .typed ['a']]], Defect.of? a = none := by
    decide
  have countable : ∀ a ∈ [Action.scroll 12, .input [.literal .typed ['a']]], a.Countable := by
    intro a ha
    rcases List.mem_cons.1 ha with rfl | ha
    · exact trivial
    · obtain rfl := List.mem_singleton.1 ha
      intro part hp
      obtain rfl := List.mem_singleton.1 hp
      exact (by decide : ['a'].length + 1 < UInt32.size)
  have fits : ∀ t ∈ p.turns [.scroll 12, .input [.literal .typed ['a']]], t.overflow? = none := by
    decide +kernel
  have fits' : ∀ t ∈ p'.turns [.scroll 1, .input [.literal .typed ['a']]], t.overflow? = none := by
    decide +kernel
  have takes : (Sink.feed p.sink (p.script [.scroll 12, .input [.literal .typed ['a']]])).2 =
      none := by
    rw [script, schedule, arrange_eq_foldl]
    decide +kernel
  have takes' : (Sink.feed p'.sink (p'.script [.scroll 1, .input [.literal .typed ['a']]])).2 =
      none := by
    rw [script, schedule, arrange_eq_foldl]
    decide +kernel
  obtain ⟨⟨q, ran, same, -⟩, others⟩ := run_shows (.of_feed sound fits takes) countable
  obtain ⟨q', ran', same', -⟩ := others (.of_feed sound' fits' takes') rfl rfl
  refine ⟨q.sink, q'.sink, by rw [ran]; rfl, by rw [ran']; rfl, ?_⟩
  rw [same, same', script, script, schedule, schedule, arrange_eq_foldl, arrange_eq_foldl]
  decide +kernel

end Playback

end TermScene
