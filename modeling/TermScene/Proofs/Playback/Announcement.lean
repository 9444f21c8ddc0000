import TermScene.Proofs.Playback.Pacing
import TermScene.Proofs.Playback.Schedule

/-!
# What actions set and announce

Each field of the state holds what the last action has set that sets it, and what the setup
gives if none has (`State.foldl_after`). Margins and cursor are announced to the sink, too, as
they are after the action. An announcement is due when its action has its turn, so that the
sink is told in the order of the actions (`Announces.keep_schedule`), and at last what the state
holds in the end (`Announces.lastOf_timeline`).
-/

namespace TermScene

open Agenda

/-! ## The fields of the state -/

/-- The last value that a function has on a list, or the one from before. -/
def lastOf {α β : Type} (f : α → Option β) (before : β) (l : List α) : β :=
  (l.filterMap f).getLast?.getD before

section

variable {α β : Type} (f : α → Option β)

theorem lastOf_cons (before : β) (a : α) (l : List α) :
    lastOf f before (a :: l) = lastOf f ((f a).getD before) l := by
  unfold lastOf
  cases h : f a with
  | none => rw [List.filterMap_cons_none h]; rfl
  | some b => rw [List.filterMap_cons_some h, List.getLast?_cons]; rfl

theorem lastOf_append (before : β) (l m : List α) :
    lastOf f before (l ++ m) = lastOf f (lastOf f before l) m := by
  induction l generalizing before with
  | nil => rfl
  | cons a l ih => rw [List.cons_append, lastOf_cons, ih, lastOf_cons]

end

namespace Action

def promptSet? : Action → Option (Option Text)
  | prompt text => some text
  | _ => none

def speedSet? : Action → Option Double
  | typingSpeed multiplier => some multiplier
  | _ => none

def cursorSet? : Action → Option Bool
  | cursor visible => some visible
  | _ => none

def marginSet? (axis : Axis) : Action → Option Int32
  | margin axis' px => if axis' = axis then some px else none
  | _ => none

def setsMargin : Action → Bool
  | margin _ _ => true
  | _ => false

def setsCursor : Action → Bool
  | cursor _ => true
  | _ => false

end Action

namespace State

/-- The state that holds what the last of some actions has set, field by field. -/
def latest (config : Config) (actions : List Action) : State where
  prompt := lastOf Action.promptSet? config.prompt actions
  typingSpeed := lastOf Action.speedSet? .one actions
  cursorVisible := lastOf Action.cursorSet? true actions
  marginX := lastOf (Action.marginSet? .x) 0 actions
  marginY := lastOf (Action.marginSet? .y) 0 actions

def margins (s : State) : Int32 × Int32 := (s.marginX, s.marginY)

/-- An action sets its own field and leaves all others alone. -/
theorem after_eq (s : State) (a : Action) : s.after a =
    ⟨a.promptSet?.getD s.prompt, a.speedSet?.getD s.typingSpeed,
      a.cursorSet?.getD s.cursorVisible, (a.marginSet? .x).getD s.marginX,
      (a.marginSet? .y).getD s.marginY⟩ := by
  cases a with
  | margin axis px => cases axis <;> rfl
  | _ => rfl

theorem foldl_after (s : State) (actions : List Action) : actions.foldl after s =
    ⟨lastOf Action.promptSet? s.prompt actions, lastOf Action.speedSet? s.typingSpeed actions,
      lastOf Action.cursorSet? s.cursorVisible actions,
      lastOf (Action.marginSet? .x) s.marginX actions,
      lastOf (Action.marginSet? .y) s.marginY actions⟩ := by
  induction actions generalizing s with
  | nil => rfl
  | cons a more ih => simp only [List.foldl_cons, ih, after_eq, lastOf_cons]

theorem latest_eq_foldl (config : Config) (actions : List Action) :
    latest config actions = actions.foldl after (.initial config) :=
  (foldl_after (.initial config) actions).symm

theorem latest_append (config : Config) (l m : List Action) :
    latest config (l ++ m) = m.foldl after (latest config l) := by
  rw [latest_eq_foldl, List.foldl_append, latest_eq_foldl]

theorem isFinitePositive_after {s : State} {a : Action} (sound : Defect.of? a = none)
    (speed : s.typingSpeed.isFinitePositive = true) :
    (s.after a).typingSpeed.isFinitePositive = true := by
  cases a with
  | typingSpeed multiplier => simpa [Defect.of?, after] using sound
  | margin axis px => cases axis <;> exact speed
  | _ => exact speed

theorem isFinitePositive_latest (config : Config) {actions : List Action}
    (sound : ∀ a ∈ actions, Defect.of? a = none) :
    (latest config actions).typingSpeed.isFinitePositive = true := by
  rw [latest_eq_foldl]
  exact List.foldlRecOn (motive := fun s : State => s.typingSpeed.isFinitePositive = true)
    actions after (show Double.one.isFinitePositive = true by decide)
    fun _ speed a mem => isFinitePositive_after (sound a mem) speed

end State

/-! ## Announcements -/

namespace TerminalOp

def margins? : TerminalOp → Option (Int32 × Int32)
  | margins x y => some (x, y)
  | _ => none

def cursor? : TerminalOp → Option Bool
  | cursor visible => some visible
  | _ => none

/-- The operation is not an announcement. -/
def Plain (op : TerminalOp) : Prop := op.margins? = none ∧ op.cursor? = none

end TerminalOp

namespace Plan

theorem forall_emitted_walk {own : Nat → Part → List Part → List Step} {cost : Part → Nat}
    {P : TerminalOp → Prop}
    (each : ∀ cursor part rest, ∀ x ∈ emitted (own cursor part rest), P x.2)
    (cursor : Nat) (parts : List Part) : ∀ x ∈ emitted (walk own cost cursor parts), P x.2 := by
  induction parts generalizing cursor with
  | nil =>
    intro x mem
    cases mem
  | cons part rest ih =>
    rw [walk, emitted_append, emitted_hold]
    exact List.forall_mem_append.2 ⟨each cursor part rest, ih _⟩

theorem plain_color (cursor : Nat) (part : Part) :
    ∀ x ∈ emitted (color cursor part), x.2.Plain := by
  cases part with
  | literal kind text => exact List.forall_mem_nil _
  | token t =>
    cases t with
    | delay ms => exact List.forall_mem_nil _
    | beginColor background text => exact List.forall_mem_singleton.2 ⟨rfl, rfl⟩
    | endColor => exact List.forall_mem_singleton.2 ⟨rfl, rfl⟩

theorem plain_keystrokes (i : Nat) (text : Text) : ∀ x ∈ keystrokes i text, x.2.Plain := by
  fun_induction keystrokes i text with
  | case1 i => exact List.forall_mem_nil _
  | case2 i rest ih => exact List.forall_mem_cons.2 ⟨⟨rfl, rfl⟩, ih⟩
  | case3 i rest ih => exact List.forall_mem_cons.2 ⟨⟨rfl, rfl⟩, ih⟩
  | case4 i c rest _ _ ih => exact List.forall_mem_cons.2 ⟨⟨rfl, rfl⟩, ih⟩

theorem plain_typingSteps (timeout cursor : Nat) (part : Part) (rest : List Part) :
    ∀ x ∈ emitted (typingSteps timeout cursor part rest), x.2.Plain := by
  by_cases typed : ∃ text, part = .literal .typed text
  · obtain ⟨text, rfl⟩ := typed
    rw [emitted_typingSteps]
    exact List.forall_mem_map.2 fun x mem => plain_keystrokes 0 text x mem
  · unfold typingSteps
    split
    · next text => exact absurd ⟨text, rfl⟩ typed
    · exact plain_color _ _

theorem plain_printingSteps (cursor : Nat) (part : Part) (rest : List Part) :
    ∀ x ∈ emitted (printingSteps cursor part rest), x.2.Plain := by
  unfold printingSteps
  split
  · next text =>
    dsimp only
    generalize text ++ _ = line
    split
    · exact List.forall_mem_nil _
    · exact List.forall_mem_singleton.2 ⟨rfl, rfl⟩
  · exact plain_color _ _

theorem plain_pasteSteps (cursor : Nat) (part : Part) (rest : List Part) :
    ∀ x ∈ emitted (pasteSteps cursor part rest), x.2.Plain := by
  unfold pasteSteps
  split
  · exact List.forall_mem_singleton.2 ⟨rfl, rfl⟩
  · exact plain_color _ _

theorem plain_promptSteps (config : Config) (s : State) :
    ∀ x ∈ emitted (promptSteps config s), x.2.Plain := by
  unfold promptSteps
  cases s.prompt with
  | none => exact List.forall_mem_nil _
  | some prompt =>
    show ∀ x ∈ [(0, _), (0, _), (0, _), (0, _)], _
    simp [TerminalOp.Plain, TerminalOp.margins?, TerminalOp.cursor?]

theorem plain_scrollSteps (step : Nat) (lines : Int32) :
    ∀ x ∈ emitted (scrollSteps step lines), x.2.Plain := by
  unfold scrollSteps
  induction List.range lines.toInt.natAbs with
  | nil => exact List.forall_mem_nil _
  | cons k more ih => exact List.forall_mem_cons.2 ⟨⟨rfl, rfl⟩, ih⟩

/-- Only the cursor and margins are announced. -/
theorem plain_of (config : Config) (s : State) {a : Action}
    (other : a.keyword ∉ [Keyword.cursor, .marginX, .marginY]) :
    ∀ x ∈ (Plan.of config s a).emits, x.2.Plain := by
  have last (n : Nat) (text : Text) : ∀ x ∈ emitted [.emit n (.write text)], x.2.Plain :=
    List.forall_mem_singleton.2 ⟨rfl, rfl⟩
  cases a with
  | input parts =>
    let timeout := s.typingTimeout config.baseTypingTimeout
    show ∀ x ∈ emitted (sumSteps (inputCost timeout) 0 0 parts ++ promptSteps config s ++
      walk (typingSteps timeout) (typingCost timeout) 0 parts ++ [_]), _
    rw [emitted_append, emitted_append, emitted_append, emitted_sumSteps, List.nil_append]
    exact List.forall_mem_append.2 ⟨List.forall_mem_append.2 ⟨plain_promptSteps config s,
      forall_emitted_walk (plain_typingSteps timeout) 0 parts⟩, last _ _⟩
  | output parts => exact forall_emitted_walk plain_printingSteps _ parts
  | paste parts =>
    show ∀ x ∈ emitted (promptSteps config s ++
      walk pasteSteps (pasteCost config.pastePart) 0 parts ++ [_]), _
    rw [emitted_append, emitted_append]
    exact List.forall_mem_append.2 ⟨List.forall_mem_append.2 ⟨plain_promptSteps config s,
      forall_emitted_walk plain_pasteSteps 0 parts⟩, last _ _⟩
  | clear => exact List.forall_mem_singleton.2 ⟨rfl, rfl⟩
  | scroll lines => exact plain_scrollSteps _ _
  | cursor visible => exact absurd (by simp [Action.keyword]) other
  | margin axis px => cases axis <;> exact absurd (by simp [Action.keyword]) other
  | delay ns => exact List.forall_mem_nil _
  | prompt text => exact List.forall_mem_nil _
  | typingSpeed multiplier => exact List.forall_mem_nil _

end Plan

/-- An action of one sort announces, at its beginning, a value of the state that it leaves
behind. Any other action announces nothing and leaves the value as it was. -/
structure Announces {α : Type} (of? : TerminalOp → Option α) (sets : Action → Bool)
    (value : State → α) : Prop where
  of_sets : ∀ config s a, sets a = true →
    keep of? (Plan.of config s a).emits = [(0, value (s.after a))]
  of_leaves : ∀ config s a, sets a = false →
    keep of? (Plan.of config s a).emits = [] ∧ value (s.after a) = value s

theorem announces_margins : Announces TerminalOp.margins? Action.setsMargin State.margins where
  of_sets config s a sets := by
    cases a with
    | margin axis px => rfl
    | _ => cases sets
  of_leaves config s a leaves := by
    cases a with
    | margin axis px => cases leaves
    | cursor visible => exact ⟨rfl, rfl⟩
    | _ =>
      refine ⟨List.filterMap_eq_nil_iff.2 fun x mem => ?_, rfl⟩
      rw [(Plan.plain_of config s (by simp [Action.keyword]) x mem).1]
      rfl

theorem announces_cursor : Announces TerminalOp.cursor? Action.setsCursor State.cursorVisible where
  of_sets config s a sets := by
    cases a with
    | cursor visible => rfl
    | _ => cases sets
  of_leaves config s a leaves := by
    cases a with
    | cursor visible => cases leaves
    | margin axis px => cases axis <;> exact ⟨rfl, rfl⟩
    | _ =>
      refine ⟨List.filterMap_eq_nil_iff.2 fun x mem => ?_, rfl⟩
      rw [(Plan.plain_of config s (by simp [Action.keyword]) x mem).2]
      rfl

theorem lastOf_keep {α β : Type} (f : α → Option β) (before : β) (l : List (Nat × α)) :
    lastOf (fun x => f x.2) before l = ((keep f l).map (·.2)).getLast?.getD before := by
  rw [map_snd_keep, List.filterMap_map]
  rfl

namespace Announces

variable {α : Type} {of? : TerminalOp → Option α} {sets : Action → Bool} {value : State → α}

theorem keep_emissions (h : Announces of? sets value) (config : Config) (s : State) (start : Nat)
    (a : Action) : keep of? (Turn.emissions ⟨start, .of config s a⟩) =
      if sets a then [(start, value (s.after a))] else [] := by
  rw [Turn.emissions, keep_map of? (start + ·)]
  cases sort : sets a with
  | true => rw [h.of_sets config s a sort]; rfl
  | false => rw [(h.of_leaves config s a sort).1]; rfl

/-- What actions announce comes in the order of their turns. -/
theorem within (h : Announces of? sets value) (config : Config) (s : State) (start : Nat)
    (actions : List Action) : Within start (start + elapsed (timeline config s start actions))
      (keep of? ((timeline config s start actions).flatMap Turn.emissions)) := by
  induction actions generalizing s start with
  | nil => exact .nil _ _
  | cons a more ih =>
    let next := start + (Plan.of config s a).duration
    have le : start ≤ next := Nat.le_add_right _ _
    have first : Within start next (keep of? (Turn.emissions ⟨start, .of config s a⟩)) := by
      rw [h.keep_emissions]
      split
      · exact (Within.nil _ _).cons rfl le
      · exact .nil _ _
    rw [timeline, List.flatMap_cons, keep_append, elapsed, ← Nat.add_assoc]
    exact first.append (ih _ _) le (Nat.le_add_right _ _)

theorem keep_schedule (h : Announces of? sets value) (config : Config) (s : State) (start : Nat)
    (actions : List Action) : keep of? (schedule (timeline config s start actions)) =
      keep of? ((timeline config s start actions).flatMap Turn.emissions) := by
  rw [schedule, keep_arrange]
  exact arrange_eq_self (h.within config s start actions).inOrder

/-- The value that is announced last, or else the one from before, is that of the state in the
end. -/
theorem lastOf_timeline (h : Announces of? sets value) (config : Config) (s : State) (start : Nat)
    (actions : List Action) :
    lastOf (fun x => of? x.2) (value s) ((timeline config s start actions).flatMap Turn.emissions) =
      value (actions.foldl State.after s) := by
  induction actions generalizing s start with
  | nil => rfl
  | cons a more ih =>
    have own : lastOf (fun x => of? x.2) (value s) (Turn.emissions ⟨start, .of config s a⟩) =
        value (s.after a) := by
      rw [lastOf_keep, h.keep_emissions]
      cases sort : sets a with
      | true => rfl
      | false => exact (h.of_leaves config s a sort).2.symm
    rw [timeline, List.flatMap_cons, lastOf_append, own, ih, List.foldl_cons]

end Announces

/-- What a sink is told, and when. -/
def heard {α : Type} (of? : TerminalOp → Option α) (records : List Record) : List (Nat × α) :=
  records.filterMap fun r => (of? r.op).map (r.ms, ·)

theorem heard_punctual {α : Type} (of? : TerminalOp → Option α) (l : List (Nat × TerminalOp)) :
    heard of? (l.map punctual) = (keep of? l).map fun x => (Time.ceilMillis x.1, x.2) := by
  rw [heard, keep, List.filterMap_map, List.map_filterMap]
  refine List.filterMap_congr fun x _ => ?_
  simp only [Function.comp_apply, punctual, Option.map_map]
  rfl

theorem lastOf_punctual {α : Type} (of? : TerminalOp → Option α) (before : α)
    (l : List (Nat × TerminalOp)) :
    lastOf (fun r : Record => of? r.op) before (l.map punctual) =
      lastOf (fun x => of? x.2) before l := by
  rw [lastOf, List.filterMap_map]
  rfl

namespace Playback

variable {σ α : Type}

/-- What actions announce in a run: each, when its turn comes, a value of the state that it
leaves behind. -/
def announcements (p : Playback σ) (sets : Action → Bool) (value : State → α)
    (actions : List Action) : List (Nat × α) :=
  actions.zipIdx.filterMap fun (a, i) =>
    if sets a then
      some (Time.ceilMillis (Time.ofMillis p.clock + elapsed ((p.turns actions).take i)),
        value (.latest p.player.config (actions.take (i + 1))))
    else none

theorem announcements_eq {of? : TerminalOp → Option α} {sets : Action → Bool} {value : State → α}
    (h : Announces of? sets value) (p : Playback σ) (actions : List Action) :
    p.announcements sets value actions =
      (keep of? ((p.turns actions).flatMap Turn.emissions)).map
        fun x => (Time.ceilMillis x.1, x.2) := by
  have turns : p.turns actions = _ := timeline_eq_map_zipIdx _ _ _ actions
  rw [keep_flatMap, turns, List.flatMap_map, List.map_flatMap, announcements,
    List.filterMap_eq_flatMap_toList]
  refine List.flatMap_congr ?_
  rintro ⟨a, i⟩ mem
  have here : actions[i]? = some a := List.mem_zipIdx_iff_getElem?.1 mem
  have state : ((actions.take i).foldl State.after (.initial p.player.config)).after a =
      .latest p.player.config (actions.take (i + 1)) := by
    rw [State.latest_eq_foldl, List.take_add_one, here, List.foldl_append]
    rfl
  simp only [h.keep_emissions, state]
  cases sets a <;> rfl

end Playback

end TermScene
