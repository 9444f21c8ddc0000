import Mathlib.Data.List.Chain
import TermScene.Proofs.Playback.Acceptance
import TermScene.Proofs.Playback.Succession

/-!
# What typed input types

A typed text is cut into keystrokes from the left, in just one way (`Keystroke.cuts_iff`): a
backslash is of one keystroke with a `b` or a semicolon behind it and is typed itself
elsewhere. Each keystroke comes when the characters before it have had their time, whether
they were typed or not, so that an escape takes as long as its two characters
(`emitted_typingSteps_eq`). No part looks at another, and a line break ends the input
(`advance_input`).
-/

namespace TermScene

open Agenda

/-! ## Keystrokes -/

/-- What is pressed at once: an escape, or a character that is part of none. -/
inductive Keystroke where
  | erase
  | semicolon
  | character (c : Char)
  deriving DecidableEq

namespace Keystroke

/-- The text that stands for a keystroke. -/
def text : Keystroke → Text
  | erase => ['\\', 'b']
  | semicolon => ['\\', ';']
  | character c => [c]

/-- What a keystroke does. -/
def op : Keystroke → TerminalOp
  | erase => .backspace
  | semicolon => .write [';']
  | character c => .write [c]

/-- Whether the keystrokes are the text, cut from the left: no backslash is typed that begins an
escape with the keystroke behind it. -/
structure Cuts (whole : Text) (keys : List Keystroke) : Prop where
  whole : keys.flatMap text = whole
  leftmost : keys.IsChain fun a b => a = character '\\' → b ≠ character 'b' ∧ b ≠ character ';'

/-- The keystrokes of a text. -/
def cut : Text → List Keystroke
  | [] => []
  | '\\' :: 'b' :: rest => erase :: cut rest
  | '\\' :: ';' :: rest => semicolon :: cut rest
  | c :: rest => character c :: cut rest

theorem cut_cons {c : Char} {rest : Text}
    (plain : c = '\\' → ∀ d ∈ rest.head?, d ≠ 'b' ∧ d ≠ ';') :
    cut (c :: rest) = character c :: cut rest := by
  refine cut.eq_4 c rest ?_ ?_
  · rintro more rfl rfl
    exact (plain rfl 'b' rfl).1 rfl
  · rintro more rfl rfl
    exact (plain rfl ';' rfl).2 rfl

/-- Only a backslash begins more than one keystroke. -/
theorem mem_head?_flatMap_text {c : Char} (plain : c ≠ '\\') (keys : List Keystroke) :
    c ∈ (keys.flatMap text).head? ↔ character c ∈ keys.head? := by
  have begins (d : Char) (more : Text) : c ∈ (d :: more).head? ↔ d = c :=
    Option.some_inj
  cases keys with
  | nil => exact ⟨nofun, nofun⟩
  | cons key more =>
    cases key with
    | erase => exact (begins _ _).trans ⟨fun eq => absurd eq.symm plain, nofun⟩
    | semicolon => exact (begins _ _).trans ⟨fun eq => absurd eq.symm plain, nofun⟩
    | character d =>
      exact (begins _ _).trans ⟨congrArg (some <| character ·), fun eq =>
        character.inj (Option.some.inj eq)⟩

theorem cuts_cut (t : Text) : Cuts t (cut t) := by
  fun_induction cut t with
  | case1 => exact ⟨rfl, .nil⟩
  | case2 rest ih =>
    exact ⟨congrArg (['\\', 'b'] ++ ·) ih.whole, List.isChain_cons.2 ⟨nofun, ih.leftmost⟩⟩
  | case3 rest ih =>
    exact ⟨congrArg (['\\', ';'] ++ ·) ih.whole, List.isChain_cons.2 ⟨nofun, ih.leftmost⟩⟩
  | case4 c rest erases types ih =>
    have first (d : Char) (plain : d ≠ '\\') (typed : character d ∈ (cut rest).head?) :
        ∃ more, rest = d :: more := by
      rw [← mem_head?_flatMap_text plain, ih.whole] at typed
      exact List.head?_eq_some_iff.1 typed
    refine ⟨congrArg ([c] ++ ·) ih.whole, List.isChain_cons.2 ⟨?_, ih.leftmost⟩⟩
    rintro key mem begins
    obtain rfl := character.inj begins
    constructor
    · rintro rfl
      obtain ⟨more, rfl⟩ := first 'b' (by decide) mem
      exact erases more rfl rfl
    · rintro rfl
      obtain ⟨more, rfl⟩ := first ';' (by decide) mem
      exact types more rfl rfl

/-- **A text is cut in one way only.** -/
theorem cuts_iff {t : Text} {keys : List Keystroke} : Cuts t keys ↔ keys = cut t := by
  constructor
  · intro cuts
    induction keys generalizing t with
    | nil =>
      obtain rfl := cuts.whole
      rfl
    | cons key more ih =>
      obtain ⟨whole, leftmost⟩ := cuts
      obtain ⟨apart, leftmost⟩ := List.isChain_cons.1 leftmost
      have others : more = cut (more.flatMap text) := ih ⟨rfl, leftmost⟩
      rw [← whole, List.flatMap_cons]
      cases key with
      | erase => exact congrArg (erase :: ·) others
      | semicolon => exact congrArg (semicolon :: ·) others
      | character c =>
        refine ((cut_cons ?_).trans (congrArg (character c :: ·) others.symm)).symm
        rintro rfl d first
        -- no escape begins with `d` if that is a `b` or a semicolon, so it is pressed itself
        have pressed (plain : d ≠ '\\') : character d ∈ more.head? :=
          (mem_head?_flatMap_text plain more).1 first
        constructor
        · rintro rfl
          exact (apart _ (pressed (by decide)) rfl).1 rfl
        · rintro rfl
          exact (apart _ (pressed (by decide)) rfl).2 rfl
  · rintro rfl
    exact cuts_cut t

/-- A plan presses the keystrokes of a text, each at the index of its first character. -/
theorem keystrokes_eq (i : Nat) (t : Text) : Plan.keystrokes i t =
    inTurn (fun key : Keystroke => key.text.length) (fun key => [(0, key.op)]) i (cut t) := by
  fun_induction Plan.keystrokes i t with
  | case1 i => rfl
  | case2 i rest ih => rw [ih, cut, inTurn_cons]; rfl
  | case3 i rest ih => rw [ih, cut, inTurn_cons]; rfl
  | case4 i c rest erases types ih => rw [ih, cut.eq_4 c rest erases types, inTurn_cons]; rfl

end Keystroke

/-! ## Parts -/

namespace Part

/-- How long the parts behind a part wait for it. -/
def typingTime (timeout : Nat) : Part → Nat
  | .literal _ text => timeout * text.length
  | part => Plan.pause part

/-- How much a part adds to the time that the input takes. -/
def inputTime (timeout : Nat) : Part → Nat
  | .literal _ text => timeout * (text.length + 1)
  | part => Plan.pause part

/-- What a part types: a literal its keystrokes, each after the characters before it. -/
def types (timeout : Nat) : Part → List (Nat × TerminalOp)
  | .literal _ text =>
    (inTurn (fun key : Keystroke => key.text.length) (fun key => [(0, key.op)]) 0
      (Keystroke.cut text)).map fun (index, op) => (timeout * index, op)
  | .token t => t.op?.toList.map (0, ·)

end Part

/-- The prompt as it is shown: in its color and a space behind it. -/
def State.prompting (s : State) (config : Config) : List TerminalOp :=
  match s.prompt with
  | none => []
  | some prompt => [.beginColor none config.promptColor, .write prompt, .endColor, .write [' ']]

namespace Plan

variable (timeout : Nat) {part : Part}

theorem emitted_typingSteps_eq (suits : part.Suits .typed) (countable : part.Countable)
    (cursor : Nat) (rest : List Part) :
    emitted (typingSteps timeout cursor part rest) = later cursor (part.types timeout) := by
  cases part with
  | token t => cases t <;> rfl
  | literal kind text =>
    obtain rfl : kind = .typed := suits
    have short : text.length + 1 < UInt32.size := countable
    rw [emitted_typingSteps, Part.types, ← Keystroke.keystrokes_eq, later, List.map_map]
    refine List.map_congr_left fun x mem => ?_
    have within := ((within_keystrokes 0 text).le x mem).2
    have counted : x.1 < UInt32.size := by omega
    rw [UInt32.toNat_ofNat_of_lt' counted]
    rfl

theorem typingCost_eq (suits : part.Suits .typed) (countable : part.Countable) :
    typingCost timeout part = part.typingTime timeout := by
  cases part with
  | token t => rfl
  | literal kind text =>
    obtain rfl : kind = .typed := suits
    have short : text.length + 1 < UInt32.size := countable
    exact congrArg (timeout * ·) (UInt32.toNat_ofNat_of_lt' (Nat.lt_of_succ_lt short))

theorem inputCost_eq (suits : part.Suits .typed) (countable : part.Countable) :
    inputCost timeout part = part.inputTime timeout := by
  cases part with
  | token t => rfl
  | literal kind text =>
    obtain rfl : kind = .typed := suits
    have short : text.length + 1 < UInt32.size := countable
    have counted := UInt32.toNat_ofNat_of_lt' (Nat.lt_of_succ_lt short)
    rw [inputCost, UInt32.toNat_add, counted, UInt32.toNat_one, Nat.mod_eq_of_lt short]
    rfl

theorem emitted_promptSteps (config : Config) (state : State) :
    emitted (promptSteps config state) = (state.prompting config).map (0, ·) := by
  unfold promptSteps State.prompting
  cases state.prompt <;> rfl

end Plan

namespace Performance

variable {σ : Type}

/-- **Input is typed as it is timed.** Its turn queues the prompt, then part after part, each
keystroke when the characters before it have had their time, and at last a line break. -/
theorem advance_input {run : Run} {index now : Nat} {p : Performance σ} {parts : List Part}
    (here : run.actions[index]? = some (.input parts))
    (typed : ∀ part ∈ parts, part.Suits .typed) (countable : ∀ part ∈ parts, part.Countable)
    (fits : (p.planOf (.input parts)).overflow? now = none) :
    let config := p.player.config
    let timeout := p.player.state.typingTimeout config.baseTypingTimeout
    let total := lasting (Part.inputTime timeout) parts
    let plan := p.planOf (.input parts)
    let next := p.dispatch index now (.input parts)
    p.advance run index now = .more next ∧
      next.player.queue = (Player.enqueue p.player.queue now plan.emits).push
        (now + plan.duration) (.advance (index + 1)) ∧
      plan.emits = (p.player.state.prompting config).map (0, ·) ++
        inTurn (Part.typingTime timeout) (Part.types timeout) 0 parts ++
        [(total, .write TerminalOp.lineBreak)] ∧
      plan.duration = total ∧
      ∀ text keys, Keystroke.Cuts text keys ↔ keys = Keystroke.cut text := by
  intro config timeout total plan next
  have whole : Plan.total (Plan.inputCost timeout) parts = total :=
    Plan.total_eq_lasting fun part mem => Plan.inputCost_eq timeout (typed part mem) (countable part mem)
  have walked := Plan.emitted_walk
    (fun part mem => Plan.typingCost_eq timeout (typed part mem) (countable part mem))
    (fun part mem => Plan.emitted_typingSteps_eq timeout (typed part mem) (countable part mem)) 0
  refine ⟨advance_of_sound here (Defect.inParts_eq_none_iff.2 typed) fits, rfl, ?_, whole,
    fun text keys => Keystroke.cuts_iff⟩
  show Plan.emitted (Plan.sumSteps (Plan.inputCost timeout) 0 0 parts ++
    Plan.promptSteps config p.player.state ++
    Plan.walk (Plan.typingSteps timeout) (Plan.typingCost timeout) 0 parts ++
    [.emit (Plan.total (Plan.inputCost timeout) parts) (.write TerminalOp.lineBreak)]) = _
  rw [Plan.emitted_append, Plan.emitted_append, Plan.emitted_append, Plan.emitted_sumSteps,
    List.nil_append, Plan.emitted_promptSteps, walked, whole]
  rfl

/-- Backslashes before an escape, at the end of a literal whose neighbor begins with a `b`, and
an empty literal, which takes one character's time. -/
theorem advance_input_escapes :
    let parts : List Part := [.literal .typed ['\\', '\\', 'b', '\\'],
      .token (.beginColor none 2), .literal .typed ['b', '\\', ';'], .token (.delay 5),
      .literal .typed []]
    let p : Performance Recorder := ⟨.new .default (Recorder.new none none), none⟩
    let run : Run := ⟨[.input parts], 0, none⟩
    let after := Time.ofMillis
    run.actions[0]? = some (.input parts) ∧ (∀ part ∈ parts, part.Suits .typed) ∧
      (∀ part ∈ parts, part.Countable) ∧ (p.planOf (.input parts)).overflow? 7 = none ∧
      p.advance run 0 7 = .more (p.dispatch 0 7 (.input parts)) ∧
      (p.planOf (.input parts)).emits = [(0, .beginColor none 36), (0, .write ['~', ':']),
        (0, .endColor), (0, .write [' ']), (0, .write ['\\']), (after 100, .backspace),
        (after 300, .write ['\\']), (after 400, .beginColor none 2), (after 400, .write ['b']),
        (after 500, .write [';']), (after 1005, .write ['\r', '\n'])] ∧
      (p.planOf (.input parts)).duration = after 1005 := by
  intro parts p run after
  have here : run.actions[0]? = some (.input parts) := rfl
  have typed : ∀ part ∈ parts, part.Suits .typed := by simp [parts, Part.Suits]
  have countable : ∀ part ∈ parts, part.Countable := by simp [parts, Part.Countable, UInt32.size]
  have fits : (p.planOf (.input parts)).overflow? 7 = none := by decide +kernel
  obtain ⟨advanced, -, emits, lasts, -⟩ := advance_input here typed countable fits
  refine ⟨here, typed, countable, fits, advanced, ?_, ?_⟩
  · rw [emits]
    decide +kernel
  · rw [lasts]
    decide +kernel

end Performance

end TermScene
