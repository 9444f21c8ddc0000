import TermScene.Proofs.Playback.Acceptance
import TermScene.Proofs.Playback.Succession

/-!
# What a printed block shows

A block shows what its lines show, scanned one by one, with a break between each two: every
character, break and color comes behind the pauses that stand before it. The parts of a block
hold no breaks, but literals that no line has; playing them makes up for both
(`charwise_walk`), so that no break is lost, doubled, or put on the wrong side of a pause
(`advance_output`).
-/

namespace TermScene

open Agenda

/-! ## Items -/

/-- What a printed block consists of: the parts of its lines, and the breaks between them. -/
inductive PrintedItem where
  | part (part : Part)
  | lineBreak
  deriving DecidableEq

/-- An operation with its text written character by character. -/
def TerminalOp.byCharacter : TerminalOp → List TerminalOp
  | .write text => text.map fun c => .write [c]
  | op => [op]

/-- Operations with their texts written character by character. -/
def charwise (l : List (Nat × TerminalOp)) : List (Nat × TerminalOp) :=
  l.flatMap fun x => x.2.byCharacter.map (x.1, ·)

/-- The text of the literals among parts. -/
def Part.literalText (parts : List Part) : Text :=
  parts.flatMap fun
    | .literal _ text => text
    | .token _ => []

theorem flatMap_intercalate {α β : Type} (f : α → List β) (sep : List α) (ls : List (List α)) :
    (sep.intercalate ls).flatMap f = (sep.flatMap f).intercalate (ls.map (·.flatMap f)) := by
  match ls with
  | [] => rfl
  | [l] => rw [List.map_singleton, List.intercalate_singleton, List.intercalate_singleton]
  | l :: m :: more =>
    rw [List.intercalate_cons_cons, List.flatMap_append, List.flatMap_append,
      flatMap_intercalate f sep (m :: more)]
    simp only [List.map_cons, List.intercalate_cons_cons]

namespace PrintedItem

/-- The items of printed lines. -/
def ofLines (lines : List Text) : List PrintedItem :=
  [lineBreak].intercalate (lines.map fun line => (Part.scan .printed line).map part)

def pause : PrintedItem → Nat
  | part p => Plan.pause p
  | lineBreak => 0

/-- What an item shows, one operation for each character. -/
def shows : PrintedItem → List TerminalOp
  | part (.literal _ text) => TerminalOp.byCharacter (.write text)
  | part (.token token) => token.op?.toList
  | lineBreak => TerminalOp.byCharacter (.write TerminalOp.lineBreak)

/-- What items show, each behind the pauses before it. -/
def play (start : Nat) (items : List PrintedItem) : List (Nat × TerminalOp) :=
  inTurn pause (fun item => item.shows.map (0, ·)) start items

theorem play_cons (start : Nat) (item : PrintedItem) (rest : List PrintedItem) :
    play start (item :: rest) = item.shows.map (start, ·) ++ play (start + item.pause) rest := by
  rw [play, inTurn_cons, later, List.map_map]
  rfl

theorem play_append (start : Nat) (l m : List PrintedItem) :
    play start (l ++ m) = play start l ++ play (start + lasting pause l) m :=
  inTurn_append ..

/-- One break stands between each two lines. -/
theorem count_lineBreak_ofLines (lines : List Text) :
    (ofLines lines).count lineBreak = lines.length - 1 := by
  have within (line : Text) : ((Part.scan .printed line).map part).count lineBreak = 0 := by
    refine List.count_eq_zero.2 fun mem => ?_
    obtain ⟨p, -, eq⟩ := List.mem_map.1 mem
    cases eq
  match lines with
  | [] => rfl
  | [line] =>
    rw [ofLines, List.map_singleton, List.intercalate_singleton]
    exact within line
  | line :: next :: more =>
    have ih := count_lineBreak_ofLines (next :: more)
    rw [ofLines, List.map_cons] at ih
    rw [ofLines, List.map_cons, List.map_cons, List.intercalate_cons_cons, List.count_append,
      List.count_append, within, ih, List.count_singleton_self, List.length_cons, Nat.zero_add]
    exact Nat.add_comm 1 more.length

/-- The text that the items of lines write. -/
theorem written_ofLines (lines : List Text) :
    ((ofLines lines).flatMap shows).flatMap TerminalOp.written =
      TerminalOp.lineBreak.intercalate
        (lines.map fun line => Part.literalText (Part.scan .printed line)) := by
  have single (text : Text) :
      (TerminalOp.byCharacter (.write text)).flatMap TerminalOp.written = text := by
    rw [TerminalOp.byCharacter, List.flatMap_map]
    exact List.flatMap_singleton' text
  have item (p : Part) : (part p).shows.flatMap TerminalOp.written = Part.literalText [p] := by
    cases p with
    | literal kind text => exact (single text).trans (List.append_nil text).symm
    | token t => cases t <;> rfl
  have line (parts : List Part) :
      (parts.map part).flatMap (·.shows.flatMap TerminalOp.written) = Part.literalText parts := by
    rw [List.flatMap_map]
    simp only [item]
    exact List.flatMap_congr fun p _ => List.append_nil _
  rw [List.flatMap_assoc, ofLines, flatMap_intercalate, List.map_map, List.flatMap_singleton]
  simp only [Function.comp_def, line]
  rfl

/-! ## Literals that no line has -/

/-- The item, unless it is an empty literal. -/
def visible (item : PrintedItem) : List PrintedItem :=
  if item = part Part.empty then [] else [item]

theorem play_flatMap_visible (start : Nat) (items : List PrintedItem) :
    play start (items.flatMap visible) = play start items := by
  induction items generalizing start with
  | nil => rfl
  | cons item rest ih =>
    rw [List.flatMap_cons, play_cons, play_append, ih]
    by_cases empty : item = part Part.empty
    · subst empty
      rfl
    · have one : visible item = [item] := if_neg empty
      rw [one, play_cons, play, inTurn_nil, List.append_nil]
      rfl

theorem lasting_flatMap_visible (items : List PrintedItem) :
    lasting pause (items.flatMap visible) = lasting pause items := by
  induction items with
  | nil => rfl
  | cons item rest ih =>
    rw [List.flatMap_cons, lasting_append, ih]
    by_cases empty : item = part Part.empty
    · subst empty
      rfl
    · have one : visible item = [item] := if_neg empty
      rw [one]
      rfl

/-! ## The parts of a block -/

/-- The items of parts: a line breaks where literal meets literal. -/
def ofParts (parts : List Part) : List PrintedItem :=
  Part.weave (fun p => [part p]) [lineBreak] parts

theorem ofParts_cons (p : Part) (rest : List Part) : ofParts (p :: rest) =
    part p :: ((if p.isLiteral && Part.breaksBefore rest then [lineBreak] else []) ++
      ofParts rest) := rfl

/-- The parts of lines have the items of the lines and, besides, empty literals only. -/
theorem visible_ofParts_ofLines (lines : List Text) :
    (ofParts (Part.ofLines lines)).flatMap visible = (ofLines lines).flatMap visible := by
  have woven (parts : List Part) : (ofParts parts).flatMap visible =
      Part.weave (fun p => visible (part p)) [lineBreak] parts := by
    induction parts with
    | nil => rfl
    | cons p rest ih =>
      rw [ofParts_cons, List.flatMap_cons, List.flatMap_append, ih, Part.weave, List.append_assoc]
      split <;> rfl
  rw [woven, Part.weave_ofLines rfl, ofLines, flatMap_intercalate, List.map_map]
  simp only [Function.comp_def, List.flatMap_map]
  rfl

theorem play_ofParts_ofLines (start : Nat) (lines : List Text) :
    play start (ofParts (Part.ofLines lines)) = play start (ofLines lines) := by
  rw [← play_flatMap_visible, visible_ofParts_ofLines, play_flatMap_visible]

theorem lasting_ofParts (parts : List Part) :
    lasting pause (ofParts parts) = Plan.total Plan.pause parts := by
  induction parts with
  | nil => rfl
  | cons p rest ih =>
    rw [ofParts_cons, Plan.total_cons, ← ih]
    split
    · exact congrArg (Plan.pause p + ·) (Nat.zero_add _)
    · rfl

theorem lasting_ofLines (lines : List Text) :
    lasting pause (ofLines lines) = Plan.total Plan.pause (Part.ofLines lines) := by
  rw [← lasting_ofParts, ← lasting_flatMap_visible, ← visible_ofParts_ofLines,
    lasting_flatMap_visible]

end PrintedItem

/-! ## Playing the parts -/

namespace Plan

open PrintedItem

theorem charwise_append (l m : List (Nat × TerminalOp)) :
    charwise (l ++ m) = charwise l ++ charwise m :=
  List.flatMap_append

/-- A printed literal is written with the break behind it, unless that is no text at all. -/
theorem emitted_printingSteps_literal (cursor : Nat) (text : Text) (rest : List Part) :
    ∃ line, line = text ++ (if Part.breaksBefore rest then TerminalOp.lineBreak else []) ∧
      emitted (printingSteps cursor (.literal .printed text) rest) =
        if line = [] then [] else [(cursor, .write line)] := by
  refine ⟨_, rfl, ?_⟩
  rw [printingSteps]
  exact apply_ite emitted _ _ _

/-- A printed part shows itself and, if a line ends with it, the break. -/
theorem charwise_printingSteps (cursor : Nat) {p : Part} (suits : p.Suits .printed)
    (rest : List Part) : charwise (emitted (printingSteps cursor p rest)) =
      (part p).shows.map (cursor, ·) ++
        (if p.isLiteral && Part.breaksBefore rest then lineBreak.shows.map (cursor, ·) else []) := by
  cases p with
  | token t => cases t <;> rfl
  | literal kind text =>
    obtain rfl : kind = .printed := suits
    obtain ⟨line, whole, wrote⟩ := emitted_printingSteps_literal cursor text rest
    have cut : charwise (if line = [] then [] else [(cursor, .write line)]) =
        (TerminalOp.byCharacter (.write line)).map (cursor, ·) := by
      split
      · next empty =>
        subst empty
        rfl
      · exact List.flatMap_singleton ..
    rw [wrote, cut, whole, TerminalOp.byCharacter, List.map_append, List.map_append]
    cases Part.breaksBefore rest <;> rfl

/-- The parts of a block play as their items do. -/
theorem charwise_walk {parts : List Part} (suits : ∀ p ∈ parts, p.Suits .printed) (cursor : Nat) :
    charwise (emitted (walk printingSteps pause cursor parts)) = play cursor (ofParts parts) := by
  induction parts generalizing cursor with
  | nil => rfl
  | cons p rest ih =>
    obtain ⟨here, suits⟩ := List.forall_mem_cons.1 suits
    rw [walk, emitted_append, emitted_hold, charwise_append, charwise_printingSteps cursor here,
      ih suits, ofParts_cons, play_cons, List.append_assoc]
    cases p with
    | token t => rfl
    | literal kind text =>
      -- a literal takes no time, so that the break behind it comes at the same cursor
      split
      · rw [List.singleton_append, play_cons]
        rfl
      · rfl

/-- Nothing empty is written. -/
theorem write_ne_nil_of_mem_walk {parts : List Part} (suits : ∀ p ∈ parts, p.Suits .printed)
    {cursor : Nat} {x : Nat × TerminalOp}
    (mem : x ∈ emitted (walk printingSteps pause cursor parts)) : x.2 ≠ .write [] := by
  induction parts generalizing cursor with
  | nil => cases mem
  | cons p rest ih =>
    obtain ⟨here, suits⟩ := List.forall_mem_cons.1 suits
    rw [walk, emitted_append, emitted_hold] at mem
    rcases List.mem_append.1 mem with mem | mem
    · cases p with
      | token t =>
        cases t with
        | delay ms => cases mem
        | beginColor background text =>
          rw [List.mem_singleton.1 mem]
          exact TerminalOp.noConfusion
        | endColor =>
          rw [List.mem_singleton.1 mem]
          exact TerminalOp.noConfusion
      | literal kind text =>
        obtain rfl : kind = .printed := here
        obtain ⟨line, -, wrote⟩ := emitted_printingSteps_literal cursor text rest
        rw [wrote] at mem
        split at mem
        · cases mem
        · next some =>
          rw [List.mem_singleton.1 mem]
          exact fun empty => some (TerminalOp.write.inj empty)
    · exact ih suits mem

end Plan

/-- Cutting texts into characters leaves what is written. -/
theorem written_charwise (l : List (Nat × TerminalOp)) :
    (charwise l).flatMap (·.2.written) = l.flatMap (·.2.written) := by
  rw [charwise, List.flatMap_assoc]
  refine List.flatMap_congr fun x _ => ?_
  obtain ⟨time, op⟩ := x
  cases op with
  | write text =>
    rw [TerminalOp.byCharacter, List.map_map, List.flatMap_map]
    exact List.flatMap_singleton' text
  | _ => rfl

namespace Performance

variable {σ : Type}

/-- **A block keeps every line break and every pause in its place.** Its turn queues what its
lines and the breaks between them show, each behind the pauses before it, and nothing else. -/
theorem advance_output {run : Run} {index now : Nat} {p : Performance σ} {lines : List Text}
    (here : run.actions[index]? = some (.output (Part.ofLines lines)))
    (fits : (p.planOf (.output (Part.ofLines lines))).overflow? now = none) :
    let plan := p.planOf (.output (Part.ofLines lines))
    let items := PrintedItem.ofLines lines
    let priming := p.player.config.outputPriming
    let next := p.dispatch index now (.output (Part.ofLines lines))
    p.advance run index now = .more next ∧
      next.player.queue = (Player.enqueue p.player.queue now plan.emits).push
        (now + plan.duration) (.advance (index + 1)) ∧
      charwise plan.emits = PrintedItem.play priming items ∧
      (∀ x ∈ plan.emits, x.2 ≠ .write []) ∧
      plan.duration = priming + lasting PrintedItem.pause items ∧
      plan.emits.flatMap (·.2.written) = TerminalOp.lineBreak.intercalate
        (lines.map fun line => Part.literalText (Part.scan .printed line)) ∧
      items.count .lineBreak = lines.length - 1 := by
  intro plan items priming next
  have suits := Part.suits_ofLines lines
  have played : charwise plan.emits = PrintedItem.play priming items :=
    (Plan.charwise_walk suits priming).trans (PrintedItem.play_ofParts_ofLines priming lines)
  refine ⟨advance_of_sound here (Defect.inParts_eq_none_iff.2 suits) fits, rfl, played,
    fun x mem => Plan.write_ne_nil_of_mem_walk suits mem,
    congrArg (priming + ·) (PrintedItem.lasting_ofLines lines).symm, ?_,
    PrintedItem.count_lineBreak_ofLines lines⟩
  have shown : (PrintedItem.play priming items).map (·.2) = items.flatMap PrintedItem.shows := by
    rw [PrintedItem.play, map_snd_inTurn]
    simp only [List.map_map, Function.comp_def, List.map_id']
  rw [← PrintedItem.written_ofLines, ← shown, List.flatMap_map, ← played, written_charwise]

/-- Lines that meet in tokens, one of only a pause, and an empty one. -/
theorem advance_output_tokens :
    let lines : List Text := ["a%\x7bbegin:1\x7d".toList, "%\x7bdelay 300\x7d".toList, [], ['b']]
    let block : Action := .output (Part.ofLines lines)
    let p : Performance Recorder := ⟨.new .default (Recorder.new none none), none⟩
    let run : Run := ⟨[block], 0, none⟩
    let primed := Time.ofMillis 100
    let paused := Time.ofMillis 400
    run.actions[0]? = some block ∧ (p.planOf block).overflow? 7 = none ∧
      p.advance run 0 7 = .more (p.dispatch 0 7 block) ∧
      Part.ofLines lines = [.literal .printed ['a'], .token (.beginColor none 1), Part.empty,
        Part.empty, .token (.delay 300), Part.empty, .literal .printed [],
        .literal .printed ['b']] ∧
      charwise (p.planOf block).emits = [(primed, .write ['a']), (primed, .beginColor none 1),
        (primed, .write ['\r']), (primed, .write ['\n']), (paused, .write ['\r']),
        (paused, .write ['\n']), (paused, .write ['\r']), (paused, .write ['\n']),
        (paused, .write ['b'])] ∧
      (p.planOf block).duration = paused := by
  intro lines block p run primed paused
  have here : run.actions[0]? = some block := rfl
  have fits : (p.planOf block).overflow? 7 = none := by decide
  obtain ⟨advanced, -, played, -, lasts, -⟩ := advance_output here fits
  refine ⟨here, fits, advanced, by decide, ?_, ?_⟩
  · rw [played]
    decide
  · rw [lasts]
    decide

end Performance

end TermScene
