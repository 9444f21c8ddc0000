import TermScene.Action.Basic
import TermScene.Double.Numeral
import TermScene.Part.Printed
import TermScene.Text.Lines
import TermScene.Time

/-!
# The meaning of a directive

A keyword and its value mean an action, an audio cue, or nothing, or the value is
refused. Only the four directives that take a whole number refuse values
(`keyword_of_refused`).
-/

namespace TermScene

inductive Meaning where
  | action (action : Action)
  | cue (path : Text)
  | refused (fault : Whole.Fault)
  | nothing
  deriving DecidableEq

namespace Meaning

/-- Why a value is refused, in words. -/
def refusal (fault : Whole.Fault) : Text :=
  "expected a whole number: ".toList ++ fault.message

/-- The meaning of a value that is either read or refused. -/
def ofRead {α : Type} (make : α → Action) : Except Whole.Fault α → Meaning
  | .ok a => .action (make a)
  | .error fault => .refused fault

/-- The prompt that a value sets: none if it is blank or `false`. -/
def promptOf (value : Text) : Option Text :=
  if value.trim = [] ∨ value.trim = "false".toList then none else some value

/-- Whether a value shows the cursor: all but `false` in any case, `0` and blank
values do. -/
def cursorOf (value : Text) : Bool :=
  !(["false".toList, "0".toList, []].contains (value.trim.map Char.toLower))

/-- The typing speed that a value sets: 1 unless it is a finite number greater
than zero. -/
def speedOf (value : Text) : Double :=
  match Double.read? value.trim with
  | some speed => if speed.isFinitePositive then speed else .one
  | none => .one

/-- The meaning of a keyword with a value. -/
def of : Keyword → Text → Meaning
  | .input, value => .action (.input (Part.scan .typed value))
  | .output, value => .action (.output (Part.ofLines value.lines))
  | .audio, value => if value.all Text.isBlank then .nothing else .cue value
  | .delay, value =>
    ofRead (fun ms => .delay (Time.ofMillis ms.toNat)) (Whole.readUInt64 value.trim)
  | .clear, _ => .action .clear
  | .paste, value => .action (.paste (Part.scan .pasted value))
  | .prompt, value => .action (.prompt (promptOf value))
  | .cursor, value => .action (.cursor (cursorOf value))
  | .scrollLines, value => ofRead .scroll (Whole.readInt32 value.trim)
  | .marginX, value => ofRead (.margin .x) (Whole.readInt32 value.trim)
  | .marginY, value => ofRead (.margin .y) (Whole.readInt32 value.trim)
  | .typingSpeed, value => .action (.typingSpeed (speedOf value))

/-- Only a directive that takes a whole number refuses a value. -/
theorem keyword_of_refused {k : Keyword} {value : Text} {fault : Whole.Fault}
    (h : of k value = .refused fault) :
    k = .delay ∨ k = .scrollLines ∨ k = .marginX ∨ k = .marginY := by
  cases k <;> simp [of] at h ⊢
  split at h <;> simp at h

theorem exists_of_ofRead {α : Type} {make : α → Action} {r : Except Whole.Fault α} {a : Action}
    (h : ofRead make r = .action a) : ∃ x, a = make x := by
  cases r with
  | error => cases h
  | ok x =>
    injection h with h
    exact ⟨x, h.symm⟩

theorem keyword_of_action {k : Keyword} {value : Text} {a : Action}
    (h : of k value = .action a) : a.keyword = k := by
  cases k <;> simp only [of] at h
  case audio => split at h <;> simp at h
  case delay => obtain ⟨x, rfl⟩ := exists_of_ofRead h; rfl
  case scrollLines => obtain ⟨x, rfl⟩ := exists_of_ofRead h; rfl
  case marginX => obtain ⟨x, rfl⟩ := exists_of_ofRead h; rfl
  case marginY => obtain ⟨x, rfl⟩ := exists_of_ofRead h; rfl
  all_goals
    injection h with h
    subst h
    rfl

end Meaning

end TermScene
