import TermScene.Double.Basic
import TermScene.Keyword
import TermScene.Part.Basic

/-!
# Actions

What a scenario plays, one action after another. An action holds the data of its
directive; whether that data makes sense is a question for playback.
-/

namespace TermScene

/-- A side on which a margin is measured. -/
inductive Axis where
  | x
  | y
  deriving Repr, DecidableEq

inductive Action where
  /-- Types a command at the prompt. -/
  | input (parts : List Part)
  /-- Prints a block of lines. -/
  | output (parts : List Part)
  /-- Puts text at the prompt in one go. -/
  | paste (parts : List Part)
  /-- Waits for a number of nanoseconds. -/
  | delay (ns : Nat)
  | clear
  /-- Sets the prompt, or turns it off. -/
  | prompt (text : Option Text)
  | cursor (visible : Bool)
  /-- Scrolls by single lines, up if the count is positive. -/
  | scroll (lines : Int32)
  | margin (axis : Axis) (px : Int32)
  /-- Sets how fast later input is typed. -/
  | typingSpeed (multiplier : Double)
  deriving DecidableEq

namespace Action

/-- The keyword of the directive that makes the action. -/
def keyword : Action → Keyword
  | input _ => .input
  | output _ => .output
  | paste _ => .paste
  | delay _ => .delay
  | clear => .clear
  | prompt _ => .prompt
  | cursor _ => .cursor
  | scroll _ => .scrollLines
  | margin .x _ => .marginX
  | margin .y _ => .marginY
  | typingSpeed _ => .typingSpeed

end Action

end TermScene
