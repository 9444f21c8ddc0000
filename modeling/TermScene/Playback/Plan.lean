import TermScene.Double.Shortest
import TermScene.Part.Printed
import TermScene.Playback.State
import TermScene.Terminal.Op
import TermScene.Time

/-!
# The plan of an action

What an action does once its turn comes: terminal operations at offsets from that
moment, and how long the next action waits. A plan is exact; whether its times
can be held is checked step by step, in the order in which the steps are made.
An action whose data makes no sense has a defect instead.
-/

namespace TermScene

inductive Defect where
  /-- A literal of a kind that the action has no use for. -/
  | unexpected (kind : LiteralKind) (text : Text)
  /-- A typing speed that is not a finite number greater than zero. -/
  | multiplier (speed : Double)
  deriving DecidableEq

namespace Defect

def nameOf : LiteralKind → Text
  | .printed => "Text".toList
  | .typed => "Typing".toList
  | .pasted => "Insert".toList

def reason : Defect → Text
  | unexpected kind text =>
    "unexpected part ".toList ++ nameOf kind ++ '(' :: (text.quoted ++ [')'])
  | multiplier speed => "multiplier must be finite and positive, got ".toList ++ speed.print

/-- The first literal among parts that is not of the one kind that is wanted. -/
def inParts (wanted : LiteralKind) (parts : List Part) : Option Defect :=
  parts.findSome? fun
    | .literal kind text => if kind = wanted then none else some (.unexpected kind text)
    | .token _ => none

/-- What is wrong with an action, if anything is. -/
def of? : Action → Option Defect
  | .input parts => inParts .typed parts
  | .output parts => inParts .printed parts
  | .paste parts => inParts .pasted parts
  | .typingSpeed speed => if speed.isFinitePositive then none else some (.multiplier speed)
  | _ => none

end Defect

/-- One step of a plan: an operation at an offset, or a duration that has to be
held for the operation on durations that gives it. -/
inductive Step where
  | emit (offset : Nat) (op : TerminalOp)
  | hold (operation : Overflow) (duration : Nat)
  deriving Repr, DecidableEq

namespace Step

/-- What overflows at a step that is made at an instant. -/
def overflow? (now : Nat) : Step → Option Overflow
  | emit offset _ => if now + offset < Time.instantLimit then none else some .instant
  | hold operation duration => if duration < Time.durationLimit then none else some operation

def emitted? : Step → Option (Nat × TerminalOp)
  | emit offset op => some (offset, op)
  | hold _ _ => none

end Step

/-- The steps of an action and how long it lasts. -/
structure Plan where
  steps : List Step
  duration : Nat
  deriving Repr, DecidableEq

namespace Plan

/-- The operations of a plan with their offsets, in the order of the steps. -/
def emits (p : Plan) : List (Nat × TerminalOp) := p.steps.filterMap Step.emitted?

/-- What overflows first if the plan is made at an instant: a step, or the
instant of the next action. -/
def overflow? (p : Plan) (now : Nat) : Option Overflow :=
  match p.steps.findSome? (Step.overflow? now) with
  | some overflow => some overflow
  | none => if now + p.duration < Time.instantLimit then none else some .instant

/-- How long a plan lasts that is made at the start of the clock, if every time in
it can be held. -/
def length (p : Plan) : Except Overflow Nat :=
  match p.steps.findSome? (Step.overflow? 0) with
  | some overflow => .error overflow
  | none => .ok p.duration

/-! ## Parts -/

/-- The time that a pause takes; anything else takes none. -/
def pause : Part → Nat
  | .token (.delay ms) => Time.ofMillis ms.toNat
  | _ => 0

/-- The color operation of a token. -/
def color (cursor : Nat) : Part → List Step
  | .token t => (t.op?.map (Step.emit cursor)).toList
  | .literal _ _ => []

/-- Plays parts one after another from a cursor on: each makes its own steps,
which may depend on the parts behind it, and moves the cursor by its cost. -/
def walk (own : Nat → Part → List Part → List Step) (cost : Part → Nat) :
    Nat → List Part → List Step
  | _, [] => []
  | cursor, part :: rest =>
    own cursor part rest ++
      .hold .addition (cursor + cost part) :: walk own cost (cursor + cost part) rest

/-- The durations held while costs are added up. Whole seconds are counted part by part; the
nanoseconds beside them are put to the seconds at the end. -/
def sumSteps (cost : Part → Nat) : (seconds nanos : Nat) → List Part → List Step
  | seconds, nanos, [] => [.hold .sum (seconds * Time.second + nanos)]
  | seconds, nanos, part :: rest =>
    let counted := seconds + cost part / Time.second
    .hold .product (cost part) :: .hold .sum (counted * Time.second) ::
      sumSteps cost counted (nanos + cost part % Time.second) rest

def total (cost : Part → Nat) (parts : List Part) : Nat :=
  parts.foldr (fun part n => cost part + n) 0

/-- The prompt in its color and a space, if there is a prompt. -/
def promptSteps (config : Config) (state : State) : List Step :=
  match state.prompt with
  | none => []
  | some prompt =>
    [.emit 0 (.beginColor none config.promptColor), .emit 0 (.write prompt), .emit 0 .endColor,
     .emit 0 (.write [' '])]

/-! ## Input -/

/-- The keystrokes of a typed text, each with the index of its first character
counted from `i` on. A backslash makes one keystroke with a `b` behind it, which
erases, or with a semicolon, which is typed. -/
def keystrokes : (i : Nat) → Text → List (Nat × TerminalOp)
  | _, [] => []
  | i, '\\' :: 'b' :: rest => (i, .backspace) :: keystrokes (i + 2) rest
  | i, '\\' :: ';' :: rest => (i, .write [';']) :: keystrokes (i + 2) rest
  | i, c :: rest => (i, .write [c]) :: keystrokes (i + 1) rest

/-- How long typed input takes: each literal one character more than it has.
Characters are counted in 32 bits. -/
def inputCost (timeout : Nat) : Part → Nat
  | .literal .typed text => timeout * (UInt32.ofNat text.length + 1).toNat
  | part => pause part

/-- How far a part moves the cursor of typed input. -/
def typingCost (timeout : Nat) : Part → Nat
  | .literal .typed text => timeout * (UInt32.ofNat text.length).toNat
  | part => pause part

/-- The steps of one part of typed input. -/
def typingSteps (timeout cursor : Nat) (part : Part) (_ : List Part) : List Step :=
  match part with
  | .literal .typed text =>
    (keystrokes 0 text).flatMap (fun (i, op) =>
      let after := timeout * (UInt32.ofNat i).toNat
      [.hold .product after, .hold .addition (cursor + after), .emit (cursor + after) op]) ++
    [.hold .product (timeout * (UInt32.ofNat text.length).toNat)]
  | part => color cursor part

/-- The durations held while the length of typed input is added up. -/
def inputDuration (timeout : Nat) (parts : List Part) : Plan :=
  ⟨sumSteps (inputCost timeout) 0 0 parts, total (inputCost timeout) parts⟩

/-- Typed input: the prompt, the keystrokes, and a line break when it is over. -/
def input (config : Config) (state : State) (parts : List Part) : Plan :=
  let timeout := state.typingTimeout config.baseTypingTimeout
  let length := inputDuration timeout parts
  ⟨length.steps ++ promptSteps config state ++
      walk (typingSteps timeout) (typingCost timeout) 0 parts ++
      [.emit length.duration (.write TerminalOp.lineBreak)],
    length.duration⟩

/-! ## Output -/

/-- The steps of one part of printed output: a literal with the line break behind
it, if that is any text at all. -/
def printingSteps (cursor : Nat) (part : Part) (rest : List Part) : List Step :=
  match part with
  | .literal .printed text =>
    let line := text ++ (if Part.breaksBefore rest then TerminalOp.lineBreak else [])
    if line = [] then [] else [.emit cursor (.write line)]
  | part => color cursor part

def pauses (parts : List Part) : Plan := ⟨sumSteps pause 0 0 parts, total pause parts⟩

/-- Printed output: after the priming time, only pauses take any. -/
def output (config : Config) (parts : List Part) : Plan :=
  ⟨walk printingSteps pause config.outputPriming parts, config.outputPriming + total pause parts⟩

/-! ## Paste -/

/-- How far a part moves the cursor of pasted text. -/
def pasteCost (chunk : Nat) : Part → Nat
  | .literal .pasted _ => chunk
  | part => pause part

/-- The steps of one part of pasted text. -/
def pasteSteps (cursor : Nat) (part : Part) (_ : List Part) : List Step :=
  match part with
  | .literal .pasted text => [.emit cursor (.write text)]
  | part => color cursor part

/-- Pasted text: the prompt, each literal whole, and a line break. -/
def paste (config : Config) (state : State) (parts : List Part) : Plan :=
  let length := total (pasteCost config.pastePart) parts
  ⟨promptSteps config state ++ walk pasteSteps (pasteCost config.pastePart) 0 parts ++
      [.emit length (.write TerminalOp.lineBreak)],
    length⟩

/-! ## Actions -/

def direction (lines : Int32) : Int8 := Int8.ofInt lines.toInt.sign

/-- One single-line scroll after each step time. -/
def scrollSteps (step : Nat) (lines : Int32) : List Step :=
  (List.range lines.toInt.natAbs).flatMap fun k =>
    [.hold .product (step * (k + 1)), .emit (step * (k + 1)) (.scroll (direction lines))]

/-- The plan of an action without a defect. An action that changes the state
shows the state it leaves behind. -/
def of (config : Config) (state : State) : Action → Plan
  | .input parts => input config state parts
  | .output parts => output config parts
  | .paste parts => paste config state parts
  | .delay ns => ⟨[], ns⟩
  | .clear => ⟨[.emit 0 .clear], config.settle⟩
  | .prompt _ => ⟨[], config.settle⟩
  | .cursor visible => ⟨[.emit 0 (.cursor visible)], config.settle⟩
  | .scroll lines => ⟨scrollSteps config.scrollStep lines, config.settle⟩
  | .margin axis px =>
    let left := state.after (.margin axis px)
    ⟨[.emit 0 (.margins left.marginX left.marginY)], config.settle⟩
  | .typingSpeed _ => ⟨[], config.settle⟩

end Plan

end TermScene
