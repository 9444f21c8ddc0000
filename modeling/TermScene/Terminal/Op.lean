import TermScene.Part.Basic
import TermScene.Text.Quoted

/-!
# Terminal operations

The primitive operations that playback sends to a terminal, the escape sequences
that carry them out, and how messages name them.
-/

namespace TermScene

/-- One primitive terminal operation. -/
inductive TerminalOp where
  | write (text : Text)
  | beginColor (background : Option UInt8) (text : UInt8)
  | endColor
  /-- Erases the character before the cursor. -/
  | backspace
  | clear
  /-- Scrolls by lines, up if the count is positive. -/
  | scroll (lines : Int8)
  | cursor (visible : Bool)
  | margins (x y : Int32)
  deriving Repr, DecidableEq

/-- The operation that a token stands for; a pause stands for none. -/
def Token.op? : Token → Option TerminalOp
  | .delay _ => none
  | .beginColor background text => some (.beginColor background text)
  | .endColor => some .endColor

namespace TerminalOp

/-- What is written where a line ends. -/
def lineBreak : Text := ['\r', '\n']

/-- The start of every escape sequence. -/
def escape (sequence : Text) : Text := '\x1b' :: '[' :: sequence

/-- Whether the operation is a control sequence within written text. -/
def isControl : TerminalOp → Bool
  | beginColor _ _ => true
  | endColor => true
  | backspace => true
  | _ => false

/-- The text that carries the operation out. A color sequence starts from plain
text; margins have no sequence. -/
def ansi : TerminalOp → Text
  | write text => text
  | beginColor none text => escape ("0;".toList ++ Whole.print text.toNat ++ ['m'])
  | beginColor (some background) text =>
    escape ("0;".toList ++ Whole.print text.toNat ++ ['m']) ++
      escape (Whole.print background.toNat ++ ['m'])
  | endColor => escape "0m".toList
  | backspace => ['\x08', ' ', '\x08']
  | clear => escape "2J".toList ++ escape "1;1H".toList
  | scroll lines =>
    match lines.toInt with
    | .ofNat 0 => []
    | .ofNat n => escape (Whole.print n ++ ['S'])
    | .negSucc n => escape (Whole.print (n + 1) ++ ['T'])
  | cursor true => escape "?25h".toList
  | cursor false => escape "?25l".toList
  | margins _ _ => []

/-- The text that an operation writes, apart from its controls. -/
def written : TerminalOp → Text
  | write text => text
  | _ => []

/-- The operation as messages name it. -/
def describe : TerminalOp → Text
  | write text => "Write(".toList ++ text.quoted ++ [')']
  | beginColor background text =>
    let shown :=
      match background with
      | none => "None".toList
      | some code => "Some(".toList ++ Whole.print code.toNat ++ [')']
    "Control(BeginColor ".toList ++ '{' :: " background: ".toList ++ shown ++
      ", text: ".toList ++ Whole.print text.toNat ++ [' ', '}', ')']
  | endColor => "Control(EndColor)".toList
  | backspace => "Control(Backspace)".toList
  | clear => "Clear".toList
  | scroll lines => "Scroll(".toList ++ Whole.printInt lines.toInt ++ [')']
  | cursor visible =>
    "SetCursorVisible(".toList ++ (if visible then "true".toList else "false".toList) ++ [')']
  | margins x y =>
    "SetMargins ".toList ++ '{' :: " x: ".toList ++ Whole.printInt x.toInt ++
      ", y: ".toList ++ Whole.printInt y.toInt ++ [' ', '}']

end TerminalOp

end TermScene
