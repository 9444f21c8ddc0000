import TermScene.Text.Cut
import TermScene.Whole

/-!
# Parts

The payload of an action is a list of parts: literal text and tokens. A token is
written `%`, an opening brace, a body, a closing brace; this module reads bodies
and writes parts. Main statement: the body that a token is written with is read
back (`ofBody?_body`).
-/

namespace TermScene

/-- What a token asks for: a pause in milliseconds, a color, or the end of one. -/
inductive Token where
  | delay (ms : UInt64)
  | beginColor (background : Option UInt8) (text : UInt8)
  | endColor
  deriving Repr, DecidableEq

/-- How a literal reaches the screen: printed at once, typed character by
character, or pasted whole. -/
inductive LiteralKind where
  | printed
  | typed
  | pasted
  deriving Repr, DecidableEq

inductive Part where
  | literal (kind : LiteralKind) (text : Text)
  | token (token : Token)
  deriving Repr, DecidableEq

namespace Token

/-- Reads a color code: at most 255, blanks around it and one `m` behind it
allowed. -/
def readCode? (code : Text) : Option UInt8 :=
  let code := code.trim
  let digits := if code.getLast? = some 'm' then code.dropLast else code
  (Whole.readNat 255 digits).toOption.map UInt8.ofNat

/-- Reads one color code, or a background and a text code with a semicolon
between them. -/
def readColor? (codes : Text) : Option Token :=
  match codes.cutAt? ';' with
  | some (background, text) => do
    let background ← readCode? background
    let text ← readCode? text
    return .beginColor (some background) text
  | none => (readCode? codes).map (.beginColor none)

/-- Reads a pause: blanks, digits, blanks. -/
def readDelay? (value : Text) : Option Token :=
  if value.startsBlank then
    (Whole.readNat (UInt64.size - 1) value.trim).toOption.map fun ms => .delay (UInt64.ofNat ms)
  else none

def ofBody? (body : Text) : Option Token :=
  match body.after? "delay".toList with
  | some value => readDelay? value
  | none =>
    match body.after? "begin:".toList with
    | some codes => readColor? codes
    | none =>
      if body = "end".toList ∨ (body.after? "end:".toList).isSome then some .endColor else none

/-- The body that a token is written with. -/
def body : Token → Text
  | .delay ms => "delay ".toList ++ Whole.print ms.toNat
  | .beginColor (some background) text =>
    "begin:".toList ++ Whole.print background.toNat ++ ';' :: Whole.print text.toNat
  | .beginColor none text => "begin:".toList ++ Whole.print text.toNat
  | .endColor => "end".toList

theorem readCode?_print (n : UInt8) : readCode? (Whole.print n.toNat) = some n := by
  have hm : (Whole.print n.toNat).getLast? ≠ some 'm' := fun h => by
    have := Whole.isDigit_of_mem_print (List.mem_of_getLast? h)
    simp at this
  have hn : n.toNat ≤ 255 := Nat.le_of_lt_succ n.toNat_lt
  simp [readCode?, Whole.trim_print, hm, Whole.readNat_print hn, Except.toOption]

/-- A blank and a number are a pause as it is written. -/
theorem readDelay?_print (ms : UInt64) :
    readDelay? (' ' :: Whole.print ms.toNat) = some (.delay ms) := by
  have hms : ms.toNat ≤ UInt64.size - 1 := Nat.le_of_lt_succ ms.toNat_lt
  have blank : Text.trim (' ' :: Whole.print ms.toNat) = Whole.print ms.toNat :=
    Whole.trim_print ms.toNat
  rw [readDelay?, blank, Whole.readNat_print hms]
  simp [Except.toOption, Text.startsBlank, show Text.isBlank ' ' = true by decide]

/-- The body that a token is written with is read back. -/
theorem ofBody?_body (t : Token) : ofBody? t.body = some t := by
  have plain (n : Nat) : (Whole.print n).cutAt? ';' = none :=
    Text.cutAt?_eq_none_iff.2 fun h => by
      have := Whole.isDigit_of_mem_print h
      simp at this
  have pair (m n : Nat) : (Whole.print m ++ ';' :: Whole.print n).cutAt? ';' =
      some (Whole.print m, Whole.print n) :=
    Text.cutAt?_eq_some_iff.2 ⟨rfl, fun h => by
      have := Whole.isDigit_of_mem_print h
      simp at this⟩
  match t with
  | .delay ms =>
    have : body (.delay ms) = "delay".toList ++ ' ' :: Whole.print ms.toNat := rfl
    rw [ofBody?, this, Text.after?_append]
    exact readDelay?_print ms
  | .beginColor (some background) text =>
    have : ofBody? (body (.beginColor (some background) text)) =
      readColor? (Whole.print background.toNat ++ ';' :: Whole.print text.toNat) := rfl
    simp [this, readColor?, pair, readCode?_print]
  | .beginColor none text =>
    have : ofBody? (body (.beginColor none text)) = readColor? (Whole.print text.toNat) := rfl
    simp [this, readColor?, plain, readCode?_print]
  | .endColor => decide

def write (t : Token) : Text := '%' :: '{' :: (t.body ++ ['}'])

end Token

namespace Part

def isLiteral : Part → Bool
  | .literal _ _ => true
  | .token _ => false

def write : Part → Text
  | .literal _ text => text
  | .token t => t.write

/-- The parts as they are written, one after another. -/
def render (parts : List Part) : Text := parts.flatMap write

end Part

end TermScene
