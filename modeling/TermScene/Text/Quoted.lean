import TermScene.Text.Printable
import TermScene.Text.Blank

/-!
# Quoted text

A text between double quotes, as messages show it. A quote, a backslash and the
usual control characters are written with a backslash and a letter, every other
character without a sign of its own by its code point in hexadecimal, and all
else stands for itself.
-/

namespace TermScene.Text

/-- A character as it is written between quotes. -/
def quotedChar (c : Char) : Text :=
  if c = '"' then ['\\', '"']
  else if c = '\\' then ['\\', '\\']
  else if c = '\n' then ['\\', 'n']
  else if c = '\r' then ['\\', 'r']
  else if c = '\t' then ['\\', 't']
  else if c = '\x00' then ['\\', '0']
  else if isPrintable c then [c]
  else '\\' :: 'u' :: '{' :: (Nat.toDigits 16 c.toNat ++ ['}'])

/-- The text between double quotes. -/
def quoted (t : Text) : Text := '"' :: (t.flatMap quotedChar ++ ['"'])

end TermScene.Text
