import TermScene.Text.Cut
import TermScene.Whole

/-!
# Failures

A failure has a message and the causes behind it, outermost first. It is shown as
a report that numbers the causes if there are several and indents their lines.
-/

namespace TermScene

/-- A message and the causes behind it, outermost first. -/
structure Failure where
  message : Text
  causes : List Text
  deriving Repr, DecidableEq

namespace Failure

/-- The failure as the innermost cause but one of a wider one. -/
def within (f : Failure) (message : Text) : Failure := ⟨message, f.message :: f.causes⟩

/-- The text with spaces behind each of its line feeds. -/
def indent (width : Nat) (t : Text) : Text :=
  t.flatMap fun c => if c = '\n' then '\n' :: List.replicate width ' ' else [c]

/-- The number of a cause, right-aligned in five columns. -/
def number (n : Nat) : Text :=
  let digits := Whole.print n
  List.replicate (5 - digits.length) ' ' ++ digits ++ [':', ' ']

/-- The causes on lines of their own, numbered if there are several. -/
def causeLines : List Text → Text
  | [] => []
  | [cause] => '\n' :: (List.replicate 4 ' ' ++ indent 4 cause)
  | causes =>
    causes.zipIdx.flatMap fun (cause, n) => '\n' :: (number n ++ indent 7 cause)

def report (f : Failure) : Text :=
  "Error: ".toList ++ f.message ++
    (if f.causes = [] then [] else "\n\nCaused by:".toList ++ causeLines f.causes) ++ ['\n']

end Failure

end TermScene
