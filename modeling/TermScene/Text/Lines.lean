import TermScene.Text.Blank

/-!
# Lines

A text is cut into lines at its line feeds, and lines are put together again
with line feeds between them or after each. Main statement: a character that ends
no line is put before the first line of what follows it (`lines_cons`).
-/

namespace TermScene.Text

/-- The lines of a text. A line feed ends a line and takes one carriage return
directly before it along. What follows the last line feed is a line only if it
is not empty, and keeps its carriage returns. -/
def lines : Text → List Text
  | [] => []
  | '\n' :: rest => [] :: lines rest
  | '\r' :: '\n' :: rest => [] :: lines rest
  | c :: rest =>
    match lines rest with
    | [] => [[c]]
    | line :: more => (c :: line) :: more

/-- The lines one after another, a line feed after each. -/
def unlines : List Text → Text
  | [] => []
  | line :: more => line ++ '\n' :: unlines more

/-- The lines one after another, a line feed between each two. -/
def joinLines : List Text → Text
  | [] => []
  | [line] => line
  | line :: more => line ++ '\n' :: joinLines more

/-- Whether a text can stand as one terminated line and be read back: it holds
no line feed and ends in no carriage return. -/
def IsLine (t : Text) : Prop := '\n' ∉ t ∧ t.getLast? ≠ some '\r'

instance (t : Text) : Decidable (IsLine t) := inferInstanceAs (Decidable (_ ∧ _))

@[simp] theorem lines_nil : lines [] = [] := rfl

@[simp] theorem lines_feed (rest : Text) : lines ('\n' :: rest) = [] :: lines rest := rfl

/-- A character that ends no line is put before the first line of the rest. -/
theorem lines_cons {c : Char} {rest : Text} (feed : c ≠ '\n')
    (ret : c = '\r' → rest.head? ≠ some '\n') :
    lines (c :: rest) = ((c :: (lines rest).headD []) :: (lines rest).tail) := by
  rw [lines]
  · cases lines rest <;> rfl
  · exact feed
  · rintro more rfl rfl
    exact ret rfl rfl

end TermScene.Text
