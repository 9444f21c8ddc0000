import TermScene.Text.Blank

/-!
# Keywords

The fixed vocabulary of directive names. Main statement: a keyword is read from
its own text and from no other (`ofText?_eq_some_iff`).
-/

namespace TermScene

/-- The name of a directive. -/
inductive Keyword where
  | input
  | output
  | audio
  | delay
  | clear
  | paste
  | prompt
  | cursor
  | scrollLines
  | marginX
  | marginY
  | typingSpeed
  deriving Repr, DecidableEq

namespace Keyword

def all : List Keyword :=
  [input, output, audio, delay, clear, paste, prompt, cursor, scrollLines, marginX, marginY,
   typingSpeed]

def text : Keyword → Text
  | input => "input".toList
  | output => "output".toList
  | audio => "audio".toList
  | delay => "delay".toList
  | clear => "clear".toList
  | paste => "paste".toList
  | prompt => "prompt".toList
  | cursor => "cursor".toList
  | scrollLines => "scroll_lines".toList
  | marginX => "margin-x".toList
  | marginY => "margin-y".toList
  | typingSpeed => "typing_speed".toList

/-- The keyword that a text spells. -/
def ofText? (t : Text) : Option Keyword := all.find? (·.text == t)

@[simp] theorem ofText?_text (k : Keyword) : ofText? k.text = some k := by
  cases k <;> decide

theorem ofText?_eq_some_iff {t : Text} {k : Keyword} : ofText? t = some k ↔ t = k.text := by
  constructor
  · intro h
    have spelled : (k.text == t) = true := List.find?_some (p := fun k : Keyword => k.text == t) h
    exact (beq_iff_eq.1 spelled).symm
  · rintro rfl
    exact ofText?_text k

theorem colon_not_mem_text (k : Keyword) : ':' ∉ k.text := by
  cases k <;> decide

theorem feed_not_mem_text (k : Keyword) : '\n' ∉ k.text ∧ '\r' ∉ k.text := by
  cases k <;> decide

end Keyword

end TermScene
