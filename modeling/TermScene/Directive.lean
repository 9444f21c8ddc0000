import TermScene.Keyword
import TermScene.Text.Cut

/-!
# Directive lines

A directive line is a keyword, a colon and an optional value. This module reads
such lines and writes them. Main statements: which lines are directives
(`ofLine?_eq_some_iff`), and that a value without a leading blank is read back
from its line (`ofLine?_inline`).
-/

namespace TermScene

/-- A directive line. The value begins with no blank; a line on which nothing
but blanks follows the colon has none. -/
structure Directive where
  keyword : Keyword
  value : Option Text
  deriving Repr, DecidableEq

namespace Directive

/-- The value that what follows the colon holds. -/
def valueOf (rest : Text) : Option Text :=
  if rest.trimStart = [] then none else some rest.trimStart

/-- Reads a line as a directive: before its first colon stands a keyword and
nothing else. -/
def ofLine? (line : Text) : Option Directive :=
  match line.cutAt? ':' with
  | none => none
  | some (name, rest) => (Keyword.ofText? name).map fun keyword => ⟨keyword, valueOf rest⟩

def isDirective (line : Text) : Bool := (ofLine? line).isSome

/-- Writes a directive with its value on the same line, or on a line of its own
where it would be lost behind the colon: if it is empty or begins with a blank. -/
def write (keyword : Keyword) (value : Text) : Text :=
  if value = [] ∨ value.startsBlank then keyword.text ++ ':' :: '\n' :: value
  else keyword.text ++ ':' :: ' ' :: value

theorem ofLine?_eq_some_iff {line : Text} {d : Directive} :
    ofLine? line = some d ↔
      ∃ rest, line = d.keyword.text ++ ':' :: rest ∧ d.value = valueOf rest := by
  obtain ⟨keyword, value⟩ := d
  unfold ofLine?
  constructor
  · intro h
    split at h
    · simp at h
    · next name rest cut =>
      obtain ⟨k, hk, e⟩ := Option.map_eq_some_iff.1 h
      obtain ⟨rfl, -⟩ := Text.cutAt?_eq_some_iff.1 cut
      injection e with e₁ e₂
      subst e₁ e₂
      rw [Keyword.ofText?_eq_some_iff.1 hk]
      exact ⟨rest, rfl, rfl⟩
  · rintro ⟨rest, rfl, hv⟩
    have cut : Text.cutAt? ':' (keyword.text ++ ':' :: rest) = some (keyword.text, rest) :=
      Text.cutAt?_eq_some_iff.2 ⟨rfl, keyword.colon_not_mem_text⟩
    have hv : value = valueOf rest := hv
    simp [cut, hv]

/-- A keyword and its colon alone make a directive without a value. -/
theorem ofLine?_bare (k : Keyword) : ofLine? (k.text ++ [':']) = some ⟨k, none⟩ :=
  ofLine?_eq_some_iff.2 ⟨[], rfl, rfl⟩

/-- A value that begins with no blank is read back from its line. -/
theorem ofLine?_inline (k : Keyword) {value : Text} (nonempty : value ≠ [])
    (start : value.startsBlank = false) :
    ofLine? (k.text ++ ':' :: ' ' :: value) = some ⟨k, some value⟩ := by
  refine ofLine?_eq_some_iff.2 ⟨' ' :: value, rfl, ?_⟩
  have : Text.trimStart (' ' :: value) = value := by
    show List.dropWhile _ _ = _
    rw [List.dropWhile_cons, if_pos (by decide)]
    exact Text.trimStart_eq_self start
  simp [valueOf, this, nonempty]

end Directive

end TermScene
