import TermScene.Proofs.Part.Normal
import TermScene.Proofs.Text.Reread
import TermScene.Scenario.Basic

/-!
# Reading a written directive

A directive that stands in front of a text whose first line is a directive makes one block,
and the rest of the text makes the others (`Reads`). A value on its own line or on the next
one comes back without the carriage return it may end in (`reads_write`). Whether a line is
a directive depends neither on that carriage return nor on how its tokens are written.
-/

namespace TermScene

open Text

namespace Directive

theorem isDirective_iff {line : Text} :
    isDirective line = true ↔ ∃ (k : Keyword) (rest : Text), line = (k.text ++ [':']) ++ rest := by
  unfold isDirective
  rw [Option.isSome_iff_exists]
  constructor
  · rintro ⟨d, h⟩
    obtain ⟨rest, rfl, -⟩ := ofLine?_eq_some_iff.1 h
    exact ⟨d.keyword, rest, by simp⟩
  · rintro ⟨k, rest, rfl⟩
    exact ⟨⟨k, valueOf rest⟩, ofLine?_eq_some_iff.2 ⟨rest, by simp, rfl⟩⟩

theorem isDirective_eq_false_iff {line : Text} : isDirective line = false ↔ ofLine? line = none := by
  rw [isDirective, Option.isSome_eq_false_iff, Option.isNone_iff_eq_none]

/-- A line that is empty or begins with a blank is no directive. -/
theorem isDirective_of_blank {line : Text} (h : line = [] ∨ line.startsBlank = true) :
    isDirective line = false := by
  rw [Bool.eq_false_iff, ne_eq, isDirective_iff]
  rintro ⟨k, rest, rfl⟩
  rcases h with h | h
  · simp at h
  · cases k <;> cases h

theorem isDirective_normalForm (line : Text) :
    isDirective (FoundToken.normalForm line) = isDirective line := by
  have plain (k : Keyword) : '%' ∉ k.text ++ [':'] := by cases k <;> decide
  rw [Bool.eq_iff_iff, isDirective_iff, isDirective_iff]
  constructor
  · rintro ⟨k, rest, h⟩
    obtain ⟨rest, rfl, -⟩ := FoundToken.exists_of_normalForm_eq_append (plain k) h
    exact ⟨k, rest, rfl⟩
  · rintro ⟨k, rest, rfl⟩
    exact ⟨k, _, FoundToken.normalForm_append_of_not_mem (plain k) rest⟩

theorem isDirective_chomp (line : Text) : isDirective (chomp line) = isDirective line := by
  obtain ⟨-, e⟩ | ⟨u, rfl, e⟩ := chomp_cases line
  · rw [e]
  · rw [e, Bool.eq_iff_iff, isDirective_iff, isDirective_iff]
    constructor
    · rintro ⟨k, rest, rfl⟩
      exact ⟨k, rest ++ ['\r'], by simp⟩
    · rintro ⟨k, rest, h⟩
      rcases List.eq_nil_or_concat rest with rfl | ⟨rest, c, rfl⟩
      · rw [List.append_nil] at h
        obtain ⟨-, last⟩ := List.append_inj' h rfl
        exact absurd last (by decide)
      · rw [List.concat_eq_append, ← List.append_assoc] at h
        obtain ⟨before, -⟩ := List.append_inj' h rfl
        exact ⟨k, rest, before⟩

theorem ofLine?_chomp_inline (k : Keyword) {v : Text} (nonempty : v ≠ [])
    (start : v.startsBlank = false) :
    ofLine? (chomp (k.text ++ ':' :: ' ' :: v)) = some ⟨k, some (chomp v)⟩ := by
  have line : chomp (k.text ++ ':' :: ' ' :: v) = k.text ++ ':' :: ' ' :: chomp v := by
    have all := chomp_append (k.text ++ [':', ' ']) nonempty
    rw [List.append_assoc, List.append_assoc] at all
    exact all
  obtain ⟨nonempty, start⟩ := chomp_of_startsBlank_eq_false nonempty start
  rw [line, ofLine?_inline k nonempty start]

theorem exists_write_eq (k : Keyword) (v : Text) :
    ∃ rest, write k v = k.text ++ ':' :: rest := by
  unfold write
  split
  · exact ⟨_, rfl⟩
  · exact ⟨_, rfl⟩

end Directive

namespace Block

def meaning (b : Block) : Meaning := .of b.directive.keyword b.value

/-- A keyword that takes one line of its block as its value. -/
def TakesLine (k : Keyword) : Prop := k ≠ .clear ∧ k ≠ .output

instance (k : Keyword) : Decidable (TakesLine k) :=
  inferInstanceAs (Decidable (k ≠ .clear ∧ k ≠ .output))

theorem value_of_takesLine {b : Block} (h : TakesLine b.directive.keyword) :
    b.value = (b.directive.value <|> b.body.head?).getD [] := by
  unfold value
  split
  · next e => exact absurd e h.1
  · next e => exact absurd e h.2
  · rfl

/-! ## Lines of a written directive -/

theorem blocksFrom_bare (k : Keyword) (n : Nat) (rest : List Text) :
    blocksFrom n ((k.text ++ [':']) :: rest) =
      ⟨n, ⟨k, none⟩, rest.takeWhile fun l => !Directive.isDirective l⟩ ::
        blocksFrom (n + 1) rest := by
  rw [blocksFrom, Directive.ofLine?_bare]

theorem blocksFrom_append {body : List Text} (h : ∀ l ∈ body, Directive.isDirective l = false)
    (n : Nat) (rest : List Text) :
    blocksFrom n (body ++ rest) = blocksFrom (n + body.length) rest := by
  induction body generalizing n with
  | nil => rfl
  | cons l body ih =>
    have none := Directive.isDirective_eq_false_iff.1 (h l List.mem_cons_self)
    rw [List.cons_append, blocksFrom, none, List.length_cons]
    simp only
    rw [ih (fun l hl => h l (List.mem_cons_of_mem _ hl)), Nat.add_right_comm, Nat.add_assoc]

theorem lines_bare (k : Keyword) (rest : Text) :
    lines (k.text ++ ':' :: '\n' :: rest) = (k.text ++ [':']) :: lines rest := by
  have line : IsLine (k.text ++ [':']) := by cases k <;> decide
  have all := lines_append_feed line.1 rest
  rw [chomp_eq_self line.2, List.append_assoc, List.singleton_append] at all
  exact all

/-- The lines are none or begin with a directive, so that they belong to no block before. -/
def Seam (ls : List Text) : Prop := ∀ l ∈ ls.head?, Directive.isDirective l = true

theorem seam_nil : Seam [] := by
  intro l h
  cases h

theorem seam_cons {l : Text} (h : Directive.isDirective l = true) (rest : List Text) :
    Seam (l :: rest) := by
  intro l' first
  obtain rfl := Option.some.inj first
  exact h

theorem seam_of_ofLine? {l : Text} {d : Directive} (h : Directive.ofLine? l = some d)
    (rest : List Text) : Seam (l :: rest) :=
  seam_cons (Option.isSome_of_eq_some h) rest

/-- The text is empty or begins with a directive line. -/
def Fresh (rest : Text) : Prop := ∀ l ∈ (lines rest).head?, Directive.isDirective l = true

theorem fresh_nil : Fresh [] := by
  intro l h
  cases h

theorem takeWhile_of_fresh {rest : Text} (h : Fresh rest) :
    (lines rest).takeWhile (fun l => !Directive.isDirective l) = [] := by
  cases e : lines rest with
  | nil => rfl
  | cons l more =>
    have directive := h l (by rw [e]; rfl)
    rw [List.takeWhile_cons, directive]
    rfl

theorem exists_lines_append {p : Text} (feed : '\n' ∉ p) (ret : '\r' ∉ p) (nonempty : p ≠ [])
    (rest : Text) : ∃ l more, lines (p ++ rest) = (p ++ l) :: more := by
  induction p with
  | nil => exact absurd rfl nonempty
  | cons c p ih =>
    simp only [List.mem_cons, not_or] at feed ret
    rw [List.cons_append, lines_cons (Ne.symm feed.1) fun e => absurd e (Ne.symm ret.1)]
    cases p with
    | nil => exact ⟨_, _, rfl⟩
    | cons d p =>
      obtain ⟨l, more, e⟩ := ih feed.2 ret.2 (List.cons_ne_nil _ _)
      rw [e]
      exact ⟨l, more, rfl⟩

/-- Whatever stands behind the colon, the line is a directive. -/
theorem fresh_keyword (k : Keyword) (rest : Text) : Fresh (k.text ++ ':' :: rest) := by
  have feed : '\n' ∉ k.text ++ [':'] := by cases k <;> decide
  have ret : '\r' ∉ k.text ++ [':'] := by cases k <;> decide
  obtain ⟨l, more, e⟩ := exists_lines_append feed ret (by simp) rest
  rw [List.append_assoc, List.singleton_append] at e
  intro line h
  rw [e] at h
  obtain rfl := Option.some.inj h
  exact Directive.isDirective_iff.2 ⟨k, l, rfl⟩

/-! ## Values -/

/-- The text is read as one block with a meaning, whatever comes behind it. -/
def Reads (t : Text) (m : Meaning) : Prop :=
  ∀ n rest, Fresh rest → ∃ b j,
    blocksFrom n (lines (t ++ '\n' :: rest)) = b :: blocksFrom j (lines rest) ∧ b.meaning = m

theorem blocksFrom_inline (k : Keyword) {v : Text} (feed : '\n' ∉ v) (nonempty : v ≠ [])
    (start : v.startsBlank = false) (n : Nat) (rest : Text) :
    ∃ body, blocksFrom n (lines (k.text ++ ':' :: ' ' :: v ++ '\n' :: rest)) =
      ⟨n, ⟨k, some (chomp v)⟩, body⟩ :: blocksFrom (n + 1) (lines rest) := by
  have feed : '\n' ∉ k.text ++ ':' :: ' ' :: v := by
    have := k.feed_not_mem_text.1
    simp [this, feed]
  rw [lines_append_feed feed, blocksFrom, Directive.ofLine?_chomp_inline k nonempty start]
  exact ⟨_, rfl⟩

theorem blocksFrom_below (k : Keyword) {v : Text} (feed : '\n' ∉ v)
    (start : v = [] ∨ v.startsBlank = true) (n : Nat) (rest : Text) :
    ∃ body, blocksFrom n (lines (k.text ++ ':' :: '\n' :: v ++ '\n' :: rest)) =
      ⟨n, ⟨k, none⟩, chomp v :: body⟩ :: blocksFrom (n + 2) (lines rest) := by
  have plain : Directive.isDirective (chomp v) = false := by
    rw [Directive.isDirective_chomp]
    exact Directive.isDirective_of_blank start
  have text : k.text ++ ':' :: '\n' :: v ++ '\n' :: rest =
      k.text ++ ':' :: '\n' :: (v ++ '\n' :: rest) := by simp
  have below : blocksFrom (n + 1) ([chomp v] ++ lines rest) = blocksFrom (n + 2) (lines rest) :=
    blocksFrom_append (by simpa using plain) _ _
  rw [List.singleton_append] at below
  rw [text, lines_bare, lines_append_feed feed, blocksFrom_bare, below, List.takeWhile_cons, plain]
  exact ⟨_, rfl⟩

/-- A written value comes back without the carriage return it ends in. -/
theorem reads_write {k : Keyword} {v : Text} (feed : '\n' ∉ v)
    (takes : TakesLine k) :
    Reads (Directive.write k v) (.of k (chomp v)) := by
  intro n rest _
  unfold Directive.write
  split
  · next start =>
    obtain ⟨body, e⟩ := blocksFrom_below k feed start n rest
    refine ⟨_, _, e, ?_⟩
    rw [meaning, value_of_takesLine takes]
    rfl
  · next start =>
    rw [not_or, Bool.not_eq_true] at start
    obtain ⟨body, e⟩ := blocksFrom_inline k feed start.1 start.2 n rest
    refine ⟨_, _, e, ?_⟩
    rw [meaning, value_of_takesLine takes]
    rfl

end Block

end TermScene
