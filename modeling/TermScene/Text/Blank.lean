/-!
# Text and its blanks

Text is a list of characters. This module says which characters are blank and
cuts them off either end of a text. Main statements: what is left after cutting
the start begins with no blank (`startsBlank_trimStart`), and a text that begins and
ends with none is left alone (`trim_eq_self`).
-/

namespace TermScene

/-- A run of characters. -/
abbrev Text := List Char

namespace Text

/-- First and last code point of each run of characters with the Unicode
property `White_Space`. -/
def blankRuns : List (Nat × Nat) :=
  [(0x09, 0x0D), (0x20, 0x20), (0x85, 0x85), (0xA0, 0xA0), (0x1680, 0x1680),
   (0x2000, 0x200A), (0x2028, 0x2029), (0x202F, 0x202F), (0x205F, 0x205F),
   (0x3000, 0x3000)]

def isBlank (c : Char) : Bool :=
  blankRuns.any fun run => run.1 ≤ c.toNat && c.toNat ≤ run.2

/-- The text without the blanks it begins with. -/
def trimStart (t : Text) : Text := t.dropWhile isBlank

/-- The text without the blanks it ends with. -/
def trimEnd (t : Text) : Text := (t.reverse.dropWhile isBlank).reverse

/-- The text without the blanks at either end. -/
def trim (t : Text) : Text := (trimStart t).trimEnd

def startsBlank : Text → Bool
  | [] => false
  | c :: _ => isBlank c

@[simp] theorem trimStart_nil : trimStart [] = [] := rfl

@[simp] theorem trim_nil : trim [] = [] := rfl

theorem startsBlank_trimStart (t : Text) : (trimStart t).startsBlank = false := by
  induction t with
  | nil => rfl
  | cons c t ih =>
    by_cases hc : isBlank c = true
    · simpa [trimStart, hc] using ih
    · simp [trimStart, startsBlank, hc]

theorem trimStart_eq_self {t : Text} (h : t.startsBlank = false) : trimStart t = t := by
  cases t with
  | nil => rfl
  | cons c t => simp [trimStart, show isBlank c = false from h]

/-- A text whose two ends are no blanks is left alone. -/
theorem trim_eq_self {t : Text} (first : t.startsBlank = false)
    (last : startsBlank t.reverse = false) : trim t = t := by
  have h : t.reverse.dropWhile isBlank = t.reverse := trimStart_eq_self last
  simp [trim, trimStart_eq_self first, trimEnd, h]

theorem trim_of_forall_not_blank {t : Text} (h : ∀ c ∈ t, isBlank c = false) : trim t = t := by
  have first : ∀ t : Text, (∀ c ∈ t, isBlank c = false) → t.startsBlank = false := by
    intro t h
    cases t with
    | nil => rfl
    | cons c t => exact h c (by simp)
  exact trim_eq_self (first _ h) (first _ fun c m => h c (List.mem_reverse.1 m))

end Text

end TermScene
