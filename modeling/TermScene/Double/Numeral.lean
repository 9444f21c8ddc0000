import TermScene.Double.Basic
import TermScene.Whole

/-!
# Decimal numerals

A numeral is a whole number of digits and a power of ten. This module reads
numerals, rounds them to doubles, and writes them positionally, without an
exponent. Main statement: a positional text is read as the numeral it was
written from, up to the zeros put behind it (`read_positional`).
-/

namespace TermScene

/-- The number `digits · 10 ^ exponent`. -/
structure Numeral where
  digits : Nat
  exponent : Int
  deriving Repr, DecidableEq

namespace Numeral

-- Powers are those of the natural numbers, whatever other instance is in scope.
attribute [local instance (2000)] instPowNat

/-- The magnitude nearest to a numeral, or `none` past the greatest one. -/
def toMagnitude? : Numeral → Option Magnitude
  | ⟨digits, .ofNat e⟩ => Magnitude.ofRatio (digits * 10 ^ e) 1
  | ⟨digits, .negSucc e⟩ => Magnitude.ofRatio digits (10 ^ (e + 1))

theorem toMagnitude?_ofNat (digits e : Nat) :
    toMagnitude? ⟨digits, .ofNat e⟩ = Magnitude.ofRatio (digits * 10 ^ e) 1 := rfl

theorem toMagnitude?_zero : toMagnitude? ⟨0, .ofNat 0⟩ = some .zero := by
  have value (e k : Nat) : 0 * 10 ^ e * k = Magnitude.zero.units * 1 := by
    simp [Magnitude.units, Magnitude.zero]
  rw [toMagnitude?_ofNat]
  exact Magnitude.ofRatio_units .zero Nat.one_pos (value 0 _)

/-- The value of a text of digits, of which there is at least one. -/
def readDigits? (t : Text) : Option Nat :=
  if t ≠ [] ∧ t.all Char.isDigit then some (Nat.ofDigitChars 10 t 0) else none

/-- Reads a power of ten: digits after an optional sign. No more than `most` of
either sign is returned. -/
def readPower? (most : Nat) : Text → Option Int
  | '+' :: t => (readDigits? t).map fun n => .ofNat (min n most)
  | '-' :: t => (readDigits? t).map fun n => - .ofNat (min n most)
  | t => (readDigits? t).map fun n => .ofNat (min n most)

/-- Reads what may follow the digits: nothing, or a power of ten after an `e`. -/
def readTail? (most : Nat) : Text → Option Int
  | [] => some 0
  | c :: t => if c = 'e' ∨ c = 'E' then readPower? most t else none

/-- Reads digits with at most one point among them, before or behind them, and
an optional power of ten. A power past the length of the text by 400 rounds as
one past it by more, so powers are cut there. -/
def read? (t : Text) : Option Numeral :=
  let whole := t.takeWhile Char.isDigit
  let rest := t.dropWhile Char.isDigit
  let (part, rest) :=
    match rest with
    | '.' :: rest => (rest.takeWhile Char.isDigit, rest.dropWhile Char.isDigit)
    | rest => ([], rest)
  if whole = [] ∧ part = [] then none
  else (readTail? (t.length + 400) rest).map fun power =>
    ⟨Nat.ofDigitChars 10 (whole ++ part) 0, power - part.length⟩

/-- Writes a numeral positionally: zeros behind its digits if the power of ten is
not negative, else a point among them with at least one digit before it. -/
def positional : Numeral → Text
  | ⟨digits, .ofNat e⟩ => Whole.print digits ++ List.replicate e '0'
  | ⟨digits, .negSucc e⟩ =>
    let written := Whole.print digits
    let padded := List.replicate (e + 2 - written.length) '0' ++ written
    padded.take (padded.length - (e + 1)) ++ '.' :: padded.drop (padded.length - (e + 1))

/-- A positional text is made of digits and a point. -/
theorem isBlank_of_mem_positional {n : Numeral} {c : Char} (h : c ∈ positional n) :
    Text.isBlank c = false := by
  obtain ⟨digits, e | e⟩ := n
  · rcases List.mem_append.1 h with h | h
    · exact Whole.isBlank_of_mem_print h
    · rw [List.eq_of_mem_replicate h]
      decide
  · have padded : ∀ c ∈ List.replicate (e + 2 - (Whole.print digits).length) '0' ++
        Whole.print digits, Text.isBlank c = false := by
      intro c h
      rcases List.mem_append.1 h with h | h
      · rw [List.eq_of_mem_replicate h]
        decide
      · exact Whole.isBlank_of_mem_print h
    rcases List.mem_append.1 h with h | h
    · exact padded c (List.mem_of_mem_take h)
    · rcases List.mem_cons.1 h with rfl | h
      · decide
      · exact padded c (List.mem_of_mem_drop h)

private theorem takeWhile_digits (t rest : Text) (digits : ∀ c ∈ t, c.isDigit = true)
    (stop : ∀ c ∈ rest.head?, c.isDigit = false) :
    (t ++ rest).takeWhile Char.isDigit = t ∧ (t ++ rest).dropWhile Char.isDigit = rest := by
  induction t with
  | nil =>
    cases rest with
    | nil => simp
    | cons c rest => simp [stop c (by simp)]
  | cons c t ih =>
    have hc := digits c (by simp)
    have := ih fun d m => digits d (by simp [m])
    simp [hc, this]

/-- Zeros before the digits add nothing. -/
private theorem ofDigitChars_zeros (k : Nat) (t : Text) :
    Nat.ofDigitChars 10 (List.replicate k '0' ++ t) 0 = Nat.ofDigitChars 10 t 0 := by
  induction k with
  | zero => rfl
  | succ k ih => rw [List.replicate_succ, List.cons_append, Nat.ofDigitChars_cons]; exact ih

private theorem ofDigitChars_print (n : Nat) : Nat.ofDigitChars 10 (Whole.print n) 0 = n :=
  Nat.ofDigitChars_toDigits (by decide) (by decide)

/-- A numeral with decimal places is read back from its positional text. -/
theorem read_positional (digits places : Nat) :
    read? (positional ⟨digits, .negSucc places⟩) = some ⟨digits, .negSucc places⟩ := by
  simp only [positional]
  generalize hp : List.replicate (places + 2 - (Whole.print digits).length) '0' ++
    Whole.print digits = padded
  have hlen : places + 2 ≤ padded.length := by
    rw [← hp]; simp; omega
  have hdigit : ∀ c ∈ padded, c.isDigit = true := by
    intro c hc
    rw [← hp, List.mem_append] at hc
    rcases hc with hc | hc
    · rw [List.eq_of_mem_replicate hc]; decide
    · exact Whole.isDigit_of_mem_print hc
  have hvalue : Nat.ofDigitChars 10 padded 0 = digits := by
    rw [← hp, ofDigitChars_zeros, ofDigitChars_print]
  generalize hk : padded.length - (places + 1) = k
  have hwhole := takeWhile_digits (padded.take k) ('.' :: padded.drop k)
    (fun c m => hdigit c (List.mem_of_mem_take m)) (by simp)
  have hpart := takeWhile_digits (padded.drop k) []
    (fun c m => hdigit c (List.mem_of_mem_drop m)) (by simp)
  simp only [List.append_nil] at hpart
  have hne : padded.take k ≠ [] := by
    intro e
    have : (padded.take k).length = 0 := by rw [e]; rfl
    rw [List.length_take] at this
    omega
  have hplaces : (padded.drop k).length = places + 1 := by
    rw [List.length_drop]; omega
  simp only [read?, hwhole.1, hwhole.2, hpart.1, hpart.2, hne, false_and, if_false, readTail?,
    Option.map_some, List.take_append_drop, hvalue, hplaces]
  congr 2

end Numeral

namespace Double

/-- Reads an unsigned double: a word for infinity or for what is not a number, in
any case, or a numeral. -/
def readUnsigned? (negative : Bool) (t : Text) : Option Double :=
  let word := t.map Char.toLower
  if word = "inf".toList ∨ word = "infinity".toList then some (.infinite negative)
  else if word = "nan".toList then some .nan
  else (Numeral.read? t).map fun n => ofMagnitude? negative n.toMagnitude?

/-- Reads a double, correctly rounded, after an optional sign. -/
def read? : Text → Option Double
  | '+' :: t => readUnsigned? false t
  | '-' :: t => readUnsigned? true t
  | t => readUnsigned? false t

end Double

end TermScene
