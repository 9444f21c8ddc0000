import TermScene.Text.Blank

/-!
# Whole numbers

Reading and writing whole numbers in decimal. A reader is told the least and the
greatest number it may return and says why it refuses a text. Main statements:
what is written is read back, without a sign (`readNat_print`) and with one
(`read_printInt`).
-/

namespace TermScene.Whole

/-- Why a text is not read as a whole number. -/
inductive Fault where
  | empty
  | badDigit
  | tooLarge
  | tooSmall
  deriving Repr, DecidableEq

def Fault.message : Fault → Text
  | empty => "cannot parse integer from empty string".toList
  | badDigit => "invalid digit found in string".toList
  | tooLarge => "number too large to fit in target type".toList
  | tooSmall => "number too small to fit in target type".toList

/-- The value of an ASCII digit. -/
def digit? (c : Char) : Option Nat :=
  if c.isDigit then some (c.toNat - '0'.toNat) else none

/-- Reads digits from left to right, `n` being the value of those already read.
The first character that is no digit, or that takes the value over `limit`,
decides the fault. -/
def readDigits (limit : Nat) (excess : Fault) : Nat → Text → Except Fault Nat
  | n, [] => .ok n
  | n, c :: rest =>
    match digit? c with
    | none => .error .badDigit
    | some d =>
      if limit < 10 * n + d then .error excess else readDigits limit excess (10 * n + d) rest

/-- Reads a number of at most `limit`, written in digits alone. -/
def readNat (limit : Nat) : Text → Except Fault Nat
  | [] => .error .empty
  | digits => readDigits limit .tooLarge 0 digits

/-- Reads a number between `least` and `greatest`: digits after an optional
sign. A minus sign counts as a bad digit where no negative number is allowed,
and so does a sign alone. -/
def read (least greatest : Int) : Text → Except Fault Int
  | [] => .error .empty
  | ['+'] => .error .badDigit
  | ['-'] => .error .badDigit
  | '+' :: digits => .ofNat <$> readDigits greatest.toNat .tooLarge 0 digits
  | '-' :: digits =>
    if least < 0 then (- .ofNat ·) <$> readDigits (-least).toNat .tooSmall 0 digits
    else .error .badDigit
  | digits => .ofNat <$> readDigits greatest.toNat .tooLarge 0 digits

def readUInt64 (t : Text) : Except Fault UInt64 :=
  (fun n => UInt64.ofNat n.toNat) <$> read 0 (UInt64.size - 1 : Nat) t

def readInt32 (t : Text) : Except Fault Int32 :=
  Int32.ofInt <$> read Int32.minValue.toInt Int32.maxValue.toInt t

def print (n : Nat) : Text := Nat.toDigits 10 n

/-- The number in decimal digits, after a minus sign if it is negative. -/
def printInt : Int → Text
  | .ofNat n => print n
  | .negSucc n => '-' :: print (n + 1)

theorem isDigit_of_mem_print {n : Nat} {c : Char} (h : c ∈ print n) : c.isDigit = true :=
  Nat.isDigit_of_mem_toDigits (by decide) (by decide) h

theorem print_ne_nil (n : Nat) : print n ≠ [] := Nat.toDigits_ne_nil

theorem isBlank_of_isDigit {c : Char} (h : c.isDigit = true) : Text.isBlank c = false := by
  simp only [Char.isDigit, Bool.and_eq_true, decide_eq_true_eq, ge_iff_le,
    UInt32.le_iff_toNat_le] at h
  have : 48 ≤ c.toNat ∧ c.toNat ≤ 57 := h
  simp [Text.isBlank, Text.blankRuns]
  omega

theorem isBlank_of_mem_print {n : Nat} {c : Char} (h : c ∈ print n) : Text.isBlank c = false :=
  isBlank_of_isDigit (isDigit_of_mem_print h)

theorem trim_print (n : Nat) : (print n).trim = print n :=
  Text.trim_of_forall_not_blank fun _ => isBlank_of_mem_print

/-- Digits that spell a number within the limit are read as that number. -/
theorem readDigits_eq_ok {limit : Nat} {excess : Fault} {t : Text}
    (digits : ∀ c ∈ t, c.isDigit = true) (n : Nat) (fits : Nat.ofDigitChars 10 t n ≤ limit) :
    readDigits limit excess n t = .ok (Nat.ofDigitChars 10 t n) := by
  induction t generalizing n with
  | nil => rfl
  | cons c t ih =>
    have hc : c.isDigit = true := digits c (by simp)
    have grows : ∀ (t : Text) (m : Nat), m ≤ Nat.ofDigitChars 10 t m := by
      intro t
      induction t with
      | nil => intro m; simp [Nat.ofDigitChars]
      | cons d t ih =>
        intro m
        rw [Nat.ofDigitChars_cons]
        have := ih (10 * m + (d.toNat - '0'.toNat))
        omega
    rw [Nat.ofDigitChars_cons] at fits ⊢
    have := grows t (10 * n + (c.toNat - '0'.toNat))
    simp only [readDigits, digit?, hc, if_true]
    rw [if_neg (by omega)]
    exact ih (fun d m => digits d (by simp [m])) _ fits

theorem readDigits_print {n limit : Nat} (h : n ≤ limit) (excess : Fault) :
    readDigits limit excess 0 (print n) = .ok n := by
  have value : Nat.ofDigitChars 10 (print n) 0 = n :=
    Nat.ofDigitChars_toDigits (by decide) (by decide)
  rw [readDigits_eq_ok (fun c => isDigit_of_mem_print) 0 (by rw [value]; exact h), value]

/-- What is written is read back. -/
theorem readNat_print {n limit : Nat} (h : n ≤ limit) : readNat limit (print n) = .ok n := by
  have read := readDigits_print h .tooLarge
  revert read
  unfold readNat
  split
  · next e => intro; exact absurd e (print_ne_nil n)
  · exact id

theorem isBlank_of_mem_printInt {x : Int} {c : Char} (h : c ∈ printInt x) :
    Text.isBlank c = false := by
  cases x with
  | ofNat n => exact isBlank_of_mem_print h
  | negSucc n =>
    rcases List.mem_cons.1 h with rfl | h
    · decide
    · exact isBlank_of_mem_print h

/-- A text that begins with a digit has no sign. -/
theorem read_of_isDigit {least greatest : Int} {c : Char} {t : Text} (h : c.isDigit = true) :
    read least greatest (c :: t) = .ofNat <$> readDigits greatest.toNat .tooLarge 0 (c :: t) := by
  unfold read
  split
  · next e => cases e
  · next e => injection e with e; subst e; cases h
  · next e => injection e with e; subst e; cases h
  · next e => injection e with e; subst e; cases h
  · next e => injection e with e; subst e; cases h
  · rfl

theorem read_print {n : Nat} {least greatest : Int} (h : n ≤ greatest) :
    read least greatest (print n) = .ok n := by
  have digits : readDigits greatest.toNat .tooLarge 0 (print n) = .ok n :=
    readDigits_print (by omega) _
  cases e : print n with
  | nil => exact absurd e (print_ne_nil n)
  | cons c t =>
    have first : c.isDigit = true := isDigit_of_mem_print (n := n) (by rw [e]; simp)
    rw [e] at digits
    rw [read_of_isDigit first, digits]
    rfl

/-- What is written is read back, with its sign. -/
theorem read_printInt {x least greatest : Int} (low : least ≤ x) (high : x ≤ greatest) :
    read least greatest (printInt x) = .ok x := by
  cases x with
  | ofNat n => exact read_print high
  | negSucc n =>
    have digits : readDigits (-least).toNat .tooSmall 0 (print (n + 1)) = .ok (n + 1) :=
      readDigits_print (by omega) _
    have negative : least < 0 := by omega
    show read least greatest ('-' :: print (n + 1)) = _
    cases e : print (n + 1) with
    | nil => exact absurd e (print_ne_nil _)
    | cons c t =>
      rw [e] at digits
      show (if least < 0 then (- .ofNat ·) <$> readDigits (-least).toNat .tooSmall 0 (c :: t)
        else .error .badDigit) = _
      rw [if_pos negative, digits]
      rfl

theorem readUInt64_print (n : UInt64) : readUInt64 (print n.toNat) = .ok n := by
  have fits : (n.toNat : Int) ≤ (UInt64.size - 1 : Nat) := by
    have := n.toNat_lt
    simp only [UInt64.size]
    omega
  rw [readUInt64, read_print fits]
  show Except.ok (UInt64.ofNat n.toNat) = _
  rw [UInt64.ofNat_toNat]

theorem readInt32_printInt (n : Int32) : readInt32 (printInt n.toInt) = .ok n := by
  rw [readInt32, read_printInt n.minValue_le_toInt n.toInt_le]
  show Except.ok (Int32.ofInt n.toInt) = _
  rw [Int32.ofInt_toInt]

end TermScene.Whole
