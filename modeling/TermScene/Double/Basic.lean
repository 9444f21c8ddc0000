/-!
# Double-precision numbers

A double is held exactly: a finite one has a sign and a whole number of units of
`2 ^ -1074`, written as a mantissa of at most 53 bits and a power of two. A
quotient of natural numbers is rounded to the nearest double, a tie going to the
even mantissa; conversion from whole numbers, division and the reading of
decimals all round in that one place. Main statements: a double is determined by
its units (`Magnitude.ext_units`), and rounding a double's own value gives the
double back (`Magnitude.ofRatio_units`).
-/

namespace TermScene

/-- A finite double without its sign: `mant · 2 ^ exp` units of `2 ^ -1074`. The
power of two is the least that leaves the mantissa 53 bits. -/
structure Magnitude where
  mant : Nat
  exp : Nat
  canonical : mant.log2 ≤ 52 ∧ exp ≤ 2045 ∧ (exp = 0 ∨ mant.log2 = 52)
  deriving DecidableEq

namespace Magnitude

-- Powers are those of the natural numbers, whatever other instance is in scope.
attribute [local instance (2000)] instPowNat

/-- The last binary place of a unit, counted from zero behind the point. -/
def lastPlace : Nat := 1073

/-- The number of units in a whole. -/
def perWhole : Nat := 2 ^ (lastPlace + 1)

/-- The value in units. -/
def units (m : Magnitude) : Nat := m.mant * 2 ^ m.exp

def zero : Magnitude := ⟨0, 0, by decide⟩

def one : Magnitude := ⟨4503599627370496, 1022, by decide⟩

instance : Inhabited Magnitude := ⟨zero⟩

/-- The magnitude with this mantissa and power of two, if there is one. -/
def ofParts? (mant exp : Nat) : Option Magnitude :=
  if h : mant.log2 ≤ 52 ∧ exp ≤ 2045 ∧ (exp = 0 ∨ mant.log2 = 52) then some ⟨mant, exp, h⟩
  else none

/-- The whole number nearest to `num / den`, the even one of two equally near. -/
def roundHalfEven (num den : Nat) : Nat :=
  let quotient := num / den
  let rest := num % den
  if 2 * rest < den then quotient
  else if den < 2 * rest then quotient + 1
  else quotient + quotient % 2

/-- The magnitude nearest to `num / den` units, or `none` if that is past the
greatest one. A mantissa that is rounded up to 54 bits is a power of two, so half
of it is exact. -/
def ofUnits (num den : Nat) : Option Magnitude :=
  let exp := (num / den).log2 - 52
  let mant := roundHalfEven num (den * 2 ^ exp)
  if mant.log2 ≤ 52 then ofParts? mant exp else ofParts? (mant / 2) (exp + 1)

/-- The magnitude nearest to `num / den`, or `none` if that is past the greatest
one. -/
def ofRatio (num den : Nat) : Option Magnitude := ofUnits (num * perWhole) den

/-- The whole number nearest to the magnitude, the greater one of two equally
near. -/
def nearestWhole (m : Magnitude) : Nat := (2 * m.units + perWhole) / (2 * perWhole)

/-- Each power of two is one more bit. -/
private theorem log2_mul_pow {n : Nat} (pos : n ≠ 0) (k : Nat) :
    (n * 2 ^ k).log2 = n.log2 + k := by
  have two := Nat.two_pow_pos k
  obtain ⟨low, high⟩ := (Nat.log2_eq_iff pos).1 rfl
  rw [Nat.log2_eq_iff (Nat.mul_ne_zero pos (Nat.ne_of_gt two))]
  constructor
  · rw [Nat.pow_add]; exact Nat.mul_le_mul_right _ low
  · rw [Nat.add_right_comm, Nat.pow_add]; exact Nat.mul_lt_mul_of_pos_right high two

theorem ext_units {a b : Magnitude} (h : a.units = b.units) : a = b := by
  obtain ⟨m, e, hm, he, hc⟩ := a
  obtain ⟨n, f, hn, hf, hd⟩ := b
  simp only [units] at h
  have key : ∀ {m e n f : Nat}, m.log2 ≤ 52 → (f = 0 ∨ n.log2 = 52) →
      m * 2 ^ e = n * 2 ^ f → ¬ e < f := by
    intro m e n f hm hn h lt
    obtain ⟨k, rfl⟩ : ∃ k, f = e + (k + 1) := ⟨f - e - 1, by omega⟩
    have hn : n.log2 = 52 := by omega
    have pos : n ≠ 0 := by rintro rfl; revert hn; decide
    have : m = n * 2 ^ (k + 1) := by
      rw [Nat.pow_add, ← Nat.mul_assoc, Nat.mul_right_comm] at h
      exact Nat.eq_of_mul_eq_mul_right (Nat.two_pow_pos e) h
    rw [this, log2_mul_pow pos] at hm
    omega
  have hef : e = f := by
    have := key hm hd h
    have := key hn hc h.symm
    omega
  subst hef
  have hmn : m = n := Nat.eq_of_mul_eq_mul_right (Nat.two_pow_pos e) h
  subst hmn
  rfl

/-- A quotient without rest is not rounded. -/
theorem roundHalfEven_mul (n : Nat) {den : Nat} (pos : 0 < den) :
    roundHalfEven (n * den) den = n := by
  simp [roundHalfEven, Nat.mul_div_cancel n pos, pos]

/-- Rounding a magnitude's own value gives the magnitude back. -/
theorem ofUnits_units (m : Magnitude) {den : Nat} (pos : 0 < den) :
    ofUnits (m.units * den) den = some m := by
  obtain ⟨mant, exp, hm, he, hc⟩ := m
  have hexp : (mant * 2 ^ exp).log2 - 52 = exp := by
    rcases hc with rfl | hc
    · rw [Nat.pow_zero, Nat.mul_one]
      omega
    · have : mant ≠ 0 := by rintro rfl; revert hc; decide
      rw [log2_mul_pow this, hc]
      omega
  have hround : roundHalfEven (mant * 2 ^ exp * den) (den * 2 ^ exp) = mant := by
    rw [Nat.mul_assoc, Nat.mul_comm (2 ^ exp) den]
    exact roundHalfEven_mul _ (Nat.mul_pos pos (Nat.two_pow_pos exp))
  simp only [ofUnits, units, Nat.mul_div_cancel _ pos, hexp, hround]
  rw [if_pos hm, ofParts?, dif_pos ⟨hm, he, hc⟩]

/-- The same for a value given as a quotient of natural numbers. -/
theorem ofRatio_units (m : Magnitude) {num den : Nat} (pos : 0 < den)
    (value : num * perWhole = m.units * den) : ofRatio num den = some m := by
  rw [ofRatio, value]
  exact ofUnits_units m pos

end Magnitude

/-- A double: not a number, an infinity, or a finite number with its sign. -/
inductive Double where
  | nan
  | infinite (negative : Bool)
  | finite (negative : Bool) (magnitude : Magnitude)
  deriving DecidableEq

namespace Double

def one : Double := .finite false .one

instance : Inhabited Double := ⟨one⟩

def isFinitePositive : Double → Bool
  | .finite false m => m.mant != 0
  | _ => false

/-- The double with this sign and magnitude, an infinity if there is none. -/
def ofMagnitude? (negative : Bool) : Option Magnitude → Double
  | some m => .finite negative m
  | none => .infinite negative

/-- The double nearest to a whole number. -/
def ofNat (n : Nat) : Double := ofMagnitude? false (Magnitude.ofRatio n 1)

/-- The double nearest to the quotient. -/
def div : Double → Double → Double
  | .nan, _ => .nan
  | _, .nan => .nan
  | .infinite _, .infinite _ => .nan
  | .infinite a, .finite b _ => .infinite (a != b)
  | .finite a _, .infinite b => .finite (a != b) .zero
  | .finite a m, .finite b n =>
    if n.mant = 0 then if m.mant = 0 then .nan else .infinite (a != b)
    else ofMagnitude? (a != b) (Magnitude.ofRatio m.units n.units)

/-- The nearest natural number that is at most `limit`; zero for negative
numbers and for what is not a number. -/
def toNatUpTo (limit : Nat) : Double → Nat
  | .nan => 0
  | .infinite true => 0
  | .infinite false => limit
  | .finite true _ => 0
  | .finite false m => min m.nearestWhole limit

end Double

end TermScene
