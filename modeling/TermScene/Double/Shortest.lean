import TermScene.Double.Numeral

/-!
# The shortest text of a double

A double is written positionally with the fewest digits that read back to it. On
the grid of one power of ten only the two neighbours of the value need be tried;
the nearer one comes first, and of two equally near ones the greater. Main
statement: every double but a signed NaN is read back from its text
(`read_print`).
-/

namespace TermScene

namespace Magnitude

-- Powers are those of the natural numbers, whatever other instance is in scope.
attribute [local instance (2000)] instPowNat

/-- Every magnitude but zero is more than one when multiplied by this power of
ten. -/
def scalePower : Nat := 400

/-- Whether a text is a numeral that rounds to this magnitude. -/
def readsBack (m : Magnitude) (t : Text) : Bool :=
  (Numeral.read? t).bind Numeral.toMagnitude? == some m

/-- The least power of ten above the value of a magnitude that is not zero. -/
def leadingPower (m : Magnitude) : Int :=
  (Whole.print (m.units * 10 ^ scalePower / perWhole)).length - scalePower

/-- The two numerals next to `num / den` on the grid of a power of ten, on which
`num / den` is the value; the nearer one first. -/
def nearest (num den : Nat) (power : Int) : List Numeral :=
  let low := num / den
  if 2 * (num % den) < den then [⟨low, power⟩, ⟨low + 1, power⟩]
  else [⟨low + 1, power⟩, ⟨low, power⟩]

/-- The two numerals with this power of ten next to the magnitude. -/
def neighbours (m : Magnitude) : Int → List Numeral
  | .ofNat e => nearest m.units (perWhole * 10 ^ e) (.ofNat e)
  | .negSucc e => nearest (m.units * 10 ^ (e + 1)) perWhole (.negSucc e)

/-- The text of the coarsest neighbour that reads back, if one of up to seventeen
digits does. -/
def shortest? (m : Magnitude) : Option Text :=
  (List.range 18).findSome? fun digits : Nat =>
    ((m.neighbours (m.leadingPower - Int.ofNat digits)).map Numeral.positional).find? m.readsBack

/-- The magnitude with all its decimal places. -/
def expansion (m : Magnitude) : Text :=
  Numeral.positional ⟨m.units * 5 ^ (lastPlace + 1), .negSucc lastPlace⟩

/-- The magnitude with the fewest digits that read back. Seventeen are always
enough, so the full expansion only completes the definition. -/
def print (m : Magnitude) : Text :=
  if m.mant = 0 then ['0'] else m.shortest?.getD m.expansion

/-- A magnitude's full expansion is read back without rounding. -/
theorem readsBack_expansion (m : Magnitude) : m.readsBack m.expansion = true := by
  have value (k : Nat) : m.units * 5 ^ k * 2 ^ k = m.units * 10 ^ k := by
    rw [Nat.mul_assoc, ← Nat.mul_pow]
  rw [readsBack, expansion, Numeral.read_positional, beq_iff_eq, Option.bind_some]
  exact ofRatio_units m (Nat.pow_pos (by decide)) (value (lastPlace + 1))

theorem readsBack_zero : zero.readsBack ['0'] = true := by
  have read : Numeral.read? ['0'] = some ⟨0, .ofNat 0⟩ := by decide
  rw [readsBack, read, beq_iff_eq, Option.bind_some, Numeral.toMagnitude?_zero]

/-- What is found among the neighbours is read back. -/
theorem readsBack_of_shortest {m : Magnitude} {t : Text} (h : m.shortest? = some t) :
    m.readsBack t = true := by
  obtain ⟨digits, -, found⟩ := List.exists_of_findSome?_eq_some h
  exact List.find?_some found

theorem isBlank_of_mem_print {m : Magnitude} {c : Char} (h : c ∈ m.print) :
    Text.isBlank c = false := by
  unfold print at h
  split at h
  · obtain rfl := List.mem_singleton.1 h
    decide
  · cases found : m.shortest? with
    | none =>
      rw [found, Option.getD_none, expansion] at h
      exact Numeral.isBlank_of_mem_positional h
    | some t =>
      rw [found, Option.getD_some] at h
      obtain ⟨digits, -, found⟩ := List.exists_of_findSome?_eq_some found
      obtain ⟨n, -, rfl⟩ := List.mem_map.1 (List.mem_of_find?_eq_some found)
      exact Numeral.isBlank_of_mem_positional h

theorem readsBack_print (m : Magnitude) : m.readsBack m.print = true := by
  rw [print]
  split
  · next h =>
    have empty : m = zero := ext_units (by rw [units, h, units, zero, Nat.zero_mul, Nat.zero_mul])
    rw [empty]
    exact readsBack_zero
  · cases found : m.shortest? with
    | none => rw [Option.getD_none, readsBack_expansion]
    | some t => rw [Option.getD_some, readsBack_of_shortest found]

end Magnitude

namespace Double

/-- Writes a double: a word, or the shortest digits after the sign. -/
def print : Double → Text
  | .nan => "NaN".toList
  | .infinite false => "inf".toList
  | .infinite true => "-inf".toList
  | .finite false m => m.print
  | .finite true m => '-' :: m.print

theorem isBlank_of_mem_print {x : Double} {c : Char} (h : c ∈ x.print) :
    Text.isBlank c = false := by
  have word {w : Text} (plain : (w.all fun c => !Text.isBlank c) = true) (h : c ∈ w) :
      Text.isBlank c = false := by
    have first := List.all_eq_true.1 plain c h
    rw [Bool.not_eq_true'] at first
    exact first
  match x with
  | .nan => exact word (w := "NaN".toList) (by decide) h
  | .infinite false => exact word (w := "inf".toList) (by decide) h
  | .infinite true => exact word (w := "-inf".toList) (by decide) h
  | .finite false m => exact Magnitude.isBlank_of_mem_print h
  | .finite true m =>
    rcases List.mem_cons.1 h with rfl | h
    · decide
    · exact Magnitude.isBlank_of_mem_print h

private theorem head_of_read {t : Text} {n : Numeral} (h : Numeral.read? t = some n) :
    ∃ c rest, t = c :: rest ∧ (c.isDigit = true ∨ c = '.') := by
  cases t with
  | nil => simp [Numeral.read?] at h
  | cons c rest =>
    refine ⟨c, rest, rfl, ?_⟩
    by_cases hc : c.isDigit = true
    · exact .inl hc
    · by_cases hp : c = '.'
      · exact .inr hp
      · simp [Numeral.read?, hc, hp] at h

private theorem readUnsigned_of_readsBack {m : Magnitude} {t : Text} (h : m.readsBack t = true)
    (negative : Bool) : readUnsigned? negative t = some (.finite negative m) := by
  simp only [Magnitude.readsBack, beq_iff_eq, Option.bind_eq_some_iff] at h
  obtain ⟨n, hn, hm⟩ := h
  obtain ⟨c, rest, rfl, hc⟩ := head_of_read hn
  have lower : ∀ d, c.toLower = d → d = 'i' ∨ d = 'n' → False := by
    rintro d rfl hd
    rcases hc with hc | rfl
    · have : c.toLower = c := by
        refine dif_neg ?_
        simp only [Char.isDigit, Bool.and_eq_true, decide_eq_true_eq] at hc
        simp only [ge_iff_le, UInt32.le_iff_toNat_le] at hc ⊢
        simp at hc ⊢
        omega
      rw [this] at hd
      rcases hd with rfl | rfl <;> simp at hc
    · revert hd; decide
  have inf : (c :: rest).map Char.toLower ≠ "inf".toList ∧
      (c :: rest).map Char.toLower ≠ "infinity".toList ∧
      (c :: rest).map Char.toLower ≠ "nan".toList := by
    refine ⟨fun e => ?_, fun e => ?_, fun e => ?_⟩ <;>
      simp only [List.map_cons] at e <;>
      injection e with e _ <;> exact lower _ e (by decide)
  simp only [readUnsigned?, inf, or_self, if_false, hn, Option.map_some, hm, ofMagnitude?]

/-- Every double is read back from its text. -/
theorem read_print (x : Double) : read? x.print = some x := by
  match x with
  | .nan => decide
  | .infinite false => decide
  | .infinite true => decide
  | .finite true m =>
    exact readUnsigned_of_readsBack m.readsBack_print true
  | .finite false m =>
    have back := readUnsigned_of_readsBack m.readsBack_print false
    simp only [print]
    revert back
    generalize hp : m.print = t
    have hb := m.readsBack_print
    rw [hp] at hb
    simp only [Magnitude.readsBack, beq_iff_eq, Option.bind_eq_some_iff] at hb
    obtain ⟨n, hn, -⟩ := hb
    obtain ⟨c, rest, rfl, hc⟩ := head_of_read hn
    unfold read?
    split
    · next e => injection e with e _; subst e; simp at hc
    · next e => injection e with e _; subst e; simp at hc
    · exact id

end Double

end TermScene
