import TermScene.Proofs.Part.Normal

/-!
# How tokens are spelled

The bodies that make a token, as a grammar: which words, digits and blanks stand in them,
and what they ask for. A token is written in one way but may be spelled in many. Main
statement: reading accepts the spellings of tokens and nothing else (`ofBody?_eq_some_iff`).
-/

namespace TermScene

/-! ## Blanks around a text -/

namespace Text

/-- Blanks and nothing else. -/
def Blank (t : Text) : Prop := ∀ c ∈ t, isBlank c = true

theorem trimStart_append {blanks : Text} (h : Blank blanks) (t : Text) :
    trimStart (blanks ++ t) = trimStart t := List.dropWhile_append_of_pos h

theorem trimEnd_append {blanks : Text} (h : Blank blanks) (t : Text) :
    trimEnd (t ++ blanks) = trimEnd t := by
  have behind : ∀ c ∈ blanks.reverse, isBlank c = true := fun c hc => h c (List.mem_reverse.1 hc)
  rw [trimEnd, trimEnd, List.reverse_append, List.dropWhile_append_of_pos behind]

/-- Blanks are cut off around a text that has none. -/
theorem trim_append {before t after : Text} (hb : Blank before) (ha : Blank after)
    (h : ∀ c ∈ t, isBlank c = false) : trim (before ++ (t ++ after)) = t := by
  cases t with
  | nil =>
    have start : trimStart (before ++ ([] ++ after)) = trimStart (after ++ []) := by
      rw [trimStart_append hb, List.nil_append, List.append_nil]
    rw [trim, start, trimStart_append ha]
    rfl
  | cons c t =>
    have first : startsBlank (c :: t) = false := h c List.mem_cons_self
    have start : trimStart (c :: t ++ after) = c :: t ++ after := trimStart_eq_self first
    have alone : trim (c :: t) = trimEnd (c :: t) := congrArg trimEnd (trimStart_eq_self first)
    rw [trim, trimStart_append hb, start, trimEnd_append ha, ← alone, trim_of_forall_not_blank h]

/-- What is cut off is blank. -/
theorem exists_trim (t : Text) :
    ∃ before after : Text, Blank before ∧ Blank after ∧ t = before ++ (t.trim ++ after) := by
  have cut (l : Text) : Blank (l.takeWhile isBlank) ∧ l = l.takeWhile isBlank ++ trimStart l :=
    ⟨fun c hc => List.all_eq_true.1 List.all_takeWhile c hc,
      List.takeWhile_append_dropWhile.symm⟩
  obtain ⟨first, whole⟩ := cut t
  obtain ⟨last, rest⟩ := cut (trimStart t).reverse
  refine ⟨_, ((trimStart t).reverse.takeWhile isBlank).reverse, first,
    fun c hc => last c (List.mem_reverse.1 hc), whole.trans (congrArg _ ?_)⟩
  have back := congrArg List.reverse rest
  rw [List.reverse_reverse, List.reverse_append] at back
  exact back

end Text

/-! ## Numbers -/

namespace Whole

/-- ASCII digits, at least one, with the number they spell. -/
structure Spells (digits : Text) (n : Nat) : Prop where
  nonempty : digits ≠ []
  digit : ∀ c ∈ digits, c.isDigit = true
  value : Nat.ofDigitChars 10 digits 0 = n

theorem ofDigitChars_of_readDigits {limit n m : Nat} {excess : Fault} {t : Text}
    (h : readDigits limit excess n t = .ok m) : Nat.ofDigitChars 10 t n = m := by
  induction t generalizing n with
  | nil => exact Except.ok.inj h
  | cons c t ih =>
    unfold readDigits at h
    split at h
    · cases h
    · next d digit =>
      split at h
      · cases h
      · have value : c.toNat - '0'.toNat = d := by
          unfold digit? at digit
          split at digit
          · exact Option.some.inj digit
          · cases digit
        rw [Nat.ofDigitChars_cons, value]
        exact ih h

theorem le_of_readDigits {limit n m : Nat} {excess : Fault} {t : Text} (start : n ≤ limit)
    (h : readDigits limit excess n t = .ok m) : m ≤ limit := by
  induction t generalizing n with
  | nil => exact Except.ok.inj h ▸ start
  | cons c t ih =>
    unfold readDigits at h
    split at h
    · cases h
    · split at h
      · cases h
      · next within => exact ih (Nat.le_of_not_lt within) h

/-- Reading accepts what spells a number within the limit. -/
theorem readNat_eq_ok_iff {limit n : Nat} {t : Text} :
    readNat limit t = .ok n ↔ Spells t n ∧ n ≤ limit := by
  cases t with
  | nil =>
    constructor
    · intro h
      cases h
    · rintro ⟨spelled, -⟩
      exact absurd rfl spelled.nonempty
  | cons c t =>
    constructor
    · intro h
      exact ⟨⟨List.cons_ne_nil _ _, isDigit_of_readDigits h, ofDigitChars_of_readDigits h⟩,
        le_of_readDigits (Nat.zero_le _) h⟩
    · rintro ⟨⟨-, digit, rfl⟩, within⟩
      exact readDigits_eq_ok digit 0 within

theorem Spells.not_blank {digits : Text} {n : Nat} (h : Spells digits n) :
    ∀ c ∈ digits, Text.isBlank c = false := fun c hc => isBlank_of_isDigit (h.digit c hc)

end Whole

/-! ## Bodies -/

namespace Token

/-- A color code is spelled in digits, blanks around it and one `m` right behind the
digits allowed. -/
inductive SpellsCode : Text → UInt8 → Prop
  | plain {before digits after n} (spelled : Whole.Spells digits n.toNat)
      (blankBefore : Text.Blank before) (blankAfter : Text.Blank after) :
      SpellsCode (before ++ (digits ++ after)) n
  | marked {before digits after n} (spelled : Whole.Spells digits n.toNat)
      (blankBefore : Text.Blank before) (blankAfter : Text.Blank after) :
      SpellsCode (before ++ (digits ++ 'm' :: after)) n

/-- The bodies that make a token. -/
inductive Spells : Text → Token → Prop
  | delay {blanks digits after ms} (apart : blanks ≠ []) (blankBefore : Text.Blank blanks)
      (spelled : Whole.Spells digits ms.toNat) (blankAfter : Text.Blank after) :
      Spells ("delay".toList ++ (blanks ++ (digits ++ after))) (.delay ms)
  | textColor {code text} (spelled : SpellsCode code text) :
      Spells ("begin:".toList ++ code) (.beginColor none text)
  | bothColors {code code' background text} (first : SpellsCode code background)
      (second : SpellsCode code' text) :
      Spells ("begin:".toList ++ (code ++ ';' :: code')) (.beginColor (some background) text)
  | endColor : Spells "end".toList .endColor
  /-- What follows the colon does not matter. -/
  | endColorOf (rest : Text) : Spells ("end:".toList ++ rest) .endColor

/-! ## Reading accepts the spellings of tokens -/

theorem toOption_readNat_eq_some_iff {limit n : Nat} {t : Text} :
    (Whole.readNat limit t).toOption = some n ↔ Whole.Spells t n ∧ n ≤ limit := by
  rw [← Whole.readNat_eq_ok_iff]
  cases Whole.readNat limit t <;> simp [Except.toOption]

theorem readCode?_of_digits {code : Text} {n : UInt8}
    (h : Whole.Spells (if code.trim.getLast? = some 'm' then code.trim.dropLast else code.trim)
      n.toNat) : readCode? code = some n := by
  have read := toOption_readNat_eq_some_iff.2 ⟨h, Nat.le_of_lt_succ n.toNat_lt⟩
  rw [readCode?, read, Option.map_some, UInt8.ofNat_toNat]

theorem SpellsCode.readCode? {code : Text} {n : UInt8} (h : SpellsCode code n) :
    readCode? code = some n := by
  apply readCode?_of_digits
  cases h with
  | @plain before digits after _ spelled blankBefore blankAfter =>
    have unmarked : digits.getLast? ≠ some 'm' := fun last => by
      have digit := spelled.digit 'm' (List.mem_of_getLast? last)
      cases digit
    rw [Text.trim_append blankBefore blankAfter spelled.not_blank, if_neg unmarked]
    exact spelled
  | @marked before digits after _ spelled blankBefore blankAfter =>
    have solid : ∀ c ∈ digits ++ ['m'], Text.isBlank c = false :=
      List.forall_mem_append.2 ⟨spelled.not_blank, List.forall_mem_singleton.2 (by decide)⟩
    have trimmed : Text.trim (before ++ (digits ++ 'm' :: after)) = digits ++ ['m'] := by
      rw [← Text.trim_append blankBefore blankAfter solid, List.append_assoc]
      rfl
    rw [trimmed, if_pos List.getLast?_concat, List.dropLast_concat]
    exact spelled

theorem spellsCode_of_readCode? {code : Text} {n : UInt8} (h : readCode? code = some n) :
    SpellsCode code n := by
  obtain ⟨before, after, blankBefore, blankAfter, whole⟩ := code.exists_trim
  unfold readCode? at h
  obtain ⟨m, read, rfl⟩ := Option.map_eq_some_iff.1 h
  obtain ⟨spelled, within⟩ := toOption_readNat_eq_some_iff.1 read
  rw [← UInt8.toNat_ofNat_of_lt' (Nat.lt_succ_of_le within)] at spelled
  rw [whole]
  split at spelled
  · next last =>
    obtain ⟨digits, e⟩ := List.getLast?_eq_some_iff.1 last
    rw [e, List.dropLast_concat] at spelled
    rw [e, List.append_assoc]
    exact .marked spelled blankBefore blankAfter
  · exact .plain spelled blankBefore blankAfter

theorem SpellsCode.semicolon_not_mem {code : Text} {n : UInt8} (h : SpellsCode code n) :
    ';' ∉ code := by
  have blank {t : Text} (ht : Text.Blank t) : ';' ∉ t := fun mem => absurd (ht _ mem) (by decide)
  have digit {t : Text} {n : Nat} (ht : Whole.Spells t n) : ';' ∉ t := fun mem =>
    absurd (ht.digit _ mem) (by decide)
  cases h with
  | plain spelled blankBefore blankAfter =>
    simp [blank blankBefore, blank blankAfter, digit spelled]
  | marked spelled blankBefore blankAfter =>
    simp [blank blankBefore, blank blankAfter, digit spelled]

theorem spells_of_readColor? {codes : Text} {token : Token} (h : readColor? codes = some token) :
    Spells ("begin:".toList ++ codes) token := by
  unfold readColor? at h
  split at h
  · next background text cut =>
    obtain ⟨rfl, -⟩ := Text.cutAt?_eq_some_iff.1 cut
    obtain ⟨b, hb, h⟩ := Option.bind_eq_some_iff.1 h
    obtain ⟨t, ht, h⟩ := Option.bind_eq_some_iff.1 h
    obtain rfl := Option.some.inj h
    exact .bothColors (spellsCode_of_readCode? hb) (spellsCode_of_readCode? ht)
  · obtain ⟨t, ht, rfl⟩ := Option.map_eq_some_iff.1 h
    exact .textColor (spellsCode_of_readCode? ht)

theorem spells_of_readDelay? {value : Text} {token : Token} (h : readDelay? value = some token) :
    Spells ("delay".toList ++ value) token := by
  obtain ⟨blanks, after, blankBefore, blankAfter, whole⟩ := value.exists_trim
  unfold readDelay? at h
  split at h
  · next start =>
    obtain ⟨ms, read, rfl⟩ := Option.map_eq_some_iff.1 h
    obtain ⟨spelled, within⟩ := toOption_readNat_eq_some_iff.1 read
    -- without a blank in front, the value would begin with a digit
    have apart : blanks ≠ [] := by
      rintro rfl
      obtain ⟨c, digits, e⟩ := List.exists_cons_of_ne_nil spelled.nonempty
      have solid := spelled.not_blank c (e ▸ List.mem_cons_self)
      rw [whole, e] at start
      exact absurd (start.symm.trans solid) (by decide)
    have below : ms < UInt64.size := by
      simp only [UInt64.size] at within ⊢
      omega
    rw [← UInt64.toNat_ofNat_of_lt' below] at spelled
    rw [whole]
    exact .delay apart blankBefore spelled blankAfter
  · cases h

theorem spells_of_ofBody? {body : Text} {token : Token} (h : ofBody? body = some token) :
    Spells body token := by
  unfold ofBody? at h
  split at h
  · next value delay =>
    rw [Text.after?_eq_some_iff.1 delay]
    exact spells_of_readDelay? h
  · split at h
    · next codes begins =>
      rw [Text.after?_eq_some_iff.1 begins]
      exact spells_of_readColor? h
    · split at h
      · next ends =>
        obtain rfl := Option.some.inj h
        rcases ends with rfl | ends
        · exact .endColor
        · obtain ⟨rest, follows⟩ := Option.isSome_iff_exists.1 ends
          rw [Text.after?_eq_some_iff.1 follows]
          exact .endColorOf rest
      · cases h

theorem Spells.ofBody? {body : Text} {token : Token} (h : Spells body token) :
    ofBody? body = some token := by
  cases h with
  | @delay blanks digits after ms apart blankBefore spelled blankAfter =>
    have read := toOption_readNat_eq_some_iff.2 ⟨spelled, Nat.le_of_lt_succ ms.toNat_lt⟩
    have start : Text.startsBlank (blanks ++ (digits ++ after)) = true := by
      obtain ⟨c, blanks, rfl⟩ := List.exists_cons_of_ne_nil apart
      exact blankBefore c List.mem_cons_self
    rw [Token.ofBody?, Text.after?_append]
    show readDelay? (blanks ++ (digits ++ after)) = _
    rw [readDelay?, if_pos start, Text.trim_append blankBefore blankAfter spelled.not_blank]
    exact (congrArg (Option.map _) read).trans (congrArg _ (congrArg _ UInt64.ofNat_toNat))
  | @textColor code text spelled =>
    have color : Token.ofBody? ("begin:".toList ++ code) = readColor? code := rfl
    have plain := Text.cutAt?_eq_none_iff.2 spelled.semicolon_not_mem
    rw [color, readColor?, plain, spelled.readCode?]
    rfl
  | @bothColors code code' background text first second =>
    have color : Token.ofBody? ("begin:".toList ++ (code ++ ';' :: code')) =
        readColor? (code ++ ';' :: code') := rfl
    have cut : Text.cutAt? ';' (code ++ ';' :: code') = some (code, code') :=
      Text.cutAt?_eq_some_iff.2 ⟨rfl, first.semicolon_not_mem⟩
    rw [color]
    simp [readColor?, cut, first.readCode?, second.readCode?]
  | endColor => decide
  | endColorOf rest => exact ofBody?_end rest

/-- **Reading accepts the spellings of tokens**, and nothing else. -/
theorem ofBody?_eq_some_iff {body : Text} {token : Token} :
    ofBody? body = some token ↔ Spells body token :=
  ⟨spells_of_ofBody?, Spells.ofBody?⟩

end Token

end TermScene
