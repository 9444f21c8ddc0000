import TermScene.Text.Blank

/-!
# Cutting text

Taking a known beginning off a text, and cutting a text at the first place where
a character stands. Main statements: each cut says exactly how the text is
composed (`after?_eq_some_iff`, `cutAt?_eq_some_iff`).
-/

namespace TermScene.Text

/-- What follows `start` in a text that begins with it. -/
def after? (t start : Text) : Option Text :=
  match start, t with
  | [], t => some t
  | _ :: _, [] => none
  | a :: start, c :: t => if a = c then after? t start else none
termination_by structural start

/-- The text before the first `c`, and the text behind it. -/
def cutAt? (c : Char) : Text → Option (Text × Text)
  | [] => none
  | d :: rest =>
    if d = c then some ([], rest)
    else (cutAt? c rest).map fun (before, behind) => (d :: before, behind)

theorem after?_eq_some_iff {t start rest : Text} :
    t.after? start = some rest ↔ t = start ++ rest := by
  induction start generalizing t with
  | nil => simp [after?, eq_comm]
  | cons a start ih =>
    cases t with
    | nil => simp [after?]
    | cons c t =>
      by_cases h : a = c
      · simp [after?, h, ih]
      · simp [after?, h, Ne.symm h]

@[simp] theorem after?_append (start rest : Text) : after? (start ++ rest) start = some rest :=
  after?_eq_some_iff.2 rfl

theorem cutAt?_eq_some_iff {c : Char} {t before behind : Text} :
    cutAt? c t = some (before, behind) ↔ t = before ++ c :: behind ∧ c ∉ before := by
  induction t generalizing before with
  | nil => simp [cutAt?]
  | cons d rest ih =>
    by_cases h : d = c
    · subst h
      cases before with
      | nil => simp [cutAt?, eq_comm]
      | cons e before => simp [cutAt?]; rintro rfl _ h; exact absurd rfl h
    · cases before with
      | nil => simp [cutAt?, h]
      | cons e before =>
        simp only [cutAt?, h, if_false, Option.map_eq_some_iff, Prod.exists, Prod.mk.injEq,
          List.cons.injEq, List.cons_append, List.mem_cons, not_or]
        constructor
        · rintro ⟨u, v, cut, ⟨rfl, rfl⟩, rfl⟩
          obtain ⟨rfl, hc⟩ := ih.1 cut
          exact ⟨⟨rfl, rfl⟩, Ne.symm h, hc⟩
        · rintro ⟨⟨rfl, rfl⟩, -, hc⟩
          exact ⟨before, behind, ih.2 ⟨rfl, hc⟩, ⟨rfl, rfl⟩, rfl⟩

theorem cutAt?_eq_none_iff {c : Char} {t : Text} : cutAt? c t = none ↔ c ∉ t := by
  induction t with
  | nil => simp [cutAt?]
  | cons d rest ih =>
    by_cases h : d = c
    · simp [cutAt?, h]
    · simp [cutAt?, h, ih, Ne.symm h]

/-- A character stands at one first place. -/
theorem cut_unique {c : Char} {before before' behind behind' : Text} (h : c ∉ before)
    (h' : c ∉ before') (e : before ++ c :: behind = before' ++ c :: behind') :
    before = before' ∧ behind = behind' := by
  have cut := cutAt?_eq_some_iff.2 ⟨e, h'⟩
  rw [cutAt?_eq_some_iff.2 ⟨rfl, h⟩] at cut
  injection cut with cut
  exact Prod.mk.inj cut

end TermScene.Text
