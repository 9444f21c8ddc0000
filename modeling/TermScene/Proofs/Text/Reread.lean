import TermScene.Text.Cut
import TermScene.Text.Lines

/-!
# Lines that are read again

A line that is written with a line feed behind it comes back without the carriage return
it may end in (`lines_append_feed`). So lines written with line feeds between them come
back chomped, the last one as it is unless it is empty (`lines_joinLines_eq`); lines without
line feeds are told apart by the text they make (`joinLines_inj`).
-/

namespace TermScene.Text

/-! ## One line -/

/-- The text without the carriage return it ends in. -/
def chomp (t : Text) : Text := if t.getLast? = some '\r' then t.dropLast else t

theorem chomp_eq_self {t : Text} (h : t.getLast? ≠ some '\r') : chomp t = t := if_neg h

theorem chomp_concat (t : Text) : chomp (t ++ ['\r']) = t := by
  unfold chomp
  rw [List.getLast?_concat, if_pos rfl, List.dropLast_concat]

theorem chomp_cases (t : Text) :
    (t.getLast? ≠ some '\r' ∧ chomp t = t) ∨ ∃ u, t = u ++ ['\r'] ∧ chomp t = u := by
  by_cases h : t.getLast? = some '\r'
  · obtain ⟨u, rfl⟩ := List.getLast?_eq_some_iff.1 h
    exact .inr ⟨u, rfl, chomp_concat u⟩
  · exact .inl ⟨h, chomp_eq_self h⟩

theorem chomp_append (p : Text) {t : Text} (h : t ≠ []) : chomp (p ++ t) = p ++ chomp t := by
  obtain ⟨last, e⟩ | ⟨u, rfl, e⟩ := chomp_cases t
  · obtain ⟨u, c, rfl⟩ := List.eq_nil_or_concat t |>.resolve_left h
    rw [List.concat_eq_append, List.getLast?_concat] at last
    rw [e, chomp_eq_self]
    rw [List.concat_eq_append, ← List.append_assoc, List.getLast?_concat]
    exact last
  · rw [e, ← List.append_assoc, chomp_concat]

/-- What begins with no blank is left with a beginning, since the carriage return that goes
is a blank. -/
theorem chomp_of_startsBlank_eq_false {t : Text} (nonempty : t ≠ [])
    (start : t.startsBlank = false) : chomp t ≠ [] ∧ (chomp t).startsBlank = false := by
  obtain ⟨-, e⟩ | ⟨u, rfl, e⟩ := chomp_cases t
  · rw [e]
    exact ⟨nonempty, start⟩
  · rw [e]
    cases u with
    | nil => cases start
    | cons c u => exact ⟨List.cons_ne_nil _ _, start⟩

theorem mem_of_mem_chomp {t : Text} {c : Char} (h : c ∈ chomp t) : c ∈ t := by
  obtain ⟨-, e⟩ | ⟨u, rfl, e⟩ := chomp_cases t
  · rw [e] at h
    exact h
  · rw [e] at h
    exact List.mem_append_left _ h

theorem chomp_eq_self_iff {t : Text} : chomp t = t ↔ t.getLast? ≠ some '\r' := by
  refine ⟨fun same => ?_, chomp_eq_self⟩
  obtain ⟨last, -⟩ | ⟨u, rfl, e⟩ := chomp_cases t
  · exact last
  · have length := congrArg List.length (e.symm.trans same)
    rw [List.length_append, List.length_singleton] at length
    omega

/-- A terminated line comes off the front of a text, without its carriage return. -/
theorem lines_append_feed {line : Text} (h : '\n' ∉ line) (rest : Text) :
    lines (line ++ '\n' :: rest) = chomp line :: lines rest := by
  induction line with
  | nil => rfl
  | cons c line ih =>
    simp only [List.mem_cons, not_or] at h
    cases line with
    | nil =>
      by_cases hr : c = '\r'
      · subst hr
        rfl
      · rw [List.cons_append, lines_cons (Ne.symm h.1) fun e => absurd e hr, chomp_eq_self]
        · rfl
        · intro e
          exact hr (by simpa using e)
    | cons d line =>
      have hd : d ≠ '\n' := fun e => h.2 (by simp [e])
      rw [List.cons_append, lines_cons (Ne.symm h.1) fun _ => by simpa using hd, ih h.2,
        show chomp (c :: d :: line) = c :: chomp (d :: line) from
          chomp_append [c] (List.cons_ne_nil d line)]
      rfl

theorem feed_not_mem_of_mem_lines {t l : Text} (h : l ∈ lines t) : '\n' ∉ l := by
  fun_induction lines t generalizing l with
  | case1 => cases h
  | case2 rest ih =>
    rcases List.mem_cons.1 h with rfl | h
    · exact List.not_mem_nil
    · exact ih h
  | case3 rest ih =>
    rcases List.mem_cons.1 h with rfl | h
    · exact List.not_mem_nil
    · exact ih h
  | case4 c rest feed ret none ih =>
    obtain rfl := List.mem_singleton.1 h
    intro hc
    exact feed (List.mem_singleton.1 hc).symm
  | case5 c rest feed ret line more some ih =>
    rcases List.mem_cons.1 h with rfl | h
    · intro hc
      rcases List.mem_cons.1 hc with rfl | hc
      · exact feed rfl
      · exact ih (some ▸ List.mem_cons_self) hc
    · exact ih (some ▸ List.mem_cons_of_mem _ h)

/-- What holds no line feed is one line, or none. -/
theorem lines_of_feed_not_mem {t : Text} (h : '\n' ∉ t) :
    lines t = if t = [] then [] else [t] := by
  induction t with
  | nil => rfl
  | cons c t ih =>
    simp only [List.mem_cons, not_or] at h
    have next : c = '\r' → t.head? ≠ some '\n' := by
      intro _ e
      exact h.2 (List.mem_of_mem_head? e)
    rw [lines_cons (Ne.symm h.1) next, ih h.2, if_neg (List.cons_ne_nil _ _)]
    split
    · next e =>
      rw [e]
      rfl
    · rfl

/-! ## Several lines -/

theorem joinLines_cons {line : Text} {more : List Text} (h : more ≠ []) :
    joinLines (line :: more) = line ++ '\n' :: joinLines more := by
  cases more with
  | nil => exact absurd rfl h
  | cons next more => rfl

theorem joinLines_eq_intercalate (ls : List Text) : joinLines ls = ['\n'].intercalate ls := by
  match ls with
  | [] => rfl
  | [line] => exact List.intercalate_singleton.symm
  | line :: next :: more =>
    rw [joinLines_cons (List.cons_ne_nil _ _), joinLines_eq_intercalate (next :: more),
      List.intercalate_cons_cons, List.append_assoc]
    rfl

theorem lines_unlines_feed {ls : List Text} (h : ∀ l ∈ ls, '\n' ∉ l) :
    lines (unlines ls) = ls.map chomp := by
  induction ls with
  | nil => rfl
  | cons line more ih =>
    rw [unlines, lines_append_feed (h line List.mem_cons_self),
      ih fun l hl => h l (List.mem_cons_of_mem _ hl), List.map_cons]

/-- All but the last line are terminated. -/
theorem lines_joinLines {init : List Text} (h : ∀ l ∈ init, '\n' ∉ l) (last : Text) :
    lines (joinLines (init ++ [last])) = init.map chomp ++ lines last := by
  induction init with
  | nil => rfl
  | cons line init ih =>
    have more : init ++ [last] ≠ [] := by simp
    rw [List.cons_append, joinLines_cons more, lines_append_feed (h line List.mem_cons_self),
      ih fun l hl => h l (List.mem_cons_of_mem _ hl), List.map_cons, List.cons_append]

/-- What is left of lines that are put together with line feeds and split again. -/
def reread (ls : List Text) : List Text :=
  ls.dropLast.map chomp ++ (ls.getLast?.filter (· ≠ [])).toList

theorem reread_concat (init : List Text) (last : Text) :
    reread (init ++ [last]) = init.map chomp ++ if last = [] then [] else [last] := by
  rw [reread, List.dropLast_concat, List.getLast?_concat]
  by_cases empty : last = [] <;> simp [empty]

theorem lines_joinLines_eq {ls : List Text} (feed : ∀ l ∈ ls, '\n' ∉ l) :
    lines (joinLines ls) = reread ls := by
  rcases List.eq_nil_or_concat ls with rfl | ⟨init, last, rfl⟩
  · rfl
  · rw [List.concat_eq_append] at feed ⊢
    rw [lines_joinLines fun l hl => feed l (List.mem_append_left _ hl),
      lines_of_feed_not_mem (feed last (by simp)), reread_concat]

theorem lines_joinLines_feed {ls : List Text} (h : ∀ l ∈ ls, '\n' ∉ l) (nonempty : ls ≠ [])
    (rest : Text) : lines (joinLines ls ++ '\n' :: rest) = ls.map chomp ++ lines rest := by
  induction ls with
  | nil => exact absurd rfl nonempty
  | cons line more ih =>
    have head := lines_append_feed (h line List.mem_cons_self)
    cases more with
    | nil => exact head rest
    | cons next more =>
      rw [joinLines_cons (List.cons_ne_nil _ _), List.append_assoc, List.cons_append, head,
        ih (fun l hl => h l (List.mem_cons_of_mem _ hl)) (List.cons_ne_nil _ _)]
      rfl

/-- Lines without line feeds are told apart by the text they make. -/
theorem joinLines_inj {ls ms : List Text} (hl : ∀ l ∈ ls, '\n' ∉ l) (hm : ∀ m ∈ ms, '\n' ∉ m)
    (nonempty : ls ≠ []) (nonempty' : ms ≠ []) (h : joinLines ls = joinLines ms) : ls = ms := by
  induction ls generalizing ms with
  | nil => exact absurd rfl nonempty
  | cons line more ih =>
    cases ms with
    | nil => exact absurd rfl nonempty'
    | cons line' more' =>
      have line_cut {line : Text} {more : List Text} (hl : '\n' ∉ line) (ne : more ≠ []) :
          (joinLines (line :: more)).cutAt? '\n' = some (line, joinLines more) := by
        rw [joinLines_cons ne]
        exact cutAt?_eq_some_iff.2 ⟨rfl, hl⟩
      have line_only {line : Text} (hl : '\n' ∉ line) :
          (joinLines [line]).cutAt? '\n' = none := cutAt?_eq_none_iff.2 hl
      have cuts := congrArg (cutAt? '\n') h
      have first := hl line List.mem_cons_self
      have first' := hm line' List.mem_cons_self
      by_cases hmore : more = []
      · by_cases hmore' : more' = []
        · subst hmore hmore'
          exact congrArg (fun l => [l]) h
        · rw [hmore, line_only first, line_cut first' hmore'] at cuts
          cases cuts
      · by_cases hmore' : more' = []
        · rw [hmore', line_cut first hmore, line_only first'] at cuts
          cases cuts
        · rw [line_cut first hmore, line_cut first' hmore'] at cuts
          injection cuts with cuts
          injection cuts with same rest
          rw [same, ih (fun l h => hl l (List.mem_cons_of_mem _ h))
            (fun m h => hm m (List.mem_cons_of_mem _ h)) hmore hmore' rest]

end TermScene.Text
