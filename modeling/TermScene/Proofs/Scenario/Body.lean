import TermScene.Directive
import TermScene.Proofs.Scenario.Written

/-!
# Blocks of lines

The lines of an output block are put together with line feeds and split again. They are
the same afterwards exactly if they are `Printable` (`lines_body_eq_iff`): none ends in a
carriage return, none is a directive, and the last one is not empty. Both the number of
lines and the number of their characters can only go down on the way, and each fault of
the lines makes one of the two smaller.
-/

namespace TermScene

open Text

/-- Lines that are read as they are written, one below the other. -/
structure Printable (ls : List Text) : Prop where
  ret : ∀ l ∈ ls, l.getLast? ≠ some '\r'
  plain : ∀ l ∈ ls, Directive.isDirective l = false
  last : ls.getLast? ≠ some []

instance (ls : List Text) : Decidable (Printable ls) :=
  decidable_of_iff ((∀ l ∈ ls, l.getLast? ≠ some '\r') ∧
      (∀ l ∈ ls, Directive.isDirective l = false) ∧ ls.getLast? ≠ some [])
    ⟨fun ⟨ret, plain, last⟩ => ⟨ret, plain, last⟩, fun ⟨ret, plain, last⟩ => ⟨ret, plain, last⟩⟩

/-- The number of characters of lines. -/
def width : List Text → Nat
  | [] => 0
  | l :: ls => l.length + width ls

theorem map_chomp_eq_self {ls : List Text} (h : ∀ l ∈ ls, l.getLast? ≠ some '\r') :
    ls.map chomp = ls := by
  induction ls with
  | nil => rfl
  | cons l ls ih =>
    rw [List.map_cons, chomp_eq_self (h l List.mem_cons_self),
      ih fun l hl => h l (List.mem_cons_of_mem _ hl)]

theorem feed_not_mem_map_chomp {ls : List Text} (h : ∀ l ∈ ls, '\n' ∉ l) :
    ∀ l ∈ ls.map chomp, '\n' ∉ l := by
  intro l hl
  obtain ⟨l, mem, rfl⟩ := List.mem_map.1 hl
  exact fun hc => h l mem (mem_of_mem_chomp hc)

theorem takeWhile_of_plain {ls : List Text} (h : ∀ l ∈ ls, Directive.isDirective l = false)
    (rest : List Text) : (ls ++ rest).takeWhile (fun l => !Directive.isDirective l) =
      ls ++ rest.takeWhile fun l => !Directive.isDirective l :=
  List.takeWhile_append_of_pos fun l hl => by rw [h l hl]; rfl

theorem width_append (ls ms : List Text) : width (ls ++ ms) = width ls + width ms := by
  induction ls with
  | nil => exact (Nat.zero_add _).symm
  | cons l ls ih => rw [List.cons_append, width, width, ih, Nat.add_assoc]

theorem width_map_chomp (ls : List Text) :
    width (ls.map chomp) ≤ width ls ∧
      (width (ls.map chomp) = width ls → ∀ l ∈ ls, l.getLast? ≠ some '\r') := by
  induction ls with
  | nil => exact ⟨Nat.le_refl _, fun _ => List.forall_mem_nil _⟩
  | cons l ls ih =>
    rw [List.map_cons, width, width]
    obtain ⟨last, e⟩ | ⟨u, rfl, e⟩ := chomp_cases l
    · rw [e]
      refine ⟨Nat.add_le_add_left ih.1 _, ?_⟩
      intro same
      exact List.forall_mem_cons.2 ⟨last, ih.2 (by omega)⟩
    · rw [e, List.length_append, List.length_singleton]
      exact ⟨by omega, fun same => by omega⟩

/-- Lines that are put together and split again lose what ends an inner line and an empty
last line. -/
theorem lines_joinLines_le {ls : List Text} (h : ∀ l ∈ ls, '\n' ∉ l) :
    (lines (joinLines ls)).length ≤ ls.length ∧ width (lines (joinLines ls)) ≤ width ls ∧
      ((lines (joinLines ls)).length = ls.length → ls.getLast? ≠ some []) := by
  rcases List.eq_nil_or_concat ls with rfl | ⟨init, last, rfl⟩
  · exact ⟨Nat.le_refl _, Nat.le_refl _, fun _ e => by cases e⟩
  · rw [List.concat_eq_append] at h ⊢
    rw [lines_joinLines_eq h, reread_concat, width_append, width_append, List.getLast?_concat]
    have narrow := (width_map_chomp init).1
    split
    · next empty =>
      refine ⟨by simp, ?_, ?_⟩
      · have none : width [] = 0 := rfl
        omega
      · intro same
        simp at same
    · next nonempty =>
      refine ⟨by simp, Nat.add_le_add_right narrow _, ?_⟩
      intro _ e
      exact nonempty (Option.some.inj e)

theorem mem_lines_joinLines {ls : List Text} (h : ∀ l ∈ ls, '\n' ∉ l) {t : Text}
    (mem : t ∈ lines (joinLines ls)) : ∃ l ∈ ls, t = l ∨ t = chomp l := by
  rcases List.eq_nil_or_concat ls with rfl | ⟨init, last, rfl⟩
  · cases mem
  · rw [List.concat_eq_append] at h mem ⊢
    rw [lines_joinLines_eq h, reread_concat] at mem
    rcases List.mem_append.1 mem with mem | mem
    · obtain ⟨l, hl, rfl⟩ := List.mem_map.1 mem
      exact ⟨l, List.mem_append_left _ hl, .inr rfl⟩
    · split at mem
      · cases mem
      · obtain rfl := List.mem_singleton.1 mem
        exact ⟨t, by simp, .inl rfl⟩

theorem lines_joinLines_of_printable {ls : List Text} (feed : ∀ l ∈ ls, '\n' ∉ l)
    (h : Printable ls) : lines (joinLines ls) = ls := by
  rcases List.eq_nil_or_concat ls with rfl | ⟨init, last, rfl⟩
  · rfl
  · rw [List.concat_eq_append] at h feed ⊢
    have chomped : init.map chomp = init :=
      map_chomp_eq_self fun l hl => h.ret l (List.mem_append_left _ hl)
    have nonempty : last ≠ [] := by
      intro e
      apply h.last
      rw [List.getLast?_concat, e]
    rw [lines_joinLines_eq feed, reread_concat, chomped, if_neg nonempty]

/-- Lines come back from a block exactly if they are printable. -/
theorem lines_body_eq_iff {ls : List Text} (feed : ∀ l ∈ ls, '\n' ∉ l) :
    lines (joinLines ((ls.map chomp).takeWhile fun l => !Directive.isDirective l)) = ls ↔
      Printable ls := by
  have feed' := feed_not_mem_map_chomp feed
  constructor
  · intro same
    generalize hb : (ls.map chomp).takeWhile (fun l => !Directive.isDirective l) = body at same
    have sub : body.Sublist (ls.map chomp) := hb ▸ List.takeWhile_sublist _
    obtain ⟨short, narrow, last⟩ := lines_joinLines_le fun l hl => feed' l (sub.subset hl)
    have shorter := sub.length_le
    rw [same] at short narrow last
    rw [List.length_map] at shorter
    have all : body = ls.map chomp := sub.eq_of_length (by rw [List.length_map]; omega)
    have ret : ∀ l ∈ ls, l.getLast? ≠ some '\r' := by
      obtain ⟨le, eq⟩ := width_map_chomp ls
      rw [all] at narrow
      exact eq (by omega)
    rw [map_chomp_eq_self ret] at all hb
    refine ⟨ret, ?_, ?_⟩
    · intro l hl
      rw [← all, ← hb] at hl
      have plain := List.all_eq_true.1 List.all_takeWhile l hl
      rw [Bool.not_eq_true'] at plain
      exact plain
    · rw [← all]
      exact last (by omega)
  · intro h
    have whole := takeWhile_of_plain h.plain []
    rw [List.append_nil, List.takeWhile_nil, List.append_nil] at whole
    rw [map_chomp_eq_self h.ret, whole, lines_joinLines_of_printable feed h]

end TermScene
