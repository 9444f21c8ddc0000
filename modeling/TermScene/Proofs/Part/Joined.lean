import TermScene.Part.Printed
import TermScene.Proofs.Part.Normal
import TermScene.Proofs.Text.Reread

/-!
# Printed lines as they are written

The parts of one line never hold two literals in a row (`unbroken_scan`), and the parts of
two lines meet in two literals, so a line breaks exactly where one ends and the next begins
(`weave_ofLines`): the parts of lines are written as the normal lines with line feeds between
them (`writeLines_ofLines`). So the parts say what the normal lines are, and no more
(`ofLines_eq_iff`).
-/

namespace TermScene.Part

open FoundToken

/-! ## The parts of one line -/

/-- No line breaks between parts. -/
def Unbroken : List Part → Prop
  | [] => True
  | part :: rest => (part.isLiteral && breaksBefore rest) = false ∧ Unbroken rest

theorem unbroken_run (kind : LiteralKind) (run : Text) {rest : List Part} (h : Unbroken rest)
    (next : breaksBefore rest = false) : Unbroken (ofRun kind run ++ rest) := by
  unfold ofRun
  split
  · exact h
  · refine ⟨?_, h⟩
    show (true && breaksBefore rest) = false
    rw [next]
    rfl

theorem unbroken_scan (kind : LiteralKind) (t : Text) : Unbroken (scan kind t) := by
  unfold scan
  split
  · exact ⟨rfl, trivial⟩
  · next found last some h =>
    clear h some
    induction found with
    | nil =>
      have run : Unbroken (ofRun kind last ++ []) := unbroken_run kind last trivial rfl
      rw [List.append_nil] at run
      exact run
    | cons f more ih =>
      rw [List.flatMap_cons, List.append_assoc, List.append_assoc]
      exact unbroken_run kind f.before ⟨rfl, ih⟩ rfl

theorem scan_ne_nil (kind : LiteralKind) (t : Text) : scan kind t ≠ [] := by
  unfold scan
  split
  · exact List.cons_ne_nil _ _
  · next found last some h =>
    cases found with
    | nil => exact absurd rfl some
    | cons f more => simp

/-- The part is a token or a literal of the kind. -/
def Suits (kind : LiteralKind) : Part → Prop
  | .literal k _ => k = kind
  | .token _ => True

theorem suits_ofRun (kind : LiteralKind) (run : Text) : ∀ part ∈ ofRun kind run, part.Suits kind := by
  unfold ofRun
  split
  · exact List.forall_mem_nil _
  · exact List.forall_mem_singleton.2 rfl

theorem suits_scan (kind : LiteralKind) (t : Text) : ∀ part ∈ scan kind t, part.Suits kind := by
  unfold scan
  split
  · exact List.forall_mem_singleton.2 rfl
  · refine List.forall_mem_append.2 ⟨?_, suits_ofRun kind _⟩
    intro part mem
    obtain ⟨f, -, mem⟩ := List.mem_flatMap.1 mem
    have token : (Part.token f.token).Suits kind := trivial
    exact List.forall_mem_append.2
      ⟨suits_ofRun kind f.before, List.forall_mem_singleton.2 token⟩ part mem

/-! ## Where lines meet -/

def endsLiteral (parts : List Part) : Bool := (parts.getLast?.map isLiteral).getD false

section Weave

variable {α : Type} (f : Part → List α) (sep : List α)

/-- What `f` makes of parts, one after another, with `sep` wherever a line breaks. -/
def weave : List Part → List α
  | [] => []
  | part :: rest =>
    f part ++ (if part.isLiteral && breaksBefore rest then sep else []) ++ weave rest

theorem weave_append {l : List Part} (h : Unbroken l) (nonempty : l ≠ []) (m : List Part) :
    weave f sep (l ++ m) =
      l.flatMap f ++ (if endsLiteral l && breaksBefore m then sep else []) ++ weave f sep m := by
  induction l with
  | nil => exact absurd rfl nonempty
  | cons a l ih =>
    cases l with
    | nil =>
      rw [List.flatMap_singleton]
      rfl
    | cons b l =>
      have inside : (a.isLiteral && breaksBefore (b :: l ++ m)) = false := h.1
      have ends : endsLiteral (a :: b :: l) = endsLiteral (b :: l) := rfl
      rw [List.cons_append, weave, inside, ih h.2 (List.cons_ne_nil _ _), ends,
        List.flatMap_cons (x := a)]
      simp

variable {f} (nothing : f empty = [])

include nothing

/-- Where two lines meet, and nowhere else, one break stands. -/
theorem weave_junction {l m : List Part} (h : Unbroken l) (hl : l ≠ []) (hm : m ≠ []) :
    weave f sep (l ++ junction l m ++ m) = l.flatMap f ++ sep ++ weave f sep m := by
  obtain ⟨b, m, rfl⟩ := List.exists_cons_of_ne_nil hm
  have last : isToken? l.getLast? = !endsLiteral l := by
    rw [endsLiteral]
    cases e : l.getLast? with
    | none => exact absurd (List.getLast?_eq_none_iff.1 e) hl
    | some a => cases a <;> rfl
  have first : isToken? (b :: m).head? = !breaksBefore (b :: m) := by
    cases b <;> rfl
  have woven (rest : List Part) : weave f sep (empty :: rest) =
      (if breaksBefore rest then sep else []) ++ weave f sep rest := by
    rw [weave, nothing]
    rfl
  have before (rest : List Part) : breaksBefore (empty :: rest) = true := rfl
  rw [List.append_assoc, weave_append f sep h hl, junction, last, first]
  cases endsLiteral l with
  | false =>
    cases e : breaksBefore (b :: m) with
    | false => simp [woven, before, e]
    | true => simp [woven, e]
  | true =>
    cases e : breaksBefore (b :: m) with
    | false => simp [woven, before, e]
    | true => simp [e]

end Weave

/-! ## All lines -/

theorem ofLines_ne_nil {ls : List Text} (h : ls ≠ []) : ofLines ls ≠ [] := by
  match ls with
  | [] => exact absurd rfl h
  | [line] => exact scan_ne_nil _ _
  | line :: next :: more =>
    intro e
    exact scan_ne_nil .printed line (List.append_eq_nil_iff.1 (List.append_eq_nil_iff.1 e).1).1

theorem head?_ofLines (line : Text) (more : List Text) :
    (ofLines (line :: more)).head? = (scan .printed line).head? := by
  cases more with
  | nil => rfl
  | cons next more =>
    obtain ⟨a, l, e⟩ := List.exists_cons_of_ne_nil (scan_ne_nil .printed line)
    rw [ofLines, e]
    rfl

/-- The parts of lines are those of each line, with a break between each two. -/
theorem weave_ofLines {α : Type} {f : Part → List α} (nothing : f empty = []) (sep : List α)
    (ls : List Text) : weave f sep (ofLines ls) =
      sep.intercalate (ls.map fun line => (scan .printed line).flatMap f) := by
  match ls with
  | [] => rfl
  | [line] =>
    have one := weave_append f sep (unbroken_scan .printed line) (scan_ne_nil .printed line) []
    have none : breaksBefore [] = false := rfl
    rw [none, Bool.and_false, List.append_nil] at one
    refine one.trans ?_
    simp [weave]
  | line :: next :: more =>
    have ih := weave_ofLines nothing sep (next :: more)
    have meets : junction (scan .printed line) (scan .printed next) =
        junction (scan .printed line) (ofLines (next :: more)) := by
      rw [junction, junction, head?_ofLines]
    rw [ofLines, meets, weave_junction sep nothing (unbroken_scan .printed line)
      (scan_ne_nil .printed line) (ofLines_ne_nil (List.cons_ne_nil _ _)), ih]
    simp only [List.map_cons, List.intercalate_cons_cons]

theorem writeLines_eq_weave (parts : List Part) : writeLines parts = weave write ['\n'] parts := by
  induction parts with
  | nil => rfl
  | cons part rest ih => rw [writeLines, weave, ih]

/-- The parts of lines are written as the normal lines, a line feed between each two. -/
theorem writeLines_ofLines (ls : List Text) :
    writeLines (ofLines ls) = Text.joinLines (ls.map normalForm) := by
  have normal (line : Text) : (scan .printed line).flatMap write = normalForm line :=
    render_scan .printed line
  rw [writeLines_eq_weave, weave_ofLines rfl, Text.joinLines_eq_intercalate]
  simp only [normal]

theorem ofLines_map_normalForm (ls : List Text) : ofLines (ls.map normalForm) = ofLines ls := by
  match ls with
  | [] => rfl
  | [line] => exact scan_normalForm .printed line
  | line :: next :: more =>
    have ih := ofLines_map_normalForm (next :: more)
    rw [List.map_cons] at ih
    rw [List.map_cons, List.map_cons, ofLines, ofLines, scan_normalForm, scan_normalForm, ih]

theorem suits_junction (line next : List Part) :
    ∀ part ∈ junction line next, part.Suits .printed := by
  have one (c : Prop) [Decidable c] :
      ∀ part ∈ if c then [empty] else [], part.Suits .printed := by
    split
    · exact List.forall_mem_singleton.2 rfl
    · exact List.forall_mem_nil _
  exact List.forall_mem_append.2 ⟨one _, one _⟩

theorem suits_ofLines (ls : List Text) : ∀ part ∈ ofLines ls, part.Suits .printed := by
  induction ls using ofLines.induct with
  | case1 => exact List.forall_mem_nil _
  | case2 line => exact suits_scan .printed line
  | case3 line next more ih =>
    rw [ofLines]
    exact List.forall_mem_append.2
      ⟨List.forall_mem_append.2 ⟨suits_scan .printed line, suits_junction _ _⟩, ih⟩

/-- Lines have the same parts if their normal forms are the same. -/
theorem ofLines_eq_iff {ls ms : List Text} (hl : ∀ l ∈ ls, '\n' ∉ l) (hm : ∀ m ∈ ms, '\n' ∉ m) :
    ofLines ls = ofLines ms ↔ ls.map normalForm = ms.map normalForm := by
  constructor
  · intro h
    cases ls with
    | nil =>
      cases ms with
      | nil => rfl
      | cons m ms => exact absurd h.symm (ofLines_ne_nil (List.cons_ne_nil _ _))
    | cons l ls =>
      cases ms with
      | nil => exact absurd h (ofLines_ne_nil (List.cons_ne_nil _ _))
      | cons m ms =>
        have written := congrArg writeLines h
        rw [writeLines_ofLines, writeLines_ofLines] at written
        exact Text.joinLines_inj (feed_not_mem_map_normalForm hl) (feed_not_mem_map_normalForm hm)
          (List.cons_ne_nil _ _) (List.cons_ne_nil _ _) written
  · intro h
    rw [← ofLines_map_normalForm, h, ofLines_map_normalForm]

end TermScene.Part
