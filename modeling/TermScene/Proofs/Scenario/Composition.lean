import TermScene.Proofs.Scenario.Yield

/-!
# Reading two texts as one

A text that ends with its last line and a text that begins with a directive are read
together as one after the other (`read_append`): the seam falls between two lines, and no
block reaches over it, since a body ends before the next directive. All that the second
text owes to the first is how many lines and how many actions are ahead of it.
-/

namespace TermScene

/-! ## The seam -/

namespace Text

/-- The text is empty or ends with a line feed, so that no line is left open. -/
def Terminated (t : Text) : Prop := t = [] ∨ t.getLast? = some '\n'

instance (t : Text) : Decidable (Terminated t) := inferInstanceAs (Decidable (_ ∨ _))

theorem Terminated.of_append {s : Text} {c : Char} {t : Text} (h : Terminated (s ++ c :: t)) :
    Terminated t := by
  have last : (s ++ c :: t).getLast? = some '\n' := h.resolve_left (by simp)
  rcases List.eq_nil_or_concat t with rfl | ⟨u, d, rfl⟩
  · exact .inl rfl
  · rw [List.concat_eq_append, ← List.cons_append, ← List.append_assoc, List.getLast?_concat]
      at last
    rw [Terminated, List.concat_eq_append, List.getLast?_concat]
    exact .inr last

/-- Behind a terminated text the lines begin anew. -/
theorem lines_append_of_terminated {s : Text} (h : Terminated s) (t : Text) :
    lines (s ++ t) = lines s ++ lines t := by
  induction len : s.length using Nat.strongRecOn generalizing s with
  | _ len' ih =>
    subst len
    cases cut : s.cutAt? '\n' with
    | none =>
      have feed := cutAt?_eq_none_iff.1 cut
      rcases h with rfl | last
      · rfl
      · exact absurd (List.mem_of_getLast? last) feed
    | some halves =>
      obtain ⟨line, rest⟩ := halves
      obtain ⟨rfl, feed⟩ := cutAt?_eq_some_iff.1 cut
      have shorter : rest.length < (line ++ '\n' :: rest).length := by
        rw [List.length_append, List.length_cons]
        omega
      rw [List.append_assoc, List.cons_append, lines_append_feed feed, lines_append_feed feed,
        ih _ shorter h.of_append rfl, List.cons_append]

end Text

open Text Entry Yield

namespace Block

theorem takeWhile_of_seam {ms : List Text} (seam : Seam ms) (ls : List Text) :
    (ls ++ ms).takeWhile (fun l => !Directive.isDirective l) =
      ls.takeWhile fun l => !Directive.isDirective l := by
  induction ls with
  | nil =>
    cases ms with
    | nil => rfl
    | cons m more =>
      have directive := seam m rfl
      rw [List.nil_append, List.takeWhile_cons, directive]
      rfl
  | cons l ls ih => rw [List.cons_append, List.takeWhile_cons, List.takeWhile_cons, ih]

/-- No block reaches over a seam. -/
theorem blocksFrom_append_of_seam {ms : List Text} (seam : Seam ms) (n : Nat) (ls : List Text) :
    blocksFrom n (ls ++ ms) = blocksFrom n ls ++ blocksFrom (n + ls.length) ms := by
  induction ls generalizing n with
  | nil => rfl
  | cons l ls ih =>
    have behind : n + (l :: ls).length = n + 1 + ls.length := by
      rw [List.length_cons]
      omega
    rw [List.cons_append, blocksFrom, blocksFrom, ih, behind, takeWhile_of_seam seam]
    cases Directive.ofLine? l <;> rfl

/-- Where the numbering begins is all that the lines ahead decide. -/
theorem blocksFrom_add (k n : Nat) (ls : List Text) :
    blocksFrom (k + n) ls = (blocksFrom n ls).map fun b => { b with line := k + b.line } := by
  induction ls generalizing n with
  | nil => rfl
  | cons l ls ih =>
    rw [blocksFrom, blocksFrom, Nat.add_assoc, ih]
    cases Directive.ofLine? l <;> rfl

theorem seam_append {ls ms : List Text} (hl : Seam ls) (hm : Seam ms) : Seam (ls ++ ms) := by
  cases ls with
  | nil => exact hm
  | cons l ls => exact seam_cons (hl l rfl) (ls ++ ms)

theorem fresh_append {s t : Text} (closed : s.Terminated) (hs : Fresh s) (ht : Fresh t) :
    Fresh (s ++ t) := by
  unfold Fresh
  rw [lines_append_of_terminated closed]
  exact seam_append hs ht

end Block

open Block

namespace Scenario

theorem entriesFrom_append {ms : List Text} (seam : Seam ms) (n : Nat) (ls : List Text) :
    entriesFrom n (ls ++ ms) = entriesFrom n ls ++ entriesFrom (n + ls.length) ms := by
  rw [entriesFrom, blocksFrom_append_of_seam seam, List.map_append]
  rfl

theorem entriesFrom_add (k n : Nat) (ls : List Text) :
    entriesFrom (k + n) ls = (entriesFrom n ls).map (renumber (k + ·)) := by
  rw [entriesFrom, blocksFrom_add, List.map_map, entriesFrom, List.map_map]
  rfl

/-! ## Whole texts -/

theorem read_append_of_seam {s t : Text} (closed : s.Terminated) (fresh : Fresh t) :
    read (s ++ t) =
      (read s).append ((read t).relocate (s.lines.length + ·) (read s).actions.length) := by
  have behind : entriesFrom (1 + s.lines.length) t.lines =
      (entriesFrom 1 t.lines).map (renumber (s.lines.length + ·)) := by
    rw [Nat.add_comm, entriesFrom_add]
  have ahead : 0 + (Yield.actions (yields 0 (entriesFrom 1 s.lines))).length =
      (read s).actions.length + 0 := by
    rw [read_eq_collect, Nat.zero_add]
    rfl
  rw [read_eq_collect, lines_append_of_terminated closed, entriesFrom_append fresh,
    yields_append, behind, ahead, yields_renumber, collect_append, collect_relocate,
    ← read_eq_collect, ← read_eq_collect]

/-- **Reading is compositional.** The second text is read as it is on its own, at its place
behind the first; so is a text in the middle, whatever stands before and behind it. -/
theorem read_append {s t : Text} (closed : s.Terminated) (fresh : Fresh t) :
    read (s ++ t) =
      (read s).append ((read t).relocate (s.lines.length + ·) (read s).actions.length) ∧
    ∀ rest, t.Terminated → Fresh rest →
      read (s ++ (t ++ rest)) = (read s).append
        (((read t).append
            ((read rest).relocate (t.lines.length + ·) (read t).actions.length)).relocate
          (s.lines.length + ·) (read s).actions.length) := by
  refine ⟨read_append_of_seam closed fresh, ?_⟩
  intro rest closed' fresh'
  rw [read_append_of_seam closed (fresh_append closed' fresh fresh'),
    read_append_of_seam closed' fresh']

/-- The first text ends within an output block, the second with a directive that waits for
its value. -/
theorem read_append_open_block :
    let s : Text := "output:\na\n\n".toList
    let t : Text := "delay: soon\naudio:\nb.ogg\nclear:\ninput:".toList
    s.Terminated ∧ Fresh t ∧
      (read (s ++ t)).actions = [.output (Part.ofLines ["a".toList]), .clear,
        .input (Part.scan .typed [])] ∧
      (read (s ++ t)).cues = [⟨5, "b.ogg".toList, 1⟩] ∧
      (read (s ++ t)).diagnostics = [⟨4, .delay, "soon".toList, .badDigit⟩] := by
  intro s t
  have closed : s.Terminated := by decide
  have fresh : Fresh t := fresh_keyword .delay _
  obtain ⟨whole, -⟩ := read_append closed fresh
  refine ⟨closed, fresh, ?_⟩
  rw [whole]
  decide

end Scenario

end TermScene
