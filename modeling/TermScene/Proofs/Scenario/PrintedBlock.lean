import TermScene.Proofs.Scenario.Accounting
import TermScene.Proofs.Scenario.RoundTrip

/-!
# The lines of an output block

An output directive prints its own value and the lines below it, up to the next directive. They
are put together with line feeds and split again on the way (`lines_joinLines_eq`), so an empty
line is lost at the end of the block, though nowhere else, and so is a carriage return that a
line ends in with another line below it. But for that, the block is printed line by line
(`output_of_line`).
-/

namespace TermScene

open Text Directive

/-! ## Lines that are split again -/

open FoundToken TermScene.Part in
/-- Lines make the same parts exactly if the last one is not empty and no other ends in a carriage
return. -/
theorem ofLines_reread_iff {ls : List Text} (feed : ∀ l ∈ ls, '\n' ∉ l) :
    ofLines (reread ls) = ofLines ls ↔
      ls.getLast? ≠ some [] ∧ ∀ l ∈ ls.dropLast, l.getLast? ≠ some '\r' := by
  have feed' : ∀ l ∈ reread ls, '\n' ∉ l := by
    rw [← lines_joinLines_eq feed]
    exact fun l hl => feed_not_mem_of_mem_lines hl
  rw [ofLines_eq_iff feed' feed]
  rcases List.eq_nil_or_concat ls with rfl | ⟨init, last, rfl⟩
  · exact ⟨fun _ => ⟨by simp, List.forall_mem_nil _⟩, fun _ => rfl⟩
  · rw [List.concat_eq_append, reread_concat, List.getLast?_concat, List.dropLast_concat,
      List.map_append, List.map_append, List.map_map]
    constructor
    · intro same
      have nonempty : last ≠ [] := by
        rintro rfl
        have length := congrArg List.length same
        simp at length
      rw [if_neg nonempty] at same
      refine ⟨fun e => nonempty (Option.some.inj e), ?_⟩
      have inner := List.append_cancel_right same
      intro l hl
      have kept : normalForm (chomp l) = normalForm l := List.map_inj_left.1 inner l hl
      rw [normalForm_chomp] at kept
      rw [← getLast?_normalForm]
      exact chomp_eq_self_iff.1 kept
    · rintro ⟨nonempty, ret⟩
      rw [if_neg fun e => nonempty (congrArg some e)]
      refine congrArg (· ++ _) (List.map_congr_left fun l hl => ?_)
      exact congrArg normalForm (chomp_eq_self (ret l hl))

/-! ## Blocks of a text -/

/-- The lines that an output directive is to print: its value and those behind its line, up to the
next directive. -/
def printedLines (t : Text) (i : Nat) (v : Option Text) : List Text :=
  v.toList ++ (t.lines.drop (i + 1)).takeWhile fun l => !isDirective l

theorem feed_not_mem_printedLines {t line : Text} {i : Nat} {v : Option Text}
    (here : t.lines[i]? = some line) (lexed : ofLine? line = some ⟨.output, v⟩) :
    ∀ l ∈ printedLines t i v, '\n' ∉ l := by
  refine List.forall_mem_append.2 ⟨?_, ?_⟩
  · intro l hl hc
    have value : v = some l := Option.mem_toList.1 hl
    exact feed_not_mem_of_mem_lines (List.mem_of_getElem? here) (mem_of_ofLine? lexed value _ hc)
  · intro l hl
    exact feed_not_mem_of_mem_lines
      (List.mem_of_mem_drop ((List.takeWhile_sublist _).subset hl))

namespace Scenario

theorem mem_entriesFrom {ls : List Text} {i : Nat} {l : Text} {d : Directive}
    (here : ls[i]? = some l) (lexed : ofLine? l = some d) (n : Nat) :
    Block.entry ⟨n + i, d, (ls.drop (i + 1)).takeWhile fun l => !isDirective l⟩ ∈
      entriesFrom n ls := by
  induction ls generalizing n i with
  | nil => cases here
  | cons first rest ih =>
    cases i with
    | zero =>
      obtain rfl : first = l := Option.some.inj here
      rw [entriesFrom_directive lexed]
      exact List.mem_cons_self
    | succ i =>
      have behind := ih here (n + 1)
      rw [Nat.add_right_comm] at behind
      cases other : ofLine? first with
      | none =>
        rw [entriesFrom_plain (isDirective_eq_false_iff.2 other)]
        exact behind
      | some d' =>
        rw [entriesFrom_directive other]
        exact List.mem_cons_of_mem _ behind

/-- **An output directive prints the lines of its block** as they are left by putting them together
and splitting them again. These are the lines themselves exactly if the last one is not empty and
no other ends in a carriage return. -/
theorem output_of_line {t line : Text} {i : Nat} {v : Option Text}
    (here : t.lines[i]? = some line) (lexed : ofLine? line = some ⟨.output, v⟩) :
    let block := printedLines t i v
    (∃ es ys, Account t es ys ∧ ∃ (j : Nat) (e : Entry),
      es[j]? = some e ∧ e.line = i + 1 ∧ e.keyword = .output ∧
      ys[j]? = some (.action (.output (Part.ofLines (reread block))))) ∧
    (Part.ofLines (reread block) = Part.ofLines block ↔
      block.getLast? ≠ some [] ∧ ∀ l ∈ block.dropLast, l.getLast? ≠ some '\r') := by
  intro block
  have feed := feed_not_mem_printedLines here lexed
  refine ⟨?_, ofLines_reread_iff feed⟩
  let e : Entry := ⟨1 + i, .output, joinLines block⟩
  have mem : e ∈ entriesFrom 1 t.lines := mem_entriesFrom here lexed 1
  obtain ⟨j, entry⟩ := List.mem_iff_getElem?.1 mem
  refine ⟨_, _, account_yields t, j, e, entry, Nat.add_comm 1 i, rfl, ?_⟩
  rw [Entry.getElem?_yields, entry, ← lines_joinLines_eq feed]
  rfl

/-- Empty and blank lines within a block, in front of a directive. -/
theorem output_of_line_blank :
    let t : Text := "output: a\n\n \nb\ninput: c".toList
    let parts : List Part := [.literal .printed ['a'], .literal .printed [],
      .literal .printed [' '], .literal .printed ['b']]
    t.lines[0]? = some "output: a".toList ∧
      ofLine? "output: a".toList = some ⟨.output, some ['a']⟩ ∧
      (∃ es ys, Account t es ys ∧ ∃ (j : Nat) (e : Entry), es[j]? = some e ∧ e.line = 1 ∧
        e.keyword = .output ∧ ys[j]? = some (.action (.output parts))) ∧
      Part.ofLines (printedLines t 0 (some ['a'])) = parts := by
  intro t parts
  have here : t.lines[0]? = some "output: a".toList := by decide
  have lexed : ofLine? "output: a".toList = some ⟨.output, some ['a']⟩ := by decide
  obtain ⟨⟨es, ys, account, j, e, entry, first, output, yielded⟩, same⟩ :=
    output_of_line here lexed
  have whole : Part.ofLines (printedLines t 0 (some ['a'])) = parts := by decide
  rw [same.2 (by decide), whole] at yielded
  exact ⟨here, lexed, ⟨es, ys, account, j, e, entry, first, output, yielded⟩, whole⟩

/-- An empty line at the end of a block, and a carriage return in front of a line break, are not
printed. -/
theorem output_of_line_lost :
    let t : Text := "output:\na\n\n".toList
    let u : Text := "output:\nx\r\r\ny\n".toList
    ofLine? "output:".toList = some ⟨.output, none⟩ ∧
      t.lines = ["output:".toList, ['a'], []] ∧ printedLines t 0 none = [['a'], []] ∧
      (read t).actions = [.output [.literal .printed ['a']]] ∧
      (read t).actions ≠ [.output (Part.ofLines (printedLines t 0 none))] ∧
      u.lines = ["output:".toList, ['x', '\r'], ['y']] ∧
      printedLines u 0 none = [['x', '\r'], ['y']] ∧
      (read u).actions = [.output [.literal .printed ['x'], .literal .printed ['y']]] ∧
      (read u).actions ≠ [.output (Part.ofLines (printedLines u 0 none))] := by
  decide

end Scenario

end TermScene
