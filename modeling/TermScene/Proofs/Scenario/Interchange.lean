import TermScene.Proofs.Scenario.Composition

/-!
# Values in the line or below it

A value that stands behind the colon of its directive may as well stand on the next line
(`read_value_below`): the directive has the same value, `clear` none and `output` the same
first line, and all that changes behind it is that the lines are numbered by one more. What
stands before does not matter, since a directive begins a new block, and neither does what
stands behind, since the value is no directive and takes no part in the blocks to come.
-/

namespace TermScene

open Text Directive Block Entry Yield

/-- The number of a line once another one is put in behind line `last`. -/
def pushedDown (last n : Nat) : Nat := if n ≤ last then n else n + 1

namespace Scenario

/-! ## Entries around a new line -/

theorem map_pushedDown_ahead {last n : Nat} {ls : List Text} (h : n + ls.length ≤ last + 1) :
    (entriesFrom n ls).map (renumber (pushedDown last)) = entriesFrom n ls := by
  refine (List.map_congr_left fun e he => ?_).trans (List.map_id _)
  have within := line_of_mem_entriesFrom he
  have same : pushedDown last e.line = e.line := if_pos (by omega)
  rw [renumber, same, id]

theorem map_pushedDown_behind {last n : Nat} (h : last < n) (ls : List Text) :
    (entriesFrom n ls).map (renumber (pushedDown last)) = entriesFrom (n + 1) ls := by
  rw [Nat.add_comm n 1, entriesFrom_add]
  refine List.map_congr_left fun e he => ?_
  have within := line_of_mem_entriesFrom he
  have next : pushedDown last e.line = 1 + e.line := by
    rw [pushedDown, if_neg (by omega), Nat.add_comm]
  rw [renumber, renumber, next]

/-- The first line of a block counts for the value that the directive lacks. -/
theorem entry_below (n : Nat) (k : Keyword) (v : Text) (body : List Text) :
    Block.entry ⟨n, ⟨k, none⟩, v :: body⟩ = Block.entry ⟨n, ⟨k, some v⟩, body⟩ := by
  cases k <;> rfl

theorem entriesFrom_below {l : Text} {k : Keyword} {v : Text}
    (inline : ofLine? l = some ⟨k, some v⟩) (plain : isDirective v = false) (n : Nat)
    (rest : List Text) :
    entriesFrom n ((k.text ++ [':']) :: v :: rest) =
      (entriesFrom n (l :: rest)).map (renumber (pushedDown n)) := by
  have here : pushedDown n n = n := if_pos (Nat.le_refl n)
  rw [entriesFrom_directive (ofLine?_bare k), entriesFrom_directive inline, List.takeWhile_cons,
    plain, entriesFrom_plain plain, List.map_cons, map_pushedDown_behind (Nat.lt_succ_self n)]
  refine congrArg (· :: _) ((entry_below ..).trans ?_)
  rw [renumber, Block.entry, here]

/-- So it is behind any lines: the new line is the one behind the directive. -/
theorem entriesFrom_append_below {l : Text} {k : Keyword} {v : Text}
    (inline : ofLine? l = some ⟨k, some v⟩) (plain : isDirective v = false)
    (pre post : List Text) :
    entriesFrom 1 (pre ++ (k.text ++ [':']) :: v :: post) =
      (entriesFrom 1 (pre ++ l :: post)).map (renumber (pushedDown (pre.length + 1))) := by
  have ahead : 1 + pre.length ≤ pre.length + 1 + 1 := by omega
  rw [entriesFrom_append (seam_of_ofLine? (ofLine?_bare k) _),
    entriesFrom_append (seam_of_ofLine? inline _), List.map_append, map_pushedDown_ahead ahead,
    entriesFrom_below inline plain, Nat.add_comm 1]

/-! ## Whole texts -/

/-- **A value may stand in the line of its directive or below it**, whatever lines stand
before and behind. -/
theorem read_value_below (k : Keyword) {v : Text} {pre post : List Text}
    (feed : ∀ l ∈ pre ++ v :: post, '\n' ∉ l) (nonempty : v ≠ [])
    (start : v.startsBlank = false) (plain : isDirective v = false) :
    read (unlines (pre ++ (k.text ++ [':']) :: v :: post)) =
      (read (unlines (pre ++ (k.text ++ ':' :: ' ' :: v) :: post))).relocate
        (pushedDown (pre.length + 1)) 0 := by
  obtain ⟨feedPre, feedV, feedPost⟩ : (∀ l ∈ pre, '\n' ∉ l) ∧ '\n' ∉ v ∧ ∀ l ∈ post, '\n' ∉ l := by
    simpa only [List.forall_mem_append, List.forall_mem_cons] using feed
  have linesBelow : lines (unlines (pre ++ (k.text ++ [':']) :: v :: post)) =
      pre.map chomp ++ (k.text ++ [':']) :: chomp v :: post.map chomp := by
    have feedK : '\n' ∉ k.text ++ [':'] := by cases k <;> decide
    have bare : chomp (k.text ++ [':']) = k.text ++ [':'] := by cases k <;> rfl
    rw [lines_unlines_feed, List.map_append, List.map_cons, List.map_cons, bare]
    exact List.forall_mem_append.2 ⟨feedPre, List.forall_mem_cons.2 ⟨feedK,
      List.forall_mem_cons.2 ⟨feedV, feedPost⟩⟩⟩
  have linesInline : lines (unlines (pre ++ (k.text ++ ':' :: ' ' :: v) :: post)) =
      pre.map chomp ++ chomp (k.text ++ ':' :: ' ' :: v) :: post.map chomp := by
    have feedK : '\n' ∉ k.text ++ ':' :: ' ' :: v := by
      have := k.feed_not_mem_text.1
      simp [this, feedV]
    rw [lines_unlines_feed, List.map_append, List.map_cons]
    exact List.forall_mem_append.2 ⟨feedPre, List.forall_mem_cons.2 ⟨feedK, feedPost⟩⟩
  have entries : entriesFrom 1 (lines (unlines (pre ++ (k.text ++ [':']) :: v :: post))) =
      (entriesFrom 1 (lines (unlines (pre ++ (k.text ++ ':' :: ' ' :: v) :: post)))).map
        (renumber (pushedDown (pre.length + 1))) := by
    have plain' : isDirective (chomp v) = false := (isDirective_chomp v).trans plain
    rw [linesBelow, linesInline,
      entriesFrom_append_below (ofLine?_chomp_inline k nonempty start) plain', List.length_map]
  have relocated := yields_renumber (pushedDown (pre.length + 1)) 0 0
    (entriesFrom 1 (lines (unlines (pre ++ (k.text ++ ':' :: ' ' :: v) :: post))))
  rw [read_eq_collect, entries, relocated, collect_relocate, ← read_eq_collect]

/-- The value is the first line of an output block, behind a directive that has none; it
ends in a carriage return. -/
theorem read_value_below_output :
    let pre : List Text := ["output:".toList, "a".toList, "delay:".toList]
    let v : Text := "b: c\r".toList
    let post : List Text := ["d".toList, "audio:".toList, "s.ogg".toList, "margin-x: ?".toList]
    (∀ l ∈ pre ++ v :: post, '\n' ∉ l) ∧ v ≠ [] ∧ v.startsBlank = false ∧ isDirective v = false ∧
      read (unlines (pre ++ (Keyword.output.text ++ [':']) :: v :: post)) =
        ⟨[.output (Part.ofLines ["a".toList]), .output (Part.ofLines ["b: c".toList, "d".toList])],
          [⟨7, "s.ogg".toList, 2⟩],
          [⟨3, .delay, [], .empty⟩, ⟨9, .marginX, "?".toList, .badDigit⟩]⟩ := by
  intro pre v post
  have feed : ∀ l ∈ pre ++ v :: post, '\n' ∉ l := by decide
  have nonempty : v ≠ [] := by decide
  have start : v.startsBlank = false := by decide
  have plain : isDirective v = false := by decide
  refine ⟨feed, nonempty, start, plain, ?_⟩
  rw [read_value_below .output feed nonempty start plain]
  decide

end Scenario

end TermScene
