import TermScene.Proofs.Scenario.Restored
import TermScene.Scenario.Source

/-!
# Reading what was written

The actions read from a text are written and read again. They come back exactly if every
block is restorable (`read_writeAll_iff`): by induction on the blocks, since a restorable
action is read before whatever follows and leaves that alone, and any other one is read as
another action at once. A scenario whose parts can be written is read back whole
(`read_write_of_wellFormed`); its cues come where the running maximum of their positions
puts them, as a cue waits for the ones before it.
-/

namespace TermScene

open Text Block

/-! ## Values of blocks -/

theorem mem_blocksFrom {n : Nat} {ls : List Text} {b : Block} (h : b ∈ blocksFrom n ls) :
    (∃ line ∈ ls, Directive.ofLine? line = some b.directive) ∧ ∀ l ∈ b.body, l ∈ ls := by
  induction ls generalizing n with
  | nil => cases h
  | cons line rest ih =>
    unfold blocksFrom at h
    have below (h : b ∈ blocksFrom (n + 1) rest) :
        (∃ l ∈ line :: rest, Directive.ofLine? l = some b.directive) ∧
          ∀ l ∈ b.body, l ∈ line :: rest := by
      obtain ⟨⟨l, hl, e⟩, body⟩ := ih h
      exact ⟨⟨l, List.mem_cons_of_mem _ hl, e⟩, fun l hl => List.mem_cons_of_mem _ (body l hl)⟩
    cases e : Directive.ofLine? line with
    | none =>
      rw [e] at h
      exact below h
    | some d =>
      rw [e] at h
      rcases List.mem_cons.1 h with rfl | h
      · refine ⟨⟨line, List.mem_cons_self, e⟩, ?_⟩
        intro l hl
        exact List.mem_cons_of_mem _ ((List.takeWhile_sublist _).subset hl)
      · exact below h

theorem mem_of_ofLine? {line v : Text} {d : Directive} (h : Directive.ofLine? line = some d)
    (hv : d.value = some v) : ∀ c ∈ v, c ∈ line := by
  obtain ⟨rest, rfl, e⟩ := Directive.ofLine?_eq_some_iff.1 h
  rw [hv, Directive.valueOf] at e
  split at e
  · cases e
  · obtain rfl := Option.some.inj e
    intro c hc
    have rest : c ∈ rest := (List.dropWhile_sublist _).subset hc
    simp [rest]

/-- Only the value of an output block holds line feeds. -/
theorem feed_not_mem_value {t : Text} {b : Block} (h : b ∈ blocks t)
    (printed : b.directive.keyword ≠ .output) : '\n' ∉ b.value := by
  obtain ⟨⟨line, hline, e⟩, body⟩ := mem_blocksFrom h
  by_cases clear : b.directive.keyword = .clear
  · have none : b.value = [] := by rw [value, clear]
    rw [none]
    exact List.not_mem_nil
  · rw [value_of_takesLine ⟨clear, printed⟩]
    cases hv : b.directive.value with
    | some v =>
      intro hc
      exact feed_not_mem_of_mem_lines hline (mem_of_ofLine? e hv _ hc)
    | none =>
      cases hb : b.body with
      | nil => exact List.not_mem_nil
      | cons l more =>
        rw [hb] at body
        exact feed_not_mem_of_mem_lines (body l List.mem_cons_self)

/-! ## Reading block by block -/

namespace Scenario

theorem ofBlocks_action {b : Block} {a : Action} (h : b.meaning = .action a) (n : Nat)
    (more : List Block) : ofBlocks n (b :: more) =
      { ofBlocks (n + 1) more with actions := a :: (ofBlocks (n + 1) more).actions } := by
  have h : Meaning.of b.directive.keyword b.value = .action a := h
  rw [ofBlocks, h]

theorem ofBlocks_cue {b : Block} {path : Text} (h : b.meaning = .cue path) (n : Nat)
    (more : List Block) : ofBlocks n (b :: more) =
      { ofBlocks n more with cues := ⟨b.line, path, n⟩ :: (ofBlocks n more).cues } := by
  have h : Meaning.of b.directive.keyword b.value = .cue path := h
  rw [ofBlocks, h]

theorem actions_ofBlocks_cons {b : Block} (h : ∀ a, b.meaning ≠ .action a) (n : Nat)
    (more : List Block) : (ofBlocks n (b :: more)).actions = (ofBlocks n more).actions := by
  rw [ofBlocks]
  cases e : Meaning.of b.directive.keyword b.value with
  | action a => exact absurd e (h a)
  | cue path => rfl
  | refused fault => rfl
  | nothing => rfl

end Scenario

theorem restorable_of_no_action {k : Keyword} {v : Text} (h : ∀ a, Meaning.of k v ≠ .action a) :
    Restorable k v := by
  cases k with
  | input => exact absurd rfl (h _)
  | paste => exact absurd rfl (h _)
  | prompt => exact absurd rfl (h _)
  | output => exact absurd rfl (h _)
  | _ => exact trivial

/-! ## Actions -/

theorem Action.exists_write_eq (a : Action) : ∃ (k : Keyword) (rest : Text),
    a.write = k.text ++ ':' :: rest := by
  have written (k : Keyword) (v : Text) : ∃ (k' : Keyword) (rest : Text),
      Directive.write k v = k'.text ++ ':' :: rest := ⟨k, Directive.exists_write_eq k v⟩
  cases a with
  | output parts =>
    cases parts with
    | nil => exact ⟨.output, [], rfl⟩
    | cons part more => exact ⟨.output, _, rfl⟩
  | clear => exact ⟨.clear, [], rfl⟩
  | margin axis px => cases axis <;> exact written _ _
  | _ => exact written _ _

theorem fresh_write (a : Action) (rest : Text) : Fresh (a.write ++ '\n' :: rest) := by
  obtain ⟨k, t, e⟩ := a.exists_write_eq
  rw [e, List.append_assoc]
  exact fresh_keyword k _

theorem writeAll_cons (a : Action) (more : List Action) :
    Action.writeAll (a :: more) = a.write ++ '\n' :: Action.writeAll more := by
  simp [Action.writeAll]

theorem fresh_writeAll (actions : List Action) : Fresh (Action.writeAll actions) := by
  cases actions with
  | nil => exact fresh_nil
  | cons a more =>
    rw [writeAll_cons]
    exact fresh_write a _

theorem read_writeAll_blocks {bs : List Block}
    (feed : ∀ b ∈ bs, b.directive.keyword ≠ .output → '\n' ∉ b.value) (m n i : Nat) :
    (Scenario.ofBlocks n (blocksFrom i
        (lines (Action.writeAll (Scenario.ofBlocks m bs).actions)))).actions =
      (Scenario.ofBlocks m bs).actions ↔
    ∀ b ∈ bs, Restorable b.directive.keyword b.value := by
  induction bs generalizing m n i with
  | nil => exact ⟨fun _ => List.forall_mem_nil _, fun _ => rfl⟩
  | cons b more ih =>
    have ih := ih fun b hb => feed b (List.mem_cons_of_mem _ hb)
    rw [List.forall_mem_cons]
    by_cases means : ∃ a, b.meaning = .action a
    · obtain ⟨a, means⟩ := means
      have fresh := fresh_writeAll (Scenario.ofBlocks (m + 1) more).actions
      rw [Scenario.ofBlocks_action means, writeAll_cons]
      by_cases kept : Restorable b.directive.keyword b.value
      · obtain ⟨b', j, e, means'⟩ :=
          reads_of_restorable (feed b List.mem_cons_self) means kept i _ fresh
        rw [e, Scenario.ofBlocks_action means', List.cons_inj_right, ih]
        exact ⟨fun all => ⟨kept, all⟩, fun both => both.2⟩
      · obtain ⟨a', other, starts⟩ :=
          starts_of_not_restorable (feed b List.mem_cons_self) means kept
        obtain ⟨b', more', e, means'⟩ := starts i _ fresh
        rw [e, Scenario.ofBlocks_action means']
        refine ⟨?_, fun both => absurd both.1 kept⟩
        intro same
        exact absurd (List.cons.inj same).1 other
    · have none : ∀ a, b.meaning ≠ .action a := fun a e => means ⟨a, e⟩
      rw [Scenario.actions_ofBlocks_cons none, ih]
      exact ⟨fun all => ⟨restorable_of_no_action none, all⟩, fun both => both.2⟩

/-- **When the actions of a text come back.** -/
theorem read_writeAll_iff (t : Text) :
    (Scenario.read (Action.writeAll (Scenario.read t).actions)).actions =
      (Scenario.read t).actions ↔
    ∀ b ∈ blocks t, Restorable b.directive.keyword b.value :=
  read_writeAll_blocks (fun _ => feed_not_mem_value) 0 0 1

/-- The empty line at the end of a block is lost. -/
theorem read_writeAll_blank_line :
    (Scenario.read (Action.writeAll (Scenario.read "output:\na\n\n\n".toList).actions)).actions ≠
      (Scenario.read "output:\na\n\n\n".toList).actions := by
  decide

/-! ## Whole scenarios -/

/-- An action whose data has a source text of its own. -/
def Action.WellFormed : Action → Prop
  | .input parts => ∃ v, IsLine v ∧ parts = Part.scan .typed v
  | .paste parts => ∃ v, IsLine v ∧ parts = Part.scan .pasted v
  | .output parts => ∃ ls, (∀ l ∈ ls, IsLine l ∧ Directive.isDirective l = false) ∧
      ls.getLast? ≠ some [] ∧ parts = Part.ofLines ls
  | .prompt none => True
  | .prompt (some t) => IsLine t ∧ t.trim ≠ [] ∧ t.trim ≠ "false".toList
  | .delay ns => ∃ ms : UInt64, ns = Time.ofMillis ms.toNat
  | .typingSpeed multiplier => multiplier.isFinitePositive = true
  | _ => True

theorem reads_of_wellFormed {a : Action} (h : a.WellFormed) : Reads a.write (.action a) := by
  cases a with
  | input parts =>
    obtain ⟨v, line, rfl⟩ := h
    exact reads_of_restorable (k := .input) (fun _ => line.1) rfl line.2
  | paste parts =>
    obtain ⟨v, line, rfl⟩ := h
    exact reads_of_restorable (k := .paste) (fun _ => line.1) rfl line.2
  | output parts =>
    obtain ⟨ls, lines, last, rfl⟩ := h
    exact reads_output (fun l hl => (lines l hl).1.1)
      ⟨fun l hl => (lines l hl).1.2, fun l hl => (lines l hl).2, last⟩
  | prompt text =>
    cases text with
    | none => exact reads_prompt (v := "false".toList) (by decide) (by decide)
    | some t =>
      obtain ⟨line, set⟩ := h
      have same : Meaning.promptOf t = some t := if_neg (not_or.2 set)
      have reads := reads_prompt line.1 (.inr line.2)
      rw [same] at reads
      exact reads
  | delay ns =>
    obtain ⟨ms, rfl⟩ := h
    exact reads_delay ms
  | typingSpeed multiplier => exact reads_typingSpeed h
  | clear => exact reads_clear
  | cursor visible => exact reads_cursor visible
  | scroll lines => exact reads_scroll lines
  | margin axis px => exact reads_margin axis px

/-- A cue whose path can be written, within a number of actions. -/
structure Cue.WellFormed (actions : Nat) (c : Cue) : Prop where
  line : IsLine c.path
  path : c.path.all isBlank = false
  within : c.beforeAction ≤ actions

theorem Cue.WellFormed.reads {n : Nat} {c : Cue} (h : c.WellFormed n) :
    Reads (Directive.write .audio c.path) (.cue c.path) := by
  have reads := reads_line (k := .audio) h.line (by decide)
  have means : Meaning.of .audio c.path = .cue c.path := by
    rw [Meaning.of, h.path]
    rfl
  rw [means] at reads
  exact reads

namespace Scenario

/-- A scenario that can be written. -/
structure WellFormed (s : Scenario) : Prop where
  actions : ∀ a ∈ s.actions, a.WellFormed
  cues : ∀ c ∈ s.cues, c.WellFormed s.actions.length

/-- Cues with the places at which they are written when `n` actions stand before them. -/
def settled : Nat → List Cue → List (Text × Nat)
  | _, [] => []
  | n, c :: more => (c.path, max n c.beforeAction) :: settled (max n c.beforeAction) more

theorem getElem?_settled (n : Nat) (cues : List Cue) (k : Nat) :
    (settled n cues)[k]? = cues[k]?.map fun c =>
      (c.path, ((cues.take (k + 1)).map (·.beforeAction)).foldl max n) := by
  induction cues generalizing n k with
  | nil => rfl
  | cons c more ih =>
    cases k with
    | zero => rfl
    | succ k => exact ih _ k

theorem settled_append {n : Nat} {cues : List Cue} (h : ∀ c ∈ cues, c.beforeAction ≤ n)
    (more : List Cue) :
    settled n (cues ++ more) = cues.map (fun c => (c.path, n)) ++ settled n more := by
  induction cues with
  | nil => rfl
  | cons c cues ih =>
    rw [List.cons_append, settled, Nat.max_eq_left (h c List.mem_cons_self),
      ih fun c hc => h c (List.mem_cons_of_mem _ hc)]
    rfl

/-- Cues that wait for an action wait for the one before it. -/
theorem settled_succ {n : Nat} {cues : List Cue} (h : ∀ c ∈ cues.head?, n < c.beforeAction) :
    settled n cues = settled (n + 1) cues := by
  cases cues with
  | nil => rfl
  | cons c more =>
    have later : n < c.beforeAction := h c rfl
    rw [settled, settled, Nat.max_eq_right (by omega), Nat.max_eq_right (by omega)]

theorem writeCues_cons (c : Cue) (more : List Cue) (rest : Text) :
    writeCues (c :: more) ++ rest =
      Directive.write .audio c.path ++ '\n' :: (writeCues more ++ rest) := by
  simp [writeCues]

theorem fresh_writeCues (cues : List Cue) {rest : Text} (h : Fresh rest) :
    Fresh (writeCues cues ++ rest) := by
  cases cues with
  | nil => exact h
  | cons c more =>
    obtain ⟨t, e⟩ := Directive.exists_write_eq .audio c.path
    rw [writeCues_cons, e, List.append_assoc]
    exact fresh_keyword .audio _

theorem fresh_writeFrom (n : Nat) (cues : List Cue) (actions : List Action) :
    Fresh (writeFrom n cues actions) := by
  cases actions with
  | nil =>
    have all := fresh_writeCues (cues.takeWhile (·.beforeAction ≤ n)) fresh_nil
    rw [List.append_nil] at all
    exact all
  | cons a more =>
    rw [writeFrom, List.append_assoc]
    exact fresh_writeCues _ (fresh_write a _)

/-- Written cues are read at the place where they stand. -/
theorem ofBlocks_writeCues {m : Nat} {cues : List Cue} (h : ∀ c ∈ cues, c.WellFormed m)
    {rest : Text} (fresh : Fresh rest) (n i : Nat) :
    ∃ j, let s := ofBlocks n (blocksFrom i (lines (writeCues cues ++ rest)))
      let t := ofBlocks n (blocksFrom j (lines rest))
      s.actions = t.actions ∧ s.diagnostics = t.diagnostics ∧
        s.cues.map (fun c => (c.path, c.beforeAction)) =
          cues.map (fun c => (c.path, n)) ++ t.cues.map fun c => (c.path, c.beforeAction) := by
  induction cues generalizing i with
  | nil => exact ⟨i, rfl, rfl, rfl⟩
  | cons c more ih =>
    obtain ⟨b, j, e, means⟩ := (h c List.mem_cons_self).reads i _ (fresh_writeCues more fresh)
    obtain ⟨j', actions, diagnostics, cues⟩ := ih (fun c hc => h c (List.mem_cons_of_mem _ hc)) j
    rw [writeCues_cons, e, ofBlocks_cue means]
    exact ⟨j', actions, diagnostics, congrArg ((c.path, n) :: ·) cues⟩

/-- Writing goes on behind an action exactly where reading does. -/
theorem ofBlocks_writeFrom {actions : List Action} (good : ∀ a ∈ actions, a.WellFormed)
    {cues : List Cue} {n : Nat} (within : ∀ c ∈ cues, c.WellFormed (n + actions.length)) (i : Nat) :
    let s := ofBlocks n (blocksFrom i (lines (writeFrom n cues actions)))
    s.actions = actions ∧ s.diagnostics = [] ∧
      s.cues.map (fun c => (c.path, c.beforeAction)) = settled n cues := by
  induction actions generalizing n cues i with
  | nil =>
    have now : (cues ++ []).takeWhile (·.beforeAction ≤ n) =
        cues ++ [].takeWhile (·.beforeAction ≤ n) :=
      List.takeWhile_append_of_pos fun c hc => decide_eq_true (within c hc).within
    rw [List.takeWhile_nil, List.append_nil] at now
    obtain ⟨j, actions, diagnostics, read⟩ := ofBlocks_writeCues within fresh_nil n i
    have all := settled_append (fun c hc => (within c hc).within) []
    rw [List.append_nil] at actions diagnostics read all
    rw [writeFrom, now]
    exact ⟨actions, diagnostics, read.trans all.symm⟩
  | cons a more ih =>
    have split := cues.takeWhile_append_dropWhile (p := fun c => c.beforeAction ≤ n)
    have early : ∀ c ∈ cues.takeWhile (·.beforeAction ≤ n), c.beforeAction ≤ n := by
      intro c hc
      exact of_decide_eq_true (List.all_eq_true.1 List.all_takeWhile c hc)
    have late : ∀ c ∈ (cues.dropWhile (·.beforeAction ≤ n)).head?, n < c.beforeAction := by
      intro c hc
      have first := List.head?_dropWhile_not (fun c : Cue => decide (c.beforeAction ≤ n)) cues
      rw [Option.mem_def.1 hc] at first
      simpa using first
    rw [writeFrom]
    generalize cues.takeWhile (·.beforeAction ≤ n) = now at split early
    generalize cues.dropWhile (·.beforeAction ≤ n) = next at split late
    subst split
    have behind : ∀ c ∈ next, c.WellFormed (n + 1 + more.length) := by
      intro c hc
      have := within c (List.mem_append_right _ hc)
      rw [List.length_cons, Nat.add_comm more.length 1, ← Nat.add_assoc] at this
      exact this
    obtain ⟨j, actions, diagnostics, cues⟩ := ofBlocks_writeCues
      (fun c hc => within c (List.mem_append_left _ hc))
      (fresh_write a (writeFrom (n + 1) next more)) n i
    obtain ⟨b, j', e, means⟩ :=
      reads_of_wellFormed (good a List.mem_cons_self) j _ (fresh_writeFrom (n + 1) next more)
    obtain ⟨actions', diagnostics', cues'⟩ :=
      ih (fun a ha => good a (List.mem_cons_of_mem _ ha)) behind j'
    rw [e, ofBlocks_action means] at actions diagnostics cues
    rw [List.append_assoc]
    refine ⟨actions.trans (congrArg (a :: ·) actions'), diagnostics.trans diagnostics', ?_⟩
    rw [cues, settled_append early, settled_succ late]
    exact congrArg _ cues'

/-- **A scenario that can be written is read back.** -/
theorem read_write_of_wellFormed {s : Scenario} (h : s.WellFormed) :
    (read s.write).actions = s.actions ∧ (read s.write).diagnostics = [] ∧
    ∀ k : Nat, (read s.write).cues[k]?.map (fun c => (c.path, c.beforeAction)) =
      s.cues[k]?.map fun c =>
        (c.path, ((s.cues.take (k + 1)).map (·.beforeAction)).foldl max 0) := by
  have within : ∀ c ∈ s.cues, c.WellFormed (0 + s.actions.length) := by
    intro c hc
    rw [Nat.zero_add]
    exact h.cues c hc
  obtain ⟨actions, diagnostics, cues⟩ := ofBlocks_writeFrom h.actions within 1
  refine ⟨actions, diagnostics, ?_⟩
  intro k
  rw [← getElem?_settled, ← cues, List.getElem?_map]
  rfl

/-- A cue that stands behind a later one. -/
theorem read_write_late_cue :
    let s : Scenario := ⟨[.output (Part.ofLines ["a: %{end}".toList, [], "b".toList]), .clear],
      [⟨0, "b.ogg".toList, 2⟩, ⟨0, "a.ogg".toList, 1⟩], []⟩
    s.WellFormed ∧ (read s.write).actions = s.actions ∧
      (read s.write).cues[1]?.map (fun c => (c.path, c.beforeAction)) =
        some ("a.ogg".toList, 2) := by
  intro s
  have good : s.WellFormed := by
    refine ⟨?_, ?_⟩
    · intro a ha
      rcases List.mem_cons.1 ha with rfl | ha
      · exact ⟨["a: %{end}".toList, [], "b".toList], by decide, by decide, rfl⟩
      · obtain rfl := List.mem_singleton.1 ha
        exact trivial
    · intro c hc
      rcases List.mem_cons.1 hc with rfl | hc
      · exact ⟨by decide, by decide, by decide⟩
      · obtain rfl := List.mem_singleton.1 hc
        exact ⟨by decide, by decide, by decide⟩
  obtain ⟨actions, -, cues⟩ := read_write_of_wellFormed good
  exact ⟨good, actions, cues 1⟩

end Scenario

end TermScene
