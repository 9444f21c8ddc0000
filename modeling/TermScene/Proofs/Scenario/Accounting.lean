import TermScene.Proofs.Scenario.Yield

/-!
# Every directive line is accounted for

Reading goes through the lines of a text once (`Visits`): a directive takes along the lines
that its value is made of, and reading goes on behind them. No line that is taken along is
a directive, so the entries met on the way are those of all directive lines, in order.
Each yields one action, one cue, one diagnostic or, as an audio hint without a path,
nothing (`Entry.Yields`), and the scenario holds what they yield and nothing else
(`read_accounts`).
-/

namespace TermScene

open Text Directive

/-! ## One way through the lines -/

/-- Reading visits lines, which are numbered from `n` on, and meets entries: each line is
passed over, is a directive, or is taken along by the directive before it. -/
inductive Visits : Nat → List Text → List Entry → Prop
  | done {n} : Visits n [] []
  | skip {n l rest es} (plain : isDirective l = false) (next : Visits (n + 1) rest es) :
      Visits n (l :: rest) es
  | clear {n l v rest es} (lexed : ofLine? l = some ⟨.clear, v⟩) (next : Visits (n + 1) rest es) :
      Visits n (l :: rest) (⟨n, .clear, []⟩ :: es)
  /-- An output directive takes all lines along up to the next directive. -/
  | output {n l v body rest es} (lexed : ofLine? l = some ⟨.output, v⟩)
      (plain : ∀ b ∈ body, isDirective b = false) (stop : Block.Seam rest)
      (next : Visits (n + 1 + body.length) rest es) :
      Visits n (l :: (body ++ rest)) (⟨n, .output, joinLines (v.toList ++ body)⟩ :: es)
  | inline {n l k v rest es} (lexed : ofLine? l = some ⟨k, some v⟩) (takes : Block.TakesLine k)
      (next : Visits (n + 1) rest es) : Visits n (l :: rest) (⟨n, k, v⟩ :: es)
  | nextLine {n l k v rest es} (lexed : ofLine? l = some ⟨k, none⟩) (takes : Block.TakesLine k)
      (plain : isDirective v = false) (next : Visits (n + 1 + 1) rest es) :
      Visits n (l :: v :: rest) (⟨n, k, v⟩ :: es)
  /-- At the end, or in front of another directive, a directive without a value has an
  empty one. -/
  | missing {n l k rest es} (lexed : ofLine? l = some ⟨k, none⟩) (takes : Block.TakesLine k)
      (stop : Block.Seam rest) (next : Visits (n + 1) rest es) :
      Visits n (l :: rest) (⟨n, k, []⟩ :: es)

namespace Scenario

open Entry Yield

/-- A directive that takes one line takes its own value, or else the next line. -/
theorem entry_of_takesLine {k : Keyword} (takes : Block.TakesLine k) (n : Nat) (v : Option Text)
    (body : List Text) : Block.entry ⟨n, ⟨k, v⟩, body⟩ = ⟨n, k, (v <|> body.head?).getD []⟩ := by
  rw [Block.entry, Block.value_of_takesLine takes]

theorem visits_output {n : Nat} {l : Text} {v : Option Text} {rest : List Text}
    (lexed : ofLine? l = some ⟨.output, v⟩)
    (next : ∀ (m : Nat) (more : List Text), more <:+ rest → Visits m more (entriesFrom m more)) :
    Visits n (l :: rest) (entriesFrom n (l :: rest)) := by
  have cut := rest.takeWhile_append_dropWhile (p := fun l => !isDirective l)
  have plain : ∀ b ∈ rest.takeWhile fun l => !isDirective l, isDirective b = false := by
    intro b hb
    simpa using List.all_eq_true.1 List.all_takeWhile b hb
  have stop : Block.Seam (rest.dropWhile fun l => !isDirective l) := by
    intro r hr
    have first := List.head?_dropWhile_not (fun l => !isDirective l) rest
    rw [Option.mem_def.1 hr] at first
    simpa using first
  have visits := Visits.output (n := n) lexed plain stop
    (next _ _ (List.dropWhile_suffix _))
  rw [← entriesFrom_append_plain plain, cut] at visits
  rw [entriesFrom_directive lexed]
  exact visits

theorem visits_takesLine {n : Nat} {l : Text} {k : Keyword} {v : Option Text} {rest : List Text}
    (lexed : ofLine? l = some ⟨k, v⟩) (takes : Block.TakesLine k)
    (next : ∀ (m : Nat) (more : List Text), more <:+ rest → Visits m more (entriesFrom m more)) :
    Visits n (l :: rest) (entriesFrom n (l :: rest)) := by
  have behind := next (n + 1) rest (List.suffix_refl rest)
  rw [entriesFrom_directive lexed, entry_of_takesLine takes]
  cases v with
  | some v => exact .inline lexed takes behind
  | none =>
    cases rest with
    | nil => exact .missing lexed takes Block.seam_nil behind
    | cons m more =>
      rw [List.takeWhile_cons]
      cases directive : isDirective m with
      | true => exact .missing lexed takes (Block.seam_cons directive more) behind
      | false =>
        rw [entriesFrom_plain directive]
        exact .nextLine lexed takes directive (next _ more (List.suffix_cons m more))

/-- Going through the lines once meets the entries of all blocks. -/
theorem visits_entriesFrom (n : Nat) (ls : List Text) : Visits n ls (entriesFrom n ls) := by
  induction len : ls.length using Nat.strongRecOn generalizing n ls with
  | _ len' ih =>
    subst len
    cases ls with
    | nil => exact .done
    | cons l rest =>
      have next (m : Nat) (more : List Text) (h : more <:+ rest) :
          Visits m more (entriesFrom m more) :=
        ih more.length (Nat.lt_succ_of_le h.length_le) m more rfl
      cases lexed : ofLine? l with
      | none =>
        have plain := isDirective_eq_false_iff.2 lexed
        rw [entriesFrom_plain plain]
        exact .skip plain (next _ rest (List.suffix_refl rest))
      | some d =>
        obtain ⟨k, v⟩ := d
        by_cases clear : k = .clear
        · subst clear
          rw [entriesFrom_directive lexed]
          exact .clear lexed (next _ rest (List.suffix_refl rest))
        by_cases output : k = .output
        · subst output
          exact visits_output lexed next
        · exact visits_takesLine lexed ⟨clear, output⟩ next

/-! ## Directive lines -/

/-- The lines of a text on which a directive stands: their numbers and keywords, in order. -/
def directiveLines (t : Text) : List (Nat × Keyword) :=
  (t.lines.zipIdx 1).filterMap fun (l, i) => (ofLine? l).map fun d => (i, d.keyword)

theorem map_entriesFrom (n : Nat) (ls : List Text) :
    (entriesFrom n ls).map (fun e => (e.line, e.keyword)) =
      (ls.zipIdx n).filterMap fun (l, i) => (ofLine? l).map fun d => (i, d.keyword) := by
  have blocks := congrArg (List.map fun x => (x.1, x.2.keyword)) (Block.map_line_blocksFrom n ls)
  rw [List.map_map, List.map_filterMap] at blocks
  rw [entriesFrom, List.map_map]
  refine blocks.trans (congrArg (List.filterMap · _) (funext fun x => ?_))
  rw [Option.map_map]
  rfl

theorem pairwise_entriesFrom (n : Nat) (ls : List Text) :
    (entriesFrom n ls).Pairwise fun e f => e.line < f.line := by
  induction ls generalizing n with
  | nil => exact .nil
  | cons l ls ih =>
    cases lexed : ofLine? l with
    | none =>
      rw [entriesFrom_plain (isDirective_eq_false_iff.2 lexed)]
      exact ih (n + 1)
    | some d =>
      rw [entriesFrom_directive lexed]
      exact List.pairwise_cons.2 ⟨fun f hf => (line_of_mem_entriesFrom hf).1, ih (n + 1)⟩

end Scenario

/-! ## What an entry may yield -/

namespace Meaning

theorem ofRead_cases {α : Type} (make : α → Action) (r : Except Whole.Fault α) :
    (∃ a, ofRead make r = .action a) ∨ ∃ fault, ofRead make r = .refused fault := by
  cases r with
  | ok x => exact .inl ⟨_, rfl⟩
  | error fault => exact .inr ⟨fault, rfl⟩

/-- Only an audio hint has another meaning than an action or a refusal. -/
theorem cases_of (k : Keyword) (v : Text) :
    (∃ a, of k v = .action a) ∨ (∃ fault, of k v = .refused fault) ∨
      k = .audio ∧ of k v = if v.all isBlank then .nothing else .cue v := by
  cases k with
  | audio => exact .inr (.inr ⟨rfl, rfl⟩)
  | delay => exact (ofRead_cases ..).imp_right .inl
  | scrollLines => exact (ofRead_cases ..).imp_right .inl
  | marginX => exact (ofRead_cases ..).imp_right .inl
  | marginY => exact (ofRead_cases ..).imp_right .inl
  | _ => exact .inl ⟨_, rfl⟩

end Meaning

namespace Entry

open Yield

/-- What may come of an entry that has `before` actions before it. -/
inductive Yields (e : Entry) (before : Nat) : Yield → Prop
  | action {a} (means : Meaning.of e.keyword e.value = .action a) (named : a.keyword = e.keyword) :
      Yields e before (.action a)
  | diagnostic {fault} (means : Meaning.of e.keyword e.value = .refused fault)
      (number : e.keyword ∈ [Keyword.delay, .scrollLines, .marginX, .marginY]) :
      Yields e before (.diagnostic ⟨e.line, e.keyword, e.value, fault⟩)
  | cue (audio : e.keyword = .audio) (path : e.value.all isBlank = false) :
      Yields e before (.cue ⟨e.line, e.value, before⟩)
  | nothing (audio : e.keyword = .audio) (blank : e.value.all isBlank = true) :
      Yields e before .nothing

theorem yields_yield (e : Entry) (before : Nat) : e.Yields before (e.yield before) := by
  unfold yield
  rcases Meaning.cases_of e.keyword e.value with ⟨a, means⟩ | ⟨fault, means⟩ | ⟨audio, means⟩
  · rw [means]
    exact .action means (Meaning.keyword_of_action means)
  · rw [means]
    exact .diagnostic means (by simpa using Meaning.keyword_of_refused means)
  · rw [means]
    cases blank : e.value.all isBlank with
    | true => exact .nothing audio blank
    | false => exact .cue audio blank

theorem exists_of_mem_yields {n : Nat} {es : List Entry} {y : Yield} (h : y ∈ yields n es) :
    ∃ e ∈ es, ∃ before, e.Yields before y := by
  induction es generalizing n with
  | nil => cases h
  | cons e more ih =>
    rcases List.mem_cons.1 h with rfl | h
    · exact ⟨e, List.mem_cons_self, n, e.yields_yield n⟩
    · obtain ⟨f, hf, from_f⟩ := ih h
      exact ⟨f, List.mem_cons_of_mem e hf, from_f⟩

/-- Cues come one after another, within the actions. -/
theorem cues_yields (n : Nat) (es : List Entry) :
    ((yields n es).filterMap cue?).Pairwise (fun c d => c.beforeAction ≤ d.beforeAction) ∧
      ∀ c ∈ (yields n es).filterMap cue?,
        n ≤ c.beforeAction ∧ c.beforeAction ≤ n + (actions (yields n es)).length := by
  induction es generalizing n with
  | nil => exact ⟨.nil, List.forall_mem_nil _⟩
  | cons e more ih =>
    obtain ⟨sorted, within⟩ := ih (n + (e.yield n).action?.toList.length)
    rw [yields, actions_cons, List.length_append, ← Nat.add_assoc]
    have later : ∀ c ∈ (yields (n + (e.yield n).action?.toList.length) more).filterMap cue?,
        n ≤ c.beforeAction := fun c hc => Nat.le_trans (Nat.le_add_right ..) (within c hc).1
    cases first : (e.yield n).cue? with
    | none =>
      rw [List.filterMap_cons_none first]
      exact ⟨sorted, fun c hc => ⟨later c hc, (within c hc).2⟩⟩
    | some c =>
      have here : c.beforeAction = n := by
        have yields := e.yields_yield n
        rw [cue?_eq_some_iff.1 first] at yields
        cases yields
        rfl
      rw [List.filterMap_cons_some first]
      refine ⟨List.pairwise_cons.2 ⟨fun d hd => here ▸ later d hd, sorted⟩, ?_⟩
      refine List.forall_mem_cons.2 ⟨?_, fun d hd => ⟨later d hd, (within d hd).2⟩⟩
      rw [here, Nat.add_assoc]
      exact ⟨Nat.le_refl n, Nat.le_add_right ..⟩

end Entry

/-! ## The account of a text -/

namespace Scenario

open Entry Yield

/-- What the directive lines of a text come to: entries, which are met on one way through the
lines, and what each of them yields. -/
structure Account (t : Text) (es : List Entry) (ys : List Yield) : Prop where
  visits : Visits 1 t.lines es
  directives : es.map (fun e => (e.line, e.keyword)) = directiveLines t
  inOrder : es.Pairwise fun e f => e.line < f.line
  length : ys.length = es.length
  /-- As many actions stand before an entry as the entries before it yield. -/
  yields : ∀ (i : Nat) (e : Entry) (y : Yield), es[i]? = some e → ys[i]? = some y →
    e.Yields (Yield.actions (ys.take i)).length y
  actions : (read t).actions = ys.filterMap action?
  cues : (read t).cues = ys.filterMap cue?
  diagnostics : (read t).diagnostics = ys.filterMap diagnostic?

theorem account_yields (t : Text) :
    Account t (entriesFrom 1 t.lines) (Entry.yields 0 (entriesFrom 1 t.lines)) := by
  refine ⟨visits_entriesFrom 1 t.lines, map_entriesFrom 1 t.lines, pairwise_entriesFrom 1 t.lines,
    length_yields 0 _, ?_, ?_, ?_, ?_⟩
  · intro i e y entry yielded
    rw [getElem?_yields, entry, Nat.zero_add] at yielded
    obtain rfl := Option.some.inj yielded
    exact e.yields_yield _
  · rw [read_eq_collect]
    rfl
  · rw [read_eq_collect]
    rfl
  · rw [read_eq_collect]
    rfl

/-- **Every directive line is accounted for** by exactly one action, cue or diagnostic, or, an
audio hint without a path, by nothing; and nothing else is in the scenario. -/
theorem read_accounts (t : Text) :
    (∃ es ys, Account t es ys) ∧
    (read t).cues.Pairwise (fun c d => c.beforeAction ≤ d.beforeAction) ∧
    (∀ c ∈ (read t).cues, c.beforeAction ≤ (read t).actions.length) ∧
    ∀ d ∈ (read t).diagnostics,
      d.keyword ∈ [Keyword.delay, .scrollLines, .marginX, .marginY] := by
  have account := account_yields t
  obtain ⟨sorted, within⟩ := cues_yields 0 (entriesFrom 1 t.lines)
  refine ⟨⟨_, _, account⟩, ?_, ?_, ?_⟩
  · rw [account.cues]
    exact sorted
  · rw [account.cues, account.actions]
    intro c hc
    have last := (within c hc).2
    rw [Nat.zero_add] at last
    exact last
  · rw [account.diagnostics]
    intro d hd
    obtain ⟨y, hy, kind⟩ := List.mem_filterMap.1 hd
    obtain ⟨e, -, before, yields⟩ := exists_of_mem_yields hy
    rw [diagnostic?_eq_some_iff.1 kind] at yields
    cases yields with
    | diagnostic _ number => exact number

end Scenario

end TermScene
