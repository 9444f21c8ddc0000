import TermScene.Action.Source
import TermScene.Proofs.Part.Joined
import TermScene.Proofs.Scenario.Body

/-!
# Which actions are read back

An action is written from what its value meant. The value comes back, up to the form of its
tokens, unless it ends in a carriage return, or is a block of lines that the line splitter
or the directive lexer takes apart differently: `Restorable` says exactly when it comes
back (`reads_of_restorable`, `starts_of_not_restorable`).
-/

namespace TermScene

open Text Block

/-! ## Printed lines -/

section Output

open FoundToken TermScene.Part

theorem normalForm_chomp (t : Text) : normalForm (chomp t) = chomp (normalForm t) := by
  obtain ⟨last, e⟩ | ⟨u, rfl, e⟩ := chomp_cases t
  · rw [e, chomp_eq_self]
    rw [getLast?_normalForm]
    exact last
  · rw [e, normalForm_concat (by decide), chomp_concat]

theorem printable_map_normalForm (ls : List Text) :
    Printable (ls.map normalForm) ↔ Printable ls := by
  have last : (ls.map normalForm).getLast? = some [] ↔ ls.getLast? = some [] := by
    rw [List.getLast?_map, Option.map_eq_some_iff]
    constructor
    · rintro ⟨l, e, h⟩
      rw [e, normalForm_eq_nil_iff.1 h]
    · intro e
      exact ⟨[], e, rfl⟩
  constructor
  · rintro ⟨ret, plain, nonempty⟩
    refine ⟨?_, ?_, fun e => nonempty (last.2 e)⟩
    · intro l hl
      rw [← getLast?_normalForm]
      exact ret _ (List.mem_map_of_mem hl)
    · intro l hl
      rw [← Directive.isDirective_normalForm]
      exact plain _ (List.mem_map_of_mem hl)
  · rintro ⟨ret, plain, nonempty⟩
    refine ⟨?_, ?_, fun e => nonempty (last.1 e)⟩
    · intro l hl
      obtain ⟨l, mem, rfl⟩ := List.mem_map.1 hl
      rw [getLast?_normalForm]
      exact ret l mem
    · intro l hl
      obtain ⟨l, mem, rfl⟩ := List.mem_map.1 hl
      rw [Directive.isDirective_normalForm]
      exact plain l mem

/-- The lines below the directive, as far as they are no directives themselves. -/
def printedBody (ls : List Text) : List Text :=
  ((ls.map normalForm).map chomp).takeWhile fun l => !Directive.isDirective l

/-- The block has the same parts exactly if its lines are printable. -/
theorem ofLines_printedBody_eq_iff {ls : List Text} (feed : ∀ l ∈ ls, '\n' ∉ l) :
    ofLines (lines (joinLines (printedBody ls))) = ofLines ls ↔ Printable ls := by
  have feed' := feed_not_mem_map_normalForm feed
  have body : ∀ l ∈ printedBody ls, ∃ m ∈ ls, l = chomp (normalForm m) := by
    intro l hl
    obtain ⟨n, hn, rfl⟩ := List.mem_map.1 ((List.takeWhile_sublist _).subset hl)
    obtain ⟨m, hm, rfl⟩ := List.mem_map.1 hn
    exact ⟨m, hm, rfl⟩
  have feed'' : ∀ l ∈ printedBody ls, '\n' ∉ l := fun l hl =>
    feed_not_mem_map_chomp feed' l ((List.takeWhile_sublist _).subset hl)
  have normal : (lines (joinLines (printedBody ls))).map normalForm =
      lines (joinLines (printedBody ls)) := by
    refine (List.map_congr_left ?_).trans (List.map_id _)
    intro l hl
    obtain ⟨m, hm, e⟩ := mem_lines_joinLines feed'' hl
    obtain ⟨n, -, rfl⟩ := body m hm
    rcases e with rfl | rfl
    · rw [normalForm_chomp, normalForm_normalForm]
      rfl
    · rw [normalForm_chomp, normalForm_chomp, normalForm_normalForm]
      rfl
  rw [ofLines_eq_iff (fun l hl => feed_not_mem_of_mem_lines hl) feed, normal, printedBody,
    lines_body_eq_iff feed', printable_map_normalForm]

theorem lines_output {ls : List Text} (feed : ∀ l ∈ ls, '\n' ∉ l) (rest : Text) :
    lines ((Action.output (ofLines ls)).write ++ '\n' :: rest) =
      (Keyword.output.text ++ [':']) :: ((ls.map normalForm).map chomp ++ lines rest) := by
  by_cases h : ls = []
  · subst h
    exact lines_bare .output rest
  · have feed' := feed_not_mem_map_normalForm feed
    have written : (Action.output (ofLines ls)).write =
        Keyword.output.text ++ ':' :: '\n' :: joinLines (ls.map normalForm) := by
      rw [← writeLines_ofLines]
      obtain ⟨part, parts, e⟩ := List.exists_cons_of_ne_nil (ofLines_ne_nil h)
      rw [e]
      rfl
    have text : Keyword.output.text ++ ':' :: '\n' :: joinLines (ls.map normalForm) ++
        '\n' :: rest = Keyword.output.text ++ ':' :: '\n' ::
          (joinLines (ls.map normalForm) ++ '\n' :: rest) := by simp
    rw [written, text, lines_bare, lines_joinLines_feed feed' (by simpa using h)]

theorem blocksFrom_output {ls : List Text} (feed : ∀ l ∈ ls, '\n' ∉ l) (n : Nat) {rest : Text}
    (fresh : Fresh rest) :
    blocksFrom n (lines ((Action.output (ofLines ls)).write ++ '\n' :: rest)) =
      ⟨n, ⟨.output, none⟩, printedBody ls⟩ ::
        blocksFrom (n + 1) ((ls.map normalForm).map chomp ++ lines rest) := by
  rw [lines_output feed, blocksFrom_bare, List.takeWhile_append, takeWhile_of_fresh fresh,
    List.append_nil]
  split
  · next whole =>
    rw [printedBody, (List.takeWhile_sublist _).eq_of_length whole]
  · rfl

end Output

/-! ## Actions -/

/-- Whether what is written for a value of a keyword is read as the same action. -/
def Restorable : Keyword → Text → Prop
  | .input, v => v.getLast? ≠ some '\r'
  | .paste, v => v.getLast? ≠ some '\r'
  | .prompt, v => Meaning.promptOf v = none ∨ v.getLast? ≠ some '\r'
  | .output, v => Printable v.lines
  | _, _ => True

theorem reads_line {k : Keyword} {v : Text} (h : IsLine v) (takes : TakesLine k) :
    Reads (Directive.write k v) (.of k v) := by
  have reads := reads_write h.1 takes
  rw [chomp_eq_self h.2] at reads
  exact reads

theorem isLine_of_not_blank {v : Text} (h : ∀ c ∈ v, isBlank c = false) : IsLine v := by
  refine ⟨?_, ?_⟩
  · intro hc
    cases h _ hc
  · intro last
    cases h _ (List.mem_of_getLast? last)

/-- Typed and pasted text comes back without the carriage return it ends in. -/
theorem reads_scan {k : Keyword} {kind : LiteralKind} {make : List Part → Action}
    (means : ∀ v, Meaning.of k v = .action (make (Part.scan kind v))) {v : Text}
    (feed : '\n' ∉ v) (takes : TakesLine k) :
    Reads (Directive.write k (Part.render (Part.scan kind v)))
      (.action (make (Part.scan kind (chomp v)))) := by
  have reads := reads_write (FoundToken.feed_not_mem_normalForm feed) takes
  rw [← normalForm_chomp, means, Part.scan_normalForm] at reads
  rw [Part.render_scan]
  exact reads

/-- Numbers come back if they are read from what is written for them. -/
theorem reads_number {α : Type} {k : Keyword} {make : α → Action}
    {read : Text → Except Whole.Fault α} (means : ∀ v, Meaning.of k v = .ofRead make (read v.trim))
    {w : Text} (blank : ∀ c ∈ w, isBlank c = false) {x : α} (h : read w = .ok x)
    (takes : TakesLine k) : Reads (Directive.write k w) (.action (make x)) := by
  have reads := reads_line (isLine_of_not_blank blank) takes
  rw [means, trim_of_forall_not_blank blank, h] at reads
  exact reads

theorem scan_chomp_ne {kind : LiteralKind} {v : Text} (h : v.getLast? = some '\r') :
    Part.scan kind (chomp v) ≠ Part.scan kind v := by
  intro e
  obtain ⟨u, rfl⟩ := List.getLast?_eq_some_iff.1 h
  have written := congrArg (fun parts => (Part.render parts).length) e
  simp only [Part.render_scan, chomp_concat] at written
  rw [FoundToken.normalForm_concat (by decide), List.length_append, List.length_singleton] at written
  omega

theorem promptOf_eq_some {v t : Text} (h : Meaning.promptOf v = some t) : t = v := by
  unfold Meaning.promptOf at h
  split at h
  · cases h
  · exact (Option.some.inj h).symm

theorem isFinitePositive_speedOf (v : Text) : (Meaning.speedOf v).isFinitePositive = true := by
  unfold Meaning.speedOf
  split
  · split
    · assumption
    · decide
  · decide

theorem speedOf_print {x : Double} (h : x.isFinitePositive = true) :
    Meaning.speedOf x.print = x := by
  have blank : ∀ c ∈ x.print, isBlank c = false := fun c => Double.isBlank_of_mem_print
  rw [Meaning.speedOf, trim_of_forall_not_blank blank, Double.read_print]
  exact if_pos h

theorem reads_scroll (n : Int32) : Reads (Action.scroll n).write (.action (.scroll n)) :=
  reads_number (k := .scrollLines) (fun _ => rfl)
    (fun _ => Whole.isBlank_of_mem_printInt) (Whole.readInt32_printInt n) (by decide)

theorem reads_margin (axis : Axis) (n : Int32) :
    Reads (Action.margin axis n).write (.action (.margin axis n)) := by
  cases axis with
  | x =>
    exact reads_number (k := .marginX) (fun _ => rfl)
      (fun _ => Whole.isBlank_of_mem_printInt) (Whole.readInt32_printInt n) (by decide)
  | y =>
    exact reads_number (k := .marginY) (fun _ => rfl)
      (fun _ => Whole.isBlank_of_mem_printInt) (Whole.readInt32_printInt n) (by decide)

theorem reads_delay (ms : UInt64) : Reads (Action.delay (Time.ofMillis ms.toNat)).write
    (.action (.delay (Time.ofMillis ms.toNat))) := by
  have whole : Time.ofMillis ms.toNat / Time.milli = ms.toNat :=
    Nat.mul_div_cancel _ (by decide)
  have means (v : Text) : Meaning.of .delay v =
      .ofRead (fun ms => .delay (Time.ofMillis ms.toNat)) (Whole.readUInt64 v.trim) := rfl
  rw [Action.write, whole]
  exact reads_number means (fun _ => Whole.isBlank_of_mem_print)
    (Whole.readUInt64_print ms) (by decide)

theorem reads_typingSpeed {x : Double} (h : x.isFinitePositive = true) :
    Reads (Action.typingSpeed x).write (.action (.typingSpeed x)) := by
  have reads := reads_line (k := .typingSpeed)
    (isLine_of_not_blank fun c => Double.isBlank_of_mem_print (x := x)) (by decide)
  rw [Meaning.of, speedOf_print h] at reads
  exact reads

theorem reads_cursor (visible : Bool) :
    Reads (Action.cursor visible).write (.action (.cursor visible)) := by
  cases visible with
  | true => exact reads_line (by decide) (by decide)
  | false => exact reads_line (by decide) (by decide)

theorem reads_clear : Reads Action.clear.write (.action .clear) := by
  intro n rest _
  have text : Action.clear.write ++ '\n' :: rest = Keyword.clear.text ++ ':' :: '\n' :: rest := by
    simp [Action.write]
  rw [text, lines_bare, blocksFrom_bare]
  exact ⟨_, _, rfl, rfl⟩

theorem reads_prompt {v : Text} (feed : '\n' ∉ v)
    (h : Meaning.promptOf v = none ∨ v.getLast? ≠ some '\r') :
    Reads (Action.prompt (Meaning.promptOf v)).write (.action (.prompt (Meaning.promptOf v))) := by
  cases e : Meaning.promptOf v with
  | none => exact reads_line (by decide) (by decide)
  | some t =>
    obtain rfl := promptOf_eq_some e
    have last : t.getLast? ≠ some '\r' := by
      rcases h with h | h
      · rw [e] at h
        cases h
      · exact h
    have reads := reads_line (k := .prompt) ⟨feed, last⟩ (by decide)
    rw [Meaning.of, e] at reads
    exact reads

theorem reads_output {ls : List Text} (feed : ∀ l ∈ ls, '\n' ∉ l) (h : Printable ls) :
    Reads (Action.output (Part.ofLines ls)).write (.action (.output (Part.ofLines ls))) := by
  intro n rest fresh
  have plain : ∀ l ∈ (ls.map FoundToken.normalForm).map chomp, Directive.isDirective l = false := by
    intro l hl
    obtain ⟨t, ht, rfl⟩ := List.mem_map.1 hl
    obtain ⟨u, hu, rfl⟩ := List.mem_map.1 ht
    rw [Directive.isDirective_chomp, Directive.isDirective_normalForm]
    exact h.plain u hu
  rw [blocksFrom_output feed n fresh, blocksFrom_append plain]
  refine ⟨_, _, rfl, ?_⟩
  have same := (ofLines_printedBody_eq_iff feed).2 h
  exact congrArg (fun parts => Meaning.action (.output parts)) same

/-- A restorable value is written as text that is read as the same action. -/
theorem reads_of_restorable {k : Keyword} {v : Text} {a : Action}
    (feed : k ≠ .output → '\n' ∉ v) (means : Meaning.of k v = .action a)
    (h : Restorable k v) : Reads a.write (.action a) := by
  cases k with
  | audio =>
    have means : (if v.all isBlank then Meaning.nothing else .cue v) = .action a := means
    split at means <;> cases means
  | input =>
    injection means with means
    subst means
    have reads := reads_scan (k := .input) (fun _ => rfl) (feed (by decide)) (by decide)
    rw [chomp_eq_self h] at reads
    exact reads
  | paste =>
    injection means with means
    subst means
    have reads := reads_scan (k := .paste) (fun _ => rfl) (feed (by decide)) (by decide)
    rw [chomp_eq_self h] at reads
    exact reads
  | prompt =>
    injection means with means
    subst means
    exact reads_prompt (feed (by decide)) h
  | output =>
    injection means with means
    subst means
    exact reads_output (fun l => feed_not_mem_of_mem_lines) h
  | clear =>
    injection means with means
    subst means
    exact reads_clear
  | cursor =>
    injection means with means
    subst means
    exact reads_cursor _
  | typingSpeed =>
    injection means with means
    subst means
    exact reads_typingSpeed (isFinitePositive_speedOf v)
  | delay =>
    obtain ⟨ms, rfl⟩ := Meaning.exists_of_ofRead means
    exact reads_delay ms
  | scrollLines =>
    obtain ⟨n, rfl⟩ := Meaning.exists_of_ofRead means
    exact reads_scroll n
  | marginX =>
    obtain ⟨n, rfl⟩ := Meaning.exists_of_ofRead means
    exact reads_margin .x n
  | marginY =>
    obtain ⟨n, rfl⟩ := Meaning.exists_of_ofRead means
    exact reads_margin .y n

/-! ## Values that are lost -/

/-- The text is read as a block with a meaning first, whatever comes behind it. -/
def Starts (t : Text) (m : Meaning) : Prop :=
  ∀ n rest, Fresh rest → ∃ b more,
    blocksFrom n (lines (t ++ '\n' :: rest)) = b :: more ∧ b.meaning = m

theorem starts_of_reads {t : Text} {m : Meaning} (h : Reads t m) : Starts t m := by
  intro n rest fresh
  obtain ⟨b, j, e, means⟩ := h n rest fresh
  exact ⟨b, _, e, means⟩

theorem starts_prompt {v : Text} (feed : '\n' ∉ v)
    (h : ¬ (Meaning.promptOf v = none ∨ v.getLast? ≠ some '\r')) :
    ∃ a, a ≠ Action.prompt (Meaning.promptOf v) ∧
      Starts (Action.prompt (Meaning.promptOf v)).write (.action a) := by
  obtain ⟨set, last⟩ := not_or.1 h
  have last := Decidable.not_not.1 last
  obtain ⟨t, e⟩ := Option.ne_none_iff_exists'.1 set
  obtain rfl := promptOf_eq_some e
  rw [e]
  refine ⟨.prompt (Meaning.promptOf (chomp t)), ?_,
    starts_of_reads (reads_write feed (by decide))⟩
  intro same
  injection same with same
  exact chomp_eq_self_iff.1 (promptOf_eq_some same).symm last

theorem starts_output {ls : List Text} (feed : ∀ l ∈ ls, '\n' ∉ l) (h : ¬ Printable ls) :
    ∃ a, a ≠ Action.output (Part.ofLines ls) ∧
      Starts (Action.output (Part.ofLines ls)).write (.action a) := by
  refine ⟨.output (Part.ofLines (lines (joinLines (printedBody ls)))), ?_, ?_⟩
  · intro same
    injection same with same
    exact h ((ofLines_printedBody_eq_iff feed).1 same)
  · intro n rest fresh
    exact ⟨_, _, blocksFrom_output feed n fresh, rfl⟩

/-- A value that is not restorable is written as text that is read as another action first. -/
theorem starts_of_not_restorable {k : Keyword} {v : Text} {a : Action}
    (feed : k ≠ .output → '\n' ∉ v) (means : Meaning.of k v = .action a)
    (h : ¬ Restorable k v) : ∃ a', a' ≠ a ∧ Starts a.write (.action a') := by
  cases k with
  | input =>
    injection means with means
    subst means
    have reads := reads_scan (k := .input) (fun _ => rfl) (feed (by decide)) (by decide)
    refine ⟨_, ?_, starts_of_reads reads⟩
    intro same
    injection same with same
    exact scan_chomp_ne (Decidable.not_not.1 h) same
  | paste =>
    injection means with means
    subst means
    have reads := reads_scan (k := .paste) (fun _ => rfl) (feed (by decide)) (by decide)
    refine ⟨_, ?_, starts_of_reads reads⟩
    intro same
    injection same with same
    exact scan_chomp_ne (Decidable.not_not.1 h) same
  | prompt =>
    injection means with means
    subst means
    exact starts_prompt (feed (by decide)) h
  | output =>
    injection means with means
    subst means
    exact starts_output (fun l => feed_not_mem_of_mem_lines) h
  | _ => exact absurd trivial h

end TermScene
