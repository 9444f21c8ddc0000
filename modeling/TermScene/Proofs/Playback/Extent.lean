import TermScene.Proofs.Playback.Pacing

/-!
# The times that steps need

A step of a plan needs an offset or a duration to be held. If the typed texts of an action can be
counted, no step of it needs more time than it lasts, except a line of a scroll, which needs a part
of the time of that scroll (`Plan.extent_le_of_mem_of`). A sum of costs is the last and greatest of
the durations that come up while they are added, so that it can be held just if all of them can
(`Plan.findSome?_sumSteps_eq_none_iff`).

Typed characters are counted in 32 bits. A text that outgrows the count is typed on when its action
is over (`Plan.mem_emits_input`, `Plan.duration_input_literal`), yet no step of it is behind the
time of 2 ^ 32 characters (`Plan.extent_le_of_mem_input_literal`).
-/

namespace TermScene

/-! ## Steps -/

namespace Step

/-- The time that a step needs: the offset of an operation, or a duration that is held. -/
def extent : Step → Nat
  | emit offset _ => offset
  | hold _ duration => duration

theorem overflow?_emit_eq_none_iff {offset now : Nat} {op : TerminalOp} :
    (emit offset op).overflow? now = none ↔ now + offset < Time.instantLimit := by
  simp only [overflow?, ite_eq_left_iff, reduceCtorEq, imp_false, Decidable.not_not]

theorem overflow?_hold_eq_none_iff {operation : Overflow} {duration now : Nat} :
    (hold operation duration).overflow? now = none ↔ duration < Time.durationLimit := by
  simp only [overflow?, ite_eq_left_iff, reduceCtorEq, imp_false, Decidable.not_not]

theorem overflow?_of_lt {step : Step} {now : Nat} (lt : now + step.extent < Time.instantLimit) :
    step.overflow? now = none := by
  cases step with
  | emit offset op => exact overflow?_emit_eq_none_iff.2 lt
  | hold operation duration =>
    have limits : Time.instantLimit ≤ Time.durationLimit := by decide
    have le : duration ≤ now + duration := Nat.le_add_left _ _
    exact overflow?_hold_eq_none_iff.2 (Nat.lt_of_le_of_lt le (Nat.lt_of_lt_of_le lt limits))

/-- Whether durations can be held is the same at any instant. -/
theorem findSome?_overflow?_of_silent {steps : List Step} (silent : Plan.emitted steps = [])
    (now now' : Nat) : steps.findSome? (overflow? now) = steps.findSome? (overflow? now') := by
  induction steps with
  | nil => rfl
  | cons step more ih =>
    cases step with
    | emit offset op => cases silent
    | hold operation duration =>
      rw [List.findSome?_cons, List.findSome?_cons, ih silent]
      rfl

end Step

namespace Plan

theorem overflow?_eq_none_iff {plan : Plan} {now : Nat} :
    plan.overflow? now = none ↔ (∀ step ∈ plan.steps, step.overflow? now = none) ∧
      now + plan.duration < Time.instantLimit := by
  unfold overflow?
  rw [← List.findSome?_eq_none_iff]
  cases plan.steps.findSome? (Step.overflow? now) <;> simp

/-! ## Sums -/

theorem seconds_add_nanos (cost : Part → Nat) (part : Part) (seconds nanos : Nat) :
    (seconds + cost part / Time.second) * Time.second + (nanos + cost part % Time.second) =
      seconds * Time.second + nanos + cost part := by
  have whole := Nat.div_add_mod' (cost part) Time.second
  rw [Nat.add_mul]
  omega

/-- While costs are added up, only durations are held, and none greater than their sum. -/
theorem mem_sumSteps {cost : Part → Nat} {seconds nanos : Nat} {parts : List Part} {step : Step}
    (mem : step ∈ sumSteps cost seconds nanos parts) :
    ∃ operation duration, step = .hold operation duration ∧
      duration ≤ seconds * Time.second + nanos + total cost parts := by
  induction parts generalizing seconds nanos with
  | nil => exact ⟨_, _, List.mem_singleton.1 mem, Nat.le_add_right _ _⟩
  | cons part rest ih =>
    have counted := seconds_add_nanos cost part seconds nanos
    rw [total_cons]
    rcases List.mem_cons.1 mem with rfl | mem
    · have le : cost part ≤ seconds * Time.second + nanos + (cost part + total cost rest) := by
        omega
      exact ⟨_, _, rfl, le⟩
    rcases List.mem_cons.1 mem with rfl | mem
    · have le : (seconds + cost part / Time.second) * Time.second ≤
          seconds * Time.second + nanos + (cost part + total cost rest) := by
        omega
      exact ⟨_, _, rfl, le⟩
    · obtain ⟨operation, duration, rfl, le⟩ := ih mem
      exact ⟨_, _, rfl, by omega⟩

/-- In the end the sum itself is held. -/
theorem hold_total_mem_sumSteps (cost : Part → Nat) (seconds nanos : Nat) (parts : List Part) :
    .hold .sum (seconds * Time.second + nanos + total cost parts) ∈
      sumSteps cost seconds nanos parts := by
  induction parts generalizing seconds nanos with
  | nil => exact List.mem_singleton.2 (congrArg (Step.hold .sum) (Nat.add_zero _))
  | cons part rest ih =>
    have behind := ih (seconds + cost part / Time.second) (nanos + cost part % Time.second)
    rw [seconds_add_nanos, Nat.add_assoc, ← total_cons] at behind
    exact List.mem_cons_of_mem _ (List.mem_cons_of_mem _ behind)

/-- **Costs are added up without an overflow just if their sum can be held.** -/
theorem findSome?_sumSteps_eq_none_iff {cost : Part → Nat} {parts : List Part} {now : Nat} :
    (sumSteps cost 0 0 parts).findSome? (Step.overflow? now) = none ↔
      total cost parts < Time.durationLimit := by
  have zero : 0 * Time.second + 0 + total cost parts = total cost parts := by omega
  constructor
  · intro fits
    have last := hold_total_mem_sumSteps cost 0 0 parts
    rw [zero] at last
    exact Step.overflow?_hold_eq_none_iff.1 (List.findSome?_eq_none_iff.1 fits _ last)
  · intro lt
    refine List.findSome?_eq_none_iff.2 fun step mem => ?_
    obtain ⟨operation, duration, rfl, le⟩ := mem_sumSteps mem
    rw [zero] at le
    exact Step.overflow?_hold_eq_none_iff.2 (Nat.lt_of_le_of_lt le lt)

/-! ## Parts -/

/-- If the steps of each part need no more than its own time behind the cursor, those of all need
no more than the time of all. -/
theorem extent_le_of_mem_walk {own : Nat → Part → List Part → List Step} {cost : Part → Nat}
    {parts : List Part} (each : ∀ part ∈ parts, ∀ cursor rest, ∀ step ∈ own cursor part rest,
      step.extent ≤ cursor + cost part) (cursor : Nat) :
    ∀ step ∈ walk own cost cursor parts, step.extent ≤ cursor + total cost parts := by
  induction parts generalizing cursor with
  | nil => exact List.forall_mem_nil _
  | cons part rest ih =>
    obtain ⟨here, others⟩ := List.forall_mem_cons.1 each
    rw [walk, total_cons, ← Nat.add_assoc]
    refine List.forall_mem_append.2 ⟨fun step mem => ?_, List.forall_mem_cons.2 ⟨?_, ih others _⟩⟩
    · exact Nat.le_trans (here cursor rest step mem) (Nat.le_add_right _ _)
    · exact Nat.le_add_right _ _

theorem extent_le_of_mem_color (cursor cost : Nat) (part : Part) :
    ∀ step ∈ color cursor part, step.extent ≤ cursor + cost := by
  cases part with
  | literal kind text => exact List.forall_mem_nil _
  | token t =>
    intro step mem
    obtain ⟨op, -, rfl⟩ := Option.map_eq_some_iff.1 (Option.mem_toList.1 mem)
    exact Nat.le_add_right _ _

theorem extent_le_of_mem_promptSteps (config : Config) (s : State) (last : Nat) :
    ∀ step ∈ promptSteps config s, step.extent ≤ last := by
  unfold promptSteps
  cases s.prompt with
  | none => exact List.forall_mem_nil _
  | some prompt => simp [Step.extent]

/-- The steps of a typed text need no more than the time of as many characters as are counted. -/
theorem extent_le_of_mem_typed (timeout : Nat) {text : Text} {count : Nat}
    (pressed : ∀ x ∈ keystrokes 0 text, (UInt32.ofNat x.1).toNat ≤ count)
    (length : (UInt32.ofNat text.length).toNat ≤ count) (cursor : Nat) (rest : List Part) :
    ∀ step ∈ typingSteps timeout cursor (.literal .typed text) rest,
      step.extent ≤ cursor + timeout * count := by
  unfold typingSteps
  refine List.forall_mem_append.2 ⟨fun step mem => ?_, ?_⟩
  · obtain ⟨⟨i, op⟩, here, mem⟩ := List.mem_flatMap.1 mem
    have le : timeout * (UInt32.ofNat i).toNat ≤ timeout * count :=
      Nat.mul_le_mul_left _ (pressed _ here)
    simp only [List.mem_cons, List.not_mem_nil, or_false] at mem
    rcases mem with rfl | rfl | rfl <;> simp only [Step.extent] <;> omega
  · have le : timeout * (UInt32.ofNat text.length).toNat ≤ timeout * count :=
      Nat.mul_le_mul_left _ length
    exact List.forall_mem_singleton.2 (Nat.le_trans le (Nat.le_add_left _ _))

theorem extent_le_of_mem_typingSteps (timeout : Nat) {part : Part} (countable : part.Countable)
    (cursor : Nat) (rest : List Part) : ∀ step ∈ typingSteps timeout cursor part rest,
      step.extent ≤ cursor + typingCost timeout part := by
  by_cases typed : ∃ text, part = .literal .typed text
  · obtain ⟨text, rfl⟩ := typed
    have short : text.length + 1 < UInt32.size := countable
    refine extent_le_of_mem_typed timeout (fun x pressed => ?_) (Nat.le_refl _) cursor rest
    -- a keystroke comes at a character of the text, so it is counted like that
    have within := ((within_keystrokes 0 text).le x pressed).2
    rw [UInt32.toNat_ofNat_of_lt' (by omega), UInt32.toNat_ofNat_of_lt' (by omega)]
    omega
  · unfold typingSteps
    split
    · next text => exact absurd ⟨text, rfl⟩ typed
    · exact extent_le_of_mem_color _ _ _

theorem extent_le_of_mem_printingSteps (cursor : Nat) (part : Part) (rest : List Part) :
    ∀ step ∈ printingSteps cursor part rest, step.extent ≤ cursor + pause part := by
  unfold printingSteps
  split
  · next text =>
    dsimp only
    generalize text ++ _ = line
    split
    · exact List.forall_mem_nil _
    · exact List.forall_mem_singleton.2 (Nat.le_add_right _ _)
  · exact extent_le_of_mem_color _ _ _

theorem extent_le_of_mem_pasteSteps (chunk cursor : Nat) (part : Part) (rest : List Part) :
    ∀ step ∈ pasteSteps cursor part rest, step.extent ≤ cursor + pasteCost chunk part := by
  unfold pasteSteps
  split
  · exact List.forall_mem_singleton.2 (Nat.le_add_right _ _)
  · exact extent_le_of_mem_color _ _ _

/-! ## Actions -/

theorem extent_le_of_mem_input (config : Config) (s : State) {parts : List Part}
    (countable : ∀ part ∈ parts, part.Countable) :
    ∀ step ∈ (input config s parts).steps, step.extent ≤ (input config s parts).duration := by
  let timeout := s.typingTimeout config.baseTypingTimeout
  let length := total (inputCost timeout) parts
  have walked := extent_le_of_mem_walk (fun part mem cursor rest =>
    extent_le_of_mem_typingSteps timeout (countable part mem) cursor rest) 0
  have typed := total_typingCost_le timeout countable
  show ∀ step ∈ sumSteps (inputCost timeout) 0 0 parts ++ promptSteps config s ++
    walk (typingSteps timeout) (typingCost timeout) 0 parts ++
    [.emit length (.write TerminalOp.lineBreak)], step.extent ≤ length
  simp only [List.forall_mem_append, List.forall_mem_singleton]
  refine ⟨⟨⟨fun step mem => ?_, extent_le_of_mem_promptSteps config s length⟩,
    fun step mem => ?_⟩, Nat.le_refl _⟩
  · obtain ⟨operation, duration, rfl, le⟩ := mem_sumSteps mem
    exact Nat.le_trans le (by omega)
  · exact Nat.le_trans (walked step mem) (by omega)

theorem extent_le_of_mem_output (config : Config) (parts : List Part) :
    ∀ step ∈ (output config parts).steps, step.extent ≤ (output config parts).duration :=
  extent_le_of_mem_walk
    (fun part _ cursor rest => extent_le_of_mem_printingSteps cursor part rest) config.outputPriming

theorem extent_le_of_mem_paste (config : Config) (s : State) (parts : List Part) :
    ∀ step ∈ (paste config s parts).steps, step.extent ≤ (paste config s parts).duration := by
  let length := total (pasteCost config.pastePart) parts
  have walked : ∀ step ∈ walk pasteSteps (pasteCost config.pastePart) 0 parts,
      step.extent ≤ 0 + length :=
    extent_le_of_mem_walk (fun part _ cursor rest =>
      extent_le_of_mem_pasteSteps config.pastePart cursor part rest) 0
  show ∀ step ∈ promptSteps config s ++
    walk pasteSteps (pasteCost config.pastePart) 0 parts ++
    [.emit length (.write TerminalOp.lineBreak)], step.extent ≤ length
  simp only [List.forall_mem_append, List.forall_mem_singleton]
  refine ⟨⟨extent_le_of_mem_promptSteps config s length, fun step mem => ?_⟩, Nat.le_refl _⟩
  exact Nat.le_trans (walked step mem) (by omega)

theorem extent_le_of_mem_scrollSteps (step : Nat) (lines : Int32) :
    ∀ x ∈ scrollSteps step lines, x.extent ≤ step * lines.toInt.natAbs := by
  intro x mem
  obtain ⟨k, line, mem⟩ := List.mem_flatMap.1 mem
  have le : step * (k + 1) ≤ step * lines.toInt.natAbs :=
    Nat.mul_le_mul_left _ (List.mem_range.1 line)
  simp only [List.mem_cons, List.not_mem_nil, or_false] at mem
  rcases mem with rfl | rfl <;> exact le

end Plan

/-- How long the lines of a scroll take, next to the time that the action itself lasts. -/
def Action.scrollTime (config : Config) : Action → Nat
  | scroll lines => config.scrollStep * lines.toInt.natAbs
  | _ => 0

/-- **No step of an action needs more than its time**, that of a scroll's lines included. -/
theorem Plan.extent_le_of_mem_of (config : Config) (s : State) {a : Action}
    (countable : a.Countable) : ∀ step ∈ (of config s a).steps,
      step.extent ≤ (of config s a).duration + a.scrollTime config := by
  cases a with
  | input parts => exact extent_le_of_mem_input config s countable
  | output parts => exact extent_le_of_mem_output config parts
  | paste parts => exact extent_le_of_mem_paste config s parts
  | scroll lines =>
    intro step mem
    exact Nat.le_trans (extent_le_of_mem_scrollSteps _ _ step mem) (Nat.le_add_left _ _)
  | delay ns => exact List.forall_mem_nil _
  | prompt text => exact List.forall_mem_nil _
  | typingSpeed multiplier => exact List.forall_mem_nil _
  | clear => exact List.forall_mem_singleton.2 (Nat.zero_le _)
  | cursor visible => exact List.forall_mem_singleton.2 (Nat.zero_le _)
  | margin axis px => exact List.forall_mem_singleton.2 (Nat.zero_le _)

/-! ## Texts that outgrow the count -/

namespace Plan

/-- Each character is a keystroke of its own if none is a backslash. -/
theorem keystrokes_of_plain {text : Text} (plain : '\\' ∉ text) (i : Nat) :
    keystrokes i text = (text.zipIdx i).map fun (c, j) => (j, .write [c]) := by
  fun_induction keystrokes i text with
  | case1 i => rfl
  | case2 i rest => exact absurd List.mem_cons_self plain
  | case3 i rest => exact absurd List.mem_cons_self plain
  | case4 i c rest _ _ ih =>
    rw [ih fun mem => plain (List.mem_cons_of_mem _ mem)]
    rfl

variable {config : Config} {s : State} {text : Text}

/-- A character of a text is typed when those before it have had their time, if that is counted. -/
theorem mem_emits_input (plain : '\\' ∉ text) {i : Nat} {c : Char} (here : text[i]? = some c)
    (counted : i < UInt32.size) :
    (s.typingTimeout config.baseTypingTimeout * i, .write [c]) ∈
      (input config s [.literal .typed text]).emits := by
  let timeout := s.typingTimeout config.baseTypingTimeout
  have pressed : (i, .write [c]) ∈ keystrokes 0 text := by
    rw [keystrokes_of_plain plain]
    exact List.mem_map.2 ⟨(c, i), List.mem_zipIdx_iff_getElem?.2 here, rfl⟩
  have typed : (timeout * i, .write [c]) ∈
      emitted (typingSteps timeout 0 (.literal .typed text) []) := by
    rw [emitted_typingSteps]
    refine List.mem_map.2 ⟨_, pressed, ?_⟩
    rw [UInt32.toNat_ofNat_of_lt' counted, Nat.zero_add]
  show _ ∈ emitted (_ ++ _ ++ (typingSteps timeout 0 (.literal .typed text) [] ++ _) ++ _)
  simp only [emitted_append, List.mem_append]
  exact .inl (.inr (.inl typed))

/-- However long a text is, it takes no step behind the time of 2 ^ 32 characters. -/
theorem extent_le_of_mem_input_literal : ∀ step ∈ (input config s [.literal .typed text]).steps,
    step.extent ≤ s.typingTimeout config.baseTypingTimeout * UInt32.size := by
  let timeout := s.typingTimeout config.baseTypingTimeout
  have counts (n : UInt32) : timeout * n.toNat ≤ timeout * UInt32.size :=
    Nat.mul_le_mul_left _ (Nat.le_of_lt n.toNat_lt_size)
  have length : total (inputCost timeout) [.literal .typed text] ≤ timeout * UInt32.size :=
    counts (UInt32.ofNat text.length + 1)
  have typed := extent_le_of_mem_typed timeout (fun x _ => Nat.le_of_lt (UInt32.toNat_lt_size _))
    (Nat.le_of_lt (UInt32.toNat_lt_size (.ofNat text.length))) 0 []
  show ∀ step ∈ sumSteps (inputCost timeout) 0 0 [.literal .typed text] ++ promptSteps config s ++
    (typingSteps timeout 0 (.literal .typed text) [] ++
      [.hold .addition (0 + typingCost timeout (.literal .typed text))]) ++
    [.emit (total (inputCost timeout) [.literal .typed text]) (.write TerminalOp.lineBreak)],
    step.extent ≤ timeout * UInt32.size
  simp only [List.forall_mem_append, List.forall_mem_singleton]
  refine ⟨⟨⟨fun step mem => ?_, extent_le_of_mem_promptSteps config s _⟩,
    fun step mem => ?_, ?_⟩, length⟩
  · obtain ⟨operation, duration, rfl, le⟩ := mem_sumSteps mem
    exact Nat.le_trans le (by omega)
  · exact Nat.le_trans (typed step mem) (by omega)
  · rw [Nat.zero_add]
    exact counts (.ofNat text.length)

/-- A text of 2 ^ 32 characters is timed as one of none. -/
theorem duration_input_literal (long : text.length = UInt32.size) :
    (input config s [.literal .typed text]).duration =
      s.typingTimeout config.baseTypingTimeout := by
  have one : (UInt32.ofNat UInt32.size + 1).toNat = 1 := by decide
  show _ * (UInt32.ofNat text.length + 1).toNat + 0 = _
  rw [long, one]
  omega

theorem overflow?_input_literal (long : text.length = UInt32.size) {start : Nat}
    (room : start + s.typingTimeout config.baseTypingTimeout * UInt32.size < Time.instantLimit) :
    (input config s [.literal .typed text]).overflow? start = none := by
  refine overflow?_eq_none_iff.2 ⟨fun step mem => Step.overflow?_of_lt ?_, ?_⟩
  · exact Nat.lt_of_le_of_lt (Nat.add_le_add_left (extent_le_of_mem_input_literal step mem) _) room
  · rw [duration_input_literal long]
    exact Nat.lt_of_le_of_lt (Nat.add_le_add_left (Nat.le_mul_of_pos_right _ (by decide)) _) room

end Plan

end TermScene
