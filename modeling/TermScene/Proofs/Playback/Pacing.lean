import TermScene.Proofs.Playback.Timeline

/-!
# The pace of a plan

Apart from scrolling, an action queues its operations in the order of their offsets, and
none after the action is over (`within_of`). Parts carry this: each part's operations
come between the cursor before it and the cursor behind it (`within_walk`).
-/

namespace TermScene

open Agenda

/-! ## Entries within bounds -/

section Within

variable {α β : Type}

/-- The entries are in order, none before one time and none after another. -/
structure Within (first last : Nat) (l : List (Nat × α)) : Prop where
  inOrder : InOrder l
  le : ∀ x ∈ l, first ≤ x.1 ∧ x.1 ≤ last

theorem Within.nil (first last : Nat) : Within first last ([] : List (Nat × α)) :=
  ⟨List.Pairwise.nil, fun x hx => by cases hx⟩

theorem Within.cons {first last : Nat} {x : Nat × α} {l : List (Nat × α)}
    (h : Within first last l) (hx : x.1 = first) (le : first ≤ last) :
    Within first last (x :: l) := by
  refine ⟨List.pairwise_cons.2 ⟨?_, h.inOrder⟩, ?_⟩
  · intro y hy
    rw [hx]
    exact (h.le y hy).1
  · intro y hy
    rcases List.mem_cons.1 hy with rfl | hy
    · exact ⟨Nat.le_of_eq hx.symm, hx ▸ le⟩
    · exact h.le y hy

theorem Within.mono {first last first' last' : Nat} {l : List (Nat × α)}
    (h : Within first last l) (hf : first' ≤ first) (hl : last ≤ last') :
    Within first' last' l := by
  refine ⟨h.inOrder, ?_⟩
  intro x hx
  have bounds := h.le x hx
  omega

theorem Within.append {first middle last : Nat} {l m : List (Nat × α)}
    (hl : Within first middle l) (hm : Within middle last m) (hf : first ≤ middle)
    (hlast : middle ≤ last) : Within first last (l ++ m) := by
  refine ⟨hl.inOrder.append hm.inOrder ?_, ?_⟩
  · intro x hx y hy
    have := hl.le x hx
    have := hm.le y hy
    omega
  · intro x hx
    rcases List.mem_append.1 hx with hx | hx
    · have := hl.le x hx
      omega
    · have := hm.le x hx
      omega

theorem Within.keep {first last : Nat} {l : List (Nat × α)} (h : Within first last l)
    (f : α → Option β) : Within first last (keep f l) := by
  refine ⟨h.inOrder.keep f, ?_⟩
  intro y hy
  obtain ⟨x, hx, hxy⟩ := List.mem_filterMap.1 hy
  obtain ⟨b, -, rfl⟩ := Option.map_eq_some_iff.1 hxy
  exact h.le x hx

/-- Times may be changed by a function that keeps the order of those within bounds. -/
theorem Within.map {first last : Nat} {l : List (Nat × α)} (h : Within first last l)
    {f : Nat → Nat} (mono : ∀ a b, a ≤ b → b ≤ last → f a ≤ f b) :
    Within (f first) (f last) (l.map fun x => (f x.1, x.2)) := by
  refine ⟨List.pairwise_map.2 (h.inOrder.imp_of_mem ?_), ?_⟩
  · intro x y _ hy le
    exact mono _ _ le (h.le y hy).2
  · intro y hy
    obtain ⟨x, hx, rfl⟩ := List.mem_map.1 hy
    have bounds := h.le x hx
    exact ⟨mono _ _ bounds.1 bounds.2, mono _ _ bounds.2 (Nat.le_refl _)⟩

end Within

/-- The operation, unless it scrolls. -/
def TerminalOp.shown? : TerminalOp → Option TerminalOp
  | .scroll _ => none
  | op => some op

/-- If it is typed, its characters and one more can be counted in 32 bits. -/
def Part.Countable : Part → Prop
  | .literal .typed text => text.length + 1 < UInt32.size
  | _ => True

/-- What it types can be counted. -/
def Action.Countable : Action → Prop
  | .input parts => ∀ part ∈ parts, part.Countable
  | _ => True

/-! ## Parts -/

namespace Plan

def emitted (steps : List Step) : List (Nat × TerminalOp) := steps.filterMap Step.emitted?

theorem emitted_append (l m : List Step) : emitted (l ++ m) = emitted l ++ emitted m :=
  List.filterMap_append

theorem emitted_hold (operation : Overflow) (duration : Nat) (more : List Step) :
    emitted (.hold operation duration :: more) = emitted more := rfl

theorem total_cons (cost : Part → Nat) (part : Part) (rest : List Part) :
    total cost (part :: rest) = cost part + total cost rest := rfl

/-- If the steps of each part keep to its own time, so do the steps of all. -/
theorem within_walk {own : Nat → Part → List Part → List Step} {cost : Part → Nat}
    (parts : List Part) (h : ∀ part ∈ parts, ∀ cursor rest,
      Within cursor (cursor + cost part) (emitted (own cursor part rest))) (cursor : Nat) :
    Within cursor (cursor + total cost parts) (emitted (walk own cost cursor parts)) := by
  induction parts generalizing cursor with
  | nil => exact .nil _ _
  | cons part rest ih =>
    have first := h part List.mem_cons_self cursor rest
    have others := ih fun part hp => h part (List.mem_cons_of_mem _ hp)
    rw [walk, emitted_append, emitted_hold, total_cons, ← Nat.add_assoc]
    exact first.append (others _) (Nat.le_add_right _ _) (Nat.le_add_right _ _)

theorem within_color {cursor last : Nat} (h : cursor ≤ last) (part : Part) :
    Within cursor last (emitted (color cursor part)) := by
  cases part with
  | literal kind text => exact .nil _ _
  | token t =>
    have colors : color cursor (.token t) = (t.op?.map (Step.emit cursor)).toList := rfl
    rw [colors]
    cases t.op? with
    | none => exact .nil _ _
    | some op => exact (Within.nil _ _).cons rfl h

theorem within_keystroke {i n width : Nat} {op : TerminalOp} {rest : Text}
    {more : List (Nat × TerminalOp)} (h : Within (i + width) (i + width + rest.length) more)
    (length : n = rest.length + width) : Within i (i + n) ((i, op) :: more) := by
  have first : Within i (i + width) [(i, op)] := (Within.nil _ _).cons rfl (Nat.le_add_right _ _)
  have all := first.append h (Nat.le_add_right _ _) (Nat.le_add_right _ _)
  exact all.mono (Nat.le_refl _) (by omega)

theorem within_keystrokes (i : Nat) (text : Text) :
    Within i (i + text.length) (keystrokes i text) := by
  fun_induction keystrokes i text with
  | case1 i => exact .nil _ _
  | case2 i rest ih => exact within_keystroke ih rfl
  | case3 i rest ih => exact within_keystroke ih rfl
  | case4 i c rest _ _ ih => exact within_keystroke ih rfl

/-- A typed literal takes its time for each character, whether it makes a keystroke or not. -/
theorem emitted_typingSteps (timeout cursor : Nat) (text : Text) (rest : List Part) :
    emitted (typingSteps timeout cursor (.literal .typed text) rest) =
      (keystrokes 0 text).map fun x => (cursor + timeout * (UInt32.ofNat x.1).toNat, x.2) := by
  rw [typingSteps, emitted_append]
  refine (List.append_nil _).trans ?_
  induction keystrokes 0 text with
  | nil => rfl
  | cons x l ih =>
    rw [List.flatMap_cons, emitted_append, ih]
    rfl

theorem within_typingSteps (timeout : Nat) {part : Part} (h : part.Countable) (cursor : Nat)
    (rest : List Part) :
    Within cursor (cursor + typingCost timeout part)
      (emitted (typingSteps timeout cursor part rest)) := by
  by_cases typed : ∃ text, part = .literal .typed text
  · obtain ⟨text, rfl⟩ := typed
    have short : text.length + 1 < UInt32.size := h
    have mono (a b : Nat) (le : a ≤ b) (hb : b ≤ 0 + text.length) :
        cursor + timeout * (UInt32.ofNat a).toNat ≤ cursor + timeout * (UInt32.ofNat b).toNat := by
      have counted : b < UInt32.size := by omega
      rw [UInt32.toNat_ofNat_of_lt' (Nat.lt_of_le_of_lt le counted),
        UInt32.toNat_ofNat_of_lt' counted]
      exact Nat.add_le_add_left (Nat.mul_le_mul_left _ le) _
    rw [emitted_typingSteps]
    apply ((within_keystrokes 0 text).map mono).mono (Nat.le_refl _)
    rw [Nat.zero_add]
    exact Nat.le_refl _
  · unfold typingSteps
    split
    · next text => exact absurd ⟨text, rfl⟩ typed
    · exact within_color (Nat.le_add_right _ _) _

theorem within_printingSteps (cursor : Nat) (part : Part) (rest : List Part) :
    Within cursor (cursor + pause part) (emitted (printingSteps cursor part rest)) := by
  unfold printingSteps
  split
  · next text =>
    dsimp only
    generalize text ++ _ = line
    split
    · exact .nil _ _
    · exact (Within.nil _ _).cons rfl (Nat.le_add_right _ _)
  · exact within_color (Nat.le_add_right _ _) _

theorem within_pasteSteps (chunk cursor : Nat) (part : Part) (rest : List Part) :
    Within cursor (cursor + pasteCost chunk part) (emitted (pasteSteps cursor part rest)) := by
  unfold pasteSteps
  split
  · exact (Within.nil _ _).cons rfl (Nat.le_add_right _ _)
  · exact within_color (Nat.le_add_right _ _) _

/-! ## Actions -/

theorem within_promptSteps (config : Config) (state : State) :
    Within 0 0 (emitted (promptSteps config state)) := by
  unfold promptSteps
  cases state.prompt with
  | none => exact .nil _ _
  | some prompt =>
    have nil : Within 0 0 ([] : List (Nat × TerminalOp)) := .nil _ _
    have le := Nat.le_refl 0
    exact (((nil.cons rfl le).cons rfl le).cons rfl le).cons rfl le

theorem total_typingCost_le (timeout : Nat) {parts : List Part}
    (h : ∀ part ∈ parts, part.Countable) :
    total (typingCost timeout) parts ≤ total (inputCost timeout) parts := by
  induction parts with
  | nil => exact Nat.le_refl 0
  | cons part rest ih =>
    have countable := h part List.mem_cons_self
    have le : typingCost timeout part ≤ inputCost timeout part := by
      unfold typingCost inputCost
      split
      · next text =>
        have short : text.length + 1 < UInt32.size := countable
        have counted : text.length < UInt32.size := by omega
        apply Nat.mul_le_mul_left
        rw [UInt32.toNat_add, UInt32.toNat_ofNat_of_lt' counted, UInt32.toNat_one,
          Nat.mod_eq_of_lt short]
        exact Nat.le_succ _
      · exact Nat.le_refl _
    rw [total_cons, total_cons]
    exact Nat.add_le_add le (ih fun part hp => h part (List.mem_cons_of_mem _ hp))

theorem emitted_sumSteps (cost : Part → Nat) (seconds nanos : Nat) (parts : List Part) :
    emitted (sumSteps cost seconds nanos parts) = [] := by
  induction parts generalizing seconds nanos with
  | nil => rfl
  | cons part rest ih => exact ih _ _

theorem within_input (config : Config) (state : State) {parts : List Part}
    (h : ∀ part ∈ parts, part.Countable) :
    Within 0 (input config state parts).duration (input config state parts).emits := by
  let timeout := state.typingTimeout config.baseTypingTimeout
  have line : Within 0 (total (inputCost timeout) parts)
      (emitted (walk (typingSteps timeout) (typingCost timeout) 0 parts)) := by
    have walked := within_walk parts (fun part hp => within_typingSteps timeout (h part hp)) 0
    apply walked.mono (Nat.le_refl _)
    rw [Nat.zero_add]
    exact total_typingCost_le timeout h
  have last : Within (total (inputCost timeout) parts) (total (inputCost timeout) parts)
      (emitted [.emit (total (inputCost timeout) parts) (.write TerminalOp.lineBreak)]) :=
    (Within.nil _ _).cons rfl (Nat.le_refl _)
  show Within 0 (total (inputCost timeout) parts) (emitted
    (sumSteps (inputCost timeout) 0 0 parts ++ promptSteps config state ++
      walk (typingSteps timeout) (typingCost timeout) 0 parts ++
      [.emit (total (inputCost timeout) parts) (.write TerminalOp.lineBreak)]))
  rw [emitted_append, emitted_append, emitted_append, emitted_sumSteps, List.nil_append]
  exact ((within_promptSteps config state).append line (Nat.le_refl _) (Nat.zero_le _)).append last
    (Nat.zero_le _) (Nat.le_refl _)

theorem within_output (config : Config) (parts : List Part) :
    Within 0 (output config parts).duration (output config parts).emits := by
  have walked := within_walk parts
    (fun part _ cursor rest => within_printingSteps cursor part rest) config.outputPriming
  exact walked.mono (Nat.zero_le _) (Nat.le_refl _)

theorem within_paste (config : Config) (state : State) (parts : List Part) :
    Within 0 (paste config state parts).duration (paste config state parts).emits := by
  let cost := pasteCost config.pastePart
  have whole : Within 0 (total cost parts) (emitted (walk pasteSteps cost 0 parts)) := by
    have walked := within_walk parts
      (fun part _ cursor rest => within_pasteSteps config.pastePart cursor part rest) 0
    rw [Nat.zero_add] at walked
    exact walked
  have last : Within (total cost parts) (total cost parts)
      (emitted [.emit (total cost parts) (.write TerminalOp.lineBreak)]) :=
    (Within.nil _ _).cons rfl (Nat.le_refl _)
  show Within 0 (total cost parts) (emitted (promptSteps config state ++
    walk pasteSteps cost 0 parts ++ [.emit (total cost parts) (.write TerminalOp.lineBreak)]))
  rw [emitted_append, emitted_append]
  exact ((within_promptSteps config state).append whole (Nat.le_refl _) (Nat.zero_le _)).append last
    (Nat.zero_le _) (Nat.le_refl _)

theorem keep_scrollSteps (step : Nat) (lines : Int32) :
    keep TerminalOp.shown? (emitted (scrollSteps step lines)) = [] := by
  unfold scrollSteps
  induction List.range lines.toInt.natAbs with
  | nil => rfl
  | cons k more ih =>
    rw [List.flatMap_cons, emitted_append, keep_append, ih]
    rfl

/-- **Only a scroll outlasts its own time**, and an action queues in order what it shows. -/
theorem within_of (config : Config) (state : State) {a : Action} (h : a.Countable) :
    Within 0 (Plan.of config state a).duration
      (keep TerminalOp.shown? (Plan.of config state a).emits) := by
  have nil (last : Nat) : Within 0 last ([] : List (Nat × TerminalOp)) := .nil _ _
  cases a with
  | input parts => exact (within_input config state h).keep _
  | output parts => exact (within_output config parts).keep _
  | paste parts => exact (within_paste config state parts).keep _
  | scroll lines =>
    have none : keep TerminalOp.shown? (Plan.of config state (.scroll lines)).emits = [] :=
      keep_scrollSteps _ _
    rw [none]
    exact nil _
  | delay ns => exact nil _
  | prompt text => exact nil _
  | typingSpeed multiplier => exact nil _
  | clear => exact (nil _).cons rfl (Nat.zero_le _)
  | cursor visible => exact (nil _).cons rfl (Nat.zero_le _)
  | margin axis px => exact (nil _).cons rfl (Nat.zero_le _)

end Plan

end TermScene
