import TermScene.Proofs.Playback.Restart

/-!
# Runs that stop at a defect

An action is malformed if it holds a literal that it has no use for, or a typing speed that is
none. Its turn stops the run and changes nothing (`advance_stopped_iff`). What fires before a
turn does not depend on the actions that come after it (`keep_op?_of_turn`), so by then the sink
has taken what the actions before it have queued, as far as it is due (`run_of_malformed`); the
lines of a scroll that are due later are never played.
-/

namespace TermScene

open Agenda

/-! ## Malformed actions -/

/-- Among parts is a literal of a kind that is not wanted. -/
def Part.Misplaced (wanted : LiteralKind) (parts : List Part) : Prop :=
  ∃ kind text, .literal kind text ∈ parts ∧ kind ≠ wanted

/-- The action holds a literal that it has no use for, or a typing speed that is not a finite
number greater than zero. -/
def Action.Malformed : Action → Prop
  | .input parts => Part.Misplaced .typed parts
  | .output parts => Part.Misplaced .printed parts
  | .paste parts => Part.Misplaced .pasted parts
  | .typingSpeed speed => ∀ m, speed = .finite false m → m.units = 0
  | _ => False

namespace Defect

theorem exists_inParts_iff {wanted : LiteralKind} {parts : List Part} :
    (∃ defect, inParts wanted parts = some defect) ↔ Part.Misplaced wanted parts := by
  rw [← Option.isSome_iff_exists, inParts, List.findSome?_isSome_iff]
  constructor
  · rintro ⟨part, mem, some⟩
    cases part with
    | token => cases some
    | literal kind text =>
      refine ⟨kind, text, mem, ?_⟩
      rintro rfl
      simp at some
  · rintro ⟨kind, text, mem, other⟩
    exact ⟨_, mem, by simp [other]⟩

theorem isFinitePositive_eq_false_iff {speed : Double} :
    speed.isFinitePositive = false ↔ ∀ m, speed = .finite false m → m.units = 0 := by
  cases speed with
  | nan => simp [Double.isFinitePositive]
  | infinite => simp [Double.isFinitePositive]
  | finite negative m =>
    cases negative with
    | true => simp [Double.isFinitePositive]
    | false =>
      have zero : m.units = 0 ↔ m.mant = 0 :=
        Nat.mul_eq_zero.trans (or_iff_left (Nat.ne_of_gt (Nat.two_pow_pos m.exp)))
      simp [Double.isFinitePositive, zero]

theorem exists_of?_iff {a : Action} : (∃ defect, of? a = some defect) ↔ a.Malformed := by
  cases a with
  | input parts => exact exists_inParts_iff
  | output parts => exact exists_inParts_iff
  | paste parts => exact exists_inParts_iff
  | typingSpeed speed =>
    rw [Action.Malformed, ← isFinitePositive_eq_false_iff, of?]
    cases speed.isFinitePositive <;> simp
  | _ => simp [of?, Action.Malformed]

theorem of?_eq_none_iff {a : Action} : of? a = none ↔ ¬ a.Malformed := by
  rw [← exists_of?_iff, Option.eq_none_iff_forall_ne_some, not_exists]

end Defect

namespace Performance

variable {σ : Type}

/-- **The turn of an action fails exactly if the action is malformed**, and then leaves everything
as it was. -/
theorem advance_stopped_iff {run : Run} {index : Nat} {a : Action}
    (action : run.actions[index]? = some a) (now : Nat) (p : Performance σ) :
    ((∃ ending q, p.advance run index now = .stopped ending q) ↔ a.Malformed) ∧
      ∀ ending q, p.advance run index now = .stopped ending q → q = p ∧
        ∃ defect, Defect.of? a = some defect ∧ ending = .malformed index a.keyword defect := by
  have sound_iff : Defect.of? a = none ↔ ¬ a.Malformed := Defect.of?_eq_none_iff
  have cases := p.advance_cases run index now
  generalize p.advance run index now = progress at cases
  cases cases with
  | completed none => cases none.symm.trans action
  | @dispatched b action' sound =>
    obtain rfl : a = b := Option.some.inj (action.symm.trans action')
    simp [sound_iff.1 sound]
  | @malformed b defect action' defective =>
    obtain rfl : a = b := Option.some.inj (action.symm.trans action')
    refine ⟨⟨fun _ => Defect.exists_of?_iff.1 ⟨_, defective⟩, fun _ => ⟨_, _, rfl⟩⟩, ?_⟩
    intro ending q stopped
    injection stopped with endings same
    exact ⟨same.symm, defect, defective, endings.symm⟩
  | @overflow b cause action' sound =>
    obtain rfl : a = b := Option.some.inj (action.symm.trans action')
    simp [sound_iff.1 sound]

end Performance

/-! ## What fires before a turn -/

namespace Playback

variable {σ : Type} {p : Playback σ} {actions : List Action} {fired : List (Nat × TimerTask)}

theorem turns_take (p : Playback σ) (actions : List Action) (index : Nat) :
    ∃ later, p.turns actions = p.turns (actions.take index) ++ later := by
  have split := congrArg p.turns (List.take_append_drop index actions)
  exact ⟨_, split.symm.trans (timeline_append ..)⟩

/-- The turns before an index go on if the actions there are sound and what they plan fits. -/
theorem goesOn_of_take {index : Nat} (sound : ∀ a ∈ actions.take index, Defect.of? a = none)
    (fits : ∀ t ∈ p.turns (actions.take index), t.overflow? = none) (i : Nat) (lt : i < index) :
    (p.withPlayer (·.load actions)).GoesOn actions i := by
  intro a there
  have taken : (actions.take index)[i]? = some a := (List.getElem?_take_of_lt lt).trans there
  refine ⟨sound a (List.mem_of_getElem? taken), ?_⟩
  intro t planned
  obtain ⟨later, turns⟩ := turns_take p actions index
  have among : i < (p.turns (actions.take index)).length := by
    rw [Playback.turns, length_timeline]
    exact (List.getElem?_eq_some_iff.1 taken).1
  have planned : (p.turns actions)[i]? = some t := planned
  rw [turns, List.getElem?_append_left among] at planned
  exact fits t (List.mem_of_getElem? planned)

/-- The course of actions begins as that of the first ones does, up to the turn behind them. -/
theorem course_append (p : Playback σ) (l m : List Action) :
    ∃ a b c, p.course l = a ++ (p.finish l, .advance l.length) :: b ∧
      p.course (l ++ m) = a ++ (p.finish l, .advance l.length) :: c ∧
      (∀ e ∈ a, e.1 ≤ p.finish l) ∧ ∀ e ∈ b, p.finish l < e.1 := by
  obtain ⟨a, b, same, before, behind⟩ := exists_course p l
  let rest := timers l.length
    (timeline p.player.config (l.foldl State.after (.initial p.player.config)) (p.finish l) m)
  have programme : programme p.player.config (Time.ofMillis p.clock) (l ++ m) =
      programme p.player.config (Time.ofMillis p.clock) l ++ rest := by
    rw [TermScene.programme, timeline_append, timers_append, length_timeline, Nat.zero_add]
    rfl
  have later : ∀ e ∈ (p.finish l, .advance l.length) :: (b ++ rest), p.finish l ≤ e.1 := by
    refine List.forall_mem_cons.2 ⟨Nat.le_refl _, List.forall_mem_append.2 ⟨?_, ?_⟩⟩
    · exact fun e he => Nat.le_of_lt (behind e he)
    · exact fun e he => start_le_of_mem_timers he
  refine ⟨a, b, arrange (b ++ rest), same, ?_, before, behind⟩
  have sorted : InOrder a := (List.pairwise_append.1 (same ▸ inOrder_course p l)).1
  rw [course, programme, ← arrange_arrange_append]
  show arrange (p.course l ++ rest) = _
  rw [same, List.append_assoc, List.cons_append,
    arrange_append sorted fun x hx y hy => Nat.le_trans (before x hx) (later y hy),
    arrange_cons fun y hy => later y (List.mem_cons_of_mem _ hy)]

/-- **What fires before a turn** are the operations of the actions before it that are due by
then. -/
theorem keep_op?_of_turn {d index : Nat} {rest : List (Nat × TimerTask)}
    (all : fired ++ (d, .advance index) :: rest = p.course actions) :
    keep TimerTask.op? fired =
      (schedule (p.turns (actions.take index))).filter (·.1 ≤ p.finish (actions.take index)) := by
  have mem : index ∈ turnsOf (p.course actions) :=
    mem_turnsOf.2 ⟨d, all ▸ List.mem_append_right fired List.mem_cons_self⟩
  rw [turnsOf_course, List.mem_range] at mem
  have length : (actions.take index).length = index := by
    rw [List.length_take]
    omega
  obtain ⟨a, b, c, own, whole, before, behind⟩ :=
    course_append p (actions.take index) (actions.drop index)
  rw [List.take_append_drop, length] at whole
  rw [length] at own
  have same : fired = a := front_unique (all.trans whole)
    (by simp [turnsOf_front all]) (by simp [turnsOf_front whole.symm])
  have due : (p.course (actions.take index)).filter
      (fun e => decide (e.1 ≤ p.finish (actions.take index))) =
      a ++ [(p.finish (actions.take index), .advance index)] := by
    have early : a.filter (fun e => decide (e.1 ≤ p.finish (actions.take index))) = a :=
      List.filter_eq_self.2 fun e he => decide_eq_true (before e he)
    have late : b.filter (fun e => decide (e.1 ≤ p.finish (actions.take index))) = [] :=
      List.filter_eq_nil_iff.2 fun e he => by simpa using behind e he
    rw [own, List.filter_append, List.filter_cons_of_pos (by simp), early, late]
  rw [← keep_op?_course, filter_keep TimerTask.op? (· ≤ p.finish (actions.take index)), due,
    keep_append, same]
  exact (List.append_nil _).symm

variable [Sink σ]

/-- **A run stops at the first malformed action.** It has handed over what the actions before it
have queued, as far as that is due when its turn comes, and leaves the player idle, with nothing
waiting, in the state that those actions leave behind. -/
theorem run_of_malformed {index : Nat} {a : Action} (action : actions[index]? = some a)
    (malformed : a.Malformed) (first : ∀ b ∈ actions.take index, ¬ b.Malformed)
    (fits : ∀ t ∈ p.turns (actions.take index), t.overflow? = none)
    (unfailing : ∀ records, (Sink.feed p.sink records).2 = none) :
    let before := actions.take index
    (∃ defect q, Defect.of? a = some defect ∧
      (p.withPlayer (·.load actions)).run none = .ok (.malformed index a.keyword defect, q) ∧
      Sink.feed p.sink (((schedule (p.turns before)).filter (·.1 ≤ p.finish before)).map punctual) =
        (q.sink, none) ∧
      q.signals = p.signals ∧ q.player.phase = .idle ∧ q.player.queue.toList = [] ∧
      q.player.state = before.foldl State.after (.initial p.player.config)) ∧
    StableSort ((p.turns before).flatMap Turn.emissions) (schedule (p.turns before)) ∧
    ∀ (run : Run) (index now : Nat) (c : Performance σ) (a : Action),
      run.actions[index]? = some a →
        ((∃ ending q, c.advance run index now = .stopped ending q) ↔ a.Malformed) ∧
          ∀ ending q, c.advance run index now = .stopped ending q → q = c ∧
            ∃ defect, Defect.of? a = some defect ∧
              ending = .malformed index a.keyword defect := by
  intro before
  refine ⟨?_, stableSort_arrange _, fun run index now c a action =>
    Performance.advance_stopped_iff action now c⟩
  have fresh := p.player.fresh_load actions
  obtain ⟨defect, defective⟩ := Defect.exists_of?_iff.2 malformed
  have sound : ∀ b ∈ before, Defect.of? b = none :=
    fun b mem => Defect.of?_eq_none_iff.2 (first b mem)
  have goesOn := goesOn_of_take sound fits
  obtain ⟨fired, outcome, ends, ran⟩ :=
    run_ends (p := p.withPlayer (·.load actions)) fresh.loaded none
  have halts := halts_of_ends ends fresh
  have handed := halts.ne_sinkFailed unfailing
  obtain ⟨d, rest, c, all, rfl⟩ := halts.malformed_of_goesOn handed (ends.goesOn fresh) action
    defective goesOn
  have order := turnsOf_front all
  have fed := halts.fed (by simp)
  have state := state_of_ends ends fresh
  rw [order, List.length_range] at state
  obtain ⟨-, unsignalled⟩ := signals_of_ends ends fresh
  have incomplete := (completed_of_ends ends fresh).2.1 _ _ _ rfl
  obtain ⟨phase, queue, signals⟩ := unsignalled incomplete
  refine ⟨defect, after c, defective, ran, ?_, signals, phase, queue, state⟩
  have records := keep_op?_of_turn (p := p) all
  rw [← records]
  exact fed

/-- A block with a typed literal, which stops a scroll with two lines to come. -/
theorem run_of_malformed_block :
    let actions : List Action := [.cursor false, .scroll 12,
      .output [.literal .printed ['x'], .literal .typed ['y']], .clear]
    let p : Playback Recorder :=
      (Playback.new .default (Recorder.new none none)).withPlayer (·.listen ['a'])
    ∃ q, (p.withPlayer (·.load actions)).run none =
        .ok (.malformed 2 .output (.unexpected .typed ['y']), q) ∧
      q.sink.log.size = 11 ∧ q.sink.log.toList.getLast? = some ⟨200, .scroll 1⟩ ∧
      q.signals = [] ∧ q.player.phase = .idle ∧ q.player.state.cursorVisible = false := by
  intro actions p
  let block : Action := .output [.literal .printed ['x'], .literal .typed ['y']]
  have here : actions[2]? = some block := rfl
  have malformed : block.Malformed := ⟨.typed, ['y'], by decide, by decide⟩
  have first : ∀ b ∈ actions.take 2, ¬ b.Malformed := by
    simp only [← Defect.of?_eq_none_iff]
    decide
  have fits : ∀ t ∈ p.turns (actions.take 2), t.overflow? = none := by decide
  obtain ⟨⟨defect, q, defective, ran, fed, signals, phase, -, state⟩, -⟩ :=
    run_of_malformed (p := p) here malformed first fits Recorder.feed_new
  obtain rfl : Defect.unexpected .typed ['y'] = defect := Option.some.inj defective
  have sink : q.sink = _ := (congrArg Prod.fst fed).symm
  rw [schedule, arrange_eq_foldl] at sink
  refine ⟨q, ran, ?_, ?_, signals, phase, congrArg State.cursorVisible state⟩
  · rw [sink]
    decide
  · rw [sink]
    decide

end Playback

end TermScene
