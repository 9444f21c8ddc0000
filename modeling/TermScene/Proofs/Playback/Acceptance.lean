import TermScene.Proofs.Playback.Interruption
import TermScene.Proofs.Scenario.Accounting
import TermScene.Proofs.Scenario.Restored

/-!
# What is read can be played

Reading and playback have each their own idea of a good action: reading cuts a value into
parts and falls back where it makes no sense, playback looks for literals of another kind
and for speeds that are no speeds. No action that is read has such a defect
(`defect_of_mem_read`), so its dispatch can fail only for a time that cannot be held, and
a run through what was read comes to its end (`run_of_read`).
-/

namespace TermScene

/-! ## Actions without a defect -/

namespace Defect

theorem inParts_eq_none_iff {wanted : LiteralKind} {parts : List Part} :
    inParts wanted parts = none ↔ ∀ part ∈ parts, part.Suits wanted := by
  refine List.findSome?_eq_none_iff.trans (forall₂_congr fun part _ => ?_)
  cases part with
  | literal kind text => simp [Part.Suits]
  | token => exact ⟨fun _ => trivial, fun _ => rfl⟩

/-- Nothing is wrong with an action that a directive means. -/
theorem of_meaning {k : Keyword} {v : Text} {a : Action} (means : Meaning.of k v = .action a) :
    of? a = none := by
  cases k with
  | input =>
    obtain rfl := Meaning.action.inj means
    exact inParts_eq_none_iff.2 (Part.suits_scan .typed v)
  | output =>
    obtain rfl := Meaning.action.inj means
    exact inParts_eq_none_iff.2 (Part.suits_ofLines v.lines)
  | paste =>
    obtain rfl := Meaning.action.inj means
    exact inParts_eq_none_iff.2 (Part.suits_scan .pasted v)
  | typingSpeed =>
    obtain rfl := Meaning.action.inj means
    exact if_pos (isFinitePositive_speedOf v)
  | clear => obtain rfl := Meaning.action.inj means; rfl
  | prompt => obtain rfl := Meaning.action.inj means; rfl
  | cursor => obtain rfl := Meaning.action.inj means; rfl
  | delay => obtain ⟨_, rfl⟩ := Meaning.exists_of_ofRead means; rfl
  | scrollLines => obtain ⟨_, rfl⟩ := Meaning.exists_of_ofRead means; rfl
  | marginX => obtain ⟨_, rfl⟩ := Meaning.exists_of_ofRead means; rfl
  | marginY => obtain ⟨_, rfl⟩ := Meaning.exists_of_ofRead means; rfl
  | audio =>
    rw [Meaning.of] at means
    split at means <;> cases means

end Defect

theorem Scenario.defect_of_mem_read {t : Text} {a : Action} (mem : a ∈ (read t).actions) :
    Defect.of? a = none := by
  rw [read_eq_collect] at mem
  obtain ⟨y, hy, kind⟩ := List.mem_filterMap.1 mem
  obtain ⟨e, -, before, yields⟩ := Entry.exists_of_mem_yields hy
  rw [Yield.action?_eq_some_iff.1 kind] at yields
  cases yields with
  | action means => exact Defect.of_meaning means

/-! ## Runs -/

namespace Performance

variable {σ : Type}

/-- The turn of an action without a defect goes on, unless a time cannot be held. -/
theorem advance_of_defect {run : Run} {index : Nat} {a : Action}
    (action : run.actions[index]? = some a) (sound : Defect.of? a = none) (now : Nat)
    (c : Performance σ) :
    c.advance run index now = .more (c.dispatch index now a) ∨
      ∃ cause, (c.planOf a).overflow? now = some cause ∧
        c.advance run index now = .overflow cause := by
  have cases := c.advance_cases run index now
  generalize c.advance run index now = progress at cases
  cases cases with
  | completed none => cases none.symm.trans action
  | @dispatched b action' =>
    obtain rfl : a = b := Option.some.inj (action.symm.trans action')
    exact .inl rfl
  | @malformed b _ action' defective =>
    obtain rfl : a = b := Option.some.inj (action.symm.trans action')
    cases sound.symm.trans defective
  | @overflow b cause action' _ exceeds =>
    obtain rfl : a = b := Option.some.inj (action.symm.trans action')
    exact .inr ⟨cause, exceeds, rfl⟩

end Performance

namespace Playback

variable {σ : Type} [Sink σ]

/-- **What is read can be played.** A run through it finishes, unless a time of one of its
actions cannot be held; and whatever state a run is in, the turn of such an action fails for
no other reason. -/
theorem run_of_read {p : Playback σ} (unfailing : ∀ records, (Sink.feed p.sink records).2 = none)
    (t : Text) :
    let actions := (Scenario.read t).actions
    ((∃ q, (p.withPlayer (·.load actions)).run none = .ok (.finished (p.reportOn actions), q) ∧
        (p.reportOn actions).actions = actions.length ∧ q.player.phase = .completed) ∨
      ∃ cause, (p.withPlayer (·.load actions)).run none = .error cause ∧
        ∃ turn ∈ p.turns actions, turn.overflow? = some cause) ∧
    ∀ (run : Run) (index now : Nat) (c : Performance σ) (a : Action),
      run.actions[index]? = some a → a ∈ actions →
        c.advance run index now = .more (c.dispatch index now a) ∨
          ∃ cause, (c.planOf a).overflow? now = some cause ∧
            c.advance run index now = .overflow cause := by
  intro actions
  refine ⟨?_, fun run index now c a action mem =>
    Performance.advance_of_defect action (Scenario.defect_of_mem_read mem) now c⟩
  have fresh := p.player.fresh_load actions
  obtain ⟨fired, outcome, ends, ran⟩ :=
    run_ends (p := p.withPlayer (·.load actions)) fresh.loaded none
  cases halts_of_ends ends fresh with
  | finished =>
    have completed := ((completed_of_ends ends fresh).1 _ rfl).2
    exact .inl ⟨_, ran, rfl, ((signals_of_ends ends fresh).1 completed).phase⟩
  | cancelled _ limited => cases limited
  | sinkFailed => exact absurd rfl ((halts_of_ends ends fresh).ne_sinkFailed unfailing _ _ _)
  | malformed _ _ action defective =>
    rw [Scenario.defect_of_mem_read (List.mem_of_getElem? action)] at defective
    cases defective
  | overflow _ _ _ turn exceeds => exact .inr ⟨_, ran, _, List.mem_of_getElem? turn, exceeds⟩

/-- A speed that is none, tokens at the ends of printed lines, and nothing to paste. -/
theorem run_of_read_fallbacks :
    let p : Playback Recorder := .new .default (Recorder.new none none)
    let t : Text := ("typing_speed: fast\ninput: a%\x7bdelay 5\x7db\noutput:\n%\x7bend\x7d\n\n" ++
      "%\x7bx\x7d\npaste:\ndelay: -1").toList
    let actions : List Action := [.typingSpeed .one,
      .input [.literal .typed ['a'], .token (.delay 5), .literal .typed ['b']],
      .output [.token .endColor, Part.empty, Part.empty, .literal .printed "%\x7bx\x7d".toList],
      .paste [.literal .pasted []]]
    (∀ records, (Sink.feed p.sink records).2 = none) ∧ (Scenario.read t).actions = actions ∧
      ∃ report q, (p.withPlayer (·.load actions)).run none = .ok (.finished report, q) ∧
        report.actions = 4 ∧ q.player.phase = .completed := by
  intro p t actions
  have unfailing : ∀ records, (Sink.feed p.sink records).2 = none := Recorder.feed_new
  have read : (Scenario.read t).actions = actions := by decide
  have fits : ∀ turn ∈ p.turns actions, turn.overflow? = none := by decide +kernel
  obtain ⟨played, -⟩ := run_of_read unfailing t
  rw [read] at played
  refine ⟨unfailing, read, ?_⟩
  rcases played with ⟨q, ran, count, phase⟩ | ⟨cause, -, turn, mem, exceeds⟩
  · exact ⟨_, q, ran, count, phase⟩
  · cases (fits turn mem).symm.trans exceeds

end Playback

end TermScene
