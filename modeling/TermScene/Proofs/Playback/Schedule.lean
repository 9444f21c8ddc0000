import TermScene.Proofs.Playback.Enactment
import TermScene.Session

/-!
# A run plays its schedule

An uninterrupted run of sound actions hands the operations of all turns to its sink,
sorted by deadline and stably so, each at the first whole millisecond that is not before
its deadline (`run_eq_schedule`). Deadlines are those of the timeline: they are computed
from the durations of the actions and not from when the clock was looked at.
-/

namespace TermScene

open Agenda

/-- Hands operations to a sink at their milliseconds, one after another until one fails. -/
def Sink.feed {σ : Type} [Sink σ] : σ → List Record → σ × Option SinkFault
  | s, [] => (s, none)
  | s, r :: more =>
    match Sink.take s r.ms r.op with
    | (s, none) => feed s more
    | (s, some fault) => (s, some fault)

/-- An operation at the millisecond at which its deadline is noted. -/
def punctual (x : Nat × TerminalOp) : Record := ⟨Time.ceilMillis x.1, x.2⟩

theorem Sink.feed_cons_none {σ : Type} [Sink σ] {s t : σ} {r : Record} {more : List Record}
    (h : Sink.feed s (r :: more) = (t, none)) :
    ∃ u, Sink.take s r.ms r.op = (u, none) ∧ Sink.feed u more = (t, none) := by
  unfold Sink.feed at h
  split at h
  · next u taken => exact ⟨u, taken, h⟩
  · cases h

namespace Performance

variable {σ : Type} [Sink σ]

/-! ## Single timers -/

theorem attend_of_endless {run : Run} (endless : run.limit = none) {timer : Timer}
    {rest : TimerQueue} {p : Performance σ} (clock : p.clock ≤ Time.ceilMillis timer.deadline) :
    p.attend run timer rest = fire run timer (p.moved rest (Time.ceilMillis timer.deadline)) := by
  simp only [attend, endless, Nat.max_eq_right clock]

theorem enact_emit {run : Run} (endless : run.limit = none) {p : Performance σ} {d : Nat}
    {op : TerminalOp} {more : List (Nat × TimerTask)} {sink : σ}
    (clock : p.clock ≤ Time.ceilMillis d)
    (takes : Sink.feed p.sink ((keep TimerTask.op? ((d, .emit op) :: more)).map punctual) =
      (sink, none)) :
    ∃ next : σ, p.enact run ((d, .emit op) :: more) =
        ({ p.moved .empty (Time.ceilMillis d) with sink := next } : Performance σ).enact run more ∧
      Sink.feed next ((keep TimerTask.op? more).map punctual) = (sink, none) := by
  rw [keep_cons_some (f := TimerTask.op?) rfl, List.map_cons] at takes
  obtain ⟨next, taken, takes⟩ := Sink.feed_cons_none takes
  refine ⟨next, ?_, takes⟩
  have taken : Sink.take p.sink (Time.ceilMillis d) op = (next, none) := taken
  have fires : p.attend run ⟨d, 0, .emit op⟩ .empty =
      .more { p.moved .empty (Time.ceilMillis d) with sink := next } := by
    rw [attend_of_endless endless clock]
    show (match Sink.take p.sink (Time.ceilMillis d) op with
      | (sink, none) => Progress.more { p.moved .empty (Time.ceilMillis d) with sink := sink }
      | (sink, some fault) => _) = _
    rw [taken]
  rw [enact, fires]
  rfl

theorem enact_advance {run : Run} (endless : run.limit = none) {p : Performance σ}
    {d index : Nat} {more : List (Nat × TimerTask)} (clock : p.clock ≤ Time.ceilMillis d) :
    p.enact run ((d, .advance index) :: more) =
      match ((p.moved .empty (Time.ceilMillis d)).advance run index d).bare with
      | .more q => q.enact run more
      | .stopped ending q => .ok (ending, q)
      | .overflow cause => .error cause := by
  rw [enact, attend_of_endless endless clock]
  rfl

omit [Sink σ] in
theorem advance_of_none {run : Run} {index : Nat} (h : run.actions[index]? = none) (now : Nat)
    (p : Performance σ) : p.advance run index now = .more (p.complete run now) := by
  simp only [advance, h]

omit [Sink σ] in
theorem advance_of_sound {run : Run} {index now : Nat} {a : Action} {p : Performance σ}
    (h : run.actions[index]? = some a) (sound : Defect.of? a = none)
    (fits : (Plan.of p.player.config p.player.state a).overflow? now = none) :
    p.advance run index now =
      .more { p with player :=
        p.player.dispatched index now a (.of p.player.config p.player.state a) } := by
  simp only [advance, h, sound, fits]

/-! ## Lists of timers -/

/-- What a run leaves that completed its scenario. -/
structure Completes (p : Performance σ) (report : Report) (sink : σ) (q : Performance σ) :
    Prop where
  sink : q.sink = sink
  player : q.player =
    { p.player with queue := .empty, state := report.state, phase := .completed }
  signals : q.signals = p.signals ++ (p.player.listener.map fun name => (name, report)).toList

/-- After completion only the sink and the clock change. -/
theorem enact_operations {run : Run} (endless : run.limit = none) {report : Report} {sink : σ}
    {es : List (Nat × TimerTask)} (sorted : InOrder es)
    (turns : keep TimerTask.turn? es = []) {p : Performance σ} (complete : p.report = some report)
    (clock : ∀ e ∈ es, p.clock ≤ Time.ceilMillis e.1)
    (takes : Sink.feed p.sink ((keep TimerTask.op? es).map punctual) = (sink, none)) :
    ∃ ms, p.enact run es = .ok (.finished report, { p.moved .empty ms with sink := sink }) := by
  induction es generalizing p with
  | nil =>
    refine ⟨p.clock, ?_⟩
    have same : sink = p.sink := (congrArg Prod.fst takes).symm
    rw [enact, complete, same]
    rfl
  | cons e more ih =>
    obtain ⟨d, task⟩ := e
    obtain ⟨later, behind⟩ := List.pairwise_cons.1 sorted
    cases task with
    | advance index =>
      rw [keep_cons_some (f := TimerTask.turn?) rfl] at turns
      cases turns
    | emit op =>
      rw [keep_cons_none (f := TimerTask.turn?) rfl] at turns
      obtain ⟨next, enacted, takes⟩ := enact_emit endless (clock _ List.mem_cons_self) takes
      rw [enacted]
      exact ih behind turns complete (fun e he => Time.ceilMillis_mono (later e he)) takes

/-- Enacting the turns from an action on, with operations among them, completes the
scenario. -/
theorem enact_turns {run : Run} (endless : run.limit = none) {sink : σ}
    {es : List (Nat × TimerTask)} (sorted : InOrder es) {p : Performance σ} {now index : Nat}
    (turns : keep TimerTask.turn? es = turnTimes index now
      (timeline p.player.config p.player.state now (run.actions.drop index)))
    (sound : ∀ a ∈ run.actions.drop index, Defect.of? a = none)
    (fits : ∀ t ∈ timeline p.player.config p.player.state now (run.actions.drop index),
      t.overflow? = none)
    (clock : ∀ e ∈ es, p.clock ≤ Time.ceilMillis e.1)
    (takes : Sink.feed p.sink ((keep TimerTask.op? es).map punctual) = (sink, none)) :
    ∃ report q, p.enact run es = .ok (.finished report, q) ∧ p.Completes report sink q ∧
      report = ⟨run.actions.length,
        now + elapsed (timeline p.player.config p.player.state now (run.actions.drop index)) -
          Time.ofMillis run.start,
        (run.actions.drop index).foldl State.after p.player.state⟩ := by
  induction es generalizing p now index with
  | nil => exact absurd turns.symm (turnTimes_ne_nil _ _ _)
  | cons e more ih =>
    obtain ⟨d, task⟩ := e
    obtain ⟨later, behind⟩ := List.pairwise_cons.1 sorted
    have clocks (e : Nat × TimerTask) (he : e ∈ more) : Time.ceilMillis d ≤ Time.ceilMillis e.1 :=
      Time.ceilMillis_mono (later e he)
    cases task with
    | emit op =>
      rw [keep_cons_none (f := TimerTask.turn?) rfl] at turns
      obtain ⟨next, enacted, takes⟩ := enact_emit endless (clock _ List.mem_cons_self) takes
      rw [enacted]
      obtain ⟨report, q, enacted, completes, what⟩ := ih behind
        (p := { p.moved .empty (Time.ceilMillis d) with sink := next })
        turns sound fits clocks takes
      exact ⟨report, q, enacted, ⟨completes.sink, completes.player, completes.signals⟩, what⟩
    | advance k =>
      rw [keep_cons_some (f := TimerTask.turn?) rfl] at turns
      rw [keep_cons_none (f := TimerTask.op?) rfl] at takes
      rw [enact_advance endless (clock _ List.mem_cons_self)]
      cases here : run.actions[index]? with
      | none =>
        have left : run.actions.drop index = [] :=
          List.drop_eq_nil_of_le (List.getElem?_eq_none_iff.1 here)
        rw [left] at turns ⊢
        injection turns with head turns
        injection head with hd hk
        subst hd hk
        rw [advance_of_none here]
        obtain ⟨ms, enacted⟩ := enact_operations endless behind turns
          (p := ((p.moved .empty (Time.ceilMillis d)).complete run d).bare) rfl clocks takes
        exact ⟨_, _, enacted, ⟨rfl, rfl, rfl⟩, rfl⟩
      | some a =>
        rw [Run.drop_eq_cons here] at turns sound fits ⊢
        injection turns with head turns
        injection head with hd hk
        subst hd hk
        have advanced := advance_of_sound (p := p.moved .empty (Time.ceilMillis d)) here
          (sound a List.mem_cons_self) (fits _ List.mem_cons_self)
        rw [advanced]
        let next : Performance σ := { p.moved .empty (Time.ceilMillis d) with
          player := p.player.dispatched k d a (.of p.player.config p.player.state a) }
        obtain ⟨report, q, enacted, completes, rfl⟩ := ih behind (p := next.bare) turns
          (fun a ha => sound a (List.mem_cons_of_mem _ ha))
          (fun t ht => fits t (List.mem_cons_of_mem _ ht)) clocks takes
        refine ⟨_, q, enacted, ⟨completes.sink, completes.player, completes.signals⟩, ?_⟩
        rw [timeline, elapsed, ← Nat.add_assoc]
        rfl

end Performance

/-! ## Runs -/

section

variable {config : Config} {start : Nat} {actions : List Action}

theorem keep_turn?_programme :
    keep TimerTask.turn? (arrange (programme config start actions)) =
      turnTimes 0 start (timeline config (.initial config) start actions) := by
  rw [keep_arrange, programme, keep_turn?_timers]
  exact arrange_eq_self (inOrder_turnTimes _ _ _ _ _)

theorem keep_op?_programme :
    keep TimerTask.op? (arrange (programme config start actions)) =
      schedule (timeline config (.initial config) start actions) := by
  rw [keep_arrange, programme, keep_cons_none (f := TimerTask.op?) rfl, keep_op?_timers]
  rfl

theorem start_le_of_mem_programme {e : Nat × TimerTask}
    (h : e ∈ arrange (programme config start actions)) : start ≤ e.1 := by
  rcases List.mem_cons.1 (mem_arrange.1 h) with rfl | h
  · exact Nat.le_refl _
  · exact start_le_of_mem_timers h

end

namespace Playback

variable {σ : Type}

/-- The turns of actions that a playback is about to play. -/
def turns (p : Playback σ) (actions : List Action) : List Turn :=
  timeline p.player.config (.initial p.player.config) (Time.ofMillis p.clock) actions

/-- What a run through actions hands to the sink. -/
def script (p : Playback σ) (actions : List Action) : List Record :=
  (schedule (p.turns actions)).map punctual

/-- The report on a run through actions. -/
def reportOn (p : Playback σ) (actions : List Action) : Report :=
  ⟨actions.length, elapsed (p.turns actions), actions.foldl State.after (.initial p.player.config)⟩

theorem after_of_completed {p : Performance σ} (h : p.player.phase = .completed) :
    after p = p.toPlayback := by
  unfold after Player.release
  rw [h]

variable [Sink σ]

/-- Nothing stops a run through actions: each can be dispatched, every time can be held, and
the sink takes everything. -/
structure Undisturbed (p : Playback σ) (actions : List Action) (sink : σ) : Prop where
  sound : ∀ a ∈ actions, Defect.of? a = none
  fits : ∀ t ∈ p.turns actions, t.overflow? = none
  takes : Sink.feed p.sink (p.script actions) = (sink, none)

theorem Undisturbed.of_feed {p : Playback σ} {actions : List Action}
    (sound : ∀ a ∈ actions, Defect.of? a = none) (fits : ∀ t ∈ p.turns actions, t.overflow? = none)
    (takes : (Sink.feed p.sink (p.script actions)).2 = none) :
    p.Undisturbed actions (Sink.feed p.sink (p.script actions)).1 :=
  ⟨sound, fits, Prod.ext rfl takes⟩

theorem run_of_undisturbed {p : Playback σ} {actions : List Action} {sink : σ}
    (h : p.Undisturbed actions sink) :
    ∃ q, (p.withPlayer (·.load actions)).run none = .ok (.finished (p.reportOn actions), q) ∧
      q.sink = sink ∧ q.player.phase = .completed ∧
      q.player.state = (p.reportOn actions).state ∧
      q.signals = p.signals ++
        (p.player.listener.map fun name => (name, p.reportOn actions)).toList := by
  obtain ⟨sound, fits, takes⟩ := h
  have clock (e : Nat × TimerTask)
      (he : e ∈ arrange (programme p.player.config (Time.ofMillis p.clock) actions)) :
      p.clock ≤ Time.ceilMillis e.1 := by
    have le := Time.ceilMillis_mono (start_le_of_mem_programme he)
    rw [Time.ceilMillis_ofMillis] at le
    exact le
  rw [script, turns, ← keep_op?_programme] at takes
  have endless : (Run.mk actions p.clock none).limit = none := rfl
  obtain ⟨report, q, enacted, completes, what⟩ := Performance.enact_turns endless
    (inOrder_arrange _) (p := (p.withPlayer (·.load actions)).opening) keep_turn?_programme
    sound fits clock takes
  have report : report = p.reportOn actions := by
    rw [what, reportOn, turns]
    exact congrArg (Report.mk _ · _) (Nat.add_sub_cancel_left _ _)
  subst report
  obtain ⟨r, ran, left⟩ :=
    run_of_enact (p := p.withPlayer (·.load actions)) (p.player.ready_load actions) none enacted
  have phase : q.player.phase = .completed := congrArg Player.phase completes.player
  rw [after_of_completed phase] at left
  have player : r.bare.player = q.player := congrArg Playback.player left
  have sinks : r.bare.sink = q.sink := congrArg Playback.sink left
  have signals : r.bare.signals = q.signals := congrArg Playback.signals left
  rw [completes.player] at player
  rw [completes.signals] at signals
  exact ⟨r, ran, sinks.trans completes.sink, congrArg Player.phase player,
    congrArg Player.state player, signals⟩

/-- **A run plays its schedule.** The schedule sorts what the actions queue by deadline and
stably so; an action queues its operations from the instant on at which the actions before
it have lasted their time. -/
theorem run_eq_schedule {p : Playback σ} {actions : List Action} {sink : σ}
    (h : p.Undisturbed actions sink) :
    (∃ q, (p.withPlayer (·.load actions)).run none = .ok (.finished (p.reportOn actions), q) ∧
      q.sink = sink) ∧
    StableSort ((p.turns actions).flatMap Turn.emissions) (schedule (p.turns actions)) ∧
    ∀ i, (p.turns actions)[i]? = actions[i]?.map fun a =>
      Turn.mk (Time.ofMillis p.clock + elapsed ((p.turns actions).take i))
        (.of p.player.config
          ((actions.take i).foldl State.after (.initial p.player.config)) a) := by
  obtain ⟨q, ran, same, -⟩ := run_of_undisturbed h
  refine ⟨⟨q, ran, same⟩, stableSort_arrange _, ?_⟩
  intro i
  exact getElem?_timeline _ _ _ _ i

/-- The last lines of a long scroll come after the action that follows it. -/
theorem run_overrun :
    ∃ q, (((Playback.new .default (Recorder.new none none)).withPlayer
        (·.load [.scroll 12, .clear])).run none).toOption = some q ∧
      q.2.sink.log.toList.drop 8 = [⟨90, .scroll 1⟩, ⟨100, .scroll 1⟩, ⟨100, .clear⟩,
        ⟨110, .scroll 1⟩, ⟨120, .scroll 1⟩] := by
  have sound : ∀ a ∈ [Action.scroll 12, .clear], Defect.of? a = none := by decide
  have fits : ∀ t ∈ turns (.new .default (Recorder.new none none)) [.scroll 12, .clear],
      t.overflow? = none := by decide
  have takes : (Sink.feed (Recorder.new none none)
      (script (.new .default (Recorder.new none none)) [.scroll 12, .clear])).2 = none := by
    rw [script, schedule, arrange_eq_foldl]
    decide
  obtain ⟨⟨q, ran, same⟩, -⟩ := run_eq_schedule (.of_feed sound fits takes)
  refine ⟨_, congrArg Except.toOption ran, ?_⟩
  rw [same, script, schedule, arrange_eq_foldl]
  decide

end Playback

end TermScene
