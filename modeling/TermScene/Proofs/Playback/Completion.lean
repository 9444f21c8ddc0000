import TermScene.Proofs.Playback.Course
import TermScene.Proofs.Playback.Display
import TermScene.Proofs.Playback.Extent

/-!
# The signal of completion

A run signals completion when the turn past its last action fires, and at no other time
(`signals_of_run`). By then it has handed over every operation that is due, and every other one
waits (`overrun_of_reaches`, `pending_of_reaches`). These are lines of a scroll that outlasts its
action, and nothing else if 32 bits count the characters of every typed text; a text of more
characters is still being typed when its action is over (`signals_typing`).
-/

namespace TermScene

open Agenda

/-! ## What completion leaves -/

namespace Playback

variable {σ : Type}

/-- What a run leaves that signalled the completion of its scenario. -/
structure Signalled (p : Playback σ) (report : Report) (q : Playback σ) : Prop where
  phase : q.player.phase = .completed
  signals : q.signals = p.signals ++ (p.player.listener.map fun name => (name, report)).toList

/-- What a run leaves that signalled nothing. -/
structure Unsignalled (p q : Playback σ) : Prop where
  phase : q.player.phase = .idle
  queue : q.player.queue.toList = []
  signals : q.signals = p.signals

/-- What a run has played that has completed its scenario, and what it has still to play. -/
structure Overrun [Sink σ] (p : Playback σ) (actions : List Action)
    (fired : List (Nat × TimerTask)) (q : Performance σ) (waiting : List (Nat × TerminalOp)) :
    Prop where
  all : keep TimerTask.op? fired ++ waiting = schedule (p.turns actions)
  taken : Sink.feed p.sink ((keep TimerTask.op? fired).map punctual) = (q.sink, none)
  queue : q.player.queue.agenda = waiting.map fun x => (x.1, .emit x.2)
  later : ∀ x ∈ waiting, p.finish actions < x.1
  /-- Of the actions whose typed texts can be counted, only scrolls outlast their time. -/
  scrolls : (∀ a ∈ actions, a.Countable) → ∀ x ∈ waiting, ∃ lines, x.2 = .scroll lines

/-! ## The report -/

theorem reportOn_eq {p : Playback σ} {actions : List Action} {now index : Nat} {s : State}
    (last : actions[index]? = none)
    (due : now = Time.ofMillis p.clock + elapsed ((p.turns actions).take index))
    (state : s = (actions.take index).foldl State.after (.initial p.player.config)) :
    (⟨actions.length, now - Time.ofMillis p.clock, s⟩ : Report) = p.reportOn actions := by
  have le := List.getElem?_eq_none_iff.1 last
  have turns : (p.turns actions).take index = p.turns actions :=
    List.take_of_length_le (Nat.le_trans (Nat.le_of_eq (length_timeline _ _ _ _)) le)
  rw [state, due, turns, List.take_of_length_le le, Nat.add_sub_cancel_left]
  rfl

variable [Sink σ] {p : Playback σ} {actions : List Action} {cancel : Option Nat}
  {fired : List (Nat × TimerTask)} {q : Performance σ}

omit [Sink σ] in
theorem state_of_advance {run : Run} {index now : Nat} {p q : Performance σ} {s : State}
    (advance : p.Advance run index now (.more q))
    (state : p.player.state = (run.actions.take index).foldl State.after s) :
    q.player.state = (run.actions.take (index + 1)).foldl State.after s := by
  rw [List.take_add_one, List.foldl_append, ← state]
  cases advance with
  | completed none => rw [none]; rfl
  | dispatched action => rw [action]; rfl

/-- The state is that which the actions leave behind that have had their turn. -/
theorem Reaches.state (reached : p.Reaches (p.runOf actions cancel) fired q)
    (fresh : p.player.Fresh actions) :
    q.player.state =
      (actions.take (turnsOf fired).length).foldl State.after (.initial p.player.config) := by
  induction reached using Reaches.induction with
  | opening more advance => exact state_of_advance advance fresh.state
  | emitted reached pop inTime task taken more ih =>
    rw [turnsOf_append, Timer.entry, task, List.length_append]
    exact ih
  | @turn fired q r timer left index reached pop inTime task advance more ih =>
    obtain ⟨order, -⟩ := (reached.standing fresh.turns).of_pop_advance pop task
    have length : (turnsOf fired).length = index := by rw [order, List.length_range]
    rw [length] at ih
    have next := state_of_advance advance ih
    rw [turnsOf_append, Timer.entry, task, List.length_append, length]
    exact next

/-- A report in hand is the report on the actions. -/
theorem Reaches.report (reached : p.Reaches (p.runOf actions cancel) fired q)
    (fresh : p.player.Fresh actions) {report : Report} (reported : q.report = some report) :
    report = p.reportOn actions := by
  induction reached using Reaches.induction generalizing report with
  | opening more advance =>
    cases advance with
    | completed none =>
      injection reported with reported
      rw [← reported]
      exact reportOn_eq none (Nat.add_zero _).symm fresh.state
    | dispatched => cases reported
  | emitted reached pop inTime task taken more ih => exact ih reported
  | @turn fired q r timer left index reached pop inTime task advance more ih =>
    obtain ⟨order, -, -, unreported⟩ := (reached.standing fresh.turns).of_pop_advance pop task
    cases advance with
    | completed none =>
      injection reported with reported
      obtain ⟨rest, all⟩ := reached.course_of_pop fresh.toReady pop
      rw [Timer.entry, task] at all
      have due := due_of_turn (all ▸ List.mem_append_right fired List.mem_cons_self)
      have state := reached.state fresh
      rw [order, List.length_range] at state
      rw [← reported]
      exact reportOn_eq none due state
    | dispatched => exact absurd (unreported.symm.trans reported) (by simp)

/-- Completion is signalled with the report, and nothing else is signalled. -/
theorem Reaches.signals (reached : p.Reaches (p.runOf actions cancel) fired q)
    (fresh : p.player.Fresh actions) :
    q.signals = p.signals ++
      (q.report.bind fun report => p.player.listener.map fun name => (name, report)).toList := by
  induction reached using Reaches.induction with
  | opening more advance =>
    cases advance with
    | completed => rfl
    | dispatched => exact (List.append_nil _).symm
  | emitted reached pop inTime task taken more ih => exact ih
  | @turn fired q r timer left index reached pop inTime task advance more ih =>
    obtain ⟨-, -, -, unreported⟩ := (reached.standing fresh.turns).of_pop_advance pop task
    rw [unreported] at ih
    cases advance with
    | completed =>
      have listener : q.player.listener = p.player.listener :=
        congrArg (·.2.2) reached.bounds
      rw [← listener]
      exact congrArg (· ++ _) (ih.trans (List.append_nil _))
    | dispatched =>
      have report : (q.awake timer left).report = none := unreported
      show q.signals = p.signals ++ (Option.bind (q.awake timer left).report _).toList
      rw [report]
      exact ih

/-! ## What waits at completion -/

omit [Sink σ] in
/-- What is due after the end is a line of a scroll, as only a scroll outlasts its action. -/
theorem scroll_of_later {p : Playback σ} {actions : List Action}
    (countable : ∀ a ∈ actions, a.Countable) {x : Nat × TerminalOp}
    (mem : x ∈ schedule (p.turns actions)) (later : p.finish actions < x.1) :
    ∃ lines, x.2 = .scroll lines := by
  have within := within_timeline p.player.config (.initial p.player.config)
    (Time.ofMillis p.clock) countable
  rw [← keep_flatMap] at within
  cases op : x.2.shown? with
  | none =>
    cases hx : x.2 with
    | scroll lines => exact ⟨lines, rfl⟩
    | _ => rw [hx] at op; cases op
  | some shown =>
    have shows : (x.1, shown) ∈ keep TerminalOp.shown? ((p.turns actions).flatMap Turn.emissions) :=
      List.mem_filterMap.2 ⟨x, mem_arrange.1 mem, by rw [op]; rfl⟩
    have le := (within.le _ shows).2
    rw [finish] at later
    exact absurd later (Nat.not_lt.2 le)

omit [Sink σ] in
theorem eq_map_keep_op? {l : List (Nat × TimerTask)} (h : ∀ e ∈ l, ∃ op, e.2 = .emit op) :
    l = (keep TimerTask.op? l).map fun x => (x.1, .emit x.2) := by
  induction l with
  | nil => rfl
  | cons e l ih =>
    obtain ⟨op, task⟩ := h e List.mem_cons_self
    rw [keep_cons_some (b := op) (by rw [task]; rfl), List.map_cons,
      ← ih fun e he => h e (List.mem_cons_of_mem _ he), ← task]

/-- A run that has completed its scenario has handed over what is due. -/
theorem overrun_of_reaches (reached : p.Reaches (p.runOf actions cancel) fired q)
    (fresh : p.player.Fresh actions) (completed : actions.length ∈ turnsOf fired) :
    ∃ waiting, p.Overrun actions fired q waiting := by
  obtain ⟨rest, remains, all⟩ := reached.remains fresh.toReady
  have due := due_of_mem all completed
  -- with no turn waiting, the queue holds all that is left of the course
  have turns : q.player.queue.turns = [] := by
    cases reached.standing fresh.turns with
    | running _ lt _ _ _ _ order =>
      rw [order, List.mem_range] at completed
      have lt : _ < actions.length := lt
      omega
    | completed _ none => exact none
  refine ⟨keep TimerTask.op? rest, ?_⟩
  have whole : keep TimerTask.op? fired ++ keep TimerTask.op? rest =
      schedule (p.turns actions) := by
    rw [← keep_append, all, keep_op?_course]
  have later : ∀ x ∈ keep TimerTask.op? rest, p.finish actions < x.1 := by
    intro x hx
    obtain ⟨e, he, kept⟩ := List.mem_filterMap.1 hx
    obtain ⟨op, -, rfl⟩ := Option.map_eq_some_iff.1 kept
    exact (due e he).1
  refine ⟨whole, reached.fed fresh.toReady, ?_, later, ?_⟩
  · rw [remains.agenda turns]
    exact eq_map_keep_op? fun e he => (due e he).2
  · intro countable x hx
    exact scroll_of_later countable (whole ▸ List.mem_append_right _ hx) (later x hx)

/-- The last timer to fire when a scenario is completed is the turn that completes it. -/
theorem exists_completing (reached : p.Reaches (p.runOf actions cancel) fired q)
    (fresh : p.player.Fresh actions) (completed : actions.length ∈ turnsOf fired) :
    ∃ before c, p.Reaches (p.runOf actions cancel)
        (before ++ [(p.finish actions, .advance actions.length)]) c ∧
      actions.length ∈ turnsOf (before ++ [(p.finish actions, .advance actions.length)]) := by
  obtain ⟨d, mem⟩ := mem_turnsOf.1 completed
  obtain ⟨rest, -, all⟩ := reached.remains fresh.toReady
  have due := due_of_turn (all ▸ List.mem_append_left rest mem)
  have length : (p.turns actions).length ≤ actions.length :=
    Nat.le_of_eq (length_timeline _ _ _ _)
  rw [List.take_of_length_le length] at due
  obtain ⟨before, behind, rfl⟩ := List.append_of_mem mem
  rw [List.append_cons] at reached
  obtain ⟨c, reached⟩ := reached.front (by simp)
  rw [due] at reached
  exact ⟨before, c, reached, mem_turnsOf.2 ⟨_, List.mem_append_right _ List.mem_cons_self⟩⟩

/-- When a scenario is completed, all that is due later waits. -/
theorem pending_of_reaches {before : List (Nat × TimerTask)}
    (reached : p.Reaches (p.runOf actions cancel)
      (before ++ [(p.finish actions, .advance actions.length)]) q)
    (fresh : p.player.Fresh actions)
    (completed : actions.length ∈ turnsOf
      (before ++ [(p.finish actions, .advance actions.length)]))
    {x : Nat × TerminalOp} (mem : x ∈ schedule (p.turns actions))
    (late : p.finish actions < x.1) : (x.1, .emit x.2) ∈ q.player.queue.agenda := by
  obtain ⟨waiting, overrun⟩ := overrun_of_reaches reached fresh completed
  rw [← overrun.all] at mem
  rw [overrun.queue]
  rcases List.mem_append.1 mem with fired | waits
  · -- nothing fires in front of the last timer that is due behind it
    obtain ⟨rest, -, all⟩ := reached.remains fresh.toReady
    have order := (List.pairwise_append.1 (all ▸ inOrder_course p actions)).1
    obtain ⟨e, here, kept⟩ := List.mem_filterMap.1 fired
    obtain ⟨op, -, rfl⟩ := Option.map_eq_some_iff.1 kept
    have le : e.1 ≤ p.finish actions := by
      rcases List.mem_append.1 here with here | here
      · exact (List.pairwise_append.1 order).2.2 e here _ List.mem_cons_self
      · obtain rfl := List.mem_singleton.1 here
        exact Nat.le_refl _
    exact absurd late (Nat.not_lt.2 le)
  · exact List.mem_map_of_mem waits

/-- By the completion of a scenario it has been signalled. -/
theorem signals_of_reaches (reached : p.Reaches (p.runOf actions cancel) fired q)
    (fresh : p.player.Fresh actions) (completed : actions.length ∈ turnsOf fired) :
    q.signals = p.signals ++
      (p.player.listener.map fun name => (name, p.reportOn actions)).toList := by
  cases reached.standing fresh.turns with
  | running _ lt _ _ _ _ order =>
    have lt : _ < actions.length := lt
    rw [order, List.mem_range] at completed
    omega
  | completed _ _ reported =>
    rw [reached.signals fresh, reported, reached.report fresh reported]
    rfl

/-! ## Whole runs -/

omit [Sink σ] in
theorem unsignalled_opening (fresh : p.player.Fresh actions) : p.Unsignalled (after p.opening) := by
  have same : after p.opening = p.opening.toPlayback := by
    unfold after Player.release
    rw [show p.opening.player.phase = .idle from fresh.phase]
  rw [same]
  exact ⟨fresh.phase, fresh.empty, rfl⟩

/-- A run signals completion if the turn past the last action fires, and not otherwise. -/
theorem signals_of_ends {ending : Ending}
    (ends : p.Ends (p.runOf actions cancel) fired (.ok (ending, q)))
    (fresh : p.player.Fresh actions) :
    (actions.length ∈ turnsOf fired → p.Signalled (p.reportOn actions) (after q)) ∧
      (actions.length ∉ turnsOf fired → p.Unsignalled (after q)) := by
  rcases ends.cases_ok with ⟨rfl, advance⟩ | ⟨c, reached, step⟩
  · refine ⟨fun completed => absurd completed List.not_mem_nil, fun _ => ?_⟩
    cases advance with
    | malformed => exact unsignalled_opening fresh
  · obtain ⟨player, signals, -⟩ := step.frame
    have signals := signals.trans (reached.signals fresh)
    cases reached.standing fresh.turns with
    | running phase lt _ _ _ unreported order =>
      have lt : _ < actions.length := lt
      rw [unreported] at signals
      rw [after_of_running ((congrArg Player.phase player).trans phase), order, List.mem_range]
      exact ⟨fun completed => by omega, fun _ => ⟨rfl, rfl, signals.trans (List.append_nil _)⟩⟩
    | completed phase _ reported order =>
      have phase := (congrArg Player.phase player).trans phase
      rw [reported, reached.report fresh reported] at signals
      rw [after_of_completed phase, order]
      exact ⟨fun _ => ⟨phase, signals⟩,
        fun incomplete => absurd List.self_mem_range_succ incomplete⟩

/-- How a run ends tells whether it signalled completion, unless it was interrupted. -/
theorem completed_of_ends {ending : Ending}
    (ends : p.Ends (p.runOf actions cancel) fired (.ok (ending, q)))
    (fresh : p.player.Fresh actions) :
    (∀ report, ending = .finished report →
      report = p.reportOn actions ∧ actions.length ∈ turnsOf fired) ∧
    (∀ index keyword defect, ending = .malformed index keyword defect →
      actions.length ∉ turnsOf fired) ∧ ending ≠ .noScenario := by
  rcases ends.cases_ok with ⟨rfl, advance⟩ | ⟨c, reached, step⟩
  · cases advance with
    | malformed => exact ⟨by simp, fun _ _ _ _ => List.not_mem_nil, by simp⟩
  · have standing := reached.standing fresh.turns
    cases step with
    | finished _ reported =>
      refine ⟨?_, by simp, by simp⟩
      rintro report ⟨⟩
      refine ⟨reached.report fresh reported, ?_⟩
      cases standing with
      | running _ _ _ _ _ unreported => exact absurd (unreported.symm.trans reported) (by simp)
      | completed _ _ _ order =>
        rw [order]
        exact List.self_mem_range_succ
    | early => exact ⟨by simp, by simp, by simp⟩
    | cancelled => exact ⟨by simp, by simp, by simp⟩
    | sinkFailed => exact ⟨by simp, by simp, by simp⟩
    | turn pop _ task advance =>
      cases advance with
      | malformed action =>
        obtain ⟨order, -⟩ := standing.of_pop_advance pop task
        have lt := (List.getElem?_eq_some_iff.1 action).1
        refine ⟨by simp, fun _ _ _ _ completed => ?_, by simp⟩
        rw [order, List.mem_range] at completed
        exact Nat.lt_asymm lt completed

/-- **Completion is signalled once by each run that completes its scenario**, and by no other
run: the handler is called when the turn past the last action fires. -/
theorem signals_of_run {config : Config} {s : σ} {p r : Playback σ} {cancel : Option Nat}
    {ending : Ending} (history : Reachable config s p) (ran : p.run cancel = .ok (ending, r)) :
    (p.player.loaded = none → ending = .noScenario ∧ r = p) ∧
    ∀ actions, p.player.loaded = some actions →
      ∃ fired q, p.Ends (p.runOf actions cancel) fired (.ok (ending, q)) ∧ r = after q ∧
        (actions.length ∈ turnsOf fired →
          turnsOf fired = List.range (actions.length + 1) ∧
            p.Signalled (p.reportOn actions) r) ∧
        (actions.length ∉ turnsOf fired → p.Unsignalled r) ∧
        (∀ report, ending = .finished report →
          report = p.reportOn actions ∧ actions.length ∈ turnsOf fired) ∧
        (∀ index keyword defect, ending = .malformed index keyword defect →
          actions.length ∉ turnsOf fired) ∧ ending ≠ .noScenario ∧
        ∀ done c, p.Reaches (p.runOf actions cancel) done c → actions.length ∈ turnsOf done →
          ∃ waiting, p.Overrun actions done c waiting := by
  refine ⟨?_, ?_⟩
  · intro unloaded
    rw [run_of_unloaded unloaded] at ran
    injection ran with ran
    injection ran with endings same
    exact ⟨endings.symm, same.symm⟩
  · intro actions loaded
    have fresh := history.settled.1.fresh actions loaded
    obtain ⟨fired, q, ends, rfl⟩ := ends_of_run loaded ran
    obtain ⟨signalled, unsignalled⟩ := signals_of_ends ends fresh
    obtain ⟨finished, malformed, scenario⟩ := completed_of_ends ends fresh
    refine ⟨fired, q, ends, rfl, ?_, unsignalled, finished, malformed, scenario, ?_⟩
    · intro completed
      obtain ⟨⟨m, le, order⟩, -⟩ := order_of_ends ends fresh.turns
      have le : m ≤ actions.length + 1 := le
      have last := List.mem_range.1 (order ▸ completed)
      rw [order, Nat.le_antisymm le last]
      exact ⟨rfl, signalled completed⟩
    · intro done c reached completed
      exact overrun_of_reaches reached fresh completed

/-- A scroll that outlasts its action: completion is signalled once, with two lines to come. -/
theorem signals_scroll :
    let p : Playback Recorder :=
      ((Playback.new .default (Recorder.new none none)).withPlayer (·.listen ['a'])).withPlayer
        (·.load [.scroll 12])
    ∃ r, p.run none = .ok (.finished (p.reportOn [.scroll 12]), r) ∧
      r.signals = [(['a'], p.reportOn [.scroll 12])] ∧ r.player.phase = .completed ∧
      ((schedule (p.turns [.scroll 12])).filter (p.finish [.scroll 12] < ·.1)).length = 2 := by
  intro p
  have history : Reachable .default (Recorder.new none none) p :=
    ⟨[.listen ['a'], .load [.scroll 12]], .perform (.perform .start rfl) rfl⟩
  have sound : ∀ a ∈ [Action.scroll 12], Defect.of? a = none := by decide
  have fits : ∀ t ∈ p.turns [.scroll 12], t.overflow? = none := by decide
  have takes : (Sink.feed p.sink (p.script [.scroll 12])).2 = none := by
    rw [script, schedule, arrange_eq_foldl]
    decide
  obtain ⟨r, ran, -⟩ := run_of_undisturbed (.of_feed sound fits takes)
  obtain ⟨-, scenario⟩ := signals_of_run history ran
  obtain ⟨fired, q, -, -, signals, -, finished, -⟩ := scenario [.scroll 12] rfl
  obtain ⟨-, signalled⟩ := signals (finished _ rfl).2
  refine ⟨r, ran, signalled.signals, signalled.phase, ?_⟩
  rw [schedule, arrange_eq_foldl]
  decide

/-- A text of 2 ^ 32 characters, timed as if it were empty: completion is signalled while its
third character waits to be written. -/
theorem signals_typing :
    let actions : List Action := [.input [.literal .typed (List.replicate UInt32.size 'c')]]
    let p : Playback Recorder :=
      ((Playback.new .default (Recorder.new none none)).withPlayer (·.listen ['a'])).withPlayer
        (·.load actions)
    Reachable .default (Recorder.new none none) p ∧
      (∃ r, p.run none = .ok (.finished (p.reportOn actions), r)) ∧
      ∃ done c, p.Reaches (p.runOf actions none) done c ∧ actions.length ∈ turnsOf done ∧
        c.signals = [(['a'], p.reportOn actions)] ∧ p.finish actions = Time.ofMillis 100 ∧
        (Time.ofMillis 200, .emit (.write ['c'])) ∈ c.player.queue.agenda := by
  have long : (List.replicate UInt32.size 'c').length = UInt32.size := List.length_replicate
  have plain : '\\' ∉ List.replicate UInt32.size 'c' := fun mem =>
    absurd (List.eq_of_mem_replicate mem) (by decide)
  have third : (List.replicate UInt32.size 'c')[2]? = some 'c' :=
    List.getElem?_replicate_of_lt (by decide)
  revert long plain third
  -- only these facts about the text are used, so that it is never written out
  generalize List.replicate UInt32.size 'c' = text
  intro long plain third actions p
  have history : Reachable .default (Recorder.new none none) p :=
    ⟨[.listen ['a'], .load actions], .perform (.perform .start rfl) rfl⟩
  have fresh : p.player.Fresh actions := Player.fresh_load _ _
  let s : State := .initial .default
  have timeout : s.typingTimeout Config.default.baseTypingTimeout = Time.ofMillis 100 := by
    decide +kernel
  let plan : Plan := .input .default s [.literal .typed text]
  have start : Time.ofMillis p.clock = 0 := by
    rw [show p.clock = 0 from rfl]
    rfl
  have turns : p.turns actions = [⟨0, plan⟩] := by
    rw [Playback.turns, start, timeline, timeline]
    rfl
  have lasts : plan.duration = Time.ofMillis 100 := (Plan.duration_input_literal long).trans timeout
  have finish : p.finish actions = Time.ofMillis 100 := by
    rw [Playback.finish, start, turns, elapsed, elapsed, lasts]
    rfl
  have sound : ∀ a ∈ actions, Defect.of? a = none := List.forall_mem_singleton.2 rfl
  have fits : ∀ t ∈ p.turns actions, t.overflow? = none := by
    rw [turns]
    refine List.forall_mem_singleton.2 (Plan.overflow?_input_literal long ?_)
    rw [timeout]
    show 0 + Time.ofMillis 100 * UInt32.size < Time.instantLimit
    decide
  obtain ⟨r, ran, -⟩ := run_of_undisturbed (.of_feed sound fits (Recorder.feed_new _))
  obtain ⟨fired, q, ends, -⟩ := ends_of_run fresh.loaded ran
  obtain ⟨-, completed⟩ := (completed_of_ends ends fresh).1 _ rfl
  rcases ends.cases_ok with ⟨rfl, -⟩ | ⟨c, reached, -⟩
  · exact absurd completed List.not_mem_nil
  obtain ⟨before, c, reached, completed⟩ := exists_completing reached fresh completed
  refine ⟨history, ⟨r, ran⟩, _, c, reached, completed,
    signals_of_reaches reached fresh completed, finish, ?_⟩
  have typed : (Time.ofMillis 200, TerminalOp.write ['c']) ∈ schedule (p.turns actions) := by
    have mem : (s.typingTimeout Config.default.baseTypingTimeout * 2, .write ['c']) ∈ plan.emits :=
      Plan.mem_emits_input plain third (by decide)
    rw [timeout] at mem
    refine mem_arrange.2 (List.mem_flatMap.2 ⟨⟨0, plan⟩, ?_, List.mem_map.2 ⟨_, mem, ?_⟩⟩)
    · rw [turns]
      exact List.mem_cons_self
    · show (0 + Time.ofMillis 100 * 2, TerminalOp.write ['c']) = _
      rfl
  have late : p.finish actions < Time.ofMillis 200 := by
    rw [finish]
    decide
  exact pending_of_reaches reached fresh completed typed late

end Playback

end TermScene
