import TermScene.Proofs.Playback.Completion

/-!
# Runs that are interrupted

Every run halts at a place of its course (`halts_of_ends`): behind the last timer, or before
one that is due too late, that the sink refuses or that cannot be dispatched. What the sink
has taken by then is a beginning of what an uninterrupted run hands over (`run_interrupted`),
and whether the scenario is complete is told by the place of the turn that completes it.
-/

namespace TermScene

open Agenda

/-- A list splits before one of two entries only if neither split goes beyond the other. -/
theorem Agenda.split_unique {α : Type} {l l' m m' : List α} {x x' : α}
    (same : l ++ x :: m = l' ++ x' :: m') (beyond : ∀ c, l' ≠ l ++ x :: c)
    (beyond' : ∀ c, l ≠ l' ++ x' :: c) : l = l' ∧ x = x' := by
  rcases List.append_eq_append_iff.1 same with ⟨c, hl', hc⟩ | ⟨c, hl, hc⟩
  · cases c with
    | nil =>
      injection hc with hx
      exact ⟨by rw [hl', List.append_nil], hx⟩
    | cons y c =>
      injection hc with hx
      exact absurd hl' (hx ▸ beyond c)
  · cases c with
    | nil =>
      injection hc with hx
      exact ⟨by rw [hl, List.append_nil], hx.symm⟩
    | cons y c =>
      injection hc with hx
      exact absurd hl (hx ▸ beyond' c)

/-! ## Sinks that fail -/

namespace Sink

variable {σ : Type} [Sink σ]

theorem feed_append_fault {s t u : σ} {l : List Record} {r : Record} {fault : SinkFault}
    (fed : feed s l = (t, none)) (taken : Sink.take t r.ms r.op = (u, some fault))
    (more : List Record) : feed s (l ++ r :: more) = (u, some fault) := by
  rw [feed_append fed, feed, taken]

/-- A sink fails at one place of a list only. -/
theorem place_of_fault {s t t' u u' : σ} {l l' m m' : List (Nat × TerminalOp)}
    {x x' : Nat × TerminalOp} {fault fault' : SinkFault} (same : l ++ x :: m = l' ++ x' :: m')
    (fed : feed s (l.map punctual) = (t, none))
    (taken : Sink.take t (Time.ceilMillis x.1) x.2 = (u, some fault))
    (fed' : feed s (l'.map punctual) = (t', none))
    (taken' : Sink.take t' (Time.ceilMillis x'.1) x'.2 = (u', some fault')) :
    l = l' ∧ x = x' := by
  have beyond {l l' c : List (Nat × TerminalOp)} {x : Nat × TerminalOp} {t u v : σ}
      {fault : SinkFault} (fed : feed s (l.map punctual) = (t, none))
      (taken : Sink.take t (Time.ceilMillis x.1) x.2 = (u, some fault))
      (whole : feed s (l'.map punctual) = (v, none)) : l' ≠ l ++ x :: c := by
    rintro rfl
    rw [List.map_append, List.map_cons,
      feed_append_fault (r := punctual x) fed taken] at whole
    cases whole
  exact split_unique same (fun _ => beyond fed taken fed') fun _ => beyond fed' taken' fed

end Sink

/-- Some entries of a list in order are due by a millisecond, and behind them all others. -/
theorem Agenda.InOrder.exists_split {α : Type} {l : List (Nat × α)} (h : InOrder l) (ms : Nat) :
    ∃ a b, l = a ++ b ∧ (∀ x ∈ a, Time.ceilMillis x.1 ≤ ms) ∧
      ∀ x ∈ b, ms < Time.ceilMillis x.1 := by
  induction l with
  | nil => exact ⟨[], [], rfl, by simp, by simp⟩
  | cons y l ih =>
    obtain ⟨hy, hl⟩ := List.pairwise_cons.1 h
    by_cases early : Time.ceilMillis y.1 ≤ ms
    · obtain ⟨a, b, rfl, due, late⟩ := ih hl
      exact ⟨y :: a, b, rfl, List.forall_mem_cons.2 ⟨early, due⟩, late⟩
    · refine ⟨[], y :: l, rfl, by simp, List.forall_mem_cons.2 ⟨Nat.lt_of_not_le early, ?_⟩⟩
      intro z hz
      exact Nat.lt_of_lt_of_le (Nat.lt_of_not_le early) (Time.ceilMillis_mono (hy z hz))

/-! ## What timers hand over -/

/-- The operations among timers, each at its millisecond. -/
def recordsOf (timers : List (Nat × TimerTask)) : List Record :=
  (keep TimerTask.op? timers).map punctual

theorem recordsOf_append (l m : List (Nat × TimerTask)) :
    recordsOf (l ++ m) = recordsOf l ++ recordsOf m := by
  rw [recordsOf, keep_append, List.map_append]
  rfl

theorem recordsOf_emit (d : Nat) (op : TerminalOp) (l : List (Nat × TimerTask)) :
    recordsOf ((d, .emit op) :: l) = ⟨Time.ceilMillis d, op⟩ :: recordsOf l := by
  rw [recordsOf, keep_cons_some (f := TimerTask.op?) rfl]
  rfl

theorem mem_recordsOf {l : List (Nat × TimerTask)} {r : Record} :
    r ∈ recordsOf l ↔ ∃ d, (d, .emit r.op) ∈ l ∧ r.ms = Time.ceilMillis d := by
  constructor
  · intro mem
    obtain ⟨x, hx, rfl⟩ := List.mem_map.1 mem
    obtain ⟨⟨d, task⟩, he, kept⟩ := List.mem_filterMap.1 hx
    cases task with
    | emit op =>
      injection kept with kept
      exact ⟨d, kept ▸ he, kept ▸ rfl⟩
    | advance => cases kept
  · rintro ⟨d, mem, same⟩
    refine List.mem_map.2 ⟨(d, r.op), List.mem_filterMap.2 ⟨_, mem, rfl⟩, ?_⟩
    rw [punctual, ← same]

theorem filter_recordsOf_due {l : List (Nat × TimerTask)} {limit : Nat}
    (due : ∀ e ∈ l, Time.ceilMillis e.1 ≤ limit) :
    (recordsOf l).filter (·.ms ≤ limit) = recordsOf l := by
  apply List.filter_eq_self.2
  intro r hr
  obtain ⟨d, mem, same⟩ := mem_recordsOf.1 hr
  exact decide_eq_true (same ▸ due _ mem)

theorem filter_recordsOf_late {l : List (Nat × TimerTask)} {limit : Nat}
    (late : ∀ e ∈ l, limit < Time.ceilMillis e.1) :
    (recordsOf l).filter (·.ms ≤ limit) = [] := by
  apply List.filter_eq_nil_iff.2
  intro r hr
  obtain ⟨d, mem, same⟩ := mem_recordsOf.1 hr
  rw [decide_eq_true_eq, same]
  exact Nat.not_le.2 (late _ mem)

namespace Playback

variable {σ : Type}

theorem recordsOf_course (p : Playback σ) (actions : List Action) :
    recordsOf (p.course actions) = p.script actions := by
  rw [recordsOf, keep_op?_course, script]

variable [Sink σ]

/-! ## Where a run halts -/

/-- The sink of a playback comes to another one by the operations among timers that fired. -/
def Fed (p : Playback σ) (fired : List (Nat × TimerTask)) (s : σ) : Prop :=
  Sink.feed p.sink (recordsOf fired) = (s, none)

/-- The place in the course of a run at which it halts, and why. -/
inductive Halts (p : Playback σ) (run : Run) :
    List (Nat × TimerTask) → Except Overflow (Ending × Performance σ) → Prop
  | finished {q} (fed : p.Fed (p.course run.actions) q.sink) :
      Halts p run (p.course run.actions) (.ok (.finished (p.reportOn run.actions), q))
  | cancelled {fired e rest q} (all : fired ++ e :: rest = p.course run.actions)
      (limited : run.limit = some q.clock) (late : q.clock < Time.ceilMillis e.1)
      (fed : p.Fed fired q.sink) : Halts p run fired (.ok (.cancelled, q))
  | sinkFailed {fired d op rest s q fault}
      (all : fired ++ (d, .emit op) :: rest = p.course run.actions) (inTime : run.InTime d)
      (fed : p.Fed fired s) (taken : Sink.take s (Time.ceilMillis d) op = (q.sink, some fault)) :
      Halts p run fired (.ok (.sinkFailed op fault, q))
  | malformed {fired d index rest a defect q}
      (all : fired ++ (d, .advance index) :: rest = p.course run.actions)
      (fed : p.Fed fired q.sink) (action : run.actions[index]? = some a)
      (defective : Defect.of? a = some defect) :
      Halts p run fired (.ok (.malformed index a.keyword defect, q))
  | overflow {fired d index rest a t cause}
      (all : fired ++ (d, .advance index) :: rest = p.course run.actions)
      (action : run.actions[index]? = some a) (sound : Defect.of? a = none)
      (turn : (p.turns run.actions)[index]? = some t) (exceeds : t.overflow? = some cause) :
      Halts p run fired (.error cause)

variable {p : Playback σ} {actions : List Action} {cancel : Option Nat}
  {fired : List (Nat × TimerTask)} {q : Performance σ}

/-- The turn of an action comes, in the order of the course and by the plan of its timeline. -/
structure Due (p : Playback σ) (actions : List Action) (fired : List (Nat × TimerTask))
    (c : Performance σ) (index now : Nat) : Prop where
  all : ∃ rest, fired ++ (now, .advance index) :: rest = p.course actions
  fed : p.Fed fired c.sink
  plan : ∀ a, actions[index]? = some a → (p.turns actions)[index]? = some ⟨now, c.planOf a⟩

omit [Sink σ] in
theorem turn_of_state {index now : Nat} {a : Action} {c : Performance σ}
    (action : actions[index]? = some a) (config : c.player.config = p.player.config)
    (due : now = Time.ofMillis p.clock + elapsed ((p.turns actions).take index))
    (state : c.player.state = (actions.take index).foldl State.after (.initial p.player.config)) :
    (p.turns actions)[index]? = some ⟨now, c.planOf a⟩ := by
  rw [turns, getElem?_timeline, action, due, Performance.planOf, config, state]
  rfl

theorem due_opening (fresh : p.player.Fresh actions) :
    p.Due actions [] p.opening 0 (Time.ofMillis p.clock) := by
  have first : p.course actions = _ := arrange_cons fun x hx => start_le_of_mem_timers hx
  refine ⟨⟨_, first.symm⟩, rfl, ?_⟩
  intro a action
  exact turn_of_state action rfl (Nat.add_zero _).symm fresh.state

theorem Reaches.due (reached : p.Reaches (p.runOf actions cancel) fired q)
    (fresh : p.player.Fresh actions) {timer : Timer} {left : TimerQueue} {index : Nat}
    (pop : q.player.queue.pop? = some (timer, left)) (task : timer.task = .advance index) :
    p.Due actions fired (q.awake timer left) index timer.deadline := by
  obtain ⟨rest, all⟩ := reached.course_of_pop fresh.toReady pop
  rw [Timer.entry, task] at all
  refine ⟨⟨rest, all⟩, reached.fed fresh.toReady, ?_⟩
  intro a action
  obtain ⟨order, -⟩ := (reached.standing fresh.turns).of_pop_advance pop task
  have state := reached.state fresh
  rw [order, List.length_range] at state
  exact turn_of_state action (congrArg Prod.fst reached.bounds)
    (due_of_turn (all ▸ List.mem_append_right fired List.mem_cons_self)) state

/-- A turn that does not go on halts the run. -/
theorem Due.halts {c : Performance σ} {index now : Nat} (due : p.Due actions fired c index now)
    {progress : Progress σ} (advance : c.Advance (p.runOf actions cancel) index now progress)
    {outcome : Except Overflow (Ending × Performance σ)} (stop : progress.outcome? = some outcome) :
    p.Halts (p.runOf actions cancel) fired outcome := by
  obtain ⟨⟨rest, all⟩, fed, plan⟩ := due
  cases advance with
  | completed => cases stop
  | dispatched => cases stop
  | malformed action defective =>
    injection stop with stop
    rw [← stop]
    exact .malformed all fed action defective
  | overflow action sound exceeds =>
    injection stop with stop
    rw [← stop]
    exact .overflow all action sound (plan _ action) exceeds

/-- **Every run halts at a place of its course.** -/
theorem halts_of_ends {outcome : Except Overflow (Ending × Performance σ)}
    (ends : p.Ends (p.runOf actions cancel) fired outcome) (fresh : p.player.Fresh actions) :
    p.Halts (p.runOf actions cancel) fired outcome := by
  cases ends with
  | opening stop => exact (due_opening fresh).halts (Performance.advance_cases ..) stop
  | @loop _ c _ reached stop =>
    have fed : p.Fed fired c.sink := reached.fed fresh.toReady
    have next {timer left} (pop : c.player.queue.pop? = some (timer, left)) :=
      reached.course_of_pop fresh.toReady pop
    have cases := c.step_cases (p.runOf actions cancel)
    -- the way the step goes is one of its cases, which must be one that stops
    revert stop
    generalize c.step (p.runOf actions cancel) = progress at cases
    intro stop
    cases cases with
    | finished empty reported =>
      injection stop with stop
      obtain ⟨rest, remains, all⟩ := reached.remains fresh.toReady
      rw [remains.of_empty empty, List.append_nil] at all
      subst all
      rw [← stop, reached.report fresh reported]
      exact .finished fed
    | early empty unreported =>
      have standing := reached.standing fresh.turns
      exact absurd rfl (ending_ne_of_standing standing (.early empty unreported))
    | @cancelled timer left limit pop limited late =>
      injection stop with stop
      obtain ⟨rest, all⟩ := next pop
      rw [← stop]
      exact .cancelled all limited late fed
    | emitted => cases stop
    | @sinkFailed timer left op sink fault pop inTime task taken =>
      injection stop with stop
      obtain ⟨rest, all⟩ := next pop
      rw [Timer.entry, task] at all
      rw [reached.clock_awake fresh.toReady pop] at taken
      rw [← stop]
      exact .sinkFailed all inTime fed taken
    | turn pop inTime task advance => exact (reached.due fresh pop task).halts advance stop

/-- A sink that takes everything halts no run. -/
theorem Halts.ne_sinkFailed {run : Run} {outcome : Except Overflow (Ending × Performance σ)}
    (halts : p.Halts run fired outcome) (unlimited : ∀ l, (Sink.feed p.sink l).2 = none)
    (op : TerminalOp) (fault : SinkFault) (q : Performance σ) :
    outcome ≠ .ok (.sinkFailed op fault, q) := by
  rintro rfl
  cases halts with
  | @sinkFailed _ d _ _ _ _ _ _ _ fed taken =>
    have none := unlimited (recordsOf fired ++ [⟨Time.ceilMillis d, op⟩])
    rw [Sink.feed_append_fault fed taken] at none
    cases none

/-! ## What is due in time -/

omit [Sink σ] in
theorem inTime_runOf {ms d : Nat} :
    (p.runOf actions (some ms)).InTime d ↔ Time.ceilMillis d ≤ p.clock + ms := by
  constructor
  · intro inTime
    exact inTime _ rfl
  · intro le limit limited
    injection limited with limited
    rw [← limited]
    exact le

theorem Ends.inTime {outcome : Except Overflow (Ending × Performance σ)}
    (ends : p.Ends (p.runOf actions cancel) fired outcome) :
    ∀ e ∈ fired, (p.runOf actions cancel).InTime e.1 := by
  cases ends with
  | opening => exact fun e he => by cases he
  | loop reached => exact reached.inTime

omit [Sink σ] in
/-- The scenario is complete when the turn past its last action has fired. -/
theorem length_mem_turnsOf {rest : List (Nat × TimerTask)}
    (all : fired ++ rest = p.course actions) :
    actions.length ∈ turnsOf fired ↔ (p.finish actions, .advance actions.length) ∈ fired := by
  constructor
  · intro completed
    obtain ⟨d, mem⟩ := mem_turnsOf.1 completed
    have due := due_of_turn (all ▸ List.mem_append_left rest mem)
    have turns : (p.turns actions).take actions.length = p.turns actions :=
      List.take_of_length_le (Nat.le_of_eq (length_timeline _ _ _ _))
    rw [turns] at due
    rw [due] at mem
    exact mem
  · intro mem
    exact mem_turnsOf.2 ⟨_, mem⟩

omit [Sink σ] in
theorem completed_before {e : Nat × TimerTask} {rest : List (Nat × TimerTask)}
    (all : fired ++ e :: rest = p.course actions) {op : TerminalOp} (task : e.2 = .emit op) :
    actions.length ∈ turnsOf fired ↔ p.finish actions < e.1 := by
  constructor
  · intro completed
    exact (due_of_mem all completed e List.mem_cons_self).1
  · intro later
    apply Decidable.by_contra
    intro incomplete
    rcases List.mem_cons.1 (mem_of_not_completed all incomplete) with rfl | mem
    · cases task
    · exact Nat.not_lt.2 (le_of_course all _ mem) later

omit [Sink σ] in
theorem completed_in_time {rest : List (Nat × TimerTask)} {limit : Nat}
    (all : fired ++ rest = p.course actions) (due : ∀ e ∈ fired, Time.ceilMillis e.1 ≤ limit)
    (late : ∀ e ∈ rest, limit < Time.ceilMillis e.1) :
    actions.length ∈ turnsOf fired ↔ Time.ceilMillis (p.finish actions) ≤ limit := by
  constructor
  · intro completed
    exact due _ ((length_mem_turnsOf all).1 completed)
  · intro le
    apply Decidable.by_contra
    intro incomplete
    exact Nat.not_lt.2 le (late _ (mem_of_not_completed all incomplete))

omit [Sink σ] in
/-- What is due in time of the script are the operations that fired. -/
theorem filter_script {rest : List (Nat × TimerTask)} {limit : Nat}
    (all : fired ++ rest = p.course actions) (due : ∀ e ∈ fired, Time.ceilMillis e.1 ≤ limit)
    (late : ∀ e ∈ rest, limit < Time.ceilMillis e.1) :
    (p.script actions).filter (·.ms ≤ limit) = recordsOf fired := by
  rw [← recordsOf_course, ← all, recordsOf_append, List.filter_append, filter_recordsOf_due due,
    filter_recordsOf_late late, List.append_nil]

omit [Sink σ] in
/-- What is due in time of the script is a beginning of it. -/
theorem filter_script_isPrefix (p : Playback σ) (actions : List Action) (limit : Nat) :
    (p.script actions).filter (·.ms ≤ limit) <+: p.script actions := by
  obtain ⟨a, b, all, due, late⟩ := (inOrder_course p actions).exists_split limit
  rw [filter_script all.symm due late, ← recordsOf_course, all, recordsOf_append]
  exact List.prefix_append _ _

omit [Sink σ] in
/-- A timer of a run is late if the end of the scenario is, or an operation. -/
theorem exists_late {limit : Nat} :
    (∃ e ∈ p.course actions, limit < Time.ceilMillis e.1) ↔
      limit < Time.ceilMillis (p.finish actions) ∨ ∃ r ∈ p.script actions, limit < r.ms := by
  rw [← recordsOf_course]
  constructor
  · rintro ⟨⟨d, task⟩, mem, late⟩
    cases task with
    | emit op => exact .inr ⟨⟨Time.ceilMillis d, op⟩, mem_recordsOf.2 ⟨d, mem, rfl⟩, late⟩
    | advance index =>
      refine .inl (Nat.lt_of_lt_of_le late (Time.ceilMillis_mono ?_))
      rw [show d = _ from due_of_turn mem, finish]
      exact Nat.add_le_add_left (elapsed_take_le _ _) _
  · rintro (late | ⟨r, mem, late⟩)
    · obtain ⟨a, b, all, -, -⟩ := exists_course p actions
      exact ⟨_, all ▸ List.mem_append_right a List.mem_cons_self, late⟩
    · obtain ⟨d, mem, same⟩ := mem_recordsOf.1 mem
      exact ⟨_, mem, same ▸ late⟩

/-! ## Interrupted runs -/

/-- What an interrupted run leaves. It has handed over some records; and it has signalled
completion if the turn past the last action had fired, and is otherwise idle with an empty
queue. -/
structure Interrupted (p : Playback σ) (actions : List Action) (cancel : Option Nat)
    (handed : List Record) (completed : Prop) (ending : Ending) (q : Playback σ) : Prop where
  trace : ∃ fired c, p.Ends (p.runOf actions cancel) fired (.ok (ending, c)) ∧ q = after c ∧
    recordsOf fired = handed ∧ (actions.length ∈ turnsOf fired ↔ completed)
  signalled : completed → p.Signalled (p.reportOn actions) q
  unsignalled : ¬ completed → p.Unsignalled q

theorem interrupted_of_ends {ending : Ending} {handed : List Record} {completed : Prop}
    (ends : p.Ends (p.runOf actions cancel) fired (.ok (ending, q)))
    (fresh : p.player.Fresh actions) (records : recordsOf fired = handed)
    (iff : actions.length ∈ turnsOf fired ↔ completed) :
    p.Interrupted actions cancel handed completed ending (after q) := by
  obtain ⟨signalled, unsignalled⟩ := signals_of_ends ends fresh
  exact ⟨⟨fired, q, ends, rfl, records, iff⟩, fun h => signalled (iff.2 h),
    fun h => unsignalled (mt iff.1 h)⟩

/-- The sink fails at an operation: the run names it and has handed over those before it. -/
theorem run_of_fault (fresh : p.player.Fresh actions)
    (sound : ∀ a ∈ actions, Defect.of? a = none) (fits : ∀ t ∈ p.turns actions, t.overflow? = none)
    {before behind : List (Nat × TerminalOp)} {x : Nat × TerminalOp} {s s' : σ} {fault : SinkFault}
    (split : before ++ x :: behind = schedule (p.turns actions))
    (fed : Sink.feed p.sink (before.map punctual) = (s, none))
    (taken : Sink.take s (Time.ceilMillis x.1) x.2 = (s', some fault)) :
    ∃ q, p.run none = .ok (.sinkFailed x.2 fault, q) ∧ q.sink = s' ∧
      p.Interrupted actions none (before.map punctual) (p.finish actions < x.1)
        (.sinkFailed x.2 fault) q := by
  obtain ⟨fired, outcome, ends, ran⟩ := run_ends fresh.loaded none
  cases halts_of_ends ends fresh with
  | finished fed' =>
    have fed' : Sink.feed p.sink (recordsOf (p.course actions)) = _ := fed'
    rw [recordsOf_course, script, ← split, List.map_append, List.map_cons,
      Sink.feed_append_fault (r := punctual x) fed taken] at fed'
    cases fed'
  | cancelled _ limited => cases limited
  | @sinkFailed _ d op rest s₂ q fault' all inTime fed' taken' =>
    have all : fired ++ (d, .emit op) :: rest = p.course actions := all
    have same := split
    rw [← keep_op?_course, ← all, keep_append, keep_cons_some (f := TimerTask.op?) rfl] at same
    obtain ⟨rfl, rfl⟩ := Sink.place_of_fault same fed taken fed' taken'
    obtain rfl : s = s₂ := congrArg Prod.fst (fed.symm.trans fed')
    injection taken.symm.trans taken' with sinks faults
    injection faults with faults
    subst faults
    exact ⟨after q, ran, sinks.symm, interrupted_of_ends ends fresh rfl (completed_before all rfl)⟩
  | malformed _ _ action defective =>
    rw [sound _ (List.mem_of_getElem? action)] at defective
    cases defective
  | overflow _ _ _ turn exceeds =>
    rw [fits _ (List.mem_of_getElem? turn)] at exceeds
    cases exceeds

/-- A run that is given up has handed over what was due by then; with nothing left to wait
for, it ends as if nobody had given it up. -/
theorem run_of_cancel (fresh : p.player.Fresh actions)
    (sound : ∀ a ∈ actions, Defect.of? a = none) (fits : ∀ t ∈ p.turns actions, t.overflow? = none)
    {ms : Nat} {s : σ}
    (fed : Sink.feed p.sink ((p.script actions).filter (·.ms ≤ p.clock + ms)) = (s, none)) :
    ∃ ending q, p.run (some ms) = .ok (ending, q) ∧ q.sink = s ∧
      ((∃ e ∈ p.course actions, p.clock + ms < Time.ceilMillis e.1) →
        ending = .cancelled ∧ q.clock = p.clock + ms) ∧
      ((∀ e ∈ p.course actions, Time.ceilMillis e.1 ≤ p.clock + ms) →
        ending = .finished (p.reportOn actions)) ∧
      p.Interrupted actions (some ms) ((p.script actions).filter (·.ms ≤ p.clock + ms))
        (Time.ceilMillis (p.finish actions) ≤ p.clock + ms) ending q := by
  obtain ⟨fired, outcome, ends, ran⟩ := run_ends fresh.loaded (some ms)
  have due : ∀ e ∈ fired, Time.ceilMillis e.1 ≤ p.clock + ms := fun e he =>
    inTime_runOf.1 (ends.inTime e he)
  cases halts_of_ends ends fresh with
  | @finished q fed' =>
    have all : p.course actions ++ [] = p.course actions := List.append_nil _
    have late : ∀ e ∈ ([] : List (Nat × TimerTask)), p.clock + ms < Time.ceilMillis e.1 := by simp
    have records := filter_script all due late
    rw [records] at fed
    refine ⟨_, after q, ran, congrArg Prod.fst (fed'.symm.trans fed), ?_, fun _ => rfl,
      interrupted_of_ends ends fresh records.symm (completed_in_time all due late)⟩
    rintro ⟨e, he, late⟩
    exact absurd late (Nat.not_lt.2 (due e he))
  | @cancelled _ e rest q all limited late fed' =>
    have all : fired ++ e :: rest = p.course actions := all
    have clock : q.clock = p.clock + ms := Option.some.inj limited.symm
    have first : p.clock + ms < Time.ceilMillis e.1 := clock ▸ late
    have late : ∀ x ∈ e :: rest, p.clock + ms < Time.ceilMillis x.1 := by
      refine List.forall_mem_cons.2 ⟨first, fun x hx => ?_⟩
      exact Nat.lt_of_lt_of_le first (Time.ceilMillis_mono (le_of_course all x hx))
    have records := filter_script all due late
    rw [records] at fed
    refine ⟨_, after q, ran, congrArg Prod.fst (fed'.symm.trans fed),
      fun _ => ⟨rfl, clock⟩, ?_,
      interrupted_of_ends ends fresh records.symm (completed_in_time all due late)⟩
    intro early
    have mem : e ∈ p.course actions := all ▸ List.mem_append_right fired List.mem_cons_self
    exact absurd first (Nat.not_lt.2 (early e mem))
  | @sinkFailed _ d op rest s₂ q fault all inTime fed' taken =>
    have all : fired ++ (d, .emit op) :: rest = p.course actions := all
    have early : Time.ceilMillis d ≤ p.clock + ms := inTime_runOf.1 inTime
    rw [← recordsOf_course, ← all, recordsOf_append, recordsOf_emit, List.filter_append,
      filter_recordsOf_due due, List.filter_cons_of_pos (by exact decide_eq_true early),
      Sink.feed_append_fault fed' taken] at fed
    cases fed
  | malformed _ _ action defective =>
    rw [sound _ (List.mem_of_getElem? action)] at defective
    cases defective
  | overflow _ _ _ turn exceeds =>
    rw [fits _ (List.mem_of_getElem? turn)] at exceeds
    cases exceeds

/-- The playback with an empty recorder for its sink, which takes everything. -/
def recorded (p : Playback σ) : Playback Recorder :=
  ⟨p.player, .new none none, p.clock, p.signals⟩

/-- **An interrupted run is a beginning of the uninterrupted one**, whose records a recorder
shows. A sink that fails at an operation has taken those before it. A run that is given up has
handed over what was due by then, and ends as usual if nothing was left to wait for. The
scenario is complete if its end came before the interruption. -/
theorem run_interrupted {p : Playback σ} {actions : List Action}
    (sound : ∀ a ∈ actions, Defect.of? a = none)
    (fits : ∀ t ∈ p.turns actions, t.overflow? = none) :
    (∃ q, (p.recorded.withPlayer (·.load actions)).run none =
        .ok (.finished (p.reportOn actions), q) ∧ q.sink.log.toList = p.script actions) ∧
    (∀ k d op s s' fault, (schedule (p.turns actions))[k]? = some (d, op) →
      Sink.feed p.sink ((p.script actions).take k) = (s, none) →
      Sink.take s (Time.ceilMillis d) op = (s', some fault) →
      ∃ q, (p.withPlayer (·.load actions)).run none = .ok (.sinkFailed op fault, q) ∧
        q.sink = s' ∧
        (p.withPlayer (·.load actions)).Interrupted actions none ((p.script actions).take k)
          (p.finish actions < d) (.sinkFailed op fault) q) ∧
    ∀ ms, (p.script actions).filter (·.ms ≤ p.clock + ms) <+: p.script actions ∧
      ∀ s, Sink.feed p.sink ((p.script actions).filter (·.ms ≤ p.clock + ms)) = (s, none) →
        ∃ ending q, (p.withPlayer (·.load actions)).run (some ms) = .ok (ending, q) ∧
          q.sink = s ∧
          ending = (if p.clock + ms < Time.ceilMillis (p.finish actions) ∨
            ∃ r ∈ p.script actions, p.clock + ms < r.ms then .cancelled
            else .finished (p.reportOn actions)) ∧
          (p.withPlayer (·.load actions)).Interrupted actions (some ms)
            ((p.script actions).filter (·.ms ≤ p.clock + ms))
            (Time.ceilMillis (p.finish actions) ≤ p.clock + ms) ending q := by
  have fresh := p.player.fresh_load actions
  refine ⟨?_, ?_, ?_⟩
  · obtain ⟨r, fed, log⟩ := Recorder.feed_unlimited (r := .new none none) rfl rfl (p.script actions)
    obtain ⟨q, ran, sink, -⟩ := run_of_undisturbed (p := p.recorded) ⟨sound, fits, fed⟩
    exact ⟨q, ran, by rw [sink, log]; rfl⟩
  · intro k d op s s' fault place fed taken
    have before : (p.script actions).take k = ((schedule (p.turns actions)).take k).map punctual :=
      List.map_take.symm
    obtain ⟨lt, get⟩ := List.getElem?_eq_some_iff.1 place
    have split := List.take_append_drop k (schedule (p.turns actions))
    rw [List.drop_eq_getElem_cons lt, get] at split
    rw [before] at fed ⊢
    exact run_of_fault (p := p.withPlayer (·.load actions)) fresh sound fits split fed taken
  · intro ms
    refine ⟨filter_script_isPrefix p actions _, ?_⟩
    intro s fed
    obtain ⟨ending, q, ran, sink, late, early, interrupted⟩ :=
      run_of_cancel (p := p.withPlayer (·.load actions)) fresh sound fits fed
    refine ⟨ending, q, ran, sink, ?_, interrupted⟩
    split
    · next pending => exact (late (exists_late.2 pending)).1
    · next none =>
      refine early fun e he => Nat.le_of_not_lt fun pending => none (exists_late.1 ⟨e, he, pending⟩)

/-- A scroll that fails in its last line, when the scenario is complete, and one that is given
up in the middle of it. -/
theorem interrupted_scroll :
    let actions := [Action.scroll 12]
    let p : Playback Recorder :=
      (Playback.new .default (Recorder.new (some 11) none)).withPlayer (·.listen ['a'])
    (∃ q, (p.withPlayer (·.load actions)).run none = .ok (.sinkFailed (.scroll 1) .closed, q) ∧
      q.sink.log.size = 11 ∧ q.signals = [(['a'], p.reportOn actions)]) ∧
    ∃ q, (p.withPlayer (·.load actions)).run (some 55) = .ok (.cancelled, q) ∧
      q.sink.log.size = 5 ∧ q.signals = [] := by
  intro actions p
  have sound : ∀ a ∈ actions, Defect.of? a = none := by decide
  have fits : ∀ t ∈ p.turns actions, t.overflow? = none := by decide
  obtain ⟨-, failing, cancelling⟩ := run_interrupted sound fits
  refine ⟨?_, ?_⟩
  · have place : (schedule (p.turns actions))[11]? = some (Time.ofMillis 120, .scroll 1) := by
      rw [schedule, arrange_eq_foldl]
      decide
    have taken : (Sink.feed p.sink ((p.script actions).take 11)).2 = none ∧
        (Sink.take (Sink.feed p.sink ((p.script actions).take 11)).1 120 (.scroll 1)).2 =
          some .closed := by
      rw [script, schedule, arrange_eq_foldl]
      decide
    obtain ⟨q, ran, sink, -, signalled, -⟩ :=
      failing 11 _ _ _ _ _ place (Prod.ext rfl taken.1) (Prod.ext rfl taken.2)
    refine ⟨q, ran, ?_, (signalled (by decide)).signals⟩
    rw [sink, script, schedule, arrange_eq_foldl]
    decide
  · obtain ⟨-, given⟩ := cancelling 55
    have taken : (Sink.feed p.sink ((p.script actions).filter (·.ms ≤ 55))).2 = none := by
      rw [script, schedule, arrange_eq_foldl]
      decide
    obtain ⟨ending, q, ran, sink, ended, -, -, unsignalled⟩ := given _ (Prod.ext rfl taken)
    rw [if_pos (.inl (by decide))] at ended
    refine ⟨q, ended ▸ ran, ?_, (unsignalled (by decide)).signals⟩
    rw [sink, script, schedule, arrange_eq_foldl]
    decide

end Playback

end TermScene
