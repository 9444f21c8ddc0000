import TermScene.Proofs.Playback.Interruption

/-!
# Runs after other runs

A run depends on its actions and its setup only. Loading forgets what earlier runs have left,
and a run that begins later has the same course with every deadline later by as much
(`Later.course`). So whatever a player has been through, it hands over what a new player
hands over and ends in the same way (`run_as_new`).
-/

namespace TermScene

open Agenda

/-! ## The course of a later run -/

def Turn.later (ns : Nat) (t : Turn) : Turn := ⟨ns + t.start, t.plan⟩

theorem Turn.timers_later (ns index : Nat) (t : Turn) :
    (t.later ns).timers index = Agenda.later ns (t.timers index) := by
  have emissions : (t.later ns).emissions = Agenda.later ns t.emissions := by
    rw [emissions, emissions, Agenda.later, List.map_map]
    exact List.map_congr_left fun x _ => Prod.ext (Nat.add_assoc ns t.start x.1) rfl
  rw [timers, timers, Agenda.later_append, emissions, Agenda.later, Agenda.later, List.map_map,
    List.map_map, finish, Turn.later, Nat.add_assoc]
  rfl

theorem timeline_later (ns : Nat) (config : Config) (s : State) (start : Nat)
    (actions : List Action) :
    timeline config s (ns + start) actions =
      (timeline config s start actions).map (·.later ns) := by
  induction actions generalizing s start with
  | nil => rfl
  | cons a more ih =>
    rw [timeline, timeline, List.map_cons, Nat.add_assoc, ih]
    rfl

theorem timers_later (ns index : Nat) (turns : List Turn) :
    timers index (turns.map (·.later ns)) = later ns (timers index turns) := by
  induction turns generalizing index with
  | nil => rfl
  | cons t more ih => rw [List.map_cons, timers, timers, Turn.timers_later, ih, later_append]

theorem programme_later (ns : Nat) (config : Config) (start : Nat) (actions : List Action) :
    programme config (ns + start) actions = later ns (programme config start actions) := by
  rw [programme, programme, timeline_later, timers_later]
  rfl

theorem elapsed_later (ns : Nat) (turns : List Turn) :
    elapsed (turns.map (·.later ns)) = elapsed turns := by
  induction turns with
  | nil => rfl
  | cons t more ih => rw [List.map_cons, elapsed, elapsed, ih]; rfl

/-- What overflows at no later instant overflows at no earlier one. -/
theorem Plan.overflow?_of_le {plan : Plan} {now later : Nat} (le : now ≤ later)
    (fits : plan.overflow? later = none) : plan.overflow? now = none := by
  obtain ⟨steps, next⟩ := overflow?_eq_none_iff.1 fits
  refine overflow?_eq_none_iff.2 ⟨fun step mem => ?_, by omega⟩
  have fits := steps step mem
  cases step with
  | emit offset op =>
    rw [Step.overflow?_emit_eq_none_iff] at fits ⊢
    omega
  | hold => exact fits

theorem turnsOf_later (ns : Nat) (l : List (Nat × TimerTask)) :
    turnsOf (later ns l) = turnsOf l := by
  rw [turnsOf, later, List.filterMap_map]
  rfl

def Record.later (ms : Nat) (r : Record) : Record := ⟨ms + r.ms, r.op⟩

theorem recordsOf_later (ms : Nat) (l : List (Nat × TimerTask)) :
    recordsOf (later (Time.ofMillis ms) l) = (recordsOf l).map (·.later ms) := by
  rw [recordsOf, recordsOf, later, keep_map, List.map_map, List.map_map]
  exact List.map_congr_left fun x _ =>
    congrArg (fun due => Record.mk due x.2) (Time.ceilMillis_ofMillis_add ms x.1)

namespace Playback

variable {σ τ : Type}

/-- A playback with the setup of another one, and with a clock that is ahead. -/
structure Later (ms : Nat) (f : Playback τ) (p : Playback σ) : Prop where
  config : p.player.config = f.player.config
  clock : p.clock = ms + f.clock

namespace Later

variable {ms : Nat} {f : Playback τ} {p : Playback σ}

theorem start (h : Later ms f p) :
    Time.ofMillis p.clock = Time.ofMillis ms + Time.ofMillis f.clock := by
  rw [h.clock]
  exact Nat.add_mul _ _ _

theorem turns (h : Later ms f p) (actions : List Action) :
    p.turns actions = (f.turns actions).map (·.later (Time.ofMillis ms)) := by
  rw [Playback.turns, h.start, h.config, timeline_later]
  rfl

theorem course (h : Later ms f p) (actions : List Action) :
    p.course actions = Agenda.later (Time.ofMillis ms) (f.course actions) := by
  rw [Playback.course, h.start, h.config, programme_later, arrange_later]
  rfl

theorem reportOn (h : Later ms f p) (actions : List Action) :
    p.reportOn actions = f.reportOn actions := by
  rw [Playback.reportOn, h.turns, elapsed_later, h.config]
  rfl

/-- A turn that fits into a later run fits into an earlier one. -/
theorem fits (h : Later ms f p) {actions : List Action} {i : Nat} {t : Turn}
    (turn : (f.turns actions)[i]? = some t)
    (fits : ∀ t, (p.turns actions)[i]? = some t → t.overflow? = none) : t.overflow? = none := by
  refine Plan.overflow?_of_le (Nat.le_add_left t.start (Time.ofMillis ms)) (fits (t.later _) ?_)
  rw [h.turns, List.getElem?_map, turn]
  rfl

end Later

/-! ## Which turns go on -/

variable [Sink σ] {p : Playback σ} {actions : List Action} {cancel : Option Nat}
  {fired : List (Nat × TimerTask)} {q : Performance σ}

/-- An action can be dispatched when its turn comes: it has no defect and its times can be held. -/
def GoesOn (p : Playback σ) (actions : List Action) (index : Nat) : Prop :=
  ∀ a, actions[index]? = some a → Defect.of? a = none ∧
    ∀ t, (p.turns actions)[index]? = some t → t.overflow? = none

theorem Due.goesOn {c r : Performance σ} {index now : Nat} (due : p.Due actions fired c index now)
    (advance : c.Advance (p.runOf actions cancel) index now (.more r)) :
    p.GoesOn actions index := by
  intro a action
  cases advance with
  | completed none => cases none.symm.trans action
  | @dispatched b action' sound fits =>
    obtain rfl : a = b := Option.some.inj (action.symm.trans action')
    refine ⟨sound, fun t turn => ?_⟩
    obtain rfl := Option.some.inj ((due.plan a action).symm.trans turn)
    exact fits

/-- Every turn that fired has gone on. -/
theorem Reaches.goesOn (reached : p.Reaches (p.runOf actions cancel) fired q)
    (fresh : p.player.Fresh actions) : ∀ index ∈ turnsOf fired, p.GoesOn actions index := by
  induction reached using Reaches.induction with
  | opening more advance => exact List.forall_mem_singleton.2 ((due_opening fresh).goesOn advance)
  | emitted reached pop inTime task taken more ih =>
    rw [turnsOf_append, Timer.entry, task]
    exact List.forall_mem_append.2 ⟨ih, by simp [turnsOf, TimerTask.turn?]⟩
  | turn reached pop inTime task advance more ih =>
    rw [turnsOf_append, Timer.entry, task]
    exact List.forall_mem_append.2
      ⟨ih, List.forall_mem_singleton.2 ((reached.due fresh pop task).goesOn advance)⟩

theorem Ends.goesOn {outcome : Except Overflow (Ending × Performance σ)}
    (ends : p.Ends (p.runOf actions cancel) fired outcome) (fresh : p.player.Fresh actions) :
    ∀ index ∈ turnsOf fired, p.GoesOn actions index := by
  cases ends with
  | opening => exact fun index mem => by cases mem
  | loop reached => exact reached.goesOn fresh

omit [Sink σ] in
/-- The turns before the turn of an action are those of the actions before it. -/
theorem turnsOf_front {d index : Nat} {rest : List (Nat × TimerTask)}
    (all : fired ++ (d, .advance index) :: rest = p.course actions) :
    turnsOf fired = List.range index := by
  have turns : turnsOf fired ++ index :: turnsOf rest = List.range (actions.length + 1) := by
    rw [← turnsOf_course (p := p), ← all, turnsOf_append]
    rfl
  rw [List.range_eq_range'] at turns ⊢
  obtain ⟨k, -, front, back⟩ := List.range'_eq_append_iff.1 turns.symm
  obtain ⟨same, -⟩ := List.range'_eq_cons_iff.1 back.symm
  rw [front, ← same, Nat.zero_add, Nat.mul_one]

omit [Sink σ] in
/-- What fires before a turn is the same in every split there. -/
theorem front_unique {l l' m m' : List (Nat × TimerTask)} {d d' index : Nat}
    (same : l ++ (d, .advance index) :: m = l' ++ (d', .advance index) :: m')
    (before : index ∉ turnsOf l) (before' : index ∉ turnsOf l') : l = l' := by
  have mem (l c : List (Nat × TimerTask)) (d : Nat) :
      index ∈ turnsOf (l ++ (d, .advance index) :: c) :=
    mem_turnsOf.2 ⟨d, List.mem_append_right _ List.mem_cons_self⟩
  refine (split_unique same ?_ ?_).1
  · rintro c rfl
    exact before' (mem _ _ _)
  · rintro c rfl
    exact before (mem _ _ _)

/-! ## Two runs through the same actions -/

theorem Halts.fed {run : Run} {ending : Ending} (halts : p.Halts run fired (.ok (ending, q)))
    (unfailing : ∀ op fault, ending ≠ .sinkFailed op fault) : p.Fed fired q.sink := by
  cases halts with
  | finished fed => exact fed
  | cancelled _ _ _ fed => exact fed
  | sinkFailed => exact absurd rfl (unfailing _ _)
  | malformed _ fed => exact fed

/-- What a run hands over is a beginning of its script, whatever becomes of it. -/
theorem handed_of_run (fresh : p.player.Fresh actions) {ending : Ending} {q : Playback σ}
    (ran : p.run cancel = .ok (ending, q)) :
    ∃ handed, handed <+: p.script actions ∧ (Sink.feed p.sink handed).1 = q.sink := by
  obtain ⟨fired, c, ends, rfl⟩ := ends_of_run fresh.loaded ran
  have front {l rest : List (Nat × TimerTask)} (all : l ++ rest = p.course actions) :
      recordsOf l <+: p.script actions := by
    rw [← recordsOf_course, ← all, recordsOf_append]
    exact List.prefix_append _ _
  cases halts_of_ends ends fresh with
  | finished fed => exact ⟨_, front (List.append_nil _), congrArg Prod.fst fed⟩
  | cancelled all _ _ fed => exact ⟨_, front all, congrArg Prod.fst fed⟩
  | @sinkFailed _ d op rest _ _ _ all _ fed taken =>
    have all : (fired ++ [(d, .emit op)]) ++ rest = p.course actions := by
      rw [List.append_assoc]
      exact all
    refine ⟨_, front all, ?_⟩
    rw [recordsOf_append, recordsOf_emit, Sink.feed_append_fault fed taken]
    rfl
  | malformed all fed => exact ⟨_, front all, congrArg Prod.fst fed⟩

/-- The state a run leaves behind is that of the actions which have had their turn. -/
theorem state_of_ends {ending : Ending}
    (ends : p.Ends (p.runOf actions cancel) fired (.ok (ending, q)))
    (fresh : p.player.Fresh actions) :
    (after q).player.state =
      (actions.take (turnsOf fired).length).foldl State.after (.initial p.player.config) := by
  have same : (after q).player.state = q.player.state := by
    unfold after Player.release
    cases q.player.phase <;> rfl
  rw [same]
  rcases ends.cases_ok with ⟨rfl, advance⟩ | ⟨c, reached, step⟩
  · cases advance with
    | malformed => exact fresh.state
  · obtain ⟨player, -⟩ := step.frame
    rw [player]
    exact reached.state fresh

/-- A run whose turns all go on finishes. -/
theorem Halts.finished_of_goesOn {outcome : Except Overflow (Ending × Performance σ)}
    (halts : p.Halts (p.runOf actions none) fired outcome)
    (unfailing : ∀ op fault r, outcome ≠ .ok (.sinkFailed op fault, r))
    (goesOn : ∀ index, p.GoesOn actions index) :
    fired = p.course actions ∧ ∃ r, outcome = .ok (.finished (p.reportOn actions), r) := by
  cases halts with
  | finished => exact ⟨rfl, _, rfl⟩
  | cancelled _ limited => cases limited
  | sinkFailed => exact absurd rfl (unfailing _ _ _)
  | malformed _ _ action defective => cases (goesOn _ _ action).1.symm.trans defective
  | overflow _ action _ planned exceeds =>
    cases ((goesOn _ _ action).2 _ planned).symm.trans exceeds

/-- A run whose turns go on up to that of an action with a defect stops there. -/
theorem Halts.malformed_of_goesOn {outcome : Except Overflow (Ending × Performance σ)}
    (halts : p.Halts (p.runOf actions none) fired outcome)
    (unfailing : ∀ op fault r, outcome ≠ .ok (.sinkFailed op fault, r))
    (goesOn : ∀ index ∈ turnsOf fired, p.GoesOn actions index) {index : Nat} {a : Action}
    {defect : Defect} (action : actions[index]? = some a) (defective : Defect.of? a = some defect)
    (before : ∀ i < index, p.GoesOn actions i) :
    ∃ d rest r, fired ++ (d, .advance index) :: rest = p.course actions ∧
      outcome = .ok (.malformed index a.keyword defect, r) := by
  have stops : index ∉ turnsOf fired := fun mem => by
    cases (goesOn _ mem _ action).1.symm.trans defective
  -- a turn that does not go on comes neither before that of the action nor after it
  have same {d index' : Nat} {rest : List (Nat × TimerTask)}
      (course : fired ++ (d, .advance index') :: rest = p.course actions)
      (fails : ¬ p.GoesOn actions index') : index = index' := by
    rw [turnsOf_front course, List.mem_range] at stops
    have late := mt (before index') fails
    omega
  cases halts with
  | finished =>
    have stops : index ∉ turnsOf (p.course actions) := stops
    rw [turnsOf_course, List.mem_range] at stops
    have lt := (List.getElem?_eq_some_iff.1 action).1
    omega
  | cancelled _ limited => cases limited
  | sinkFailed => exact absurd rfl (unfailing _ _ _)
  | malformed course _ action' defective' =>
    obtain rfl := same course fun goes => by cases (goes _ action').1.symm.trans defective'
    obtain rfl := Option.some.inj (action.symm.trans action')
    obtain rfl := Option.some.inj (defective.symm.trans defective')
    exact ⟨_, _, _, course, rfl⟩
  | overflow course action' sound planned exceeds =>
    obtain rfl := same course fun goes => by
      cases ((goes _ action').2 _ planned).symm.trans exceeds
    obtain rfl := Option.some.inj (action.symm.trans action')
    cases sound.symm.trans defective

variable [Sink τ] {ms : Nat} {f : Playback τ} {done : List (Nat × TimerTask)}

omit [Sink σ] [Sink τ] in
theorem Later.goesOn (later : Later ms f p) {index : Nat} (goesOn : p.GoesOn actions index) :
    f.GoesOn actions index :=
  fun a action => ⟨(goesOn a action).1, fun _ planned => later.fits planned (goesOn a action).2⟩

/-- A run halts where an earlier one through the same actions halts, if neither sink fails. -/
theorem Later.halts (later : Later ms f p) (fresh : p.player.Fresh actions)
    (fresh' : f.player.Fresh actions) {ending : Ending}
    (ends : p.Ends (p.runOf actions none) fired (.ok (ending, q)))
    (unfailing : ∀ op fault, ending ≠ .sinkFailed op fault)
    {outcome : Except Overflow (Ending × Performance τ)}
    (ends' : f.Ends (f.runOf actions none) done outcome)
    (unfailing' : ∀ op fault r, outcome ≠ .ok (.sinkFailed op fault, r)) :
    fired = Agenda.later (Time.ofMillis ms) done ∧ ∃ r, outcome = .ok (ending, r) := by
  have goesOn := ends.goesOn fresh
  have halts' := halts_of_ends ends' fresh'
  cases halts_of_ends ends fresh with
  | finished =>
    have goesOn : ∀ index ∈ turnsOf (p.course actions), p.GoesOn actions index := goesOn
    have all (index : Nat) : p.GoesOn actions index := by
      intro a action
      have lt := (List.getElem?_eq_some_iff.1 action).1
      rw [turnsOf_course] at goesOn
      exact goesOn index (List.mem_range.2 (Nat.lt_succ_of_lt lt)) a action
    obtain ⟨rfl, r, rfl⟩ :=
      halts'.finished_of_goesOn unfailing' fun index => later.goesOn (all index)
    exact ⟨later.course actions, r, by rw [← later.reportOn]; rfl⟩
  | cancelled _ limited => cases limited
  | sinkFailed => exact absurd rfl (unfailing _ _)
  | @malformed _ d index rest _ _ _ course _ action defective =>
    have course : fired ++ (d, .advance index) :: rest = p.course actions := course
    have order := turnsOf_front course
    rw [order] at goesOn
    obtain ⟨d', rest', r, course', rfl⟩ := halts'.malformed_of_goesOn unfailing'
      (ends'.goesOn fresh') action defective
      fun i lt => later.goesOn (goesOn i (List.mem_range.2 lt))
    have order' := turnsOf_front course'
    rw [← turnsOf_later (Time.ofMillis ms)] at order'
    rw [later.course, ← course', later_append] at course
    exact ⟨front_unique course (by simp [order]) (by simp [order']), r, rfl⟩

/-- What a run without a fault has given to an empty recorder, a later one gives to its sink. -/
theorem Later.run (later : Later ms f p) (fresh : p.player.Fresh actions)
    (fresh' : f.player.Fresh actions) {ending : Ending} {q : Playback σ}
    (ran : p.run none = .ok (ending, q)) (unfailing : ∀ op fault, ending ≠ .sinkFailed op fault)
    (unlimited : ∀ l, (Sink.feed f.sink l).2 = none) :
    ∃ fed r, f.run none = .ok (ending, r) ∧ Sink.feed f.sink fed = (r.sink, none) ∧
      Sink.feed p.sink (fed.map (·.later ms)) = (q.sink, none) ∧
      q.player.phase = r.player.phase ∧ q.player.state = r.player.state := by
  obtain ⟨fired, c, ends, rfl⟩ := ends_of_run fresh.loaded ran
  obtain ⟨done, outcome, ends', ran'⟩ := run_ends fresh'.loaded none
  have unfailing' := (halts_of_ends ends' fresh').ne_sinkFailed unlimited
  obtain ⟨rfl, c', rfl⟩ := later.halts fresh fresh' ends unfailing ends' unfailing'
  have fed' : Sink.feed f.sink (recordsOf done) = (c'.sink, none) :=
    (halts_of_ends ends' fresh').fed unfailing
  have fed : Sink.feed p.sink (recordsOf (Agenda.later (Time.ofMillis ms) done)) = (c.sink, none) :=
    (halts_of_ends ends fresh).fed unfailing
  rw [recordsOf_later] at fed
  refine ⟨recordsOf done, after c', ran', fed', fed, ?_, ?_⟩
  · obtain ⟨signalled, unsignalled⟩ := signals_of_ends ends fresh
    obtain ⟨signalled', unsignalled'⟩ := signals_of_ends ends' fresh'
    rw [turnsOf_later] at signalled unsignalled
    by_cases completed : actions.length ∈ turnsOf done
    · exact (signalled completed).phase.trans (signalled' completed).phase.symm
    · exact (unsignalled completed).phase.trans (unsignalled' completed).phase.symm
  · have state := state_of_ends ends fresh
    rw [turnsOf_later, later.config, ← state_of_ends ends' fresh'] at state
    exact state

end Playback

/-! ## Sessions -/

/-- A command that gives the player something to play. -/
def Command.Loads : Command → Prop
  | .load _ => True
  | .play _ _ => True
  | _ => False

namespace Playback

variable {σ : Type} [Sink σ]

/-- Without a load nothing comes to be loaded. -/
theorem unloaded_of_leads {p q : Playback σ} (unloaded : p.player.loaded = none)
    {commands : List Command} (led : p.Leads commands q)
    (quiet : ∀ command ∈ commands, ¬ command.Loads) : q.player.loaded = none := by
  induction led with
  | start => exact unloaded
  | perform led performed ih =>
    obtain ⟨quiet, last⟩ := List.forall_mem_append.1 quiet
    have unloaded := ih quiet
    have last := List.forall_mem_singleton.1 last
    cases perform_cases performed with
    | listen name => exact unloaded
    | sleep ms => exact unloaded
    | load actions => exact absurd trivial last
    | run ran =>
      rw [run_of_unloaded unloaded] at ran
      injection ran with ran
      injection ran with _ same
      exact same ▸ unloaded
    | play ran => exact absurd trivial last

/-- **Nothing of a run gets into a later one.** Whatever a player has been through, a scenario
that it loads and runs comes out as with a new player: the same operations as long after the
start of the run, the same ending and report, the same phase and state. If that run is
interrupted, what it has handed over is still a beginning of its own script. And a run leaves
nothing loaded, so that a further run has no scenario and changes nothing. -/
theorem run_as_new {config : Config} {s : σ} {p : Playback σ} (history : Reachable config s p) :
    (∀ actions ending q, (p.withPlayer (·.load actions)).run none = .ok (ending, q) →
      (∀ op fault, ending ≠ .sinkFailed op fault) →
      ∃ r, ((Playback.new config (Recorder.new none none)).withPlayer (·.load actions)).run none =
          .ok (ending, r) ∧
        Sink.feed p.sink (r.sink.log.toList.map (·.later p.clock)) = (q.sink, none) ∧
        q.player.phase = r.player.phase ∧ q.player.state = r.player.state) ∧
    (∀ actions cancel ending q, (p.withPlayer (·.load actions)).run cancel = .ok (ending, q) →
      ∃ handed, handed <+: p.script actions ∧ (Sink.feed p.sink handed).1 = q.sink) ∧
    ∀ cancel ending q, p.run cancel = .ok (ending, q) → ∀ commands r, q.Leads commands r →
      (∀ command ∈ commands, ¬ command.Loads) →
      ∀ cancel, r.run cancel = .ok (.noScenario, r) := by
  obtain ⟨settled, config⟩ := history.settled
  refine ⟨?_, ?_, ?_⟩
  · intro actions ending q ran unfailing
    let f := Playback.new p.player.config (Recorder.new none none)
    have later : Later p.clock (f.withPlayer (·.load actions)) (p.withPlayer (·.load actions)) :=
      ⟨rfl, rfl⟩
    obtain ⟨records, r, ran', fed', fed, phase, state⟩ :=
      later.run (p.player.fresh_load actions) (f.player.fresh_load actions) ran unfailing
        Recorder.feed_new
    obtain ⟨t, all, log⟩ := Recorder.feed_unlimited (r := .new none none) rfl rfl records
    have same : r.sink = t := congrArg Prod.fst (fed'.symm.trans all)
    have log : r.sink.log.toList = records := by
      rw [same, log]
      rfl
    rw [← config]
    exact ⟨r, ran', by rw [log]; exact fed, phase, state⟩
  · intro actions cancel ending q ran
    exact handed_of_run (p := p.withPlayer (·.load actions)) (p.player.fresh_load actions) ran
  · intro cancel ending q ran commands r led quiet cancel
    exact run_of_unloaded (unloaded_of_leads (unloaded_of_run settled ran) led quiet) cancel

/-- A scroll that is given up with two lines to come, and a run after it. -/
theorem run_as_new_after_scroll :
    ∃ p : Playback Recorder, Reachable .default (Recorder.new none none) p ∧
      p.sink.log.size = 10 ∧
      ∃ ending q r, (p.withPlayer (·.load [.clear])).run none = .ok (ending, q) ∧
        ((Playback.new .default (Recorder.new none none)).withPlayer (·.load [.clear])).run none =
          .ok (ending, r) ∧
        q.sink.log.toList = p.sink.log.toList ++ r.sink.log.toList.map (·.later 105) ∧
        q.sink.log.toList = p.sink.log.toList ++ [⟨105, .clear⟩] := by
  let start : Playback Recorder := .new .default (Recorder.new none none)
  have sound : ∀ a ∈ [Action.scroll 12], Defect.of? a = none := by decide
  have fits : ∀ t ∈ start.turns [.scroll 12], t.overflow? = none := by decide
  have takes : (Sink.feed start.sink
      ((start.script [.scroll 12]).filter (·.ms ≤ start.clock + 105))).2 = none := by
    rw [script, schedule, arrange_eq_foldl]
    decide
  have pending : ∃ r ∈ start.script [.scroll 12], start.clock + 105 < r.ms := by
    rw [script, schedule, arrange_eq_foldl]
    decide
  obtain ⟨_, p, ran, sink, late, -⟩ := run_of_cancel (p := start.withPlayer (·.load [.scroll 12]))
    (start.player.fresh_load _) sound fits (Prod.ext rfl takes)
  obtain ⟨rfl, clock⟩ := late (exists_late.2 (.inr pending))
  have played : start.perform (.play [.scroll 12] (some 105)) = .ok (some .cancelled, p) :=
    (congrArg (Except.map fun x => (some x.1, x.2)) ran :)
  have history : Reachable .default (Recorder.new none none) p := ⟨_, .perform .start played⟩
  obtain ⟨size, failAt, room⟩ :
      p.sink.log.size = 10 ∧ p.sink.failAt = none ∧ p.sink.screen.room = none := by
    rw [sink, script, schedule, arrange_eq_foldl]
    decide
  have turns : p.turns [.clear] =
      timeline .default (.initial .default) (Time.ofMillis 105) [.clear] := by
    rw [Playback.turns, history.settled.2, show p.clock = 105 from clock]
  have script : p.script [.clear] = [⟨105, .clear⟩] := by
    rw [Playback.script, turns, schedule, arrange_eq_foldl]
    decide
  have fits : ∀ t ∈ p.turns [.clear], t.overflow? = none := by
    rw [turns]
    decide
  obtain ⟨after, takes, log⟩ := Recorder.feed_unlimited failAt room (p.script [.clear])
  obtain ⟨q, ran, same, -⟩ := run_of_undisturbed ⟨by decide, fits, takes⟩
  obtain ⟨r, new, fed, -⟩ := (run_as_new history).1 _ _ _ ran (by simp)
  obtain ⟨after', takes', log'⟩ :=
    Recorder.feed_unlimited failAt room (r.sink.log.toList.map (·.later p.clock))
  have same' : q.sink = after' := congrArg Prod.fst (fed.symm.trans takes')
  refine ⟨p, history, size, _, q, r, ran, new, ?_, by rw [same, log, script]⟩
  rw [same', log', show p.clock = 105 from clock]

end Playback

end TermScene
