import TermScene.Proofs.Playback.Schedule
import TermScene.Proofs.Playback.Trace

/-!
# The phases of a player

Whenever the loop of a run takes its next timer, the player is in one of two standings
(`Standing`): an action is in flight and the turn after it waits as the timer registered
last, or the scenario is complete and no turn waits. A step leads from one standing to
another, so actions have their turns in order and once. Between commands a player is at
rest, whatever became of its runs (`settled_leads`).
-/

namespace TermScene

open Agenda

/-! ## The turns that wait in a queue -/

namespace TimerQueue

/-- The timers of turns that wait. -/
def turns (q : TimerQueue) : List Timer := q.toList.filter fun t => t.task.turn?.isSome

theorem turns_push_emit {q : TimerQueue} (deadline : Nat) (op : TerminalOp) (h : q.turns = []) :
    (q.push deadline (.emit op)).turns = [] := by
  have perm := (q.toList_push deadline (.emit op)).filter fun t => t.task.turn?.isSome
  rw [List.filter_cons_of_neg (by simp [TimerTask.turn?])] at perm
  exact List.Perm.eq_nil (h ▸ perm)

theorem turns_push_advance {q : TimerQueue} (deadline index : Nat) (h : q.turns = []) :
    (q.push deadline (.advance index)).turns = [⟨deadline, q.nextSeq, .advance index⟩] := by
  have perm := (q.toList_push deadline (.advance index)).filter fun t => t.task.turn?.isSome
  rw [List.filter_cons_of_pos rfl, show q.toList.filter _ = [] from h] at perm
  exact List.perm_singleton.1 perm

theorem turns_enqueue {q : TimerQueue} (now : Nat) (emits : List (Nat × TerminalOp))
    (h : q.turns = []) : (Player.enqueue q now emits).turns = [] := by
  unfold Player.enqueue
  induction emits generalizing q with
  | nil => exact h
  | cons e more ih => exact ih (turns_push_emit _ _ h)

theorem turns_of_pop_emit {q rest : TimerQueue} {timer : Timer} {op : TerminalOp}
    (pop : q.pop? = some (timer, rest)) (task : timer.task = .emit op) :
    rest.turns.Perm q.turns := by
  have perm := (pop?_eq_some pop).1.filter fun t => t.task.turn?.isSome
  rw [List.filter_cons_of_neg (by simp [TimerTask.turn?, task])] at perm
  exact perm.symm

theorem turns_of_pop_advance {q rest : TimerQueue} {timer : Timer} {index : Nat}
    (pop : q.pop? = some (timer, rest)) (task : timer.task = .advance index) :
    q.turns.Perm (timer :: rest.turns) := by
  have perm := (pop?_eq_some pop).1.filter fun t => t.task.turn?.isSome
  rw [List.filter_cons_of_pos (by simp [TimerTask.turn?, task])] at perm
  exact perm

/-- The turn that waits alone is the one that is taken out. -/
theorem turns_of_pop_only {q rest : TimerQueue} {timer turn : Timer} {index : Nat}
    (pop : q.pop? = some (timer, rest)) (task : timer.task = .advance index)
    (only : q.turns = [turn]) : timer = turn ∧ rest.turns = [] := by
  have perm := turns_of_pop_advance pop task
  rw [only] at perm
  injection List.perm_singleton.1 perm.symm with head tail
  exact ⟨head, tail⟩

theorem turns_of_pop_nil {q rest : TimerQueue} {timer : Timer}
    (pop : q.pop? = some (timer, rest)) (none : q.turns = []) : rest.turns = [] := by
  cases task : timer.task with
  | emit op => exact (none ▸ turns_of_pop_emit pop task).eq_nil
  | advance index => cases (none ▸ turns_of_pop_advance pop task).symm.eq_nil

theorem turns_of_pop?_eq_none {q : TimerQueue} (h : q.pop? = none) : q.turns = [] := by
  unfold turns
  rw [pop?_eq_none_iff.1 h]
  rfl

end TimerQueue

/-! ## Standings -/

variable {σ : Type}

/-- How a run of `n` actions stands when its loop takes the next timer. -/
inductive Standing (n : Nat) (fired : List (Nat × TimerTask)) (q : Performance σ) : Prop
  /-- An action is in flight. The turn after it waits, the only one, and no timer was
  registered after it. -/
  | running {index : Nat} {turn : Timer} (phase : q.player.phase = .running index)
      (lt : index < n) (turns : q.player.queue.turns = [turn])
      (task : turn.task = .advance (index + 1)) (latest : turn.seq + 1 = q.player.queue.nextSeq)
      (unreported : q.report = none) (order : turnsOf fired = List.range (index + 1))
  /-- Every action has lasted its time, and no turn waits. -/
  | completed {report : Report} (phase : q.player.phase = .completed)
      (turns : q.player.queue.turns = []) (reported : q.report = some report)
      (order : turnsOf fired = List.range (n + 1))

namespace Standing

/-- A turn that comes in order and leaves none waiting leads to a standing. -/
theorem of_advance {run : Run} {index now : Nat} {fired : List (Nat × TimerTask)}
    {p q : Performance σ} (advance : p.Advance run index now (.more q))
    (order : turnsOf fired = List.range index) (le : index ≤ run.actions.length)
    (turns : p.player.queue.turns = []) (unreported : p.report = none) :
    Standing run.actions.length (fired ++ [(now, .advance index)]) q := by
  have order : turnsOf (fired ++ [(now, .advance index)]) = List.range (index + 1) := by
    rw [turnsOf_append, order, List.range_succ]
    rfl
  cases advance with
  | completed none =>
    have last : run.actions.length = index :=
      Nat.le_antisymm (List.getElem?_eq_none_iff.1 none) le
    exact .completed rfl turns rfl (last ▸ order)
  | dispatched action =>
    refine .running rfl (List.getElem?_eq_some_iff.1 action).1
      (TimerQueue.turns_push_advance _ _ (TimerQueue.turns_enqueue _ _ turns)) rfl rfl unreported
      order

theorem of_emit {n : Nat} {fired : List (Nat × TimerTask)} {q r : Performance σ} {timer : Timer}
    {op : TerminalOp} (standing : Standing n fired q)
    (pop : q.player.queue.pop? = some (timer, r.player.queue)) (task : timer.task = .emit op)
    (phase : r.player.phase = q.player.phase) (report : r.report = q.report) :
    Standing n (fired ++ [timer.entry]) r := by
  have same : turnsOf (fired ++ [timer.entry]) = turnsOf fired := by
    rw [turnsOf_append, Timer.entry, task]
    exact List.append_nil _
  have perm := TimerQueue.turns_of_pop_emit pop task
  have seq := (TimerQueue.pop?_eq_some pop).2.2
  cases standing with
  | running phased lt turns next latest unreported order =>
    rw [turns] at perm
    exact .running (phase.trans phased) lt (List.perm_singleton.1 perm) next
      (latest.trans seq.symm) (report.trans unreported) (same.trans order)
  | completed phased turns reported order =>
    rw [turns] at perm
    exact .completed (phase.trans phased) perm.eq_nil (report.trans reported) (same.trans order)

/-- A turn that is due is the one that waits, and the next in order. -/
theorem of_pop_advance {n index : Nat} {fired : List (Nat × TimerTask)} {q : Performance σ}
    (standing : Standing n fired q) {timer : Timer} {left : TimerQueue}
    (pop : q.player.queue.pop? = some (timer, left)) (task : timer.task = .advance index) :
    turnsOf fired = List.range index ∧ index ≤ n ∧ left.turns = [] ∧ q.report = none := by
  cases standing with
  | @running current waiting phase lt turns next latest unreported order =>
    obtain ⟨rfl, none⟩ := TimerQueue.turns_of_pop_only pop task turns
    obtain rfl : index = current + 1 := TimerTask.advance.inj (task.symm.trans next)
    exact ⟨order, lt, none, unreported⟩
  | completed phase turns reported order =>
    have perm := TimerQueue.turns_of_pop_advance pop task
    rw [turns] at perm
    cases perm.symm.eq_nil

end Standing

namespace Playback

variable [Sink σ]

/-- **A run keeps to the two standings** if no turn waits when it begins. -/
theorem Reaches.standing {p : Playback σ} {run : Run} {fired : List (Nat × TimerTask)}
    {q : Performance σ} (reached : p.Reaches run fired q) (turns : p.player.queue.turns = []) :
    Standing run.actions.length fired q := by
  induction reached using Reaches.induction with
  | opening more advance =>
    exact .of_advance advance (show turnsOf [] = List.range 0 from rfl) (Nat.zero_le _) turns rfl
  | emitted reached pop inTime task taken more ih => exact ih.of_emit pop task rfl rfl
  | turn reached pop inTime task advance more ih =>
    obtain ⟨order, le, none, unreported⟩ := ih.of_pop_advance pop task
    rw [Timer.entry, task]
    exact .of_advance advance order le none unreported

end Playback

/-! ## Where a run stops -/

/-- What nothing within a run changes. -/
def Player.bounds (p : Player) : Config × Option (List Action) × Option Text :=
  (p.config, p.loaded, p.listener)

namespace Performance

/-- A turn that goes on leaves alone what lies outside the run. -/
theorem Advance.bounds {run : Run} {index now : Nat} {p q : Performance σ}
    (advance : p.Advance run index now (.more q)) : q.player.bounds = p.player.bounds := by
  cases advance <;> rfl

/-- A step at which a run stops changes the queue, the clock and the sink only. -/
theorem Step.frame [Sink σ] {run : Run} {p q : Performance σ} {ending : Ending}
    (step : p.Step run (.stopped ending q)) :
    q.player = { p.player with queue := q.player.queue } ∧ q.signals = p.signals ∧
      q.report = p.report ∧ (p.player.queue.turns = [] → q.player.queue.turns = []) := by
  cases step with
  | finished => exact ⟨rfl, rfl, rfl, id⟩
  | early => exact ⟨rfl, rfl, rfl, id⟩
  | cancelled pop => exact ⟨rfl, rfl, rfl, TimerQueue.turns_of_pop_nil pop⟩
  | sinkFailed pop => exact ⟨rfl, rfl, rfl, TimerQueue.turns_of_pop_nil pop⟩
  | turn pop _ _ advance =>
    cases advance
    exact ⟨rfl, rfl, rfl, TimerQueue.turns_of_pop_nil pop⟩

end Performance

/-! ## Between commands -/

/-- How a player stands that is not within a run. -/
inductive Player.AtRest (p : Player) : Prop
  | idle (phase : p.phase = .idle) (queue : p.queue.toList = [])
  | completed (phase : p.phase = .completed) (turns : p.queue.turns = [])

/-- A player that is to play actions and has forgotten all earlier runs. -/
structure Player.Fresh (p : Player) (actions : List Action) : Prop extends p.Ready actions where
  phase : p.phase = .idle

theorem Player.fresh_load (p : Player) (actions : List Action) : (p.load actions).Fresh actions :=
  ⟨p.ready_load actions, rfl⟩

theorem Player.Fresh.empty {p : Player} {actions : List Action} (h : p.Fresh actions) :
    p.queue.toList = [] :=
  TimerQueue.pop?_eq_none_iff.1 (TimerQueue.pop?_eq_none_iff_agenda.2 h.queue)

theorem Player.Fresh.turns {p : Player} {actions : List Action} (h : p.Fresh actions) :
    p.queue.turns = [] :=
  TimerQueue.turns_of_pop?_eq_none (TimerQueue.pop?_eq_none_iff_agenda.2 h.queue)

/-- A player at rest that is fresh if it has anything to play. -/
structure Player.Settled (p : Player) : Prop where
  rest : p.AtRest
  fresh : ∀ actions, p.loaded = some actions → p.Fresh actions

theorem Player.settled_load (p : Player) (actions : List Action) : (p.load actions).Settled := by
  refine ⟨.idle rfl rfl, ?_⟩
  intro actions' loaded
  injection loaded with same
  exact same ▸ p.fresh_load actions

namespace Playback

theorem after_of_running {p : Performance σ} {index : Nat}
    (h : p.player.phase = .running index) :
    after p = { p.toPlayback with
      player := { p.player with queue := .empty, phase := .idle } } := by
  unfold after Player.release
  rw [h]

theorem bounds_after (q : Performance σ) : (after q).player.bounds = q.player.bounds := by
  unfold after Player.release
  cases q.player.phase <;> rfl

variable [Sink σ]

theorem Reaches.bounds {p : Playback σ} {run : Run} {fired : List (Nat × TimerTask)}
    {q : Performance σ} (reached : p.Reaches run fired q) :
    q.player.bounds = (p.player.config, none, p.player.listener) := by
  induction reached using Reaches.induction with
  | opening more advance => exact advance.bounds
  | emitted reached pop inTime task taken more ih => exact ih
  | turn reached pop inTime task advance more ih => exact advance.bounds.trans ih

/-- A run that stops within its loop leaves a player at rest. -/
theorem rest_of_standing {run : Run} {fired : List (Nat × TimerTask)} {c q : Performance σ}
    {ending : Ending} (standing : Standing run.actions.length fired c)
    (step : c.Step run (.stopped ending q)) : (after q).player.AtRest := by
  obtain ⟨player, -, -, turns⟩ := step.frame
  cases standing with
  | running phase =>
    rw [after_of_running ((congrArg Player.phase player).trans phase)]
    exact .idle rfl rfl
  | completed phase none =>
    have phase := (congrArg Player.phase player).trans phase
    rw [after_of_completed phase]
    exact .completed phase (turns none)

theorem ending_ne_of_standing {run : Run} {fired : List (Nat × TimerTask)} {c q : Performance σ}
    {ending : Ending} (standing : Standing run.actions.length fired c)
    (step : c.Step run (.stopped ending q)) : ending ≠ .endedEarly := by
  rintro rfl
  cases step with
  | early empty unreported =>
    cases standing with
    | running _ _ turns =>
      rw [TimerQueue.turns_of_pop?_eq_none empty] at turns
      cases turns
    | completed _ _ reported =>
      rw [unreported] at reported
      cases reported
  | turn _ _ _ advance => cases advance

/-- What every run leaves that had something to play. -/
theorem rest_of_run {p r : Playback σ} {actions : List Action} (fresh : p.player.Fresh actions)
    {cancel : Option Nat} {ending : Ending} (ran : p.run cancel = .ok (ending, r)) :
    r.player.AtRest ∧ r.player.bounds = (p.player.config, none, p.player.listener) ∧
      ending ≠ .endedEarly := by
  obtain ⟨fired, q, ends, rfl⟩ := ends_of_run fresh.loaded ran
  rw [bounds_after]
  rcases ends.cases_ok with ⟨-, advance⟩ | ⟨c, reached, step⟩
  · -- the first action is malformed, and nothing has happened yet
    cases advance with
    | malformed =>
      have same : (after p.opening).player = p.opening.player := by
        unfold after Player.release
        rw [show p.opening.player.phase = .idle from fresh.phase]
      refine ⟨?_, rfl, by simp⟩
      rw [same]
      exact .idle fresh.phase fresh.empty
  · have standing := reached.standing fresh.turns
    obtain ⟨player, -⟩ := step.frame
    refine ⟨rest_of_standing standing step, ?_, ending_ne_of_standing standing step⟩
    rw [player]
    exact reached.bounds

/-- What a command leaves of a playback. -/
inductive Performs (p : Playback σ) : Command → Playback σ → Prop
  | listen (name : Text) : Performs p (.listen name) (p.withPlayer (·.listen name))
  | sleep (ms : Nat) : Performs p (.sleep ms) { p with clock := p.clock + ms }
  | load (actions : List Action) : Performs p (.load actions) (p.withPlayer (·.load actions))
  | run {cancel ending r} (ran : p.run cancel = .ok (ending, r)) : Performs p (.run cancel) r
  | play {actions cancel ending r}
      (ran : (p.withPlayer (·.load actions)).run cancel = .ok (ending, r)) :
      Performs p (.play actions cancel) r

theorem perform_cases {p r : Playback σ} {command : Command} {ending : Option Ending}
    (performed : p.perform command = .ok (ending, r)) : p.Performs command r := by
  have of_map {result : Except Overflow (Ending × Playback σ)}
      (h : result.map (fun x => (some x.1, x.2)) = .ok (ending, r)) :
      ∃ ended, result = .ok (ended, r) := by
    cases result with
    | error cause => cases h
    | ok found =>
      injection h with h
      injection h with _ same
      exact ⟨found.1, by rw [← same]⟩
  cases command with
  | listen name =>
    injection performed with performed
    injection performed with _ same
    exact same ▸ .listen name
  | sleep ms =>
    injection performed with performed
    injection performed with _ same
    exact same ▸ .sleep ms
  | load actions =>
    injection performed with performed
    injection performed with _ same
    exact same ▸ .load actions
  | run cancel =>
    obtain ⟨_, ran⟩ := of_map performed
    exact .run ran
  | play actions cancel =>
    obtain ⟨_, ran⟩ := of_map performed
    exact .play ran

/-- Commands performed one after another lead from a playback to another. -/
inductive Leads (p : Playback σ) : List Command → Playback σ → Prop
  | start : Leads p [] p
  | perform {commands q command ending r} (led : Leads p commands q)
      (performed : q.perform command = .ok (ending, r)) : Leads p (commands ++ [command]) r

theorem run_of_unloaded {p : Playback σ} (none : p.player.loaded = none) (cancel : Option Nat) :
    p.run cancel = .ok (.noScenario, p) := by
  simp only [run, none]

/-- Nothing is loaded after a run. -/
theorem unloaded_of_run {p q : Playback σ} (settled : p.player.Settled) {cancel : Option Nat}
    {ending : Ending} (ran : p.run cancel = .ok (ending, q)) : q.player.loaded = none := by
  cases loaded : p.player.loaded with
  | none =>
    rw [run_of_unloaded loaded] at ran
    injection ran with ran
    injection ran with _ same
    exact same ▸ loaded
  | some actions =>
    obtain ⟨-, bounds, -⟩ := rest_of_run (settled.fresh actions loaded) ran
    exact congrArg (·.2.1) bounds

theorem settled_run {p r : Playback σ} (settled : p.player.Settled) {cancel : Option Nat}
    {ending : Ending} (ran : p.run cancel = .ok (ending, r)) :
    r.player.Settled ∧ r.player.config = p.player.config := by
  cases loaded : p.player.loaded with
  | none =>
    rw [run_of_unloaded loaded] at ran
    injection ran with ran
    injection ran with _ same
    exact same ▸ ⟨settled, rfl⟩
  | some actions =>
    obtain ⟨rest, bounds, -⟩ := rest_of_run (settled.fresh actions loaded) ran
    refine ⟨⟨rest, fun actions again => ?_⟩, congrArg Prod.fst bounds⟩
    cases (unloaded_of_run settled ran).symm.trans again

/-- **Every command leaves a player settled.** -/
theorem settled_perform {p r : Playback σ} (settled : p.player.Settled) {command : Command}
    (performs : p.Performs command r) :
    r.player.Settled ∧ r.player.config = p.player.config := by
  cases performs with
  | listen name =>
    refine ⟨⟨?_, ?_⟩, rfl⟩
    · cases settled.rest with
      | idle phase queue => exact .idle phase queue
      | completed phase turns => exact .completed phase turns
    · intro actions loaded
      obtain ⟨⟨loaded, queue, state⟩, phase⟩ := settled.fresh actions loaded
      exact ⟨⟨loaded, queue, state⟩, phase⟩
  | sleep ms => exact ⟨settled, rfl⟩
  | load actions => exact ⟨p.player.settled_load actions, rfl⟩
  | run ran => exact settled_run settled ran
  | @play actions _ _ _ ran =>
    exact settled_run (p := p.withPlayer (·.load actions)) (p.player.settled_load actions) ran

theorem settled_leads {p r : Playback σ} (settled : p.player.Settled) {commands : List Command}
    (led : p.Leads commands r) : r.player.Settled ∧ r.player.config = p.player.config := by
  induction led with
  | start => exact ⟨settled, rfl⟩
  | perform led performed ih =>
    obtain ⟨settled, config⟩ := settled_perform ih.1 (perform_cases performed)
    exact ⟨settled, config.trans ih.2⟩

/-- A session with a setup and a sink comes to a playback, whatever the commands were. -/
def Reachable (config : Config) (sink : σ) (p : Playback σ) : Prop :=
  ∃ commands, (Playback.new config sink).Leads commands p

theorem Reachable.settled {config : Config} {sink : σ} {p : Playback σ}
    (history : Reachable config sink p) : p.player.Settled ∧ p.player.config = config := by
  obtain ⟨commands, led⟩ := history
  exact settled_leads ⟨.idle rfl rfl, fun _ h => by cases h⟩ led

theorem Reachable.perform {config : Config} {sink : σ} {p r : Playback σ} {command : Command}
    {ending : Option Ending} (history : Reachable config sink p)
    (performed : p.perform command = .ok (ending, r)) : Reachable config sink r := by
  obtain ⟨commands, led⟩ := history
  exact ⟨commands ++ [command], led.perform performed⟩

/-- The turns that fired in a run had come in order, and all of them if it finished. -/
theorem order_of_ends {p : Playback σ} {run : Run} {fired : List (Nat × TimerTask)}
    {ending : Ending} {q : Performance σ} (ends : p.Ends run fired (.ok (ending, q)))
    (turns : p.player.queue.turns = []) :
    (∃ m ≤ run.actions.length + 1, turnsOf fired = List.range m) ∧
      ∀ report, ending = .finished report →
        turnsOf fired = List.range (run.actions.length + 1) := by
  rcases ends.cases_ok with ⟨rfl, advance⟩ | ⟨c, reached, step⟩
  · cases advance with
    | malformed => exact ⟨⟨0, Nat.zero_le _, rfl⟩, by simp⟩
  · cases reached.standing turns with
    | running _ lt _ _ _ unreported order =>
      refine ⟨⟨_, Nat.succ_le_succ (Nat.le_of_lt lt), order⟩, ?_⟩
      rintro report rfl
      cases step with
      | finished _ reported => rw [unreported] at reported; cases reported
      | turn _ _ _ advance => cases advance
    | completed _ _ _ order => exact ⟨⟨_, Nat.le_refl _, order⟩, fun _ _ => order⟩

/-- **The phases of a session.** Between commands a player is idle with an empty queue, or
has completed its scenario and has no turn waiting. Within a run the loop takes its next
timer at one of the two standings only, so it never runs out of timers early, and the
actions have their turns in order and once. -/
theorem standing_of_session {config : Config} {sink : σ} {p : Playback σ}
    (history : Reachable config sink p) :
    p.player.AtRest ∧
    ∀ actions cancel, p.player.loaded = some actions →
      (∀ fired q, p.Reaches (p.runOf actions cancel) fired q →
        Standing actions.length fired q) ∧
      ∀ ending r, p.run cancel = .ok (ending, r) → r.player.AtRest ∧ ending ≠ .endedEarly ∧
        ∃ fired q, p.Ends (p.runOf actions cancel) fired (.ok (ending, q)) ∧ r = after q ∧
          (∃ m ≤ actions.length + 1, turnsOf fired = List.range m) ∧
          ∀ report, ending = .finished report →
            turnsOf fired = List.range (actions.length + 1) := by
  obtain ⟨settled, -⟩ := history.settled
  refine ⟨settled.rest, ?_⟩
  intro actions cancel loaded
  have fresh := settled.fresh actions loaded
  refine ⟨fun fired q reached => reached.standing fresh.turns, ?_⟩
  intro ending r ran
  obtain ⟨rest, -, ending_ne⟩ := rest_of_run fresh ran
  obtain ⟨fired, q, ends, left⟩ := ends_of_run loaded ran
  exact ⟨rest, ending_ne, fired, q, ends, left, order_of_ends ends fresh.turns⟩

/-- A scroll is in flight when the loop takes its first timer; when the run is over, the player
is at rest. -/
theorem standing_scroll :
    let actions := [Action.scroll 12, .clear]
    let p : Playback Recorder :=
      (Playback.new .default (Recorder.new none none)).withPlayer (·.load actions)
    (∃ q, p.Reaches (p.runOf actions none) [(0, .advance 0)] q ∧
      q.player.phase = .running 0 ∧ Standing 2 [(0, .advance 0)] q) ∧
    ∃ ending r, p.run none = .ok (ending, r) ∧ ending ≠ .endedEarly ∧ r.player.AtRest := by
  intro actions p
  have history : Reachable .default (Recorder.new none none) p :=
    ⟨[.load actions], .perform .start rfl⟩
  obtain ⟨-, session⟩ := standing_of_session history
  obtain ⟨standing, rests⟩ := session actions none rfl
  have sound : ∀ a ∈ actions, Defect.of? a = none := by decide
  have fits : ∀ t ∈ turns (.new .default (Recorder.new none none)) actions,
      t.overflow? = none := by decide
  refine ⟨?_, ?_⟩
  · have now : Time.ofMillis (p.runOf actions none).start = 0 := by decide
    have fits : (p.opening.planOf (.scroll 12)).overflow? 0 = none := by decide
    have more : p.begin (p.runOf actions none) = .more (p.opening.dispatch 0 0 (.scroll 12)) := by
      rw [begin, now]
      exact Performance.advance_of_sound rfl (sound _ List.mem_cons_self) fits
    have reached := Reaches.opening more
    rw [now] at reached
    exact ⟨_, reached, rfl, standing _ _ reached⟩
  · have takes : (Sink.feed (Recorder.new none none)
        (script (.new .default (Recorder.new none none)) actions)).2 = none := by
      rw [script, schedule, arrange_eq_foldl]
      decide
    obtain ⟨r, ran, -⟩ := run_of_undisturbed (.of_feed sound fits takes)
    obtain ⟨rest, ending, -⟩ := rests _ r ran
    exact ⟨_, r, ran, ending, rest⟩

end Playback

end TermScene
