import TermScene.Proofs.Playback.Announcement
import TermScene.Proofs.Playback.Defects

/-!
# The state in a session

Over all the runs of a session, the state holds what the last actions have set that were
dispatched since the load: between the commands (`Dispatched.state`) and whenever an action has
its turn (`Comes.dispatchedOf_eq`). A run that is not interrupted has sent every announcement of
the actions it has dispatched (`agrees_of_halts`), so that the sink agrees with the state
(`state_of_session`).
-/

namespace TermScene

open Agenda

/-! ## What is dispatched -/

/-- The actions whose turns are among timers that fired. -/
def dispatchedOf (actions : List Action) (fired : List (Nat × TimerTask)) : List Action :=
  (turnsOf fired).filterMap (actions[·]?)

theorem dispatchedOf_eq_take {actions : List Action} {fired : List (Nat × TimerTask)} {n : Nat}
    (order : turnsOf fired = List.range n) : dispatchedOf actions fired = actions.take n := by
  rw [dispatchedOf, order]
  clear order
  induction n with
  | zero => rfl
  | succ n ih =>
    rw [List.range_succ, List.filterMap_append, ih, List.take_add_one,
      List.filterMap_eq_flatMap_toList (l := [n]), List.flatMap_singleton]

theorem dispatchedOf_eq_self {actions : List Action} {fired : List (Nat × TimerTask)}
    (order : turnsOf fired = List.range (actions.length + 1)) :
    dispatchedOf actions fired = actions :=
  (dispatchedOf_eq_take order).trans (List.take_of_length_le (Nat.le_succ _))

namespace Playback

variable {σ : Type} [Sink σ]

/-- The turn of an action comes in a run, after timers have fired. -/
inductive Comes (p : Playback σ) (run : Run) :
    List (Nat × TimerTask) → (index now : Nat) → Performance σ → Prop
  | opening : Comes p run [] 0 (Time.ofMillis run.start) p.opening
  | turn {fired q timer left index} (reached : p.Reaches run fired q)
      (pop : q.player.queue.pop? = some (timer, left)) (inTime : run.InTime timer.deadline)
      (task : timer.task = .advance index) :
      Comes p run fired index timer.deadline (q.awake timer left)

/-- A session comes to a playback, and has dispatched some actions since it loaded any. -/
inductive Dispatched (config : Config) (sink : σ) : List Action → Playback σ → Prop
  | new : Dispatched config sink [] (.new config sink)
  | listen {l p} (h : Dispatched config sink l p) (name : Text) :
      Dispatched config sink l (p.withPlayer (·.listen name))
  | sleep {l p} (h : Dispatched config sink l p) (ms : Nat) :
      Dispatched config sink l { p with clock := p.clock + ms }
  | load {l p} (h : Dispatched config sink l p) (actions : List Action) :
      Dispatched config sink [] (p.withPlayer (·.load actions))
  | run {l p actions cancel fired ending q} (h : Dispatched config sink l p)
      (loaded : p.player.loaded = some actions) (ran : p.run cancel = .ok (ending, after q))
      (ends : p.Ends (p.runOf actions cancel) fired (.ok (ending, q))) :
      Dispatched config sink (l ++ dispatchedOf actions fired) (after q)

namespace Dispatched

variable {config : Config} {sink : σ} {l : List Action} {p : Playback σ}

theorem reachable (h : Dispatched config sink l p) : Reachable config sink p := by
  induction h with
  | new => exact ⟨[], .start⟩
  | @listen _ p h name ih => exact ih.perform (show p.perform (.listen name) = _ from rfl)
  | @sleep _ p h ms ih => exact ih.perform (show p.perform (.sleep ms) = _ from rfl)
  | @load _ p h actions ih => exact ih.perform (show p.perform (.load actions) = _ from rfl)
  | @run _ p actions cancel _ ending q h loaded ran ends ih =>
    have performed : p.perform (.run cancel) = .ok (some ending, after q) :=
      (congrArg (Except.map fun x => (some x.1, x.2)) ran :)
    exact ih.perform performed

theorem exists_of_run (h : Dispatched config sink l p) {cancel : Option Nat} {ending : Ending}
    {r : Playback σ} (ran : p.run cancel = .ok (ending, r)) : ∃ l, Dispatched config sink l r := by
  cases loaded : p.player.loaded with
  | none =>
    rw [run_of_unloaded loaded] at ran
    injection ran with ran
    injection ran with _ same
    exact ⟨l, same ▸ h⟩
  | some actions =>
    obtain ⟨fired, q, ends, rfl⟩ := ends_of_run loaded ran
    exact ⟨_, h.run loaded ran ends⟩

theorem exists_of_reachable (history : Reachable config sink p) :
    ∃ l, Dispatched config sink l p := by
  obtain ⟨commands, led⟩ := history
  induction led with
  | start => exact ⟨[], .new⟩
  | perform led performed ih =>
    obtain ⟨l, h⟩ := ih
    cases perform_cases performed with
    | listen name => exact ⟨l, h.listen name⟩
    | sleep ms => exact ⟨l, h.sleep ms⟩
    | load actions => exact ⟨[], h.load actions⟩
    | run ran => exact h.exists_of_run ran
    | @play actions _ _ _ ran => exact (h.load actions).exists_of_run ran

theorem fresh (h : Dispatched config sink l p) {actions : List Action}
    (loaded : p.player.loaded = some actions) : p.player.Fresh actions :=
  h.reachable.settled.1.fresh actions loaded

theorem config_eq (h : Dispatched config sink l p) : p.player.config = config :=
  h.reachable.settled.2

end Dispatched

section

variable {p : Playback σ} {actions : List Action} {cancel : Option Nat}
  {fired : List (Nat × TimerTask)}

omit [Sink σ] in
theorem sound_of_goesOn (goesOn : ∀ index ∈ turnsOf fired, p.GoesOn actions index) :
    ∀ a ∈ dispatchedOf actions fired, Defect.of? a = none := by
  intro a mem
  obtain ⟨index, turn, action⟩ := List.mem_filterMap.1 mem
  exact (goesOn index turn a action).1

theorem Ends.state {ending : Ending} {q : Performance σ}
    (ends : p.Ends (p.runOf actions cancel) fired (.ok (ending, q)))
    (fresh : p.player.Fresh actions) : (after q).player.state =
      (dispatchedOf actions fired).foldl State.after (.initial p.player.config) := by
  obtain ⟨⟨n, -, order⟩, -⟩ := order_of_ends ends fresh.turns
  rw [state_of_ends ends fresh, dispatchedOf_eq_take order, order, List.length_range]

/-- When the turn of an action comes, those before it have been dispatched. -/
theorem Comes.dispatchedOf_eq {index now : Nat} {c : Performance σ}
    (comes : p.Comes (p.runOf actions cancel) fired index now c)
    (fresh : p.player.Fresh actions) :
    dispatchedOf actions fired = actions.take index ∧
      (∀ a ∈ dispatchedOf actions fired, Defect.of? a = none) ∧
      c.player.state =
        (dispatchedOf actions fired).foldl State.after (.initial p.player.config) := by
  cases comes with
  | opening => exact ⟨rfl, List.forall_mem_nil _, fresh.state⟩
  | turn reached pop inTime task =>
    obtain ⟨order, -⟩ := (reached.standing fresh.turns).of_pop_advance pop task
    have state := reached.state fresh
    rw [order, List.length_range, ← dispatchedOf_eq_take order] at state
    exact ⟨dispatchedOf_eq_take order, sound_of_goesOn (reached.goesOn fresh), state⟩

end

/-- The state between commands is what the dispatched actions have set. -/
theorem Dispatched.state {config : Config} {sink : σ} {l : List Action} {p : Playback σ}
    (h : Dispatched config sink l p) :
    p.player.state = .latest config l ∧ ∀ a ∈ l, Defect.of? a = none := by
  induction h with
  | new => exact ⟨rfl, List.forall_mem_nil _⟩
  | listen h name ih => exact ih
  | sleep h ms ih => exact ih
  | load h actions ih =>
    have state : State.initial _ = State.initial config := congrArg State.initial h.config_eq
    exact ⟨state, List.forall_mem_nil _⟩
  | run h loaded ran ends ih =>
    have fresh := h.fresh loaded
    refine ⟨?_, List.forall_mem_append.2 ⟨ih.2, sound_of_goesOn (ends.goesOn fresh)⟩⟩
    rw [State.latest_append, ← ih.1, fresh.state]
    exact ends.state fresh

/-! ## What a run announces -/

/-- A sink has been told what some actions have set, after each of them, and at last what a
state holds of it. -/
structure Agrees {α : Type} (p : Playback σ) (of? : TerminalOp → Option α)
    (sets : Action → Bool) (value : State → α) (done : List Action) (handed : List Record)
    (s : State) : Prop where
  each : heard of? handed = p.announcements sets value done
  last : lastOf (fun r => of? r.op) (value (.initial p.player.config)) handed = value s

theorem agrees_of_halts {α : Type} {of? : TerminalOp → Option α} {sets : Action → Bool}
    {value : State → α} (h : Announces of? sets value) {p : Playback σ} {actions : List Action}
    {cancel : Option Nat} {fired : List (Nat × TimerTask)} {ending : Ending} {q : Performance σ}
    (halts : p.Halts (p.runOf actions cancel) fired (.ok (ending, q)))
    (uncancelled : ending ≠ .cancelled) (unfailing : ∀ op fault, ending ≠ .sinkFailed op fault) :
    p.Agrees of? sets value (dispatchedOf actions fired) (recordsOf fired)
      ((dispatchedOf actions fired).foldl State.after (.initial p.player.config)) := by
  -- by the turn at which a run halts, every announcement was due
  have kept : keep of? (keep TimerTask.op? fired) =
      keep of? ((p.turns (dispatchedOf actions fired)).flatMap Turn.emissions) := by
    cases halts with
    | finished =>
      show keep of? (keep TimerTask.op? (p.course actions)) =
        keep of? ((p.turns (dispatchedOf actions (p.course actions))).flatMap Turn.emissions)
      rw [keep_op?_course, dispatchedOf_eq_self turnsOf_course]
      exact h.keep_schedule _ _ _ _
    | cancelled => exact absurd rfl uncancelled
    | sinkFailed => exact absurd rfl (unfailing _ _)
    | @malformed _ d index rest _ _ _ all =>
      have all : fired ++ (d, .advance index) :: rest = p.course actions := all
      have within := h.within p.player.config (.initial p.player.config) (Time.ofMillis p.clock)
        (actions.take index)
      rw [keep_op?_of_turn all, ← filter_keep of? (· ≤ p.finish (actions.take index)),
        dispatchedOf_eq_take (turnsOf_front all)]
      exact (congrArg _ (h.keep_schedule _ _ _ _)).trans
        (List.filter_eq_self.2 fun x mem => decide_eq_true (within.le x mem).2)
  refine ⟨?_, ?_⟩
  · rw [recordsOf, heard_punctual, kept, announcements_eq h]
  · rw [recordsOf, lastOf_punctual, lastOf_keep, kept, ← lastOf_keep]
    exact h.lastOf_timeline _ _ _ _

theorem player_of_fire_emit {run : Run} {timer : Timer} {op : TerminalOp} {c q : Performance σ}
    (task : timer.task = .emit op)
    (fires : c.fire run timer = .more q ∨ ∃ ending, c.fire run timer = .stopped ending q) :
    q.player = c.player := by
  unfold Performance.fire at fires
  simp only [task] at fires
  split at fires
  · rcases fires with more | ⟨_, stopped⟩
    · cases more; rfl
    · cases stopped
  · rcases fires with more | ⟨_, stopped⟩
    · cases more
    · cases stopped; rfl

/-- **The state holds what was set last, field by field**, and the sink agrees with it. Between
the commands of a session and whenever an action has its turn, each field holds what the last
action has set that was dispatched since the load and sets this field. No operation changes the
player. A run that is not interrupted has told the sink the margins and the cursor after each
action that sets them, and at last as they are in the end. -/
theorem state_of_session {config : Config} {sink : σ} {p : Playback σ}
    (history : Reachable config sink p) :
    (∃ l, Dispatched config sink l p) ∧
    (∀ l, Dispatched config sink l p →
      p.player.state = .latest config l ∧
      p.player.state.typingSpeed.isFinitePositive = true ∧
      ∀ actions cancel, p.player.loaded = some actions →
        (∀ fired index now c, p.Comes (p.runOf actions cancel) fired index now c →
          dispatchedOf actions fired = actions.take index ∧
          c.player.state = .latest config (l ++ dispatchedOf actions fired) ∧
          c.player.state.typingSpeed.isFinitePositive = true) ∧
        ∀ ending r, p.run cancel = .ok (ending, r) → ending ≠ .cancelled →
          (∀ op fault, ending ≠ .sinkFailed op fault) →
          ∃ fired q, p.Ends (p.runOf actions cancel) fired (.ok (ending, q)) ∧ r = after q ∧
            Dispatched config sink (l ++ dispatchedOf actions fired) r ∧
            (∀ report, ending = .finished report →
              dispatchedOf actions fired = actions ∧ report.state = r.player.state) ∧
            Sink.feed p.sink (recordsOf fired) = (r.sink, none) ∧
            p.Agrees TerminalOp.margins? Action.setsMargin State.margins
              (dispatchedOf actions fired) (recordsOf fired) r.player.state ∧
            p.Agrees TerminalOp.cursor? Action.setsCursor State.cursorVisible
              (dispatchedOf actions fired) (recordsOf fired) r.player.state) ∧
    ∀ (run : Run) (timer : Timer) (op : TerminalOp) (c q : Performance σ),
      timer.task = .emit op →
      (c.fire run timer = .more q ∨ ∃ ending, c.fire run timer = .stopped ending q) →
      q.player = c.player := by
  refine ⟨Dispatched.exists_of_reachable history, ?_, fun _ _ _ _ _ => player_of_fire_emit⟩
  intro l h
  obtain ⟨state, sound⟩ := h.state
  refine ⟨state, state ▸ State.isFinitePositive_latest config sound, ?_⟩
  intro actions cancel loaded
  have fresh := h.fresh loaded
  refine ⟨?_, ?_⟩
  · intro fired index now c comes
    obtain ⟨front, sound', after⟩ := comes.dispatchedOf_eq fresh
    have latest : c.player.state = .latest config (l ++ dispatchedOf actions fired) := by
      rw [after, State.latest_append, ← state, fresh.state]
    refine ⟨front, latest, ?_⟩
    rw [latest]
    exact State.isFinitePositive_latest config (List.forall_mem_append.2 ⟨sound, sound'⟩)
  · intro ending r ran uncancelled unfailing
    obtain ⟨fired, q, ends, rfl⟩ := ends_of_run loaded ran
    have halts := halts_of_ends ends fresh
    have last := ends.state fresh
    refine ⟨fired, q, ends, rfl, h.run loaded ran ends, ?_, halts.fed unfailing, ?_, ?_⟩
    · rintro report rfl
      have all : dispatchedOf actions fired = actions :=
        dispatchedOf_eq_self ((order_of_ends ends fresh.turns).2 report rfl)
      obtain ⟨rfl, -⟩ := (completed_of_ends ends fresh).1 report rfl
      rw [last, all]
      exact ⟨rfl, rfl⟩
    · rw [last]
      exact agrees_of_halts announces_margins halts uncancelled unfailing
    · rw [last]
      exact agrees_of_halts announces_cursor halts uncancelled unfailing

/-- Margins that are set one by one, around a scroll that outlasts its action. -/
theorem state_of_session_margins :
    let actions : List Action := [.margin .x 3, .scroll 12, .cursor false, .margin .y 5,
      .prompt none, .typingSpeed (.ofNat 2), .margin .x 4]
    let p : Playback Recorder :=
      (Playback.new .default (Recorder.new none none)).withPlayer (·.load actions)
    Reachable .default (Recorder.new none none) p ∧
      ∃ report r, p.run none = .ok (.finished report, r) ∧
        report.state = ⟨none, .ofNat 2, false, 4, 5⟩ ∧ r.player.state = report.state ∧
        heard TerminalOp.margins? r.sink.log.toList = [(0, (3, 0)), (300, (3, 5)), (600, (4, 5))] ∧
        heard TerminalOp.cursor? r.sink.log.toList = [(200, false)] := by
  intro actions p
  have history : Reachable .default (Recorder.new none none) p :=
    ⟨[.load actions], .perform .start rfl⟩
  have sound : ∀ a ∈ actions, Defect.of? a = none := by decide +kernel
  have fits : ∀ t ∈ p.turns actions, t.overflow? = none := by decide
  obtain ⟨r, ran, -⟩ := run_of_undisturbed (p := .new .default (Recorder.new none none))
    (.of_feed sound fits (Recorder.feed_new _))
  obtain ⟨⟨l, dispatched⟩, session, -⟩ := state_of_session history
  obtain ⟨-, -, runs⟩ := session l dispatched
  obtain ⟨fired, q, -, -, -, finished, fed, margins, cursor⟩ :=
    (runs actions none rfl).2 _ r ran (by simp) (by simp)
  obtain ⟨all, same⟩ := finished _ rfl
  obtain ⟨s, taken, log⟩ :=
    Recorder.feed_unlimited (r := .new none none) rfl rfl (recordsOf fired)
  obtain rfl : s = r.sink := congrArg Prod.fst (taken.symm.trans fed)
  have log : r.sink.log.toList = recordsOf fired := log
  refine ⟨history, _, r, ran, by decide +kernel, same.symm, ?_, ?_⟩
  · rw [log, margins.each, all]
    decide
  · rw [log, cursor.each, all]
    decide

end Playback

end TermScene
