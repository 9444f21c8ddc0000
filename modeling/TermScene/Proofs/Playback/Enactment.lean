import TermScene.Proofs.Playback.FiringOrder
import TermScene.Proofs.Playback.Timeline

/-!
# Enacting a list of timers

`enact` fires the timers of a list that is fixed beforehand. The loop of a run, which
registers timers while it fires others, does what enacting does with every timer that
the run will ever register, arranged by deadline (`play_eq_enact`, `run_eq_enact`).
The invariant is that the timers in the queue and the timers of turns still to come,
arranged together, are what is left of that list; it is kept because no timer of a
later turn is due before the turn itself.
-/

namespace TermScene

open Agenda

/-! ## Dispatching by way of the agenda -/

namespace Player

theorem agenda_enqueue (queue : TimerQueue) (now : Nat) (emits : List (Nat × TerminalOp)) :
    (enqueue queue now emits).agenda =
      arrange (queue.agenda ++ emits.map fun (offset, op) => (now + offset, .emit op)) := by
  have places : (enqueue queue now emits).agenda =
      (emits.map fun (offset, op) => (now + offset, .emit op)).foldl (fun l x => place x l)
        queue.agenda := by
    unfold enqueue
    induction emits generalizing queue with
    | nil => rfl
    | cons e more ih =>
      rw [List.foldl_cons, ih, TimerQueue.agenda_push, List.map_cons, List.foldl_cons]
  rw [places, ← foldl_place_arrange, arrange_eq_self queue.inOrder_agenda]

theorem agenda_dispatched (p : Player) (index now : Nat) (a : Action) (plan : Plan) :
    (p.dispatched index now a plan).queue.agenda =
      arrange (p.queue.agenda ++ Turn.timers index ⟨now, plan⟩) := by
  have emits : (Turn.mk now plan).emissions.map (fun x => (x.1, TimerTask.emit x.2)) =
      plan.emits.map fun (offset, op) => (now + offset, .emit op) := by
    rw [Turn.emissions, List.map_map]
    rfl
  show ((enqueue p.queue now plan.emits).push (now + plan.duration) _).agenda = _
  rw [TimerQueue.agenda_push, agenda_enqueue, ← arrange_append_singleton, List.append_assoc,
    Turn.timers, emits]
  rfl

end Player

theorem Run.drop_eq_cons {run : Run} {index : Nat} {a : Action}
    (h : run.actions[index]? = some a) :
    run.actions.drop index = a :: run.actions.drop (index + 1) := by
  obtain ⟨lt, get⟩ := List.getElem?_eq_some_iff.1 h
  rw [List.drop_eq_getElem_cons lt, get]

/-! ## Performances without a queue -/

/-- The performance with nothing in its queue. -/
def Performance.bare {σ : Type} (p : Performance σ) : Performance σ := p.moved .empty p.clock

def Progress.bare {σ : Type} : Progress σ → Progress σ
  | .more p => .more p.bare
  | .stopped ending p => .stopped ending p.bare
  | .overflow cause => .overflow cause

namespace Performance

variable {σ : Type} [Sink σ]

/-- Fires the timers of a list one after another. -/
def enact (run : Run) :
    List (Nat × TimerTask) → Performance σ → Except Overflow (Ending × Performance σ)
  | [], p =>
    match p.report with
    | some report => .ok (.finished report, p.bare)
    | none => .ok (.endedEarly, p.bare)
  | (deadline, task) :: more, p =>
    match (p.attend run ⟨deadline, 0, task⟩ .empty).bare with
    | .more q => enact run more q
    | .stopped ending q => .ok (ending, q)
    | .overflow cause => .error cause

omit [Sink σ] in
theorem bare_advance (run : Run) (index now clock : Nat) (p : Performance σ) (rest : TimerQueue) :
    ((p.moved rest clock).advance run index now).bare =
      ((p.bare.moved .empty clock).advance run index now).bare := by
  unfold advance
  cases run.actions[index]? with
  | none => rfl
  | some a =>
    cases hd : Defect.of? a with
    | some defect => simp only [hd]; rfl
    | none =>
      have plan : Plan.of (p.moved rest clock).player.config (p.moved rest clock).player.state a =
          Plan.of (p.bare.moved .empty clock).player.config
            (p.bare.moved .empty clock).player.state a := rfl
      simp only [hd, plan]
      split <;> rfl

/-- What a timer does to anything but the queue does not depend on the queue. -/
theorem bare_attend (run : Run) (timer : Timer) (rest : TimerQueue) (p : Performance σ) :
    (p.attend run timer rest).bare =
      (p.bare.attend run ⟨timer.deadline, 0, timer.task⟩ .empty).bare := by
  have fires (clock : Nat) : (fire run timer (p.moved rest clock)).bare =
      (fire run ⟨timer.deadline, 0, timer.task⟩ (p.bare.moved .empty clock)).bare := by
    unfold fire
    cases timer.task with
    | advance index => exact bare_advance run index timer.deadline clock p rest
    | emit op =>
      have same : Sink.take (p.moved rest clock).sink (p.moved rest clock).clock op =
          Sink.take (p.bare.moved .empty clock).sink (p.bare.moved .empty clock).clock op := rfl
      simp only [same]
      cases Sink.take (p.bare.moved .empty clock).sink (p.bare.moved .empty clock).clock op with
      | mk sink fault => cases fault <;> rfl
  unfold attend
  cases run.limit with
  | none => exact fires _
  | some limit =>
    simp only
    split
    · rfl
    · exact fires _

/-! ## The timers still to be registered -/

/-- The timers that the turns still to come will register. A turn is to come if the queue
holds a timer for it, of which there is one at most. -/
inductive Foresees (run : Run) (p : Performance σ) : List (Nat × TimerTask) → Prop
  | turn {next index : Nat} (h : keep TimerTask.turn? p.player.queue.agenda = [(next, index)]) :
    Foresees run p
      (timers index (timeline p.player.config p.player.state next (run.actions.drop index)))
  | done (h : keep TimerTask.turn? p.player.queue.agenda = []) : Foresees run p []

omit [Sink σ] in
/-- The first timer of the queue is the first of all that are still to fire. -/
theorem Foresees.arrange_eq_cons {run : Run} {p : Performance σ}
    {future l : List (Nat × TimerTask)} {e : Nat × TimerTask} (h : Foresees run p future)
    (agenda : p.player.queue.agenda = e :: l) :
    arrange (p.player.queue.agenda ++ future) = e :: arrange (l ++ future) := by
  have sorted := p.player.queue.inOrder_agenda
  rw [agenda] at sorted ⊢
  obtain ⟨first, -⟩ := List.pairwise_cons.1 sorted
  apply arrange_cons
  intro y hy
  rcases List.mem_append.1 hy with hy | hy
  · exact first y hy
  · cases h with
    | done => cases hy
    | @turn next index turn =>
      have le : next ≤ y.1 := start_le_of_mem_timers hy
      rw [agenda] at turn
      have mem : (next, index) ∈ keep TimerTask.turn? (e :: l) := by
        rw [turn]
        exact List.mem_singleton_self _
      obtain ⟨x, hx, hnext⟩ := List.mem_filterMap.1 mem
      obtain ⟨k, -, hk⟩ := Option.map_eq_some_iff.1 hnext
      have hx1 : x.1 = next := congrArg Prod.fst hk
      rcases List.mem_cons.1 hx with rfl | hx
      · omega
      · have := first x hx
        omega

omit [Sink σ] in
theorem Foresees.of_emit {run : Run} {p q : Performance σ} {future l : List (Nat × TimerTask)}
    {e : Nat × TimerTask} (h : Foresees run p future) (agenda : p.player.queue.agenda = e :: l)
    (operation : e.2.turn? = none) (left : q.player.queue.agenda = l)
    (config : q.player.config = p.player.config) (state : q.player.state = p.player.state) :
    Foresees run q future := by
  have turns : keep TimerTask.turn? q.player.queue.agenda =
      keep TimerTask.turn? p.player.queue.agenda := by
    rw [left, agenda, keep_cons_none operation]
  cases h with
  | done h => exact .done (turns.trans h)
  | turn h =>
    rw [← config, ← state]
    exact .turn (turns.trans h)

omit [Sink σ] in
/-- A turn that is first in the queue is the only one there. -/
theorem Foresees.of_advance {run : Run} {p : Performance σ} {future l : List (Nat × TimerTask)}
    {now index : Nat} (h : Foresees run p future)
    (agenda : p.player.queue.agenda = (now, .advance index) :: l) :
    keep TimerTask.turn? l = [] ∧
      future = timers index
        (timeline p.player.config p.player.state now (run.actions.drop index)) := by
  have turns : keep TimerTask.turn? p.player.queue.agenda =
      (now, index) :: keep TimerTask.turn? l := by
    rw [agenda]
    exact keep_cons_some (f := TimerTask.turn?) rfl l
  cases h with
  | done h => rw [turns] at h; cases h
  | turn h =>
    rw [turns] at h
    injection h with head tail
    injection head with hnow hindex
    rw [hnow, hindex]
    exact ⟨tail, rfl⟩

omit [Sink σ] in
/-- A turn registers its own timers, and those of later turns are still to come. -/
theorem Foresees.advance {run : Run} {p q : Performance σ} {l : List (Nat × TimerTask)}
    {now index : Nat} (queue : p.player.queue.agenda = l) (turns : keep TimerTask.turn? l = [])
    (more : p.advance run index now = .more q) :
    ∃ future, Foresees run q future ∧ arrange (q.player.queue.agenda ++ future) =
      arrange (l ++ timers index
        (timeline p.player.config p.player.state now (run.actions.drop index))) := by
  rcases advance_eq_more more with ⟨none, rfl⟩ | ⟨a, some, rfl⟩
  · have same : (p.complete run now).player.queue.agenda = l := queue
    refine ⟨[], .done (by rw [same, turns]), ?_⟩
    rw [same, List.drop_eq_nil_of_le (List.getElem?_eq_none_iff.1 none)]
    rfl
  · have agenda := p.player.agenda_dispatched index now a (.of p.player.config p.player.state a)
    rw [queue] at agenda
    have next : keep TimerTask.turn? (p.player.dispatched index now a
        (.of p.player.config p.player.state a)).queue.agenda =
        [(now + (Plan.of p.player.config p.player.state a).duration, index + 1)] := by
      rw [agenda, keep_arrange, keep_append, turns, keep_turn?_turnTimers]
      exact arrange_eq_self (List.pairwise_singleton _ _)
    refine ⟨_, .turn next, ?_⟩
    rw [agenda, arrange_arrange_append, List.append_assoc, Run.drop_eq_cons some]
    rfl

/-- Firing the first timer leaves, of the timers still to fire, those behind it. -/
theorem Foresees.fire {run : Run} {p q : Performance σ} {future l : List (Nat × TimerTask)}
    {timer : Timer} {rest : TimerQueue} {clock : Nat} (h : Foresees run p future)
    (agenda : p.player.queue.agenda = timer.entry :: l) (left : rest.agenda = l)
    (fired : Performance.fire run timer (p.moved rest clock) = .more q) :
    ∃ future', Foresees run q future' ∧
      arrange (q.player.queue.agenda ++ future') = arrange (l ++ future) := by
  unfold Performance.fire at fired
  cases task : timer.task with
  | emit op =>
    simp only [task] at fired
    split at fired
    · injection fired with fired
      subst fired
      refine ⟨future, h.of_emit agenda ?_ left rfl rfl, ?_⟩
      · rw [Timer.entry, task]
        rfl
      · show arrange (rest.agenda ++ future) = _
        rw [left]
    · cases fired
  | advance index =>
    simp only [task] at fired
    rw [Timer.entry, task] at agenda
    obtain ⟨turns, rfl⟩ := h.of_advance agenda
    exact Foresees.advance (p := p.moved rest clock) left turns fired

/-! ## The loop -/

theorem play_eq (run : Run) (p : Performance σ) :
    p.play run =
      match p.step run with
      | .more q => q.play run
      | .stopped ending q => .ok (ending, q)
      | .overflow cause => .error cause := by
  rw [play]
  split
  · next h => rw [h]
  · next h => rw [h]
  · next h => rw [h]

def bareEnd (result : Except Overflow (Ending × Performance σ)) :
    Except Overflow (Ending × Performance σ) :=
  result.map fun (ending, p) => (ending, p.bare)

theorem play_eq_enact_of_nil {run : Run} {p : Performance σ} {future : List (Nat × TimerTask)}
    (h : Foresees run p future) (empty : p.player.queue.agenda = []) :
    bareEnd (p.play run) = enact run (arrange (p.player.queue.agenda ++ future)) p.bare := by
  have future : future = [] := by
    cases h with
    | done => rfl
    | turn turn => rw [empty] at turn; cases turn
  have pop : p.player.queue.pop? = none := TimerQueue.pop?_eq_none_iff_agenda.2 empty
  have report : p.bare.report = p.report := rfl
  rw [empty, future, List.append_nil, arrange_eq_self List.Pairwise.nil, enact, report]
  cases hr : p.report with
  | none =>
    have stop : p.step run = .stopped .endedEarly p := by simp only [step, pop, hr]
    rw [play_eq, stop]
    rfl
  | some r =>
    have stop : p.step run = .stopped (.finished r) p := by simp only [step, pop, hr]
    rw [play_eq, stop]
    rfl

/-- Enacting the first timer of the queue is a step. -/
theorem enact_of_agenda {run : Run} {p : Performance σ} {e : Nat × TimerTask}
    {l : List (Nat × TimerTask)} (h : p.player.queue.agenda = e :: l) :
    ∃ timer rest, p.step run = p.attend run timer rest ∧ timer.entry = e ∧ rest.agenda = l ∧
      ∀ more, enact run (e :: more) p.bare =
        match (p.step run).bare with
        | .more q => enact run more q
        | .stopped ending q => .ok (ending, q)
        | .overflow cause => .error cause := by
  obtain ⟨timer, rest, pop, rfl, left⟩ := TimerQueue.pop?_of_agenda h
  have attends : p.step run = p.attend run timer rest := by simp only [step, pop]
  refine ⟨timer, rest, attends, rfl, left, ?_⟩
  intro more
  rw [attends, bare_attend]
  rfl

/-- **The loop enacts the timers still to fire**: those in the queue and those that the
turns to come will register, arranged by deadline. -/
theorem play_eq_enact {run : Run} {p : Performance σ} {future : List (Nat × TimerTask)}
    (h : Foresees run p future) :
    bareEnd (p.play run) = enact run (arrange (p.player.queue.agenda ++ future)) p.bare := by
  revert future
  refine play.induct run (motive := fun p => ∀ {future}, Foresees run p future →
    bareEnd (p.play run) = enact run (arrange (p.player.queue.agenda ++ future)) p.bare)
    ?more ?stopped ?overflow p
  case more =>
    intro p q more ih future h
    cases agenda : p.player.queue.agenda with
    | nil => rw [← agenda, play_eq_enact_of_nil h agenda]
    | cons e l =>
      obtain ⟨timer, rest, attends, rfl, left, enacts⟩ := enact_of_agenda agenda
      obtain ⟨clock, fired⟩ := attend_eq_more (attends.symm.trans more)
      obtain ⟨future', foresees, same⟩ := h.fire agenda left fired
      rw [← agenda, h.arrange_eq_cons agenda, enacts, play_eq, more, ih foresees, same]
      rfl
  case stopped =>
    intro p ending q stopped future h
    cases agenda : p.player.queue.agenda with
    | nil => rw [← agenda, play_eq_enact_of_nil h agenda]
    | cons e l =>
      obtain ⟨-, -, -, -, -, enacts⟩ := enact_of_agenda agenda
      rw [← agenda, h.arrange_eq_cons agenda, enacts, play_eq, stopped]
      rfl
  case overflow =>
    intro p cause overflow future h
    cases agenda : p.player.queue.agenda with
    | nil => rw [← agenda, play_eq_enact_of_nil h agenda]
    | cons e l =>
      obtain ⟨-, -, -, -, -, enacts⟩ := enact_of_agenda agenda
      rw [← agenda, h.arrange_eq_cons agenda, enacts, play_eq, overflow]
      rfl

end Performance

/-! ## Whole runs -/

/-- Every timer of a run, in the order of registration; the first turn counts as one. -/
def programme (config : Config) (start : Nat) (actions : List Action) : List (Nat × TimerTask) :=
  (start, .advance 0) :: timers 0 (timeline config (.initial config) start actions)

/-- A player that is to play actions and carries nothing over from an earlier run. -/
structure Player.Ready (p : Player) (actions : List Action) : Prop where
  loaded : p.loaded = some actions
  queue : p.queue.agenda = []
  state : p.state = .initial p.config

theorem Player.ready_load (p : Player) (actions : List Action) : (p.load actions).Ready actions :=
  ⟨rfl, TimerQueue.agenda_empty, rfl⟩

namespace Playback

variable {σ : Type}

def bare (p : Playback σ) : Playback σ :=
  { p with player := { p.player with queue := .empty } }

/-- The performance with which the run of a playback begins. -/
def opening (p : Playback σ) : Performance σ :=
  { p with player := { p.player with loaded := none }, report := none }

theorem bare_after (q : Performance σ) : (after q).bare = after q.bare := by
  unfold after bare Performance.bare Performance.moved Player.release
  cases q.player.phase <;> rfl

variable [Sink σ]

/-- The first turn of a programme is the dispatch with which a run begins. -/
theorem bare_attend_opening (p : Playback σ) (actions : List Action) (cancel : Option Nat) :
    (p.opening.attend ⟨actions, p.clock, cancel.map (p.clock + ·)⟩
      ⟨Time.ofMillis p.clock, 0, .advance 0⟩ .empty).bare =
      (p.opening.advance ⟨actions, p.clock, cancel.map (p.clock + ·)⟩ 0
        (Time.ofMillis p.clock)).bare := by
  have due : Time.ceilMillis (Time.ofMillis p.clock) = p.clock := Time.ceilMillis_ofMillis _
  have same : Performance.moved p.opening p.opening.player.queue p.clock = p.opening := rfl
  have fires := p.opening.bare_advance ⟨actions, p.clock, cancel.map (p.clock + ·)⟩ 0
    (Time.ofMillis p.clock) p.clock
  unfold Performance.attend
  cases cancel with
  | none =>
    simp only [due, Option.map_none, show p.opening.clock = p.clock from rfl, Nat.max_self]
    exact (fires .empty).trans ((fires _).symm.trans (by rw [same]; rfl))
  | some ms =>
    have early : ¬ p.clock + ms < p.clock := by omega
    simp only [due, Option.map_some, early, if_false, show p.opening.clock = p.clock from rfl,
      Nat.max_self]
    exact (fires .empty).trans ((fires _).symm.trans (by rw [same]; rfl))

/-- **A run enacts its programme**, arranged by deadline. -/
theorem run_eq_enact {p : Playback σ} {actions : List Action} (ready : p.player.Ready actions)
    (cancel : Option Nat) :
    (p.run cancel).map (fun (ending, q) => (ending, q.bare)) =
      (p.opening.enact ⟨actions, p.clock, cancel.map (p.clock + ·)⟩
        (arrange (programme p.player.config (Time.ofMillis p.clock) actions))).map
        fun (ending, q) => (ending, after q) := by
  have first : arrange (programme p.player.config (Time.ofMillis p.clock) actions) =
      (Time.ofMillis p.clock, .advance 0) ::
        arrange (timers 0 (timeline p.player.config (.initial p.player.config)
          (Time.ofMillis p.clock) actions)) :=
    arrange_cons fun x hx => start_le_of_mem_timers hx
  rw [first, Performance.enact, bare_attend_opening]
  unfold run
  simp only [ready.loaded]
  cases begun : p.opening.advance ⟨actions, p.clock, cancel.map (p.clock + ·)⟩ 0
      (Time.ofMillis p.clock) with
  | overflow cause =>
    unfold opening at begun
    simp only [begun]
    rfl
  | stopped ending q =>
    unfold opening at begun
    simp only [begun]
    show Except.ok (ending, (after q).bare) = Except.ok (ending, after q.bare)
    rw [bare_after]
  | more q =>
    obtain ⟨future, foresees, same⟩ := Performance.Foresees.advance ready.queue rfl begun
    have enacts := Performance.play_eq_enact foresees
    rw [same, show p.opening.player.state = .initial p.player.config from ready.state] at enacts
    unfold opening at begun
    simp only [begun]
    refine Eq.trans ?_ (congrArg (Except.map fun (ending, q) => (ending, after q)) enacts)
    cases q.play _ with
    | error cause => rfl
    | ok r =>
      show Except.ok (r.1, (after r.2).bare) = Except.ok (r.1, after r.2.bare)
      rw [bare_after]

theorem run_of_enact {p : Playback σ} {actions : List Action} (ready : p.player.Ready actions)
    (cancel : Option Nat) {ending : Ending} {q : Performance σ}
    (enacted : p.opening.enact ⟨actions, p.clock, cancel.map (p.clock + ·)⟩
      (arrange (programme p.player.config (Time.ofMillis p.clock) actions)) = .ok (ending, q)) :
    ∃ r, p.run cancel = .ok (ending, r) ∧ r.bare = after q := by
  have ran := run_eq_enact ready cancel
  rw [enacted] at ran
  cases result : p.run cancel with
  | error cause =>
    rw [result] at ran
    cases ran
  | ok found =>
    obtain ⟨ending', r⟩ := found
    rw [result] at ran
    injection ran with ran
    injection ran with endings left
    exact ⟨r, by rw [endings], left⟩

end Playback

end TermScene
