import TermScene.Proofs.Playback.Phases

/-!
# The course of a run

Every timer that a run through actions can fire, in the order in which they fire
(`Playback.course`). It is known before the run is made: the timers that fired are a
beginning of it, and what waits in the queue or is still to be registered is the rest
(`Reaches.remains`). In front of the turn that completes the scenario stands what is due no
later, behind it only operations that are due later (`due_of_mem`).
-/

namespace TermScene

open Agenda

/-- What a sink takes without failing, it takes in two goes. -/
theorem Sink.feed_append {σ : Type} [Sink σ] {s t : σ} {l : List Record}
    (h : Sink.feed s l = (t, none)) (m : List Record) :
    Sink.feed s (l ++ m) = Sink.feed t m := by
  induction l generalizing s with
  | nil =>
    injection h with h
    rw [← h]
    rfl
  | cons r l ih =>
    obtain ⟨u, taken, more⟩ := Sink.feed_cons_none h
    rw [List.cons_append, Sink.feed, taken]
    exact ih more

/-- A recorder without limits takes everything. -/
theorem Recorder.feed_unlimited {r : Recorder} (failAt : r.failAt = none)
    (room : r.screen.room = none) (l : List Record) :
    ∃ r', Sink.feed r l = (r', none) ∧ r'.log.toList = r.log.toList ++ l := by
  induction l generalizing r with
  | nil => exact ⟨r, rfl, (List.append_nil _).symm⟩
  | cons x l ih =>
    let next : Recorder :=
      { r with
        log := r.log.push x
        calls := r.calls + 1
        screen := ⟨r.screen.text ++ x.op.ansi, none⟩ }
    have appended : r.screen.append x.op.ansi = (⟨r.screen.text ++ x.op.ansi, none⟩, none) := by
      simp only [Screen.append, room]
    have taken : Sink.take r x.ms x.op = (next, none) := by
      show (if r.failAt = some r.calls then _ else _) = _
      rw [if_neg (by rw [failAt]; simp), appended]
    obtain ⟨r', fed, log⟩ := ih (r := next) failAt rfl
    refine ⟨r', by rw [Sink.feed, taken]; exact fed, ?_⟩
    rw [log, Array.toList_push, List.append_assoc, List.singleton_append]

theorem Recorder.feed_new (l : List Record) : (Sink.feed (Recorder.new none none) l).2 = none := by
  obtain ⟨r, fed, -⟩ := feed_unlimited (r := .new none none) rfl rfl l
  exact congrArg Prod.snd fed

theorem Agenda.exists_place {α : Type} {l : List (Nat × α)} (h : InOrder l) (x : Nat × α) :
    ∃ a b, place x l = a ++ x :: b ∧ (∀ y ∈ a, y.1 ≤ x.1) ∧ ∀ y ∈ b, x.1 < y.1 := by
  induction l with
  | nil => exact ⟨[], [], rfl, by simp, by simp⟩
  | cons y l ih =>
    obtain ⟨hy, hl⟩ := List.pairwise_cons.1 h
    unfold place
    split
    · next le =>
      obtain ⟨a, b, same, before, behind⟩ := ih hl
      refine ⟨y :: a, b, by rw [same]; rfl, ?_, behind⟩
      intro z hz
      rcases List.mem_cons.1 hz with rfl | hz
      · exact le
      · exact before z hz
    · next lt =>
      refine ⟨[], y :: l, rfl, by simp, ?_⟩
      intro z hz
      rcases List.mem_cons.1 hz with rfl | hz
      · exact Nat.lt_of_not_le lt
      · have := hy z hz
        omega

/-! ## The turns of a programme -/

section

variable {config : Config} {s : State} {now index : Nat} {actions : List Action}

theorem map_snd_turnTimes (index now : Nat) (turns : List Turn) :
    (turnTimes index now turns).map (·.2) = List.range' index (turns.length + 1) := by
  induction turns generalizing index now with
  | nil => rfl
  | cons t more ih =>
    rw [turnTimes, List.map_cons, ih]
    rfl

theorem length_timeline (config : Config) (s : State) (now : Nat) (actions : List Action) :
    (timeline config s now actions).length = actions.length := by
  induction actions generalizing s now with
  | nil => rfl
  | cons a more ih => rw [timeline, List.length_cons, List.length_cons, ih]

/-- A turn comes when all actions before it have lasted their time. -/
theorem eq_of_mem_turnTimes {d i : Nat}
    (h : (d, i) ∈ turnTimes index now (timeline config s now actions)) :
    index ≤ i ∧ d = now + elapsed ((timeline config s now actions).take (i - index)) := by
  induction actions generalizing s now index with
  | nil =>
    obtain ⟨rfl, rfl⟩ := Prod.mk.inj (List.mem_singleton.1 h)
    exact ⟨Nat.le_refl _, by rw [Nat.sub_self]; rfl⟩
  | cons a more ih =>
    rcases List.mem_cons.1 h with h | h
    · obtain ⟨rfl, rfl⟩ := Prod.mk.inj h
      exact ⟨Nat.le_refl _, by rw [Nat.sub_self]; rfl⟩
    · obtain ⟨le, same⟩ := ih h
      refine ⟨by omega, ?_⟩
      rw [same, timeline, show i - index = i - (index + 1) + 1 by omega, List.take_succ_cons,
        elapsed, ← Nat.add_assoc]
      rfl

theorem elapsed_append (l m : List Turn) : elapsed (l ++ m) = elapsed l + elapsed m := by
  induction l with
  | nil => exact (Nat.zero_add _).symm
  | cons t l ih => rw [List.cons_append, elapsed, elapsed, ih, Nat.add_assoc]

theorem elapsed_take_le (i : Nat) (turns : List Turn) : elapsed (turns.take i) ≤ elapsed turns := by
  have whole := elapsed_append (turns.take i) (turns.drop i)
  rw [List.take_append_drop] at whole
  omega

/-- The last timer to be registered is the turn that completes the scenario. -/
theorem exists_timers_concat (config : Config) (s : State) (now index : Nat)
    (actions : List Action) :
    ∃ l, (now, TimerTask.advance index) :: timers index (timeline config s now actions) = l ++
      [(now + elapsed (timeline config s now actions), .advance (index + actions.length))] := by
  induction actions generalizing s now index with
  | nil => exact ⟨[], rfl⟩
  | cons a more ih =>
    let t : Turn := ⟨now, .of config s a⟩
    let emits := t.emissions.map fun x => (x.1, TimerTask.emit x.2)
    let later := timeline config (s.after a) t.finish more
    obtain ⟨l, same⟩ := ih (s.after a) t.finish (index + 1)
    have own : timers index (timeline config s now (a :: more)) =
        emits ++ ((t.finish, .advance (index + 1)) :: timers (index + 1) later) :=
      List.append_assoc _ _ _
    have last : now + elapsed (timeline config s now (a :: more)) = t.finish + elapsed later :=
      (Nat.add_assoc _ _ _).symm
    refine ⟨(now, .advance index) :: emits ++ l, ?_⟩
    rw [own, last, same, List.length_cons, Nat.add_assoc, Nat.add_comm 1, List.append_assoc]
    rfl

end

namespace Playback

variable {σ : Type}

/-- Every timer of a run through actions, in the order in which they fire. -/
def course (p : Playback σ) (actions : List Action) : List (Nat × TimerTask) :=
  arrange (programme p.player.config (Time.ofMillis p.clock) actions)

/-- The instant at which a run through actions completes the scenario. -/
def finish (p : Playback σ) (actions : List Action) : Nat :=
  Time.ofMillis p.clock + elapsed (p.turns actions)

section

variable {p : Playback σ} {actions : List Action}

theorem inOrder_course (p : Playback σ) (actions : List Action) : InOrder (p.course actions) :=
  inOrder_arrange _

theorem keep_op?_course : keep TimerTask.op? (p.course actions) = schedule (p.turns actions) :=
  keep_op?_programme

theorem turnsOf_course : turnsOf (p.course actions) = List.range (actions.length + 1) := by
  have times : (keep TimerTask.turn? (p.course actions)).map (·.2) = _ :=
    congrArg (List.map (·.2)) keep_turn?_programme
  rw [map_snd_keep, List.filterMap_map, map_snd_turnTimes, length_timeline] at times
  rw [List.range_eq_range']
  exact times

theorem mem_turnsOf {fired : List (Nat × TimerTask)} {i : Nat} :
    i ∈ turnsOf fired ↔ ∃ d, (d, .advance i) ∈ fired := by
  unfold turnsOf
  rw [List.mem_filterMap]
  constructor
  · rintro ⟨⟨d, task⟩, mem, turn⟩
    cases task with
    | emit op => cases turn
    | advance index =>
      injection turn with turn
      exact ⟨d, turn ▸ mem⟩
  · rintro ⟨d, mem⟩
    exact ⟨_, mem, rfl⟩

/-- A turn is due when all actions before it have lasted their time. -/
theorem due_of_turn {d i : Nat} (h : (d, .advance i) ∈ p.course actions) :
    d = Time.ofMillis p.clock + elapsed ((p.turns actions).take i) := by
  have mem : (d, i) ∈ keep TimerTask.turn? (p.course actions) :=
    List.mem_filterMap.2 ⟨_, h, rfl⟩
  rw [course, keep_turn?_programme] at mem
  exact (eq_of_mem_turnTimes mem).2

/-- The turn that completes the scenario stands behind what is due no later. -/
theorem exists_course (p : Playback σ) (actions : List Action) :
    ∃ a b, p.course actions = a ++ (p.finish actions, .advance actions.length) :: b ∧
      (∀ e ∈ a, e.1 ≤ p.finish actions) ∧ ∀ e ∈ b, p.finish actions < e.1 := by
  obtain ⟨l, same⟩ := exists_timers_concat p.player.config (.initial p.player.config)
    (Time.ofMillis p.clock) 0 actions
  obtain ⟨a, b, placed, before, behind⟩ := Agenda.exists_place (inOrder_arrange l)
    (p.finish actions, .advance actions.length)
  refine ⟨a, b, ?_, before, behind⟩
  rw [← placed, ← arrange_append_singleton, course, programme, same, Nat.zero_add]
  rfl

variable {fired rest : List (Nat × TimerTask)}

/-- Once the scenario is complete, only operations are left, and they are due later. -/
theorem due_of_mem (all : fired ++ rest = p.course actions)
    (completed : actions.length ∈ turnsOf fired) :
    ∀ e ∈ rest, p.finish actions < e.1 ∧ ∃ op, e.2 = .emit op := by
  obtain ⟨a, b, same, -, behind⟩ := exists_course p actions
  have turns : turnsOf a ++ actions.length :: turnsOf b = List.range (actions.length + 1) := by
    rw [← turnsOf_course (p := p), same, turnsOf_append]
    rfl
  have nodup := turns ▸ List.nodup_range (n := actions.length + 1)
  have before : actions.length ∉ turnsOf a := by
    intro mem
    exact (List.nodup_append.1 nodup).2.2 _ mem _ List.mem_cons_self rfl
  have suffix : ∀ e ∈ rest, e ∈ b := by
    rcases List.append_eq_append_iff.1 (all.trans same) with ⟨c, ha, -⟩ | ⟨c, hf, hc⟩
    · rw [ha, turnsOf_append] at before
      exact absurd (List.mem_append_left _ completed) before
    · cases c with
      | nil =>
        rw [List.append_nil] at hf
        exact absurd (hf ▸ completed) before
      | cons x c =>
        injection hc with _ hb
        intro e he
        rw [hb]
        exact List.mem_append_right _ he
  intro e he
  refine ⟨behind e (suffix e he), ?_⟩
  obtain ⟨d, task⟩ := e
  cases task with
  | emit op => exact ⟨op, rfl⟩
  | advance i =>
    -- a turn is due at the end of the scenario at the latest
    have due := due_of_turn (all ▸ List.mem_append_right fired he)
    have late := behind _ (suffix _ he)
    have le := elapsed_take_le i (p.turns actions)
    rw [finish] at late
    omega

/-- Until the scenario is complete, the turn that completes it is still to come. -/
theorem mem_of_not_completed (all : fired ++ rest = p.course actions)
    (incomplete : actions.length ∉ turnsOf fired) :
    (p.finish actions, .advance actions.length) ∈ rest := by
  obtain ⟨a, b, same, -, -⟩ := exists_course p actions
  have mem : (p.finish actions, .advance actions.length) ∈ fired ++ rest := by
    rw [all, same]
    exact List.mem_append_right _ List.mem_cons_self
  rcases List.mem_append.1 mem with mem | mem
  · exact absurd (mem_turnsOf.2 ⟨_, mem⟩) incomplete
  · exact mem

end

end Playback

/-! ## What is still to fire -/

theorem TimerQueue.keep_turn?_agenda {q : TimerQueue} (none : q.turns = []) :
    keep TimerTask.turn? q.agenda = [] := by
  apply List.filterMap_eq_nil_iff.2
  intro e he
  obtain ⟨t, ht, rfl⟩ := List.mem_map.1 he
  have task := List.filter_eq_nil_iff.1 none t (q.firing_perm.mem_iff.1 ht)
  rw [Timer.entry, Option.not_isSome_iff_eq_none.1 task]
  rfl

namespace Performance

variable {σ : Type}

/-- What is still to fire in a run: the timers in the queue and those that the turns to come
will register, arranged by deadline. -/
def Remains (run : Run) (q : Performance σ) (rest : List (Nat × TimerTask)) : Prop :=
  ∃ future, q.Foresees run future ∧ arrange (q.player.queue.agenda ++ future) = rest

variable {run : Run} {q : Performance σ} {rest : List (Nat × TimerTask)}

theorem Remains.of_pop {timer : Timer} {left : TimerQueue} (h : q.Remains run rest)
    (pop : q.player.queue.pop? = some (timer, left)) : ∃ behind, rest = timer.entry :: behind := by
  obtain ⟨future, foresees, rfl⟩ := h
  exact ⟨_, foresees.arrange_eq_cons (TimerQueue.agenda_of_pop? pop)⟩

/-- With no turn waiting, no timer will be registered any more. -/
theorem Remains.agenda (h : q.Remains run rest) (none : q.player.queue.turns = []) :
    q.player.queue.agenda = rest := by
  obtain ⟨future, foresees, rfl⟩ := h
  cases foresees with
  | turn turn => rw [TimerQueue.keep_turn?_agenda none] at turn; cases turn
  | done => rw [List.append_nil, arrange_eq_self q.player.queue.inOrder_agenda]

theorem Remains.of_empty (h : q.Remains run rest) (empty : q.player.queue.pop? = none) :
    rest = [] := by
  rw [← h.agenda (TimerQueue.turns_of_pop?_eq_none empty)]
  exact TimerQueue.pop?_eq_none_iff_agenda.1 empty

end Performance

namespace Playback

variable {σ : Type} [Sink σ] {p : Playback σ} {actions : List Action} {cancel : Option Nat}
  {fired : List (Nat × TimerTask)} {q : Performance σ}

/-- **The timers that fired are a beginning of the course**, and the rest is still to fire. -/
theorem Reaches.remains (reached : p.Reaches (p.runOf actions cancel) fired q)
    (ready : p.player.Ready actions) :
    ∃ rest, q.Remains (p.runOf actions cancel) rest ∧ fired ++ rest = p.course actions := by
  -- a timer that fires goes from the front of the rest to the end of what fired
  induction reached with
  | opening more =>
    obtain ⟨future, foresees, same⟩ := Performance.Foresees.advance ready.queue rfl more
    refine ⟨_, ⟨future, foresees, rfl⟩, ?_⟩
    rw [same, show p.opening.player.state = .initial p.player.config from ready.state]
    exact (arrange_cons fun x hx => start_le_of_mem_timers hx).symm
  | @fire fired q r timer left reached pop more ih =>
    obtain ⟨rest, ⟨future, foresees, rfl⟩, all⟩ := ih
    obtain ⟨timer', left', clock, pop', fires⟩ := Performance.step_eq_fire more
    obtain ⟨rfl, rfl⟩ := Prod.mk.inj (Option.some.inj (pop.symm.trans pop'))
    have agenda := TimerQueue.agenda_of_pop? pop
    obtain ⟨future', foresees', same⟩ := foresees.fire agenda rfl fires
    refine ⟨_, ⟨future', foresees', rfl⟩, ?_⟩
    rw [same, List.append_assoc, List.singleton_append, ← foresees.arrange_eq_cons agenda]
    exact all

/-- Nothing fires behind the limit of a run. -/
theorem Reaches.inTime (reached : p.Reaches (p.runOf actions cancel) fired q) :
    ∀ e ∈ fired, (p.runOf actions cancel).InTime e.1 := by
  induction reached using Reaches.induction with
  | opening more advance =>
    intro e he limit hlimit
    obtain rfl := List.mem_singleton.1 he
    obtain ⟨ms, -, rfl⟩ := Option.map_eq_some_iff.1 hlimit
    show Time.ceilMillis (Time.ofMillis p.clock) ≤ _
    rw [Time.ceilMillis_ofMillis]
    exact Nat.le_add_right _ _
  | emitted reached pop inTime task taken more ih =>
    exact List.forall_mem_append.2 ⟨ih, List.forall_mem_singleton.2 inTime⟩
  | turn reached pop inTime task advance more ih =>
    exact List.forall_mem_append.2 ⟨ih, List.forall_mem_singleton.2 inTime⟩

/-- The timer that is taken out of the queue is the next of the course. -/
theorem Reaches.course_of_pop (reached : p.Reaches (p.runOf actions cancel) fired q)
    (ready : p.player.Ready actions) {timer : Timer} {left : TimerQueue}
    (pop : q.player.queue.pop? = some (timer, left)) :
    ∃ rest, fired ++ timer.entry :: rest = p.course actions := by
  obtain ⟨_, remains, all⟩ := reached.remains ready
  obtain ⟨rest, rfl⟩ := remains.of_pop pop
  exact ⟨rest, all⟩

omit [Sink σ] in
theorem le_of_course {e : Nat × TimerTask} {rest : List (Nat × TimerTask)}
    (all : fired ++ e :: rest = p.course actions) : ∀ x ∈ rest, e.1 ≤ x.1 := by
  have sorted := all ▸ inOrder_course p actions
  exact (List.pairwise_cons.1 (List.pairwise_append.1 sorted).2.1).1

/-- The clock never runs ahead of the timers still to fire. -/
theorem Reaches.clock_le (reached : p.Reaches (p.runOf actions cancel) fired q)
    {rest : List (Nat × TimerTask)} (all : fired ++ rest = p.course actions) :
    ∀ e ∈ rest, q.clock ≤ Time.ceilMillis e.1 := by
  have behind {fired rest : List (Nat × TimerTask)} {q r : Performance σ} {timer : Timer}
      {left : TimerQueue} (reached : p.Reaches (p.runOf actions cancel) fired q)
      (pop : q.player.queue.pop? = some (timer, left))
      (ih : ∀ {rest}, fired ++ rest = p.course actions →
        ∀ e ∈ rest, q.clock ≤ Time.ceilMillis e.1)
      (clock : r.clock = (q.awake timer left).clock)
      (all : fired ++ [timer.entry] ++ rest = p.course actions) :
      ∀ e ∈ rest, r.clock ≤ Time.ceilMillis e.1 := by
    rw [List.append_assoc, List.singleton_append] at all
    intro e he
    rw [clock]
    exact Nat.max_le.2 ⟨ih all e (List.mem_cons_of_mem _ he),
      Time.ceilMillis_mono (le_of_course all e he)⟩
  induction reached using Reaches.induction generalizing rest with
  | @opening q more advance =>
    intro e he
    have all : [] ++ (Time.ofMillis p.clock, .advance 0) :: rest = p.course actions := all
    rw [show q.clock = p.clock by cases advance <;> rfl, ← Time.ceilMillis_ofMillis p.clock]
    exact Time.ceilMillis_mono (le_of_course all e he)
  | emitted reached pop inTime task taken more ih => exact behind reached pop ih rfl all
  | turn reached pop inTime task advance more ih =>
    exact behind reached pop ih (by cases advance <;> rfl) all

/-- A timer fires at the first whole millisecond that is not before its deadline. -/
theorem Reaches.clock_awake (reached : p.Reaches (p.runOf actions cancel) fired q)
    (ready : p.player.Ready actions) {timer : Timer} {left : TimerQueue}
    (pop : q.player.queue.pop? = some (timer, left)) :
    (q.awake timer left).clock = Time.ceilMillis timer.deadline := by
  obtain ⟨rest, all⟩ := reached.course_of_pop ready pop
  exact Nat.max_eq_right (reached.clock_le all _ List.mem_cons_self)

/-- The sink has taken the operations that fired, each at its millisecond, and no other. -/
theorem Reaches.fed (reached : p.Reaches (p.runOf actions cancel) fired q)
    (ready : p.player.Ready actions) :
    Sink.feed p.sink ((keep TimerTask.op? fired).map punctual) = (q.sink, none) := by
  induction reached using Reaches.induction with
  | @opening q more advance =>
    have same : q.sink = p.sink := by cases advance <;> rfl
    rw [same]
    rfl
  | @emitted fired q timer left op sink reached pop inTime task taken more ih =>
    rw [reached.clock_awake ready pop] at taken
    rw [keep_append, List.map_append, Sink.feed_append ih, Timer.entry, task]
    show Sink.feed q.sink [⟨Time.ceilMillis timer.deadline, op⟩] = _
    rw [Sink.feed, taken]
    rfl
  | @turn fired q r timer left index reached pop inTime task advance more ih =>
    have same : r.sink = q.sink := by cases advance <;> rfl
    rw [keep_append, Timer.entry, task, same]
    exact (congrArg _ (congrArg _ (List.append_nil _))).trans ih

end Playback

end TermScene
