import TermScene.Playback.Player

/-!
# Sessions

A playback performs commands one after another, each from where the one before
left it. Nothing but the state of the playback goes from one command to the next.
A session is a playback to a recorder, and answers each command with what it
changed.
-/

namespace TermScene

inductive Command where
  | listen (name : Text)
  | sleep (ms : Nat)
  | load (actions : List Action)
  | run (cancel : Option Nat)
  | play (actions : List Action) (cancel : Option Nat)
  deriving DecidableEq

namespace Playback

variable {σ : Type}

/-- A playback of nothing yet; the clock starts at zero. -/
def new (config : Config) (sink : σ) : Playback σ := ⟨.new config, sink, 0, []⟩

def withPlayer (p : Playback σ) (change : Player → Player) : Playback σ :=
  { p with player := change p.player }

/-- The playback after a command, and how the run ended if it was one. -/
def perform [Sink σ] (p : Playback σ) : Command → Except Overflow (Option Ending × Playback σ)
  | .listen name => .ok (none, p.withPlayer (·.listen name))
  | .sleep ms => .ok (none, { p with clock := p.clock + ms })
  | .load actions => .ok (none, p.withPlayer (·.load actions))
  | .run cancel => (p.run cancel).map fun (ending, p) => (some ending, p)
  | .play actions cancel =>
    ((p.withPlayer (·.load actions)).run cancel).map fun (ending, p) => (some ending, p)

end Playback

/-- A playback to a recorder. -/
abbrev Session := Playback Recorder

namespace Session

/-- What a command changed: how the run ended if it was one, where the player
stands, and what was recorded, shown and signalled. -/
structure Answer where
  ending : Option Ending
  phase : Phase
  state : State
  records : List Record
  shown : Text
  completions : List (Text × Report)
  deriving DecidableEq

def answer (before after : Session) (ending : Option Ending) : Answer where
  ending := ending
  phase := after.player.phase
  state := after.player.state
  records := (after.sink.log.extract before.sink.log.size after.sink.log.size).toList
  shown :=
    (after.sink.screen.text.extract before.sink.screen.text.size after.sink.screen.text.size).toList
  completions := after.signals.drop before.signals.length

/-- Performs commands in order. An overflow ends everything. -/
def performAll (s : Session) : List Command → Except Overflow (List Answer × Session)
  | [] => .ok ([], s)
  | command :: more => do
    let (ending, next) ← s.perform command
    let (answers, last) ← performAll next more
    return (s.answer next ending :: answers, last)

end Session

end TermScene
