import TermScene.Action.Basic
import TermScene.Time

/-!
# Configuration and presentation state

The durations and the prompt that playback is set up with, and the state that
actions carry forward to later ones. Main statements: each field of the state is
changed by its own actions only (`after_of_keyword`).
-/

namespace TermScene

/-- What playback is set up with; durations are in nanoseconds. -/
structure Config where
  /-- For one typed character at speed 1. -/
  baseTypingTimeout : Nat
  /-- After an action that only changes state. -/
  settle : Nat
  /-- Before the first line of printed output. -/
  outputPriming : Nat
  /-- For one pasted literal. -/
  pastePart : Nat
  /-- Between two scrolled lines. -/
  scrollStep : Nat
  /-- The prompt to start with, if there is one. -/
  prompt : Option Text
  promptColor : UInt8
  deriving Repr, DecidableEq

def Config.defaultPrompt : Text := ['~', ':']

/-- A tenth of a second for everything but a scrolled line, which takes a
hundredth. -/
def Config.default : Config where
  baseTypingTimeout := Time.ofMillis 100
  settle := Time.ofMillis 100
  outputPriming := Time.ofMillis 100
  pastePart := Time.ofMillis 100
  scrollStep := Time.ofMillis 10
  prompt := some defaultPrompt
  promptColor := 36

/-- What actions leave behind for later ones. -/
structure State where
  prompt : Option Text
  typingSpeed : Double
  cursorVisible : Bool
  marginX : Int32
  marginY : Int32
  deriving DecidableEq

namespace State

def initial (config : Config) : State where
  prompt := config.prompt
  typingSpeed := .one
  cursorVisible := true
  marginX := 0
  marginY := 0

/-- The state that an action leaves behind. -/
def after (s : State) : Action → State
  | .prompt text => { s with prompt := text }
  | .cursor visible => { s with cursorVisible := visible }
  | .margin .x px => { s with marginX := px }
  | .margin .y px => { s with marginY := px }
  | .typingSpeed multiplier => { s with typingSpeed := multiplier }
  | _ => s

/-- The nanoseconds for one typed character: `base` divided by the speed, in
double precision, rounded, and at most what 64 bits hold. -/
def typingTimeout (s : State) (base : Nat) : Nat :=
  ((Double.ofNat base).div s.typingSpeed).toNatUpTo (UInt64.size - 1)

/-- An action of another keyword leaves the state as it is. -/
theorem after_of_keyword {s : State} {a : Action}
    (h : a.keyword ∉ [Keyword.prompt, .cursor, .marginX, .marginY, .typingSpeed]) :
    s.after a = s := by
  cases a <;> try rfl
  case margin axis px => cases axis <;> exact absurd (by simp [Action.keyword]) h
  all_goals exact absurd (by simp [Action.keyword]) h

end State

end TermScene
