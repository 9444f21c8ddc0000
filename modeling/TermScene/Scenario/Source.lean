import TermScene.Action.Source
import TermScene.Scenario.Basic

/-!
# The source text of a scenario

A scenario is written with every audio cue before the first action that it does
not come after. Cues keep their order: one that stands behind a later cue waits
for it. Diagnostics are not written.
-/

namespace TermScene.Scenario

/-- Cues as they are written, each on lines of its own. -/
def writeCues (cues : List Cue) : Text :=
  cues.flatMap fun cue => Directive.write .audio cue.path ++ ['\n']

/-- The cues and the actions from number `n` on as they are written. -/
def writeFrom (n : Nat) (cues : List Cue) : List Action → Text
  | [] => writeCues (cues.takeWhile (·.beforeAction ≤ n))
  | a :: more =>
    writeCues (cues.takeWhile (·.beforeAction ≤ n)) ++ a.write ++
      '\n' :: writeFrom (n + 1) (cues.dropWhile (·.beforeAction ≤ n)) more

def write (s : Scenario) : Text := writeFrom 0 s.cues s.actions

end TermScene.Scenario
