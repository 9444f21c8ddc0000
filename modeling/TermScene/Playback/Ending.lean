import TermScene.Failure
import TermScene.Playback.Player

/-!
# The failures of a run

How the endings of a run that are failures are worded.
-/

namespace TermScene.Ending

/-- The failure that an ending is, if it is one. -/
def failure? : Ending → Option Failure
  | finished _ => none
  | cancelled => none
  | endedEarly => some ⟨"Playback ended before the last action".toList, []⟩
  | noScenario => some ⟨"no scenario loaded".toList, []⟩
  | malformed index keyword defect =>
    some ⟨"malformed action #".toList ++ Whole.print index ++ " (".toList ++ keyword.text ++
      "): ".toList ++ defect.reason, []⟩
  | sinkFailed op fault =>
    some ⟨"Terminal sink failed on ".toList ++ op.describe, [fault.message]⟩

end TermScene.Ending
