import TermScene.Failure
import TermScene.Files.Tree
import TermScene.Scenario.Basic

/-!
# Scenario files

Reading a scenario from a file, and finding the files of its audio cues.
-/

namespace TermScene

/-- The path of a cue's audio file, from a directory of assets on. -/
def Cue.resolve (cue : Cue) (assets : Text) : Text := Path.join assets cue.path.trim

namespace Scenario

variable {m : Type → Type} [Monad m]

/-- Reads a scenario from a file. -/
def ofFile (files : Files m) (path : Text) : m (Except Failure Scenario) := do
  match (← files.read path) >>= Files.decode with
  | .ok text => return .ok (.read text)
  | .error fault =>
    return .error ⟨"Failed to read scenario file: ".toList ++ path, [fault.message]⟩

/-- The paths of the cues' audio files at which there is no file. -/
def missingAudio (files : Files m) (s : Scenario) (assets : Text) : m (List Text) := do
  let paths := s.cues.map (·.resolve assets)
  paths.filterM fun path => do return !(← files.isFile path)

end Scenario

end TermScene
