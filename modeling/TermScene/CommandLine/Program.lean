import TermScene.CommandLine.Settings
import TermScene.Playback.Ending
import TermScene.Scenario.File
import TermScene.Scenario.Source

/-!
# The program

What the program does for its arguments: it reads a scenario, checks that its
audio files are there, and then reports on it, writes it in its normal form, or
plays it. The outcome of playing says when each text is shown; waiting for that
moment is left to the caller.
-/

namespace TermScene.CommandLine

inductive Outcome where
  | usage
  /-- A text is printed. -/
  | printed (text : Text)
  /-- A text is printed, then the program fails. -/
  | failed (text : Text) (failure : Failure)
  /-- Operations are shown, each at its millisecond, between two texts, the latter
  at the last millisecond; then the program may fail. -/
  | played (before : Text) (records : List Record) (last : Nat) (behind : Text)
      (failure : Option Failure)
  /-- Playback stops because a time cannot be held. -/
  | aborted (before : Text) (cause : Overflow)
  deriving DecidableEq

namespace Outcome

def code : Outcome → Nat
  | usage => 2
  | printed _ => 0
  | failed _ _ => 1
  | played _ _ _ _ none => 0
  | played _ _ _ _ (some _) => 1
  | aborted _ _ => 101

def output : Outcome → Text
  | usage => []
  | printed text => text
  | failed text _ => text
  | played before records _ behind _ => before ++ records.flatMap (·.op.ansi) ++ behind
  | aborted before _ => before

/-- All text printed about failures; what is said about arguments is left open. -/
def errors? : Outcome → Option Text
  | usage => none
  | printed _ => some []
  | failed _ failure => some failure.report
  | played _ _ _ _ failure => some ((failure.map Failure.report).getD [])
  | aborted _ cause => some (cause.message ++ ['\n'])

end Outcome

def versionText : Text := "scenetty 0.1.0\n".toList

def helpText : Text :=
  ("Play a scripted terminal session on the console\n\n" ++
    "Usage: scenetty [OPTIONS] --scenario <SCENARIO>\n\n" ++
    "Options:\n" ++
    "  -s, --scenario <SCENARIO>  Path to the scenario file\n" ++
    "      --assets <ASSETS>      Directory audio paths are resolved against\n" ++
    "      --prompt <PROMPT>      Prompt written before each input [default: ~:]\n" ++
    "      --no-prompt            Start without a prompt\n" ++
    "      --check                Only parse the scenario and report problems\n" ++
    "      --dump                 Print the normalized scenario instead of playing it\n" ++
    "      --strict               Refuse to play a scenario with invalid directives\n" ++
    "  -h, --help                 Print help\n" ++
    "  -V, --version              Print version\n").toList

/-- The diagnostics of a scenario, a line each. -/
def diagnosticLines (path : Text) (s : Scenario) : Text :=
  s.diagnostics.flatMap fun d => path ++ ": ".toList ++ d.message ++ ['\n']

/-- The failure of a scenario with diagnostics. -/
def uncleanFailure (path : Text) (s : Scenario) : Failure :=
  ⟨Whole.print s.diagnostics.length ++ " invalid directive(s) in ".toList ++ path, []⟩

/-- What a clean scenario holds. -/
def summaryLine (path : Text) (s : Scenario) : Text :=
  path ++ ": ".toList ++ Whole.print s.actions.length ++ " action(s), ".toList ++
    Whole.print s.cues.length ++ " audio cue(s)\n".toList

/-- Plays a scenario from a cleared screen and shows the cursor in the end. -/
def play (prompt : Option Text) (s : Scenario) : Outcome :=
  let before := TerminalOp.ansi .clear
  let behind := TerminalOp.ansi (.cursor true)
  let player := (Player.new { Config.default with prompt := prompt }).load s.actions
  let playback : Playback Recorder := ⟨player, .new none none, 0, []⟩
  match playback.run none with
  | .error cause => .aborted before cause
  | .ok (ending, playback) =>
    .played before playback.sink.log.toList playback.clock behind
      (ending.failure?.map (·.within "Failed to play scenario".toList))

/-- What is done with a scenario whose audio files are all there. -/
def present (settings : Settings) (s : Scenario) : Outcome :=
  let path := settings.scenario
  if settings.check then
    if s.isClean then .printed (summaryLine path s)
    else .failed (diagnosticLines path s) (uncleanFailure path s)
  else if settings.dump then .printed s.write
  else if settings.strict && !s.isClean then
    .failed (diagnosticLines path s) (uncleanFailure path s)
  else play settings.prompt s

variable {m : Type → Type} [Monad m]

/-- Reads the scenario and looks for its audio files before anything else. -/
def perform (files : Files m) (settings : Settings) : m Outcome := do
  let path := settings.scenario
  match ← Scenario.ofFile files path with
  | .error failure =>
    return .failed [] (failure.within ("Failed to parse scenario file: ".toList ++ path))
  | .ok s =>
    let missing ← s.missingAudio files (settings.assets.getD (Path.parent path))
    if missing = [] then return present settings s
    else
      return .failed [] ⟨"Audio file(s) not found for scenario ".toList ++ path ++ ": ".toList ++
        [',', ' '].intercalate missing, []⟩

def run (files : Files m) (arguments : List Text) : m Outcome :=
  match Wish.of arguments with
  | .usage => return .usage
  | .version => return .printed versionText
  | .help => return .printed helpText
  | .settings settings => perform files settings

end TermScene.CommandLine
