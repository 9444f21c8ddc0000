import TermScene.CommandLine.Program

/-!
# The executable

Looks at real files, prints, and waits in real time; everything else is decided
by the program.
-/

namespace TermScene

/-- The cause that an error of the operating system stands for. -/
def ReadFault.ofSystemError : IO.Error → ReadFault
  | .noFileOrDirectory _ _ _ => .notFound
  | .inappropriateType _ code _ => if code = 20 then .notDirectory else .isDirectory
  | error => .other error.toString.toList

/-- The files of the operating system. A file is what a byte can be read from. -/
def systemFiles : Files IO where
  read path := do
    try
      return .ok (← IO.FS.readBinFile (String.ofList path))
    catch error =>
      return .error (.ofSystemError error)
  isFile path := do
    try
      let handle ← IO.FS.Handle.mk (String.ofList path) .read
      let _ ← handle.read 1
      return true
    catch _ =>
      return false

def printNow (text : Text) : IO Unit := do
  let out ← IO.getStdout
  out.putStr (String.ofList text)
  out.flush

/-- Waits until a number of milliseconds have passed since a moment. -/
def waitUntil (start ms : Nat) : IO Unit := do
  let now ← IO.monoMsNow
  if now < start + ms then IO.sleep (UInt32.ofNat (min (start + ms - now) (UInt32.size - 1)))

/-- Shows an outcome, in real time if it was played. -/
def showOutcome : CommandLine.Outcome → IO Unit
  | .played before records last behind _ => do
    printNow before
    let start ← IO.monoMsNow
    for record in records do
      waitUntil start record.ms
      printNow record.op.ansi
    waitUntil start last
    printNow behind
  | outcome => printNow outcome.output

end TermScene

def main (args : List String) : IO UInt32 := do
  let outcome ← TermScene.CommandLine.run TermScene.systemFiles (args.map String.toList)
  TermScene.showOutcome outcome
  match outcome.errors? with
  | some text => IO.eprint (String.ofList text)
  | none => IO.eprintln "error: the arguments make no sense; try --help"
  return UInt32.ofNat outcome.code
