import TermScene.Terminal.Op

/-!
# Where operations go

A sink takes terminal operations one by one and may fail at any of them. A screen
is the text that the operations render to, of which there may be room for a
limited number of bytes only. A recorder keeps a log of the operations with their
times and shows them on a screen.
-/

namespace TermScene

inductive SinkFault where
  | closed
  | full
  deriving Repr, DecidableEq

def SinkFault.message : SinkFault → Text
  | closed => "sink closed".toList
  | full => "disk full".toList

/-- A type of sinks: what an operation at a millisecond leaves of one, and
whether it fails. -/
class Sink (σ : Type) where
  take : σ → (ms : Nat) → TerminalOp → σ × Option SinkFault

/-- Rendered text, and how many bytes more it may have, if that is limited. -/
structure Screen where
  text : Array Char
  room : Option Nat
  deriving Repr, DecidableEq

namespace Screen

/-- An empty screen with room for a number of bytes, or for any number. -/
def ofRoom (room : Option Nat) : Screen := ⟨#[], room⟩

def byteSize (t : Text) : Nat := t.foldr (fun c n => c.utf8Size + n) 0

/-- The longest beginning of a text that has room. A character that is cut in the
middle leaves a replacement character. -/
def fitting : (room : Nat) → Text → Text
  | _, [] => []
  | room, c :: rest =>
    if c.utf8Size ≤ room then c :: fitting (room - c.utf8Size) rest
    else if room = 0 then [] else ['\uFFFD']

/-- Appends a text, as much of it as there is room for. -/
def append (s : Screen) (t : Text) : Screen × Option SinkFault :=
  match s.room with
  | none => (⟨s.text ++ t, none⟩, none)
  | some room =>
    if byteSize t ≤ room then (⟨s.text ++ t, some (room - byteSize t)⟩, none)
    else (⟨s.text ++ fitting room t, some 0⟩, some .full)

instance : Sink Screen where
  take s _ op := s.append op.ansi

end Screen

/-- An operation and the millisecond at which it arrived. -/
structure Record where
  ms : Nat
  op : TerminalOp
  deriving Repr, DecidableEq

/-- A log of the operations taken and a screen that shows them. The call with
number `failAt`, counted from zero, fails and leaves no trace but in the count. -/
structure Recorder where
  log : Array Record
  calls : Nat
  failAt : Option Nat
  screen : Screen
  deriving Repr, DecidableEq

namespace Recorder

def new (failAt room : Option Nat) : Recorder := ⟨#[], 0, failAt, .ofRoom room⟩

instance : Sink Recorder where
  take r ms op :=
    if r.failAt = some r.calls then ({ r with calls := r.calls + 1 }, some .closed)
    else
      let (screen, fault) := r.screen.append op.ansi
      ({ r with log := r.log.push ⟨ms, op⟩, calls := r.calls + 1, screen := screen }, fault)

def ops (r : Recorder) : List TerminalOp := r.log.toList.map (·.op)

def written (r : Recorder) : Text := r.ops.flatMap (·.written)

/-- Takes operations one after another at the same moment, until one fails. -/
def takeAll (r : Recorder) : List TerminalOp → Recorder
  | [] => r
  | op :: more =>
    match Sink.take r 0 op with
    | (r, none) => r.takeAll more
    | (r, some _) => r

end Recorder

end TermScene
