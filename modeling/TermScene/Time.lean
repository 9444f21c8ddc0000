import TermScene.Text.Blank

/-!
# Time

Durations and instants are whole nanoseconds, an instant being counted from the
start of the clock. Both have a first value that can no longer be held; reaching
it is an overflow, named for the operation that reached it.
-/

namespace TermScene

/-- Which operation on times went past the greatest value. -/
inductive Overflow where
  | sum
  | addition
  | product
  | instant
  deriving Repr, DecidableEq

def Overflow.message : Overflow → Text
  | sum => "overflow in iter::sum over durations".toList
  | addition => "overflow when adding durations".toList
  | product => "overflow when multiplying duration by scalar".toList
  | instant => "overflow when adding duration to instant".toList

namespace Time

def second : Nat := 1_000_000_000

def milli : Nat := 1_000_000

/-- The first duration that cannot be held: its seconds need more than 64 bits. -/
def durationLimit : Nat := UInt64.size * second

/-- The first instant that cannot be held: its seconds need more than 63 bits. -/
def instantLimit : Nat := UInt64.size / 2 * second

/-- A number of milliseconds as a duration. -/
def ofMillis (ms : Nat) : Nat := ms * milli

/-- The first whole millisecond that is not before an instant. -/
def ceilMillis (ns : Nat) : Nat := (ns + (milli - 1)) / milli

/-- No time passes between an instant and the millisecond at which it is noted,
except to the next whole one. -/
theorem ceilMillis_le_iff {ns ms : Nat} : ceilMillis ns ≤ ms ↔ ns ≤ ofMillis ms := by
  simp only [ceilMillis, ofMillis, milli]
  omega

theorem ceilMillis_ofMillis (ms : Nat) : ceilMillis (ofMillis ms) = ms := by
  simp only [ceilMillis, ofMillis, milli]
  omega

theorem ceilMillis_ofMillis_add (ms ns : Nat) :
    ceilMillis (ofMillis ms + ns) = ms + ceilMillis ns := by
  simp only [ceilMillis, ofMillis, milli]
  omega

theorem ceilMillis_mono {a b : Nat} (h : a ≤ b) : ceilMillis a ≤ ceilMillis b :=
  ceilMillis_le_iff.2 (Nat.le_trans h (ceilMillis_le_iff.1 (Nat.le_refl _)))

end Time

end TermScene
