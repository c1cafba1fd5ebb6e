import Keyring.Binary64
/-!
# Durations

A duration counts nanoseconds and stays below `2 ^ 64` seconds. It can be turned into a
floating-point number of seconds and back; the way back fails where the seconds do not fit.
-/
namespace Keyring

def nanosPerSecond : Nat := 1000000000

/-- The count of seconds that no duration reaches. -/
def secondsLimit : Nat := 18446744073709551616

/-- A span of time of less than `2 ^ 64` seconds. -/
structure Duration where
  nanos : Nat
  nanos_lt : nanos < secondsLimit * nanosPerSecond
  deriving DecidableEq, Repr

namespace Duration

/-- The duration of that many nanoseconds, if it is not too long. -/
def ofNanos? (nanos : Nat) : Option Duration :=
  if h : nanos < secondsLimit * nanosPerSecond then some ⟨nanos, h⟩ else none

def zero : Duration := ⟨0, by decide⟩

def longest : Duration := ⟨secondsLimit * nanosPerSecond - 1, by decide⟩

/-- Whole seconds; what does not fit becomes the longest duration. -/
def ofSeconds (seconds : Nat) : Duration :=
  (ofNanos? (seconds * nanosPerSecond)).getD longest

/-- Milliseconds; what does not fit becomes the longest duration. -/
def ofMillis (millis : Nat) : Duration :=
  (ofNanos? (millis * 1000000)).getD longest

def seconds (d : Duration) : Nat := d.nanos / nanosPerSecond

/-- The nanoseconds past the whole seconds. -/
def subsecond (d : Duration) : Nat := d.nanos % nanosPerSecond

/-- The milliseconds, a started one counted as whole. -/
def millisUp (d : Duration) : Nat := (d.nanos + 999999) / 1000000

/-- The duration as a number of seconds: the whole seconds plus the rounded rest. -/
def toSeconds64 (d : Duration) : Binary64 :=
  (Binary64.ofNat d.seconds).add ((Binary64.ofNat d.subsecond).div (Binary64.ofNat nanosPerSecond))

/-- The duration nearest to a number of seconds, an even count of nanoseconds in a tie. There is
none for a negative number, for what is no number and from `2 ^ 64` seconds on. -/
def ofSeconds64? : Binary64 → Option Duration
  | .nan => none
  | .infinite _ => none
  | .finite negative m e =>
    if m = 0 then some zero
    else if negative then none
    else
      let (n, d) := Binary64.scale m 1 e
      ofNanos? (Binary64.nearest (n * nanosPerSecond) d)

theorem ext {a b : Duration} (h : a.nanos = b.nanos) : a = b := by
  cases a; cases b; simp_all

end Duration
end Keyring
