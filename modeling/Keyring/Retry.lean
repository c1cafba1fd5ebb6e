import Keyring.Duration
/-!
# Retry policies

A policy bounds the number of retries and gives the pause before each: it grows by a factor from an
initial pause up to a cap. The pause is computed with floating-point seconds, so it is absent where
the cap in seconds rounds to what no duration can hold.
-/
namespace Keyring

/-- How often a failed step is repeated and how long to wait before each repetition. -/
structure RetryPolicy where
  /-- Repetitions after the first attempt; a loop that retries forever ignores it. -/
  maxRetries : Nat
  /-- The pause before the first retry. -/
  initial : Duration
  /-- The longest pause. -/
  cap : Duration
  /-- The factor from one pause to the next; one keeps the pause fixed. -/
  multiplier : Binary64
  deriving DecidableEq, Repr

namespace RetryPolicy

/-- Five retries after 50 ms, doubled each time, at most two seconds apart. -/
def standard : RetryPolicy :=
  ⟨5, Duration.ofMillis 50, Duration.ofSeconds 2, Binary64.ofNat 2⟩

/-- The same pause before each of the most retries that can be counted. -/
def fixed (delay : Duration) : RetryPolicy :=
  ⟨4294967295, delay, delay, Binary64.one⟩

/-- The pause before retry number `attempt`, counted from one: the initial pause times a power of
the factor, not above the cap and not below zero. The exponent stops at 64. -/
def delay? (policy : RetryPolicy) (attempt : Nat) : Option Duration :=
  if attempt = 0 then some Duration.zero
  else
    let factor := policy.multiplier.power (min (attempt - 1) 64)
    let seconds := (policy.initial.toSeconds64.mul factor).minimum policy.cap.toSeconds64
    Duration.ofSeconds64? (seconds.maximum (Binary64.zero false))

@[simp] theorem delay?_zero (policy : RetryPolicy) : policy.delay? 0 = some Duration.zero := rfl

end RetryPolicy
end Keyring
