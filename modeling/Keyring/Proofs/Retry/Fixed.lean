import Keyring.Proofs.Duration
import Keyring.Retry

/-!
# Fixed pauses

A fixed pause of whole seconds goes through floating-point seconds and comes back as the rounded
number of seconds, whatever the number of the retry. Below `2 ^ 53` seconds nothing is lost. The
very last numbers of seconds are rounded to what no duration can hold.
-/
namespace Keyring

namespace RetryPolicy

/-- The pause of a fixed policy: the rounded seconds, if a duration can hold them. -/
def fixedPause (seconds : ℕ) : Option Duration :=
  Duration.ofNanos? (Binary64.rounded seconds * nanosPerSecond)

/-- A fixed policy has one pause for all retries. -/
theorem delay?_fixed {n attempt : ℕ} (h : n < 2 ^ 64) (hattempt : 1 ≤ attempt) :
    (fixed (.ofSeconds n)).delay? attempt = fixedPause n := by
  have hwhole := Binary64.isWhole_ofNat h
  rw [delay?, if_neg (by omega)]
  dsimp only [fixed]
  rw [Duration.toSeconds64_ofSeconds h, Binary64.power_one, hwhole.mul_one, Binary64.minimum_self,
    hwhole.maximum_zero, Duration.ofSeconds64?_of_isWhole hwhole, fixedPause]

/-- The pause is the given one exactly if its seconds fit into 53 bits. -/
theorem fixedPause_eq_some_iff {n : ℕ} (h : n < 2 ^ 64) :
    fixedPause n = some (.ofSeconds n) ↔ 2 ^ Binary64.excess n ∣ n :=
  Duration.ofNanos?_rounded_eq_some_iff h

/-- There is no pause from 1024 below `2 ^ 64` seconds on. -/
theorem fixedPause_eq_none_iff {n : ℕ} (h : n < 2 ^ 64) :
    fixedPause n = none ↔ 2 ^ 64 - 1024 ≤ n :=
  Duration.ofNanos?_rounded_eq_none_iff h

theorem nanos_fixedPause {n : ℕ} {delay : Duration} (h : fixedPause n = some delay) :
    delay.nanos = Binary64.rounded n * nanosPerSecond := by
  unfold fixedPause Duration.ofNanos? at h
  split at h
  · rw [← Option.some.inj h]
  · cases h

end RetryPolicy
end Keyring
