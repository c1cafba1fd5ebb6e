import Keyring.Proofs.Duration
import Keyring.Retry

/-!
# Pauses below a cap

The seconds before a retry are compared with those of the cap as floating-point numbers. Where they
are less, the pause exists and is not longer than the cap, whatever the factor of the policy is.
Where they are not, or are no number, the pause is the cap taken through floating-point seconds.
This is longer than the cap if the cap is rounded up, and the last durations of all give no pause.
-/
namespace Keyring

namespace RetryPolicy

open Binary64

variable (policy : RetryPolicy) (attempt : ℕ)

/-- The seconds before a retry, without regard to the cap. -/
def uncappedSeconds : Binary64 :=
  policy.initial.toSeconds64.mul (policy.multiplier.power (min (attempt - 1) 64))

/-- Retries whose seconds are not less than those of the cap. They may be no number. -/
def ReachesCap : Prop :=
  attempt ≠ 0 ∧ (policy.uncappedSeconds attempt).lt policy.cap.toSeconds64 = false

variable {policy attempt}

theorem delay?_eq (h : attempt ≠ 0) : policy.delay? attempt = Duration.ofSeconds64?
    (((policy.uncappedSeconds attempt).minimum policy.cap.toSeconds64).maximum (zero false)) :=
  if_neg h

theorem uncappedSeconds_cases : (policy.uncappedSeconds attempt).Regular ∨
    (policy.uncappedSeconds attempt).isInfinite = true ∨ policy.uncappedSeconds attempt = nan :=
  mul_cases _ _

/-- At the cap, the pause is the cap taken through floating-point seconds. -/
theorem delay?_of_reachesCap (h : policy.ReachesCap attempt) :
    policy.delay? attempt = policy.cap.throughSeconds? := by
  have hcap := policy.cap.regular_toSeconds64
  have hnonneg := policy.cap.value_toSeconds64_nonneg
  obtain ⟨hmin, hminValue⟩ := minimum_of_not_lt uncappedSeconds_cases hcap h.2
  obtain ⟨hregular, hvalue⟩ := maximum_spec hmin (regular_zero false)
  rw [hminValue, value_zero, max_eq_left hnonneg] at hvalue
  rw [delay?_eq h.1, Duration.throughSeconds?]
  exact Duration.ofSeconds64?_congr hregular hcap (hvalue ▸ hnonneg) hvalue

/-- Below the cap, there is a pause and it is not longer than the cap. -/
theorem exists_delay?_of_not_reachesCap (h : ¬ policy.ReachesCap attempt) :
    ∃ pause, policy.delay? attempt = some pause ∧ pause.nanos ≤ policy.cap.nanos := by
  by_cases hattempt : attempt = 0
  · rw [hattempt, delay?_zero]
    exact ⟨.zero, rfl, Nat.zero_le _⟩
  have hlt : (policy.uncappedSeconds attempt).lt policy.cap.toSeconds64 = true := by
    rw [← Bool.not_eq_false]
    exact fun hnot => h ⟨hattempt, hnot⟩
  obtain ⟨hregular, hnonneg, hvalue⟩ :=
    maximum_zero_of_lt uncappedSeconds_cases policy.cap.regular_toSeconds64 hlt
  rw [delay?_eq hattempt]
  apply Duration.ofSeconds64?_of_lt hregular hnonneg policy.cap.nanos_lt
  rcases hvalue with hzero | hless
  · rw [hzero, zero_mul]
    positivity
  · exact policy.cap.value_mul_lt_of_lt hregular hless

/-- The first attempt comes without a pause. For every retry of every policy, the pause is missing
exactly if the cap is reached and is rounded to what no duration can hold, and is longer than the
cap exactly if the cap is reached and is rounded up; then it is so by at most one part in `2 ^ 52`.
A cap below `2 ^ 23` seconds, or of whole seconds that fit into 53 bits, is always kept. -/
theorem delay?_capped (policy : RetryPolicy) (attempt : ℕ) :
    (attempt = 0 → policy.delay? attempt = some .zero) ∧
    (policy.delay? attempt = none ↔
      policy.ReachesCap attempt ∧ 2 ^ 64 - 1024 ≤ policy.cap.seconds) ∧
    (∀ pause, policy.delay? attempt = some pause →
      (policy.cap.nanos < pause.nanos ↔ policy.ReachesCap attempt ∧ policy.cap.RoundsUp) ∧
      2 ^ 52 * (pause.nanos - policy.cap.nanos) ≤ policy.cap.nanos) ∧
    (policy.cap.seconds < 2 ^ 23 ∨
        policy.cap.subsecond = 0 ∧ 2 ^ excess policy.cap.seconds ∣ policy.cap.seconds →
      ∃ pause, policy.delay? attempt = some pause ∧ pause.nanos ≤ policy.cap.nanos) := by
  refine ⟨by rintro rfl; exact policy.delay?_zero, ?_⟩
  by_cases hreaches : policy.ReachesCap attempt
  · rw [delay?_of_reachesCap hreaches]
    refine ⟨?_, fun pause hpause => ⟨?_, policy.cap.excess_throughSeconds? hpause⟩,
      policy.cap.exists_throughSeconds?⟩
    · rw [policy.cap.throughSeconds?_eq_none_iff, and_iff_right hreaches]
    · constructor
      · exact fun hlong => ⟨hreaches, pause, hpause, hlong⟩
      · rintro ⟨-, back, hback, hlong⟩
        rwa [Option.some.inj (hpause.symm.trans hback)]
  · obtain ⟨pause, hpause, hle⟩ := exists_delay?_of_not_reachesCap hreaches
    rw [hpause]
    refine ⟨by simp [hreaches], fun same hsame => ?_, fun _ => ⟨pause, rfl, hle⟩⟩
    rw [← Option.some.inj hsame, Nat.sub_eq_zero_of_le hle]
    exact ⟨by simp [hreaches, hle], Nat.zero_le _⟩

/-- A cap of one nanosecond more than `2 ^ 23` seconds is reached, and exceeded by another one. -/
theorem delay?_capped_exceeded :
    let cap : Duration := ⟨8388608000000001, by decide⟩
    (⟨5, .ofSeconds 1, cap, .nan⟩ : RetryPolicy).ReachesCap 2 ∧ cap.RoundsUp := by
  intro cap
  have hpause : (⟨5, .ofSeconds 1, cap, .nan⟩ : RetryPolicy).delay? 2 =
      some ⟨8388608000000002, by decide⟩ := by decide +kernel
  obtain ⟨-, -, hlonger, -⟩ := delay?_capped ⟨5, .ofSeconds 1, cap, .nan⟩ 2
  exact (hlonger _ hpause).1.1 (by decide)

/-- The cap is not a cap: a pause may be longer, and there may be none. -/
theorem cap_not_kept :
    (¬ ∀ (policy : RetryPolicy) (attempt : ℕ), (policy.delay? attempt).isSome = true) ∧
      ¬ ∀ (policy : RetryPolicy) (attempt : ℕ) (pause : Duration),
        policy.delay? attempt = some pause → pause.nanos ≤ policy.cap.nanos := by
  constructor
  · intro hsome
    have hlast := hsome ⟨5, .ofSeconds 1, .longest, .ofNat 2⟩ 65
    revert hlast
    decide +kernel
  · intro hkept
    have hlonger := hkept ⟨5, ⟨8388608000000001, by decide⟩, ⟨8388608000000001, by decide⟩, .one⟩ 1
      ⟨8388608000000002, by decide⟩ (by decide +kernel)
    exact absurd hlonger (by decide)

end RetryPolicy
end Keyring
