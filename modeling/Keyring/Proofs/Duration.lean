import Keyring.Duration
import Keyring.Proofs.Binary64.Values

/-!
# Durations as floating-point seconds

A duration that is taken through floating-point seconds comes back rounded. Below `2 ^ 23` seconds
the seconds are fine enough for single nanoseconds, so it does not come back longer; from there on
it may, by at most one part in `2 ^ 52`. The last durations of all do not come back. What is less
than the seconds of a duration never becomes a longer one.
-/
namespace Keyring.Duration

open Binary64

/-- The duration that comes back when a duration is taken through floating-point seconds. -/
def throughSeconds? (d : Duration) : Option Duration := ofSeconds64? d.toSeconds64

/-- Durations that come back longer. -/
def RoundsUp (d : Duration) : Prop := ∃ back, d.throughSeconds? = some back ∧ d.nanos < back.nanos

/-! ## Seconds that become durations -/

/-- The nanoseconds are the value in nanoseconds, rounded. -/
theorem ofSeconds64?_eq_ofNanos? {f : Binary64} (hf : f.Regular) (hnonneg : 0 ≤ f.value) {n d : ℕ}
    (hd : 0 < d) (h : (n : ℚ) / d = f.value * nanosPerSecond) :
    ofSeconds64? f = ofNanos? (nearest n d) := by
  cases f with
  | nan => exact hf.elim
  | infinite s => exact hf.elim
  | finite s m e =>
    rw [ofSeconds64?]
    by_cases hm : m = 0
    · have hn : n = 0 := by
        have hzero : (finite s m e).value = 0 := by cases s <;> simp [value, hm]
        rw [hzero, zero_mul, div_eq_zero_iff] at h
        exact_mod_cast h.resolve_right (by positivity)
      have hnearest : nearest n d = 0 := nearest_eq_of_lt (by simp) (by omega)
      rw [if_pos hm, hnearest]
      rfl
    cases s with
    | true =>
      have hpos : (0 : ℚ) < m * 2 ^ e := by positivity
      rw [value, if_pos rfl] at hnonneg
      linarith
    | false =>
      rw [if_neg hm, if_neg Bool.false_ne_true]
      dsimp only
      congr 1
      apply nearest_congr (scale_den_pos m (by decide) e) hd
      rw [h, value, if_neg Bool.false_ne_true, Nat.cast_mul, mul_div_right_comm,
        scale_value m (by decide), Nat.cast_one, div_one]

theorem ofSeconds64?_congr {f g : Binary64} (hf : f.Regular) (hg : g.Regular)
    (hnonneg : 0 ≤ f.value) (h : f.value = g.value) : ofSeconds64? f = ofSeconds64? g := by
  obtain ⟨n, d, hd, hq⟩ := exists_quotient
    (show 0 ≤ f.value * nanosPerSecond from mul_nonneg hnonneg (by positivity))
  rw [ofSeconds64?_eq_ofNanos? hf hnonneg hd hq,
    ofSeconds64?_eq_ofNanos? hg (h ▸ hnonneg) hd (h ▸ hq)]

/-- Seconds that are less than half a nanosecond above a duration do not give a longer one. -/
theorem ofSeconds64?_of_lt {f : Binary64} (hf : f.Regular) (hnonneg : 0 ≤ f.value) {k : ℕ}
    (hk : k < secondsLimit * nanosPerSecond) (h : f.value * nanosPerSecond < k + 1 / 2) :
    ∃ d, ofSeconds64? f = some d ∧ d.nanos ≤ k := by
  obtain ⟨n, d, hd, hq⟩ := exists_quotient
    (show 0 ≤ f.value * nanosPerSecond from mul_nonneg hnonneg (by positivity))
  have hd' : (0 : ℚ) < d := by exact_mod_cast hd
  have hn : 2 * n < (2 * k + 1) * d := by
    rw [← hq, div_lt_iff₀ hd'] at h
    have : 2 * (n : ℚ) < (2 * k + 1) * d := by linarith
    exact_mod_cast this
  have hle : nearest n d ≤ k := by
    have hhalf := two_mul_nearest_le n d
    have hlt : nearest n d * d < (k + 1) * d := by
      have hsplit : (2 * k + 1) * d = 2 * (k * d) + d := by ring
      rw [Nat.succ_mul]
      omega
    exact Nat.lt_succ_iff.1 (Nat.lt_of_mul_lt_mul_right hlt)
  refine ⟨⟨nearest n d, by omega⟩, ?_, hle⟩
  rw [ofSeconds64?_eq_ofNanos? hf hnonneg hd hq, ofNanos?, dif_pos (by omega)]

/-- Seconds give at most half a nanosecond more than they are. -/
theorem nanos_le_of_ofSeconds64? {f : Binary64} (hf : f.Regular) (hnonneg : 0 ≤ f.value)
    {d : Duration} (h : ofSeconds64? f = some d) :
    (d.nanos : ℚ) ≤ f.value * nanosPerSecond + 1 / 2 := by
  obtain ⟨n, k, hk, hq⟩ := exists_quotient
    (show 0 ≤ f.value * nanosPerSecond from mul_nonneg hnonneg (by positivity))
  have hk' : (0 : ℚ) < k := by exact_mod_cast hk
  rw [ofSeconds64?_eq_ofNanos? hf hnonneg hk hq] at h
  unfold ofNanos? at h
  split at h
  · rw [← Option.some.inj h, ← hq]
    have hhalf : 2 * ((nearest n k : ℚ) * k) ≤ 2 * n + k := by
      exact_mod_cast two_mul_nearest_le n k
    rw [← sub_le_iff_le_add, le_div_iff₀ hk']
    dsimp only
    linarith
  · cases h

/-! ## Whole seconds -/

theorem nanos_ofSeconds {n : ℕ} (h : n < 2 ^ 64) : (ofSeconds n).nanos = n * nanosPerSecond := by
  have hlt : n * nanosPerSecond < secondsLimit * nanosPerSecond :=
    Nat.mul_lt_mul_of_pos_right h (by decide)
  rw [ofSeconds, ofNanos?, dif_pos hlt, Option.getD_some]

theorem seconds_ofSeconds {n : ℕ} (h : n < 2 ^ 64) : (ofSeconds n).seconds = n := by
  rw [seconds, nanos_ofSeconds h, Nat.mul_div_cancel n (by decide)]

/-- Whole seconds become the rounded number of seconds. -/
theorem toSeconds64_ofSeconds {n : ℕ} (h : n < 2 ^ 64) :
    (ofSeconds n).toSeconds64 = ofNat n := by
  have hrest : (ofSeconds n).subsecond = 0 := by
    rw [subsecond, nanos_ofSeconds h, Nat.mul_mod_left]
  have hzero : (ofNat 0).div (ofNat nanosPerSecond) = .zero false := by
    decide +kernel
  rw [toSeconds64, seconds_ofSeconds h, hrest, hzero]
  exact (isWhole_ofNat h).add_zero

/-- A whole number of seconds gives that many, if they fit. -/
theorem ofSeconds64?_of_isWhole {f : Binary64} {n : ℕ} (h : f.IsWhole n) :
    ofSeconds64? f = ofNanos? (n * nanosPerSecond) := by
  have hvalue := value_of_isWhole h
  have hquotient : ((n * nanosPerSecond : ℕ) : ℚ) / (1 : ℕ) = f.value * nanosPerSecond := by
    rw [hvalue, Nat.cast_one, div_one, Nat.cast_mul]
  have hnearest := nearest_mul Nat.one_pos (n * nanosPerSecond)
  rw [Nat.mul_one] at hnearest
  rw [ofSeconds64?_eq_ofNanos? (regular_of_isWhole h) (by rw [hvalue]; positivity) Nat.one_pos
    hquotient, hnearest]

/-- Rounded whole seconds are the whole seconds exactly if these fit into 53 bits. -/
theorem ofNanos?_rounded_eq_some_iff {n : ℕ} (h : n < 2 ^ 64) :
    ofNanos? (rounded n * nanosPerSecond) = some (ofSeconds n) ↔ 2 ^ excess n ∣ n := by
  rw [← rounded_eq_self_iff]
  constructor
  · intro hpause
    unfold ofNanos? at hpause
    split at hpause
    · have hnanos := congrArg nanos (Option.some.inj hpause)
      rw [nanos_ofSeconds h] at hnanos
      exact Nat.eq_of_mul_eq_mul_right (by decide) hnanos
    · cases hpause
  · intro hexact
    have hlt : n * nanosPerSecond < secondsLimit * nanosPerSecond :=
      Nat.mul_lt_mul_of_pos_right h (by decide)
    rw [hexact, ofSeconds, ofNanos?, dif_pos hlt, Option.getD_some]

/-- Whole seconds are rounded to what no duration can hold from 1024 below `2 ^ 64` on. -/
theorem ofNanos?_rounded_eq_none_iff {n : ℕ} (h : n < 2 ^ 64) :
    ofNanos? (rounded n * nanosPerSecond) = none ↔ 2 ^ 64 - 1024 ≤ n := by
  rw [← le_rounded_iff h, ofNanos?]
  have hfits : rounded n * nanosPerSecond < secondsLimit * nanosPerSecond ↔
      rounded n < 2 ^ 64 := Nat.mul_lt_mul_right (by decide)
  split
  next hlt =>
    have := hfits.1 hlt
    simp only [reduceCtorEq, false_iff]
    omega
  next hnot =>
    have := mt hfits.2 hnot
    simp only [true_iff]
    omega

/-! ## Durations that become seconds -/

/-- Numbers of seconds stay far below the greatest number. -/
theorem lt_overflowBound {q : ℚ} (h : q ≤ 2 ^ 65) : q < overflowBound := by
  have hpow : (2 : ℚ) ^ (12 : ℤ) ≤ 2 ^ (970 : ℤ) := zpow_le_zpow_right₀ (by norm_num) (by norm_num)
  calc q ≤ 2 ^ 65 := h
    _ < (2 ^ 54 - 1) * 2 ^ (12 : ℤ) := by norm_num
    _ ≤ overflowBound := mul_le_mul_of_nonneg_left hpow (by norm_num)

variable (d : Duration)

theorem nanos_eq : d.nanos = d.seconds * nanosPerSecond + d.subsecond :=
  (Nat.div_add_mod' d.nanos nanosPerSecond).symm

theorem subsecond_lt : d.subsecond < nanosPerSecond := Nat.mod_lt _ (by decide)

theorem seconds_lt : d.seconds < 2 ^ 64 := by
  have hlt := d.nanos_lt
  rw [Nat.mul_comm] at hlt
  exact Nat.div_lt_of_lt_mul hlt

/-- The part of a second, rounded. -/
def fraction : Binary64 := ofRatio false d.subsecond nanosPerSecond

theorem subsecond_div_le : (d.subsecond : ℚ) / nanosPerSecond ≤ 1 - 1 / nanosPerSecond := by
  have hlt := d.subsecond_lt
  rw [nanosPerSecond] at hlt
  have hle : (d.subsecond : ℚ) ≤ 999999999 := by exact_mod_cast (by omega : d.subsecond ≤ 999999999)
  rw [nanosPerSecond]
  norm_num
  linarith

theorem regular_fraction : d.fraction.Regular := by
  apply regular_ofRatio (by decide)
  have hone := d.subsecond_div_le
  apply lt_overflowBound
  rw [nanosPerSecond] at hone ⊢
  norm_num at hone ⊢
  linarith

theorem value_fraction_nonneg : 0 ≤ d.fraction.value := value_ofRatio_nonneg d.regular_fraction

theorem value_fraction_le :
    d.fraction.value ≤ (d.subsecond : ℚ) / nanosPerSecond + 2 ^ (-54 : ℤ) := by
  have hone := d.subsecond_div_le
  rw [show (-54 : ℤ) = -53 - 1 from rfl]
  apply value_ofRatio_le_of_lt (by decide) (by decide) d.regular_fraction
  rw [nanosPerSecond] at hone ⊢
  norm_num at hone ⊢
  linarith

theorem value_fraction_lt_one : d.fraction.value < 1 := by
  have hone := d.subsecond_div_le
  have hle := d.value_fraction_le
  rw [nanosPerSecond] at hone hle
  norm_num at hone hle
  linarith

/-- The seconds of a duration are the rounded sum of its whole seconds and the part of a second. -/
theorem toSeconds64_eq_ofRatio : ∃ p q : ℕ, 0 < q ∧
    (p : ℚ) / q = rounded d.seconds + d.fraction.value ∧ d.toSeconds64 = ofRatio false p q := by
  have hsubsecond : (ofNat d.subsecond).IsWhole d.subsecond := by
    have hlt : d.subsecond < 2 ^ 53 := d.subsecond_lt.trans (by decide)
    have hwhole := isWhole_ofNat (hlt.trans (by decide))
    rwa [rounded_of_lt hlt] at hwhole
  have hnanos : (ofNat nanosPerSecond).IsWhole nanosPerSecond := by
    have hwhole := isWhole_ofNat (n := nanosPerSecond) (by decide)
    rwa [rounded_of_lt (by decide)] at hwhole
  have hfraction : (ofNat d.subsecond).div (ofNat nanosPerSecond) = d.fraction :=
    div_of_isWhole hsubsecond hnanos (by decide)
  obtain ⟨m, e, hseconds, -, hm⟩ := isWhole_ofNat d.seconds_lt
  obtain ⟨n, f, hn, -⟩ := ofRatio_eq_finite d.regular_fraction
  have hvalue : d.fraction.value = n * 2 ^ f := by
    rw [fraction, hn, value, if_neg Bool.false_ne_true]
  obtain ⟨p, q, hq, hpq⟩ := exists_quotient
    (show 0 ≤ (m : ℚ) * 2 ^ e + n * 2 ^ f by positivity)
  refine ⟨p, q, hq, by rw [hpq, hm, hvalue], ?_⟩
  rw [toSeconds64, hfraction, hseconds, fraction, hn]
  exact add_eq_ofRatio m n e f hq hpq

theorem rounded_seconds_le : (rounded d.seconds : ℚ) ≤ 2 ^ 64 := by
  have hle := value_ofRatio_le (n := d.seconds) (d := 1) (by decide)
    (regular_of_isWhole (isWhole_ofNat d.seconds_lt)) (M := 1) (k := 64) (by decide) (by decide) ?_
  · have hvalue := value_of_isWhole (isWhole_ofNat d.seconds_lt)
    rw [ofNat] at hvalue
    rw [hvalue] at hle
    norm_num at hle ⊢
    exact hle
  · have hlt : (d.seconds : ℚ) < 2 ^ 64 := by exact_mod_cast d.seconds_lt
    norm_num at hlt ⊢
    exact hlt.le

theorem regular_toSeconds64 : d.toSeconds64.Regular := by
  obtain ⟨p, q, hq, hpq, h⟩ := d.toSeconds64_eq_ofRatio
  rw [h]
  apply regular_ofRatio hq
  apply lt_overflowBound
  have := d.rounded_seconds_le
  have := d.value_fraction_lt_one
  rw [hpq]
  linarith

theorem value_toSeconds64_nonneg : 0 ≤ d.toSeconds64.value := by
  obtain ⟨p, q, -, -, h⟩ := d.toSeconds64_eq_ofRatio
  have hregular := d.regular_toSeconds64
  rw [h] at hregular ⊢
  exact value_ofRatio_nonneg hregular

/-- From `2 ^ 53` seconds on, the part of a second goes away. -/
theorem toSeconds64_of_long (h : 2 ^ 53 ≤ d.seconds) : d.toSeconds64 = ofNat d.seconds := by
  obtain ⟨p, q, hq, hpq, hsum⟩ := d.toSeconds64_eq_ofRatio
  obtain ⟨m, e, hseconds, hc, hvalue⟩ := isWhole_ofNat d.seconds_lt
  have hlong : (2 : ℚ) ^ 53 ≤ m * 2 ^ e := by
    rw [hvalue]
    exact_mod_cast two_pow_le_rounded h
  have he : 0 < e := by
    by_contra hle
    have hlimit : (m : ℚ) < 2 ^ 53 := by
      have := hc.1
      rw [mantissaLimit_eq] at this
      exact_mod_cast this
    have hpow : (2 : ℚ) ^ e ≤ 1 := zpow_le_one_of_nonpos₀ (by norm_num) (not_lt.1 hle)
    have hsmall : (m : ℚ) * 2 ^ e ≤ m * 1 := by gcongr
    linarith
  have hfull : mantissaLimit ≤ 2 * m := hc.2.2.2.resolve_right (by rw [minExponent]; omega)
  have hunit : (1 : ℚ) ≤ 2 ^ (e - 1) := one_le_zpow₀ (by norm_num) (by omega)
  have hnonneg := d.value_fraction_nonneg
  have hone := d.value_fraction_lt_one
  rw [hsum, hseconds]
  apply ofRatio_add_of_lt hc hfull hq
  · rw [hpq, hvalue]
    linarith
  · rw [hpq, hvalue]
    linarith

/-- The seconds of a shorter duration are the rounded sum of its seconds and the part of a
second. -/
theorem toSeconds64_of_short (h : d.seconds < 2 ^ 53) : ∃ p q : ℕ, 0 < q ∧
    (p : ℚ) / q = d.seconds + d.fraction.value ∧ d.toSeconds64 = ofRatio false p q := by
  obtain ⟨p, q, hq, hpq, hsum⟩ := d.toSeconds64_eq_ofRatio
  rw [rounded_of_lt h] at hpq
  exact ⟨p, q, hq, hpq, hsum⟩

theorem cast_nanos :
    (d.nanos : ℚ) = (d.seconds + d.subsecond / nanosPerSecond) * nanosPerSecond := by
  have hne : (nanosPerSecond : ℚ) ≠ 0 := by norm_num [nanosPerSecond]
  rw [d.nanos_eq]
  push_cast
  field_simp

/-! ## There and back -/

/-- What is less than the seconds of a duration is not longer than the duration, or by less than
half a nanosecond. -/
theorem value_mul_lt_of_lt {f : Binary64} (hf : f.Regular) (h : f.value < d.toSeconds64.value) :
    f.value * nanosPerSecond < d.nanos + 1 / 2 := by
  have hregular := d.regular_toSeconds64
  rw [d.cast_nanos]
  rcases Nat.lt_or_ge d.seconds (2 ^ 53) with hshort | hlong
  · obtain ⟨p, q, hq, hpq, hsum⟩ := d.toSeconds64_of_short hshort
    rw [hsum] at h hregular
    have hlt := value_lt_of_lt_ofRatio hf hq hregular h
    have hle := d.value_fraction_le
    rw [hpq] at hlt
    rw [nanosPerSecond] at hle ⊢
    norm_num at hle ⊢
    linarith
  · rw [d.toSeconds64_of_long hlong, ofNat] at h hregular
    have hlt := value_lt_of_lt_ofRatio hf (by decide) hregular h
    have hsubsecond : (0 : ℚ) ≤ d.subsecond := by positivity
    rw [Nat.cast_one, div_one] at hlt
    rw [nanosPerSecond]
    norm_num
    linarith

/-- Below `2 ^ 23` seconds, less than half a nanosecond is added. -/
theorem value_mul_lt_of_short (h : d.seconds < 2 ^ 23) :
    d.toSeconds64.value * nanosPerSecond < d.nanos + 1 / 2 := by
  have hregular := d.regular_toSeconds64
  obtain ⟨p, q, hq, hpq, hsum⟩ := d.toSeconds64_of_short (h.trans (by decide))
  have hseconds : (d.seconds : ℚ) + 1 ≤ 2 ^ 23 := by exact_mod_cast h
  have hfraction := d.value_fraction_le
  have hone := d.value_fraction_lt_one
  rw [hsum] at hregular
  have hle : (ofRatio false p q).value ≤ p / q + 2 ^ ((-30 : ℤ) - 1) := by
    apply value_ofRatio_le_of_lt hq (by decide) hregular
    rw [hpq]
    norm_num
    linarith
  rw [hsum, d.cast_nanos]
  rw [hpq] at hle
  rw [nanosPerSecond] at hfraction ⊢
  norm_num at hle hfraction ⊢
  linarith

/-- From there on, less than one part in `2 ^ 52` is added. -/
theorem value_mul_le_of_long (h : 2 ^ 23 ≤ d.seconds) :
    d.toSeconds64.value * nanosPerSecond + 1 / 2 ≤ d.nanos + d.nanos / 2 ^ 52 := by
  have hregular := d.regular_toSeconds64
  have hseconds : (8388608 : ℚ) ≤ d.seconds := by exact_mod_cast h
  have hsubsecond : (0 : ℚ) ≤ d.subsecond := by positivity
  rw [d.cast_nanos]
  rcases Nat.lt_or_ge d.seconds (2 ^ 53) with hshort | hlong
  · obtain ⟨p, q, hq, hpq, hsum⟩ := d.toSeconds64_of_short hshort
    have hfraction := d.value_fraction_le
    have hnonneg := d.value_fraction_nonneg
    rw [hsum] at hregular
    have hle := value_ofRatio_le_of_one_le hq hregular (by rw [hpq]; linarith)
    rw [hsum]
    rw [hpq] at hle
    rw [nanosPerSecond] at hfraction ⊢
    norm_num at hle hfraction ⊢
    linarith
  · rw [d.toSeconds64_of_long hlong, ofNat] at hregular ⊢
    have hle := value_ofRatio_le_of_one_le (by decide) hregular
      (by rw [Nat.cast_one, div_one]; linarith)
    rw [Nat.cast_one, div_one] at hle
    rw [nanosPerSecond]
    norm_num at hle ⊢
    linarith

/-- A duration whose seconds are those of its whole seconds comes back as these, rounded. -/
theorem throughSeconds?_of_eq_ofNat (h : d.toSeconds64 = ofNat d.seconds) :
    d.throughSeconds? = ofNanos? (rounded d.seconds * nanosPerSecond) := by
  rw [throughSeconds?, h, ofSeconds64?_of_isWhole (isWhole_ofNat d.seconds_lt)]

/-- Whole seconds come back as they are if they fit into 53 bits. -/
theorem throughSeconds?_of_whole (hwhole : d.subsecond = 0)
    (hfits : 2 ^ excess d.seconds ∣ d.seconds) : d.throughSeconds? = some d := by
  have hsame : ofSeconds d.seconds = d := by
    apply ext
    rw [nanos_ofSeconds d.seconds_lt, d.nanos_eq, hwhole, Nat.add_zero]
  have hseconds : d.toSeconds64 = ofNat d.seconds :=
    (congrArg toSeconds64 hsame.symm).trans (toSeconds64_ofSeconds d.seconds_lt)
  rw [d.throughSeconds?_of_eq_ofNat hseconds,
    (ofNanos?_rounded_eq_some_iff d.seconds_lt).2 hfits, hsame]

/-- The last durations do not come back. -/
theorem throughSeconds?_eq_none_iff : d.throughSeconds? = none ↔ 2 ^ 64 - 1024 ≤ d.seconds := by
  rcases Nat.lt_or_ge d.seconds (2 ^ 53) with hshort | hlong
  · have hregular := d.regular_toSeconds64
    have hle : d.toSeconds64.value ≤ 2 ^ 53 := by
      obtain ⟨p, q, hq, hpq, hsum⟩ := d.toSeconds64_of_short hshort
      have hseconds : (d.seconds : ℚ) + 1 ≤ 2 ^ 53 := by exact_mod_cast hshort
      have hone := d.value_fraction_lt_one
      rw [hsum] at hregular ⊢
      have hlimit := value_ofRatio_le hq hregular (M := mantissaLimit) (k := 0) le_rfl (by decide)
        (by rw [hpq, mantissaLimit_eq]; norm_num at hseconds ⊢; linarith)
      rw [mantissaLimit_eq] at hlimit
      norm_num at hlimit ⊢
      exact hlimit
    obtain ⟨back, hback, -⟩ := ofSeconds64?_of_lt hregular d.value_toSeconds64_nonneg
      (k := 2 ^ 53 * nanosPerSecond) (by decide)
      (by rw [nanosPerSecond]; norm_num at hle ⊢; linarith)
    rw [throughSeconds?, hback]
    simp only [reduceCtorEq, false_iff]
    omega
  · rw [d.throughSeconds?_of_eq_ofNat (d.toSeconds64_of_long hlong)]
    exact ofNanos?_rounded_eq_none_iff d.seconds_lt

/-- Durations that do not come back longer: those below `2 ^ 23` seconds, and whole seconds of 53
bits. -/
theorem exists_throughSeconds? (h : d.seconds < 2 ^ 23 ∨
    d.subsecond = 0 ∧ 2 ^ excess d.seconds ∣ d.seconds) :
    ∃ back, d.throughSeconds? = some back ∧ back.nanos ≤ d.nanos := by
  rcases h with hshort | ⟨hwhole, hfits⟩
  · exact ofSeconds64?_of_lt d.regular_toSeconds64 d.value_toSeconds64_nonneg d.nanos_lt
      (d.value_mul_lt_of_short hshort)
  · exact ⟨d, d.throughSeconds?_of_whole hwhole hfits, le_rfl⟩

/-- No duration comes back longer by more than one part in `2 ^ 52`. -/
theorem excess_throughSeconds? {back : Duration} (h : d.throughSeconds? = some back) :
    2 ^ 52 * (back.nanos - d.nanos) ≤ d.nanos := by
  rcases Nat.lt_or_ge d.seconds (2 ^ 23) with hshort | hlong
  · obtain ⟨same, hsame, hle⟩ := d.exists_throughSeconds? (Or.inl hshort)
    rw [Option.some.inj (h.symm.trans hsame), Nat.sub_eq_zero_of_le hle]
    omega
  · have hback := nanos_le_of_ofSeconds64? d.regular_toSeconds64 d.value_toSeconds64_nonneg h
    have hle := hback.trans (d.value_mul_le_of_long hlong)
    have hmul : 2 ^ 52 * (back.nanos : ℚ) ≤ 2 ^ 52 * d.nanos + d.nanos := by linarith
    have hnat : 2 ^ 52 * back.nanos ≤ 2 ^ 52 * d.nanos + d.nanos := by exact_mod_cast hmul
    omega

end Keyring.Duration
