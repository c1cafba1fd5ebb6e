import Keyring.Proofs.Binary64.Powers
import Keyring.Proofs.Json.NumberText

/-!
# Numbers of a significand and a power of ten

A reader multiplies or divides a significand by a power of ten. Whatever it gets is a regular
floating-point number, and it gets one for every power below one and for every shortest decimal.
-/
namespace Keyring.Json.Number

open Binary64 (Regular magnitude)

/-- The numbers that values hold: integers of 64 bits and regular floating-point numbers. -/
def Storable : Number → Prop
  | .int z => IsWord z
  | .float f => f.Regular

theorem regular_ofNat {n : ℕ} (h : n < wordLimit) : (Binary64.ofNat n).Regular := by
  apply Binary64.regular_ofRatio (by decide)
  have hn : (n : ℚ) < wordLimit := by exact_mod_cast h
  have hlimit : ((wordLimit : ℕ) : ℚ) ≤ Binary64.overflowBound := by
    have hpow : (1 : ℚ) ≤ 2 ^ (970 : ℤ) := one_le_zpow₀ (by norm_num) (by norm_num)
    have hone : ((wordLimit : ℕ) : ℚ) = 2 ^ 64 := by norm_num [wordLimit]
    have hlarge : (2 : ℚ) ^ 10 ≤ 2 ^ (970 : ℤ) := by
      rw [← zpow_natCast]
      exact zpow_le_zpow_right₀ (by norm_num) (by norm_num)
    rw [hone, Binary64.overflowBound]
    calc (2 : ℚ) ^ 64 = 2 ^ 54 * 2 ^ 10 := by norm_num
      _ ≤ (2 ^ 54 - 1) * (2 * 2 ^ 10) := by norm_num
      _ ≤ (2 ^ 54 - 1) * 2 ^ (970 : ℤ) := by
          have : (2 : ℚ) * 2 ^ 10 ≤ 2 ^ (970 : ℤ) := by
            calc (2 : ℚ) * 2 ^ 10 = 2 ^ (11 : ℤ) := by norm_num
              _ ≤ 2 ^ (970 : ℤ) := zpow_le_zpow_right₀ (by norm_num) (by norm_num)
          exact mul_le_mul_of_nonneg_left this (by norm_num)
  rw [Nat.cast_one, div_one]
  exact hn.trans_le hlimit

/-! ## Scaling -/

/-- A negative power only divides. -/
theorem scaleBy?_neg (fuel : ℕ) (f : Binary64) {e : ℤ} (he : e < 0) :
    (scaleBy? fuel f e).isSome = true := by
  induction fuel generalizing f e with
  | zero => rfl
  | succ fuel ih =>
    unfold scaleBy?
    split
    · simp only [if_neg (not_le.2 he), Option.isSome_some]
    next hlarge =>
      split
      · rfl
      · rw [if_neg (not_le.2 he)]
        exact ih _ (by omega)

/-- Scaling keeps to regular numbers. -/
theorem regular_scaleBy? {fuel : ℕ} {f g : Binary64} {e : ℤ} (hf : f.Regular)
    (h : scaleBy? fuel f e = some g) : g.Regular := by
  induction fuel generalizing f e with
  | zero => exact Option.some.inj h ▸ hf
  | succ fuel ih =>
    unfold scaleBy? at h
    split at h
    next hsmall =>
      have hpower := Binary64.power_spec (show e.natAbs < 309 by omega)
      dsimp only at h
      split at h
      · split at h
        · cases h
        next hfinite =>
          have hproduct := Binary64.regular_or_infinite_mul hf hpower.1
          rw [Option.some.injEq] at h
          exact h ▸ hproduct.resolve_right hfinite
      · rw [Option.some.injEq] at h
        exact h ▸ Binary64.regular_div hf hpower.1 hpower.2.1
    next =>
      split at h
      · exact Option.some.inj h ▸ hf
      · split at h
        · cases h
        · have hspec := Binary64.power_spec (show 308 < 309 by decide)
          have hcast : ((308 : ℕ) : ℤ) = 308 := rfl
          rw [hcast] at hspec
          obtain ⟨power, hp⟩ : ∃ power, power = Binary64.ofDecimal false 1 308 := ⟨_, rfl⟩
          rw [← hp] at hspec h
          exact ih (Binary64.regular_div hf hspec.1 hspec.2.1) h

/-- A coefficient that the power allows is scaled up to a finite number. -/
theorem scaleBy?_power {c : ℕ} {e : ℕ} (he : e < 309) (hc : c ≤ Binary64.coefficientLimit e)
    (hword : c < wordLimit) (fuel : ℕ) :
    (scaleBy? (fuel + 1) (Binary64.ofNat c) e).isSome = true := by
  obtain ⟨hpower, hone, hproduct⟩ := Binary64.power_spec he
  have hregular := Binary64.regular_mul (regular_ofNat hword) hpower (hproduct c hc)
  have hfinite : ¬ ((Binary64.ofNat c).mul (Binary64.ofDecimal false 1 e)).isInfinite = true := by
    intro hinf
    cases hcase : (Binary64.ofNat c).mul (Binary64.ofDecimal false 1 e) with
    | nan => simp [hcase, Binary64.isInfinite] at hinf
    | infinite s => simp [hcase, Regular] at hregular
    | finite s m k => simp [hcase, Binary64.isInfinite] at hinf
  have hsmall : (e : ℤ).natAbs ≤ 308 := by omega
  have hpos : (0 : ℤ) ≤ e := by omega
  unfold scaleBy?
  rw [if_pos hsmall]
  dsimp only
  rw [if_pos hpos, Int.natAbs_natCast, if_neg hfinite]
  rfl

theorem ofParts?_of_isSome (negative : Bool) {c : ℕ} {e : ℤ} (hc : c < wordLimit)
    (h : (scaleBy? 8 (Binary64.ofNat c) e).isSome = true) :
    ∃ g, g.Regular ∧ ofParts? negative c e = some (.float g) := by
  obtain ⟨f, hf⟩ := Option.isSome_iff_exists.1 h
  have hregular := regular_scaleBy? (regular_ofNat hc) hf
  refine ⟨if negative then f.neg else f, ?_, ?_⟩
  · cases negative
    · exact hregular
    · exact Binary64.regular_neg hregular
  · rw [ofParts?, hf, Option.map_some]

/-- The decimals whose number is read: those of a negative exponent, those that the power allows,
and the one of the greatest number. -/
def Readable (c : ℕ) (e : ℤ) : Prop :=
  e < 0 ∨ (∃ n : ℕ, e = n ∧ n < 309 ∧ c ≤ Binary64.coefficientLimit n) ∨
    c = 17976931348623157 ∧ e = 292

/-- A readable decimal is read as a regular number. -/
theorem ofParts?_readable (negative : Bool) {c : ℕ} {e : ℤ} (hc : c < wordLimit)
    (h : Readable c e) : ∃ g, g.Regular ∧ ofParts? negative c e = some (.float g) := by
  apply ofParts?_of_isSome negative hc
  rcases h with hneg | ⟨n, rfl, hn, hlimit⟩ | ⟨rfl, rfl⟩
  · exact scaleBy?_neg 8 _ hneg
  · exact scaleBy?_power hn hlimit hc 7
  · decide +kernel

theorem storable_ofParts? {negative : Bool} {c : ℕ} {e : ℤ} {n : Number} (hc : c < wordLimit)
    (h : ofParts? negative c e = some n) : n.Storable := by
  have hsome : (scaleBy? 8 (Binary64.ofNat c) e).isSome = true := by
    have := congrArg Option.isSome h
    rwa [ofParts?, Option.isSome_map, Option.isSome_some] at this
  obtain ⟨g, hg, heq⟩ := ofParts?_of_isSome negative hc hsome
  rw [heq, Option.some.injEq] at h
  exact h ▸ hg

/-! ## Written numbers -/

theorem value_pushInteger_lt {s : Significand} (h : s.value < wordLimit) (digit : ℕ) :
    (s.pushInteger digit).value < wordLimit := by
  unfold Significand.pushInteger
  split
  · exact h
  · split
    next hfits => exact hfits
    next => exact h

theorem value_pushFraction_lt {s : Significand} (h : s.value < wordLimit) (digit : ℕ) :
    (s.pushFraction digit).value < wordLimit := by
  unfold Significand.pushFraction
  split
  · exact h
  · split
    next hfits => exact hfits
    next => exact h

theorem value_foldl_lt {push : Significand → ℕ → Significand}
    (hpush : ∀ s : Significand, s.value < wordLimit → ∀ d, (push s d).value < wordLimit)
    (digits : Bytes) {s : Significand} (h : s.value < wordLimit) :
    (digits.foldl (fun s b => push s (digitValue b)) s).value < wordLimit := by
  induction digits generalizing s with
  | nil => exact h
  | cons b rest ih =>
    rw [List.foldl_cons]
    exact ih (hpush s h (digitValue b))

/-- Every number that is read can be stored. -/
theorem storable_ofWritten? {written : Bytes} {n : Number} (h : ofWritten? written = some n) :
    n.Storable := by
  unfold ofWritten? at h
  dsimp only at h
  obtain ⟨whole, hwhole⟩ : ∃ whole, whole = (Parts.ofWritten written).integer.foldl
      (fun s b => s.pushInteger (digitValue b)) (⟨0, 0, false⟩ : Significand) := ⟨_, rfl⟩
  have hlt : whole.value < wordLimit := by
    rw [hwhole]
    exact value_foldl_lt (fun s hs d => value_pushInteger_lt hs d) _ (by decide)
  rw [← hwhole] at h
  split at h
  next =>
    split at h
    · exact storable_ofParts? hlt h
    · split at h
      · rw [Option.some.injEq] at h
        rw [← h]
        simp only [Storable, IsWord]
        simp only [wordLimit] at hlt
        omega
      · split at h
        · rw [Option.some.injEq] at h
          rw [← h]
          exact Binary64.regular_neg (regular_ofNat hlt)
        next hrange =>
          rw [Option.some.injEq] at h
          rw [← h]
          simp only [Storable, IsWord]
          omega
  next =>
    obtain ⟨s, hs⟩ : ∃ s, s = (Parts.ofWritten written).fraction.foldl
        (fun s b => s.pushFraction (digitValue b)) { whole with full := false } := ⟨_, rfl⟩
    have hslt : s.value < wordLimit := by
      rw [hs]
      exact value_foldl_lt (fun s hs d => value_pushFraction_lt hs d) _ hlt
    rw [← hs] at h
    split at h
    · exact storable_ofParts? hslt h
    · split at h
      · split at h
        · cases h
        · rw [Option.some.injEq] at h
          rw [← h]
          exact Binary64.regular_zero (Parts.ofWritten written).negative
      · exact storable_ofParts? hslt h

end Keyring.Json.Number
