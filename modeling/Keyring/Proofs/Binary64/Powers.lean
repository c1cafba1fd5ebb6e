import Keyring.Proofs.Binary64.ShortestDecimal

/-!
# Powers of ten

The powers of ten up to the greatest one, as rounded numbers. A product with one of them is finite
for every coefficient of a shortest decimal; the greatest number of all is the one case that needs
its own digits.
-/
namespace Keyring.Binary64

def magnitude : Binary64 → ℚ
  | .finite _ m e => m * 2 ^ e
  | _ => 0

theorem magnitude_lt {f : Binary64} (hf : f.Regular) : f.magnitude < overflowBound := by
  cases f with
  | nan => exact hf.elim
  | infinite negative => exact hf.elim
  | finite negative m e =>
    obtain ⟨hm, hmin, hmax⟩ := hf
    have hm' : (m : ℚ) ≤ 2 ^ 53 - 1 := by
      have : m + 1 ≤ 2 ^ 53 := by
        rw [← mantissaLimit_eq]
        exact hm
      have : ((m + 1 : ℕ) : ℚ) ≤ (2 ^ 53 : ℕ) := by exact_mod_cast this
      push_cast at this
      linarith
    have he : (2 : ℚ) ^ e ≤ 2 * 2 ^ (970 : ℤ) := by
      calc (2 : ℚ) ^ e ≤ 2 ^ (1 + 970 : ℤ) := by
            apply zpow_le_zpow_right₀ (by norm_num)
            simp only [maxExponent] at hmax
            omega
        _ = 2 * 2 ^ (970 : ℤ) := by rw [zpow_add₀ (by norm_num), zpow_one]
    have hpos : (0 : ℚ) < 2 ^ (970 : ℤ) := by positivity
    calc (m : ℚ) * 2 ^ e ≤ (2 ^ 53 - 1) * (2 * 2 ^ (970 : ℤ)) :=
          mul_le_mul hm' he (by positivity) (by norm_num)
      _ = (2 ^ 54 - 2) * 2 ^ (970 : ℤ) := by ring
      _ < overflowBound := by
          apply mul_lt_mul_of_pos_right _ hpos
          norm_num

/-! ## Products and quotients -/

theorem regular_or_infinite_ofRatio {d : ℕ} (hd : 0 < d) (n : ℕ) (negative : Bool) :
    (ofRatio negative n d).Regular ∨ (ofRatio negative n d).isInfinite = true := by
  by_cases hn : n = 0
  · left
    rw [ofRatio, if_pos hn]
    exact regular_zero negative
  · have hpos := Nat.pos_of_ne_zero hn
    have hmin := (exponentFor_spec hpos hd).1
    have hlimit := mantissaFor_le_limit hpos hd
    rw [ofRatio_eq hn]
    split
    · split
      · exact Or.inr rfl
      next he => exact Or.inl ⟨by decide, by omega, not_lt.1 he⟩
    next hm =>
      split
      · exact Or.inr rfl
      next he => exact Or.inl ⟨by omega, hmin, not_lt.1 he⟩

theorem mul_finite (s t : Bool) (m n : ℕ) (e f : ℤ) :
    (finite s m e).mul (finite t n f) =
      ofRatio (s != t) (scale (m * n) 1 (e + f)).1 (scale (m * n) 1 (e + f)).2 := rfl

/-- A product is finite or past the greatest number. -/
theorem regular_or_infinite_mul {f g : Binary64} (hf : f.Regular) (hg : g.Regular) :
    (f.mul g).Regular ∨ (f.mul g).isInfinite = true := by
  cases f with
  | nan => exact hf.elim
  | infinite s => exact hf.elim
  | finite s m e =>
    cases g with
    | nan => exact hg.elim
    | infinite t => exact hg.elim
    | finite t n k =>
      rw [mul_finite]
      exact regular_or_infinite_ofRatio (scale_den_pos _ (by decide) _) _ _

/-- A product below the overflow bound is finite. -/
theorem regular_mul {f g : Binary64} (hf : f.Regular) (hg : g.Regular)
    (h : f.magnitude * g.magnitude < overflowBound) : (f.mul g).Regular := by
  cases f with
  | nan => exact hf.elim
  | infinite s => exact hf.elim
  | finite s m e =>
    cases g with
    | nan => exact hg.elim
    | infinite t => exact hg.elim
    | finite t n k =>
      rw [mul_finite]
      apply regular_ofRatio (scale_den_pos _ (by decide) _)
      rw [scale_value _ (by decide)]
      calc ((m * n : ℕ) : ℚ) / (1 : ℕ) * 2 ^ (e + k) = m * 2 ^ e * (n * 2 ^ k) := by
            rw [zpow_add₀ (by norm_num)]
            push_cast
            ring
        _ < overflowBound := h

/-- A quotient by one or more is finite. -/
theorem regular_div {f g : Binary64} (hf : f.Regular) (hg : g.Regular) (h : 1 ≤ g.magnitude) :
    (f.div g).Regular := by
  cases f with
  | nan => exact hf.elim
  | infinite s => exact hf.elim
  | finite s m e =>
    cases g with
    | nan => exact hg.elim
    | infinite t => exact hg.elim
    | finite t n k =>
      have hn : n ≠ 0 := by
        rintro rfl
        norm_num [magnitude] at h
      have hn' : 0 < n := Nat.pos_of_ne_zero hn
      have hdiv : (finite s m e).div (finite t n k) =
          ofRatio (s != t) (scale m n (e - k)).1 (scale m n (e - k)).2 := by
        simp only [div, if_neg hn]
      rw [hdiv]
      apply regular_ofRatio (scale_den_pos _ hn' _)
      rw [scale_value _ hn']
      have hsplit : (m : ℚ) / n * 2 ^ (e - k) = m * 2 ^ e / (n * 2 ^ k) := by
        rw [zpow_sub₀ (by norm_num)]
        field_simp
      rw [hsplit]
      calc (m : ℚ) * 2 ^ e / (n * 2 ^ k) ≤ m * 2 ^ e := div_le_self (by positivity) h
        _ < overflowBound := magnitude_lt hf

/-! ## Powers and coefficients -/

/-- An upper end of the numbers below the greatest one: half a unit above the last of them. -/
def textBound : ℕ := (2 ^ 54 - 3) * 2 ^ 970

/-- The greatest coefficient that a shortest decimal has at an exponent. -/
def coefficientLimit (exponent : ℕ) : ℕ := min (10 ^ 17) (textBound / 10 ^ exponent)

/-- The bits that a natural number has too many for a mantissa. -/
def excess (n : ℕ) : ℕ := n.log2 - 52

/-- The mantissa of a number above a natural number. -/
def mantissaAbove (n : ℕ) : ℕ := (n + 2 ^ excess n - 1) / 2 ^ excess n

/-- Whether a power of ten is a number not below one whose products with all coefficients are
finite. -/
def isSafePower (exponent : ℕ) : Bool :=
  let limit := coefficientLimit exponent
  match ofDecimal false 1 exponent with
  | .finite false n k =>
    decide (2 ^ 52 ≤ n ∧ n < mantissaLimit ∧ -52 ≤ k ∧ k ≤ maxExponent ∧
      mantissaAbove limit ≤ mantissaLimit ∧
      mantissaAbove limit * 2 ^ excess limit * n * 2 ^ (k + 52).toNat < (2 ^ 54 - 1) * 2 ^ 1022)
  | _ => false

theorem isSafePower_of_lt : ∀ exponent < 309, isSafePower exponent = true := by
  decide +kernel

theorem le_mantissaAbove (n : ℕ) : n ≤ mantissaAbove n * 2 ^ excess n := by
  have hpos : 0 < 2 ^ excess n := by positivity
  have hdiv := Nat.div_add_mod (n + 2 ^ excess n - 1) (2 ^ excess n)
  have hmod := Nat.mod_lt (n + 2 ^ excess n - 1) hpos
  rw [Nat.mul_comm] at hdiv
  unfold mantissaAbove
  omega

theorem magnitude_ofNat_le {n M : ℕ} {k : ℕ} (hM : M ≤ mantissaLimit) (h : n ≤ M * 2 ^ k) :
    (ofNat n).magnitude ≤ M * 2 ^ k := by
  cases hf : ofNat n with
  | nan =>
    simp only [magnitude]
    positivity
  | infinite s =>
    simp only [magnitude]
    positivity
  | finite s m e =>
    have hle : (n : ℚ) / (1 : ℕ) ≤ M * 2 ^ (k : ℤ) := by
      rw [Nat.cast_one, div_one, zpow_natCast]
      exact_mod_cast h
    have := ofRatio_le (by decide) hM (by simp only [minExponent]; omega) hle hf
    rw [zpow_natCast] at this
    exact this

/-- What the powers of ten owe to products and quotients. -/
theorem power_spec {exponent : ℕ} (h : exponent < 309) :
    (ofDecimal false 1 exponent).Regular ∧ 1 ≤ (ofDecimal false 1 exponent).magnitude ∧
      ∀ c ≤ coefficientLimit exponent,
        (ofNat c).magnitude * (ofDecimal false 1 exponent).magnitude < overflowBound := by
  have hsafe := isSafePower_of_lt exponent h
  unfold isSafePower at hsafe
  dsimp only at hsafe
  split at hsafe
  case h_2 => cases hsafe
  case h_1 n k hpower =>
    simp only [decide_eq_true_eq] at hsafe
    obtain ⟨hlow, hhigh, hmin, hmax, hmantissa, hproduct⟩ := hsafe
    obtain ⟨j, hj⟩ := Int.eq_ofNat_of_zero_le (show 0 ≤ k + 52 by omega)
    have hk : k = (j : ℤ) - 52 := by omega
    rw [hpower]
    refine ⟨⟨hhigh, ?_, hmax⟩, ?_, ?_⟩
    · simp only [minExponent]
      omega
    · have hn : (2 : ℚ) ^ 52 ≤ n := by exact_mod_cast hlow
      calc (1 : ℚ) = 2 ^ 52 * 2 ^ (-52 : ℤ) := by norm_num
        _ ≤ n * 2 ^ k := by
            apply mul_le_mul hn _ (by positivity) (by positivity)
            exact zpow_le_zpow_right₀ (by norm_num) hmin
    · intro c hc
      have hcap := magnitude_ofNat_le hmantissa (hc.trans (le_mantissaAbove _))
      obtain ⟨M, hM⟩ : ∃ M, M = mantissaAbove (coefficientLimit exponent) := ⟨_, rfl⟩
      obtain ⟨x, hx⟩ : ∃ x, x = excess (coefficientLimit exponent) := ⟨_, rfl⟩
      rw [← hM, ← hx] at hcap
      rw [← hM, ← hx, hj, Int.toNat_natCast] at hproduct
      have hcast : (M : ℚ) * 2 ^ x * n * 2 ^ j < (2 ^ 54 - 1) * 2 ^ 1022 := by
        have : ((M * 2 ^ x * n * 2 ^ j : ℕ) : ℚ) < (((2 ^ 54 - 1) * 2 ^ 1022 : ℕ) : ℚ) :=
          Nat.cast_lt.2 hproduct
        rw [Nat.cast_mul (2 ^ 54 - 1), Nat.cast_pow 2 1022] at this
        push_cast at this
        exact this.trans_eq (by norm_num)
      have hpos : (0 : ℚ) < 2 ^ (-52 : ℤ) := by positivity
      calc (ofNat c).magnitude * ((n : ℚ) * 2 ^ k)
          ≤ M * 2 ^ x * (n * 2 ^ k) := by gcongr
        _ = M * 2 ^ x * n * 2 ^ j * 2 ^ (-52 : ℤ) := by
            rw [hk, sub_eq_add_neg, zpow_add₀ (by norm_num), zpow_natCast]
            ring
        _ < (2 ^ 54 - 1) * 2 ^ 1022 * 2 ^ (-52 : ℤ) := mul_lt_mul_of_pos_right hcast hpos
        _ = overflowBound := by
            have hjoin : (2 : ℚ) ^ 1022 * 2 ^ (-52 : ℤ) = 2 ^ (970 : ℤ) := by
              rw [← zpow_natCast (2 : ℚ) 1022, ← zpow_add₀ (by norm_num)]
              rfl
            rw [overflowBound, mul_assoc, hjoin]

/-! ## Shortest decimals -/

/-- Half a unit above any number but the greatest stays within the bound. -/
theorem half_above_le_textBound {m : ℕ} {e : ℤ} (hm : m < mantissaLimit) (he : e ≤ maxExponent)
    (hne : ¬ (m = 9007199254740991 ∧ e = 971)) : (2 * (m : ℚ) + 1) * 2 ^ (e - 1) ≤ textBound := by
  have hbound : (textBound : ℚ) = (2 ^ 54 - 3) * 2 ^ (970 : ℤ) := by
    rw [textBound, Nat.cast_mul, Nat.cast_pow 2 970, Nat.cast_ofNat,
      show (970 : ℤ) = (970 : ℕ) from rfl, zpow_natCast]
    congr 1
    norm_num
  simp only [maxExponent] at he
  simp only [mantissaLimit] at hm
  rw [hbound]
  by_cases hlast : e = 971
  · have hm' : (m : ℚ) ≤ 2 ^ 53 - 2 := by
      have : ((m + 2 : ℕ) : ℚ) ≤ (2 ^ 53 : ℕ) := by
        exact_mod_cast (show m + 2 ≤ 2 ^ 53 by omega)
      push_cast at this
      linarith
    have hsame : e - 1 = 970 := by omega
    rw [hsame]
    have hpos : (0 : ℚ) < 2 ^ (970 : ℤ) := by positivity
    apply mul_le_mul_of_nonneg_right _ hpos.le
    linarith
  · have hm' : (m : ℚ) ≤ 2 ^ 53 - 1 := by
      have : ((m + 1 : ℕ) : ℚ) ≤ (2 ^ 53 : ℕ) := by
        exact_mod_cast (show m + 1 ≤ 2 ^ 53 by omega)
      push_cast at this
      linarith
    have hpow : (2 : ℚ) ^ (e - 1) ≤ 2 ^ (969 : ℤ) := zpow_le_zpow_right₀ (by norm_num) (by omega)
    have hdouble : (2 : ℚ) ^ (970 : ℤ) = 2 * 2 ^ (969 : ℤ) := by
      rw [show (970 : ℤ) = 1 + 969 from rfl, zpow_add₀ (by norm_num), zpow_one]
    have hpos : (0 : ℚ) < 2 ^ (969 : ℤ) := by positivity
    calc (2 * (m : ℚ) + 1) * 2 ^ (e - 1) ≤ (2 ^ 54 - 1) * 2 ^ (969 : ℤ) :=
          mul_le_mul (by linarith) hpow (by positivity) (by norm_num)
      _ ≤ (2 ^ 54 - 3) * 2 * 2 ^ (969 : ℤ) := by
          apply mul_le_mul_of_nonneg_right _ hpos.le
          norm_num
      _ = (2 ^ 54 - 3) * 2 ^ (970 : ℤ) := by rw [hdouble, mul_assoc]

theorem textBound_lt : textBound < 10 ^ 309 := by
  decide +kernel

/-- The coefficient of a shortest decimal is within the limit for its exponent. -/
theorem coefficient_le_limit {m : ℕ} {e : ℤ} (hm : m < mantissaLimit) (he : e ≤ maxExponent)
    (hne : ¬ (m = 9007199254740991 ∧ e = 971)) {n : ℕ} (hn : (shortest m e).exponent = n) :
    n < 309 ∧ (shortest m e).coefficient ≤ coefficientLimit n := by
  obtain ⟨hdigits, hvalue, hzero⟩ := bounds_shortest m e
  have htext := hvalue.trans (half_above_le_textBound hm he hne)
  rw [Decimal10.value, hn, zpow_natCast] at htext
  have hnat : (shortest m e).coefficient * 10 ^ n ≤ textBound := by exact_mod_cast htext
  constructor
  · by_cases hc : (shortest m e).coefficient = 0
    · have := hzero hc
      omega
    · have hpos : 0 < (shortest m e).coefficient := Nat.pos_of_ne_zero hc
      have hpow : 10 ^ n < 10 ^ 309 :=
        Nat.lt_of_le_of_lt ((Nat.le_mul_of_pos_left _ hpos).trans hnat) textBound_lt
      exact (Nat.pow_lt_pow_iff_right (by decide)).1 hpow
  · exact le_min hdigits ((Nat.le_div_iff_mul_le (by positivity)).2 hnat)

end Keyring.Binary64
