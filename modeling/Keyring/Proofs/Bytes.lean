import Keyring.Bytes
import Mathlib.Algebra.Group.Nat.Defs
import Mathlib.Tactic.Common

/-!
# Numbers as bytes

The bytes of a number in a width are read back as the number, and the bytes of a width are those of
the number that they stand for. The minimal form of a positive number is the shortest of all byte
strings that stand for it.
-/
namespace Keyring.Bytes

theorem toNatBE_eq (bytes : Bytes) : toNatBE bytes = toNatLE bytes.reverse := by
  have hflip : (fun (n : ℕ) (b : UInt8) => 256 * n + b.toNat) = fun n b => b.toNat + 256 * n := by
    funext n b
    exact Nat.add_comm _ _
  rw [toNatBE, toNatLE, List.foldr_reverse, hflip]

theorem toNatLE_lt (bytes : Bytes) : toNatLE bytes < 256 ^ bytes.length := by
  induction bytes with
  | nil => decide
  | cons b rest ih =>
    have hb := b.toNat_lt_size
    have hcons : toNatLE (b :: rest) = b.toNat + 256 * toNatLE rest := rfl
    rw [UInt8.size] at hb
    rw [hcons, List.length_cons, Nat.pow_succ]
    omega

/-- A zero byte in front changes nothing. -/
theorem toNatBE_zero_cons (bytes : Bytes) : toNatBE (0 :: bytes) = toNatBE bytes := rfl

theorem toNatBE_lt (bytes : Bytes) : toNatBE bytes < 256 ^ bytes.length := by
  rw [toNatBE_eq, ← List.length_reverse]
  exact toNatLE_lt bytes.reverse

theorem toNatBE_ofNatBE (w n : ℕ) : toNatBE (ofNatBE w n) = n % 256 ^ w := by
  rw [toNatBE_eq, ofNatBE, List.reverse_reverse, toNatLE_ofNatLE, Nat.pow_eq]

theorem ofNatLE_toNatLE (bytes : Bytes) : ofNatLE bytes.length (toNatLE bytes) = bytes := by
  induction bytes with
  | nil => rfl
  | cons b rest ih =>
    have hb := b.toNat_lt_size
    have hcons : toNatLE (b :: rest) = b.toNat + 256 * toNatLE rest := rfl
    rw [UInt8.size] at hb
    have hlow : (b.toNat + 256 * toNatLE rest) % 256 = b.toNat := by omega
    have hhigh : (b.toNat + 256 * toNatLE rest) / 256 = toNatLE rest := by omega
    rw [hcons, List.length_cons, ofNatLE, hlow, hhigh, ih, UInt8.ofNat_toNat]

/-- The bytes of a width are those of the number that they stand for. -/
theorem ofNatBE_toNatBE (bytes : Bytes) : ofNatBE bytes.length (toNatBE bytes) = bytes := by
  rw [toNatBE_eq, ofNatBE, ← List.length_reverse, ofNatLE_toNatLE, List.reverse_reverse]

/-! ## The minimal form -/

theorem lt_pow_width (n : ℕ) : n < 256 ^ width n := by
  have hlog : n < 2 ^ (n.log2 + 1) := Nat.lt_log2_self
  have hpow : 256 ^ width n = 2 ^ (8 * width n) := by rw [Nat.pow_mul]
  rw [hpow]
  refine Nat.lt_of_lt_of_le hlog (Nat.pow_le_pow_right (by decide) ?_)
  rw [width]
  omega

theorem pow_width_le {n : ℕ} (h : 0 < n) : 256 ^ (width n - 1) ≤ n := by
  have hlog : 2 ^ n.log2 ≤ n := Nat.log2_self_le (by omega)
  have hpow : 256 ^ (width n - 1) = 2 ^ (8 * (width n - 1)) := by rw [Nat.pow_mul]
  rw [hpow]
  refine Nat.le_trans (Nat.pow_le_pow_right (by decide) ?_) hlog
  rw [width]
  omega

/-- The bytes stand for the number, and no fewer bytes do. -/
structure IsShortestOf (bytes : Bytes) (n : ℕ) : Prop where
  toNatBE_eq : toNatBE bytes = n
  length_le : ∀ other : Bytes, toNatBE other = n → bytes.length ≤ other.length

theorem toNatBE_minimalBE (n : ℕ) : toNatBE (minimalBE n) = n := by
  rw [minimalBE, toNatBE_ofNatBE, Nat.mod_eq_of_lt (lt_pow_width n)]

/-- The minimal form of a positive number is the shortest. -/
theorem isShortestOf_minimalBE {n : ℕ} (h : 0 < n) : (minimalBE n).IsShortestOf n := by
  refine ⟨toNatBE_minimalBE n, fun other hother => ?_⟩
  have hlt : 256 ^ (width n - 1) < 256 ^ other.length :=
    Nat.lt_of_le_of_lt (pow_width_le h) (hother ▸ toNatBE_lt other)
  have hwidth := (Nat.pow_lt_pow_iff_right (by decide : 1 < 256)).1 hlt
  rw [minimalBE, length_ofNatBE]
  omega

end Keyring.Bytes
