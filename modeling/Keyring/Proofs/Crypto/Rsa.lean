import Keyring.Crypto.Rsa
import Keyring.Proofs.Bytes
import Keyring.Proofs.Crypto.Modular
import Mathlib.Data.Int.ModEq
import Mathlib.FieldTheory.Finite.Basic

/-!
# Signatures

The padded digest is as long as the modulus and stands for a smaller number. Whatever a key makes of
it is smaller than the modulus too, so the bytes of a signature are read back as the number that the
public exponent has already turned into the digest: every signature that a key hands out is one.
When the factors are two different primes the secret exponent undoes the public one, and a key that
is large enough for a digest signs every message.
-/
namespace Keyring

@[simp] theorem Sha256.length_digest (message : Bytes) : (digest message).length = 32 := by
  simp only [digest, List.flatMap_cons, List.flatMap_nil, List.length_append, Bytes.length_ofNatBE,
    List.length_nil]

namespace Rsa

/-! ## The padded digest -/

/-- The fewest bytes that hold a digest with its filling. -/
def minSize : ℕ := 62

/-- A filled digest has the length that was asked for, and its first byte is zero. -/
theorem padded?_eq_some {size : ℕ} {message padded : Bytes}
    (h : padded? size message = some padded) :
    padded.length = size ∧ Bytes.toNatBE padded < 256 ^ (size - 1) := by
  simp only [padded?] at h
  split at h
  · cases h
  next hsize =>
    injection h with h
    subst h
    have hlength : (1 :: List.replicate
        (size - (digestHeader ++ Sha256.digest message).length - 3) (0xff : UInt8) ++
          0 :: (digestHeader ++ Sha256.digest message)).length = size - 1 := by
      simp only [List.cons_append, List.length_cons, List.length_append, List.length_replicate]
      simp only [List.length_append] at hsize
      omega
    constructor
    · rw [List.cons_append, List.length_cons, hlength]
      omega
    · rw [← hlength, List.cons_append, Bytes.toNatBE_zero_cons]
      exact Bytes.toNatBE_lt _

theorem padded?_eq_none_iff {size : ℕ} {message : Bytes} :
    padded? size message = none ↔ size < minSize := by
  simp [padded?, digestHeader, minSize]

/-! ## The size of a modulus -/

namespace PublicKey

variable {k : PublicKey}

theorem size_eq_width (h : 0 < k.modulus) : k.size = Bytes.width k.modulus := by
  rw [size, bitLength, if_neg (by omega), Bytes.width]
  omega

/-- A signature has room for every residue. -/
theorem modulus_lt (h : 0 < k.modulus) : k.modulus < 256 ^ k.size := by
  rw [size_eq_width h]
  exact Bytes.lt_pow_width k.modulus

/-- A signature has no byte more than the modulus needs. -/
theorem le_modulus (h : 0 < k.modulus) : 256 ^ (k.size - 1) ≤ k.modulus := by
  rw [size_eq_width h]
  exact Bytes.pow_width_le h

/-- What a signature of a message is: the bytes of a residue that the public exponent turns into the
padded digest. -/
theorem verify_eq_true_iff {message signature : Bytes} :
    k.verify message signature = true ↔
      ∃ padded, padded? k.size message = some padded ∧ signature.length = k.size ∧
        Bytes.toNatBE signature < k.modulus ∧
        Bytes.ofNatBE k.size (k.raise (Bytes.toNatBE signature)) = padded := by
  unfold verify
  cases padded? k.size message with
  | none => simp
  | some padded =>
    simp only [Option.some.injEq, exists_eq_left', Bool.if_false_right, Bool.and_eq_true,
      decide_eq_true_eq, beq_iff_eq]

end PublicKey

/-! ## The secret exponent -/

namespace PrivateKey

variable {k : PrivateKey}

theorem modulus_pos (k : PrivateKey) : 0 < k.modulus :=
  Nat.lt_of_le_of_lt (Nat.zero_le _) k.valid.exponent_lt

theorem publicKey_modulus_lt (k : PrivateKey) : k.modulus < 256 ^ k.publicKey.size :=
  PublicKey.modulus_lt (k := k.publicKey) k.modulus_pos

theorem le_publicKey_modulus (k : PrivateKey) : 256 ^ (k.publicKey.size - 1) ≤ k.modulus :=
  PublicKey.le_modulus (k := k.publicKey) k.modulus_pos

/-- The secret exponent gives a residue, by either way of computing it. -/
theorem lower_lt (k : PrivateKey) (c : ℕ) : k.lower c < k.modulus := by
  have hp := k.valid.p_gt
  have hq := k.valid.q_gt
  unfold lower
  split
  next coefficient _ =>
    simp only [Modular.power_eq]
    have hresidue := Nat.mod_lt (Nat.pow c (k.secretExponent % (k.q - 1))) (by omega : k.q > 0)
    generalize Nat.pow c (k.secretExponent % (k.q - 1)) % k.q = atQ at hresidue ⊢
    generalize ((Nat.pow c (k.secretExponent % (k.p - 1)) % k.p : ℕ) - (atQ : ℤ)) * coefficient = x
    have hquotient : (x % k.p).toNat + 1 ≤ k.p := by
      have := Int.emod_nonneg x (by omega : (k.p : ℤ) ≠ 0)
      have := Int.emod_lt_of_pos x (by omega : 0 < (k.p : ℤ))
      omega
    calc (x % k.p).toNat * k.q + atQ
        < ((x % k.p).toNat + 1) * k.q := by rw [Nat.add_mul, Nat.one_mul]; omega
      _ ≤ k.p * k.q := Nat.mul_le_mul_right k.q hquotient
      _ = k.modulus := k.valid.factors
  · rw [Modular.power_eq]
    exact Nat.mod_lt _ k.modulus_pos

/-- What a key hands out. -/
theorem sign_eq_ok_iff {message signature : Bytes} :
    k.sign message = .ok signature ↔
      ∃ padded, padded? k.publicKey.size message = some padded ∧
        k.publicKey.raise (k.lower (Bytes.toNatBE padded)) = Bytes.toNatBE padded ∧
        signature = Bytes.ofNatBE k.publicKey.size (k.lower (Bytes.toNatBE padded)) := by
  unfold sign
  cases padded? k.publicKey.size message with
  | none => simp
  | some padded =>
    by_cases hraise : k.publicKey.raise (k.lower (Bytes.toNatBE padded)) = Bytes.toNatBE padded
    · simp [hraise, eq_comm]
    · simp [hraise]

/-- The bytes of a residue stand for it. -/
theorem toNatBE_ofNatBE_lower (k : PrivateKey) (c : ℕ) :
    Bytes.toNatBE (Bytes.ofNatBE k.publicKey.size (k.lower c)) = k.lower c := by
  have hlower : k.lower c < 256 ^ k.publicKey.size :=
    Nat.lt_trans (k.lower_lt c) k.publicKey_modulus_lt
  rw [Bytes.toNatBE_ofNatBE, Nat.mod_eq_of_lt hlower]

/-- What a key hands out is a signature. -/
theorem verify_of_sign {message signature : Bytes} (h : k.sign message = .ok signature) :
    k.publicKey.verify message signature = true := by
  obtain ⟨padded, hpadded, hraise, rfl⟩ := sign_eq_ok_iff.1 h
  rw [PublicKey.verify_eq_true_iff]
  refine ⟨padded, hpadded, Bytes.length_ofNatBE _ _, ?_, ?_⟩
  · rw [toNatBE_ofNatBE_lower]
    exact k.lower_lt _
  · rw [toNatBE_ofNatBE_lower, hraise, ← (padded?_eq_some hpadded).1]
    exact Bytes.ofNatBE_toNatBE padded

theorem length_of_sign {message signature : Bytes} (h : k.sign message = .ok signature) :
    signature.length = k.publicKey.size := by
  obtain ⟨_, _, _, rfl⟩ := sign_eq_ok_iff.1 h
  exact Bytes.length_ofNatBE _ _

end PrivateKey

/-! ## Prime factors -/

/-- An exponent that is one more than a multiple of `p - 1` does nothing modulo a prime. -/
theorem pow_modEq_of_prime {p x : ℕ} (hp : p.Prime) (h : x % (p - 1) = 1) (c : ℕ) :
    c ^ x ≡ c [MOD p] := by
  have := Fact.mk hp
  rw [← ZMod.natCast_eq_natCast_iff, Nat.cast_pow]
  have hx : x = (p - 1) * (x / (p - 1)) + 1 := by
    have := Nat.div_add_mod x (p - 1)
    omega
  by_cases hc : (c : ZMod p) = 0
  · rw [hc, hx, pow_succ, mul_zero]
  · rw [hx, pow_succ, pow_mul, ZMod.pow_card_sub_one_eq_one hc, one_pow, one_mul]

/-- Taking the secret exponent modulo `p - 1` leaves it an inverse of the public one there. -/
theorem reduced_mul_mod {d e m : ℕ} (h : e * d % m = 1) : d % m * e % m = 1 := by
  rw [Nat.mod_mul_mod, Nat.mul_comm, h]

namespace PrivateKey

variable {k : PrivateKey}

/-- With different primes as factors, the number that the secret exponent gives has the right residue
modulo each of them. -/
theorem lower_modEq (hp : k.p.Prime) (hq : k.q.Prime) (hne : k.p ≠ k.q) (c : ℕ) :
    k.lower c ≡ c ^ (k.secretExponent % (k.p - 1)) [MOD k.p] ∧
      k.lower c ≡ c ^ (k.secretExponent % (k.q - 1)) [MOD k.q] := by
  have hcoprime : k.q.gcd k.p = 1 := (Nat.coprime_primes hq hp).2 (Ne.symm hne)
  obtain ⟨coefficient, hsome, hinverse⟩ := Modular.exists_inverse? hp.pos hcoprime
  simp only [lower, hsome, Modular.power_eq, Nat.pow_eq]
  generalize c ^ (k.secretExponent % (k.p - 1)) = atP
  generalize c ^ (k.secretExponent % (k.q - 1)) = atQ
  constructor
  · rw [← Int.natCast_modEq_iff]
    have hquotient :
        ((((((atP % k.p : ℕ) : ℤ) - (atQ % k.q : ℕ)) * coefficient % k.p).toNat : ℕ) : ℤ) ≡
          ((atP % k.p : ℕ) - (atQ % k.q : ℕ)) * coefficient [ZMOD k.p] := by
      rw [Int.toNat_of_nonneg (Int.emod_nonneg _ (by have := hp.pos; omega))]
      exact Int.mod_modEq _ _
    have hatP : ((atP % k.p : ℕ) : ℤ) ≡ atP [ZMOD k.p] := by
      rw [Int.natCast_mod]
      exact Int.mod_modEq _ _
    have hback : ((atP % k.p : ℕ) - (atQ % k.q : ℕ) : ℤ) * coefficient * k.q ≡
        (atP % k.p : ℕ) - (atQ % k.q : ℕ) [ZMOD k.p] := by
      simpa [mul_assoc] using hinverse.mul_left ((atP % k.p : ℕ) - (atQ % k.q : ℕ) : ℤ)
    push_cast at hquotient hatP hback ⊢
    have hsum := ((hquotient.mul_right (k.q : ℤ)).trans hback).add_right ((atQ : ℤ) % k.q)
    rw [Int.sub_add_cancel] at hsum
    exact hsum.trans hatP
  · have hmultiple : ∀ quotient : ℕ, quotient * k.q + atQ % k.q ≡ atQ [MOD k.q] := by
      intro quotient
      rw [Nat.ModEq, Nat.mul_add_mod_self_right, Nat.mod_mod]
    exact hmultiple _

/-- With different primes as factors, the public exponent undoes the secret one. -/
theorem raise_lower (hp : k.p.Prime) (hq : k.q.Prime) (hne : k.p ≠ k.q) {c : ℕ}
    (hc : c < k.modulus) : k.publicKey.raise (k.lower c) = c := by
  obtain ⟨hlowerP, hlowerQ⟩ := lower_modEq hp hq hne c
  have hmodP : k.lower c ^ k.exponent ≡ c [MOD k.p] := by
    have hpow := hlowerP.pow k.exponent
    rw [← pow_mul] at hpow
    exact hpow.trans (pow_modEq_of_prime hp (reduced_mul_mod k.valid.inverse_p) c)
  have hmodQ : k.lower c ^ k.exponent ≡ c [MOD k.q] := by
    have hpow := hlowerQ.pow k.exponent
    rw [← pow_mul] at hpow
    exact hpow.trans (pow_modEq_of_prime hq (reduced_mul_mod k.valid.inverse_q) c)
  have hmod : k.lower c ^ k.exponent ≡ c [MOD k.modulus] := by
    rw [← k.valid.factors]
    exact (Nat.modEq_and_modEq_iff_modEq_mul ((Nat.coprime_primes hp hq).2 hne)).1 ⟨hmodP, hmodQ⟩
  rw [PublicKey.raise, Modular.power_eq, Nat.pow_eq]
  exact Eq.trans hmod (Nat.mod_eq_of_lt hc)

/-- A key with different primes as factors signs every message that its modulus has room for. -/
theorem exists_sign (hp : k.p.Prime) (hq : k.q.Prime) (hne : k.p ≠ k.q)
    (hsize : minSize ≤ k.publicKey.size) (message : Bytes) :
    ∃ signature, k.sign message = .ok signature := by
  have hsome : padded? k.publicKey.size message ≠ none := by
    rw [Ne, padded?_eq_none_iff]
    omega
  obtain ⟨padded, hpadded⟩ := Option.ne_none_iff_exists'.1 hsome
  have hlt : Bytes.toNatBE padded < k.modulus :=
    Nat.lt_of_lt_of_le (padded?_eq_some hpadded).2 k.le_publicKey_modulus
  exact ⟨_, sign_eq_ok_iff.2 ⟨padded, hpadded, raise_lower hp hq hne hlt, rfl⟩⟩

end PrivateKey
end Rsa
end Keyring
