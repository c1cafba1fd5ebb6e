import Keyring.Key.Signing
import Keyring.Proofs.Crypto.Rsa

/-!
# What a loaded key signs

A stored key is loaded when its numbers fit together, whether its factors are prime or not. Whatever
bytes its signer hands out are accepted by the public half and have the length of the modulus. When
there are no such bytes the signer fails, and for prime factors it does not.
-/
namespace Keyring

theorem Rsa.PublicKey.check_eq_ok_iff {k : Rsa.PublicKey} {message signature : Bytes} :
    k.check message signature = .ok () ↔ k.verify message signature = true := by
  simp [check]

namespace Signer

variable {s : Signer} {message signature : Bytes}

theorem sign_eq_ok_iff :
    s.sign message = .ok signature ↔ s.privateKey.sign message = .ok signature := by
  unfold sign
  split
  next produced heq => rw [heq, Except.ok.injEq, Except.ok.injEq]
  next failure heq => simp [heq]

/-- A signer hands out a signature or says why it could not make one. -/
theorem sign_cases (s : Signer) (message : Bytes) :
    (∃ signature, s.sign message = .ok signature) ∨
      ∃ failure : Rsa.SigningFailure,
        s.sign message = .error (.crypto ("Signing failed: signature error: " ++
          failure.message)) := by
  unfold sign
  split
  next produced _ => exact .inl ⟨produced, rfl⟩
  next failure _ => exact .inr ⟨failure, rfl⟩

end Signer

namespace SigningKey

/-- What holds of the signer and the public half of a key that was loaded from a record. -/
structure SignsFor (k : SigningKey) (r : KeyRecord) : Prop where
  /-- The signer carries the number of the record. -/
  keyId_eq : k.signer.keyId = r.id
  /-- The public half accepts what the signer hands out. -/
  check_eq_ok : ∀ {message signature : Bytes}, k.signer.sign message = .ok signature →
    k.publicKey.check message signature = .ok ()
  /-- A signature has as many bytes as the modulus. -/
  length_eq : ∀ {message signature : Bytes}, k.signer.sign message = .ok signature →
    ∃ digits : Bytes, digits.IsShortestOf k.publicKey.modulus ∧ signature.length = digits.length
  /-- Where the public half accepts nothing, the signer fails. -/
  refuses : ∀ {message : Bytes}, (∀ signature, k.publicKey.check message signature ≠ .ok ()) →
    ∃ failure : Rsa.SigningFailure,
      k.signer.sign message = .error (.crypto ("Signing failed: signature error: " ++
        failure.message))
  /-- Two different primes sign whatever the modulus has room for. -/
  signs : k.privateKey.p.Prime → k.privateKey.q.Prime → k.privateKey.p ≠ k.privateKey.q →
    Rsa.minSize ≤ k.publicKey.size → ∀ message, ∃ signature, k.signer.sign message = .ok signature

/-- A loaded key never signs wrongly: its public half verifies every signature that its signer hands
out. -/
theorem signsFor_of_load {r : KeyRecord} {k : SigningKey} (h : load r = .ok k) : k.SignsFor r := by
  have haccepted : ∀ {message signature : Bytes}, k.signer.sign message = .ok signature →
      k.publicKey.check message signature = .ok () := by
    intro message signature hsign
    exact Rsa.PublicKey.check_eq_ok_iff.2
      (Rsa.PrivateKey.verify_of_sign (Signer.sign_eq_ok_iff.1 hsign))
  refine ⟨?_, haccepted, ?_, ?_, ?_⟩
  · exact congrArg KeyRecord.id (record_of_load h)
  · intro message signature hsign
    refine ⟨_, Bytes.isShortestOf_minimalBE k.privateKey.modulus_pos, ?_⟩
    rw [Rsa.PrivateKey.length_of_sign (Signer.sign_eq_ok_iff.1 hsign), Bytes.minimalBE,
      Bytes.length_ofNatBE]
    exact Rsa.PublicKey.size_eq_width (k := k.publicKey) k.privateKey.modulus_pos
  · intro message hnone
    obtain ⟨signature, hsign⟩ | hfailure := k.signer.sign_cases message
    · exact absurd (haccepted hsign) (hnone signature)
    · exact hfailure
  · intro hp hq hne hsize message
    obtain ⟨signature, hsign⟩ := Rsa.PrivateKey.exists_sign hp hq hne hsize message
    exact ⟨signature, Signer.sign_eq_ok_iff.2 hsign⟩

/-- The numbers of a key with two factors, prime or not. -/
def componentsOf (p q : ℕ) : Rsa.Components where
  modulus := p * q
  exponent := Rsa.commonExponent
  secretExponent := (Modular.inverse? ((p - 1).lcm (q - 1)) Rsa.commonExponent).getD 0
  p := p
  q := q

def ofFactors (p q : ℕ) (valid : (componentsOf p q).Valid)
    (hread : Rsa.PrivateKey.ofDer? (Rsa.PrivateKey.toDer ⟨componentsOf p q, valid⟩) =
      some ⟨componentsOf p q, valid⟩) : SigningKey where
  record := ⟨⟨3, by decide, by decide⟩, .asymmetricSigning,
    Rsa.PrivateKey.toDer ⟨componentsOf p q, valid⟩, ⟨4, by decide, by decide⟩⟩
  privateKey := ⟨componentsOf p q, valid⟩
  keyType_eq := rfl
  privateKey_eq := hread

def withPrimes : SigningKey :=
  ofFactors (2 ^ 255 - 19) (2 ^ 251 - 9) (by decide +kernel) (by decide +kernel)

/-- A key that is loaded although seven divides its first factor. -/
def withComposite : SigningKey :=
  ofFactors (2 ^ 255 - 1) (2 ^ 251 - 9) (by decide +kernel) (by decide +kernel)

/-- Both keys are loaded; the first one signs, the other one notices that it does not. -/
theorem signsFor_of_load_factors :
    load withPrimes.record = .ok withPrimes ∧ load withComposite.record = .ok withComposite ∧
      (∃ signature, withPrimes.signer.sign [0x61] = .ok signature ∧
        withPrimes.publicKey.check [0x61] signature = .ok ()) ∧
      withComposite.signer.sign [0x61] =
        .error (.crypto "Signing failed: signature error: internal error") := by
  refine ⟨load_record withPrimes, load_record withComposite, ?_, by decide +kernel⟩
  have hsigns : (withPrimes.signer.sign [0x61]).isOk = true := by decide +kernel
  cases hsign : withPrimes.signer.sign [0x61] with
  | error failure => rw [hsign] at hsigns; cases hsigns
  | ok signature =>
    exact ⟨signature, rfl, (signsFor_of_load (load_record withPrimes)).check_eq_ok hsign⟩

end SigningKey
end Keyring
