import Keyring.Crypto.Rsa.Generation
import Keyring.Jwk
import Keyring.Key.Aead
/-!
# Signing keys

A key version that signs, the signer that is handed out of it, and the form in which its public half
is published.
-/
namespace Keyring

structure SigningKey where
  record : KeyRecord
  privateKey : Rsa.PrivateKey
  keyType_eq : record.keyType = .asymmetricSigning
  privateKey_eq : Rsa.PrivateKey.ofDer? record.secret = some privateKey
  deriving DecidableEq

/-- The published form of a public half, under the number of its version. -/
def Rsa.PublicKey.toJwk (k : Rsa.PublicKey) (id : KeyId) : Jwk :=
  ⟨"RSA", Decimal.ofInt id.val, "RS256", .sig, Base64.encodeUrl (Bytes.minimalBE k.modulus),
    Base64.encodeUrl (Bytes.minimalBE k.exponent)⟩

/-- Accepts a signature or says why not. -/
def Rsa.PublicKey.check (k : Rsa.PublicKey) (message signature : Bytes) : Except KeyError Unit :=
  if k.verify message signature then .ok ()
  else .error (.crypto "Signature verification failed")

/-- What signs with one version. -/
structure Signer where
  keyId : KeyId
  privateKey : Rsa.PrivateKey
  deriving DecidableEq

namespace Signer

def sign (s : Signer) (message : Bytes) : Except KeyError Bytes :=
  match s.privateKey.sign message with
  | .ok signature => .ok signature
  | .error failure => .error (.crypto ("Signing failed: signature error: " ++ failure.message))

def debugText (s : Signer) : String :=
  "Signer \x7b key_id: " ++ Decimal.ofInt s.keyId.val ++ " \x7d"

end Signer

namespace SigningKey

def load (record : KeyRecord) : Except KeyError SigningKey :=
  if kind : record.keyType = .asymmetricSigning then
    match h : Rsa.PrivateKey.ofDer? record.secret with
    | some privateKey => .ok ⟨record, privateKey, kind, h⟩
    | none => .error (.corruptRecord ("key " ++ Decimal.ofInt record.id.val ++
        " is not valid PKCS#1"))
  else .error (record.kindMismatch .asymmetricSigning)

/-- A key has the record from which it was loaded. -/
theorem record_of_load {r : KeyRecord} {k : SigningKey} (h : load r = .ok k) : k.record = r := by
  unfold load at h
  split at h
  · split at h
    · injection h with h
      exact h ▸ rfl
    · cases h
  · cases h

/-- The record of a key loads as that key. -/
@[simp] theorem load_record (k : SigningKey) : load k.record = .ok k := by
  obtain ⟨record, privateKey, kind, der⟩ := k
  unfold load
  rw [dif_pos kind]
  split
  next found h => cases der.symm.trans h; rfl
  next h => cases der.symm.trans h

/-- A new version with a modulus of a size; small sizes are refused. -/
def generate (id : KeyId) (bits : Nat) (now : Timestamp) (pool : Entropy) :
    Except KeyError SigningKey × Entropy :=
  if bits < Rsa.minModulusBits then
    (.error (.configuration ("RSA modulus must be at least " ++
      Decimal.ofNat Rsa.minModulusBits ++ " bits, got " ++ Decimal.ofNat bits)), pool)
  else
    match Rsa.PrivateKey.generate bits pool with
    | (.ok privateKey, pool) => (load ⟨id, .asymmetricSigning, privateKey.toDer, now⟩, pool)
    | (.error failure, pool) =>
      (.error (.crypto ("RSA key generation failed: " ++ failure.message)), pool)

def id (k : SigningKey) : KeyId := k.record.id

def publicKey (k : SigningKey) : Rsa.PublicKey := k.privateKey.publicKey

def signer (k : SigningKey) : Signer := ⟨k.id, k.privateKey⟩

/-- A text for logs, without the secret. -/
def debugText (k : SigningKey) : String :=
  "RsaSigningKey \x7b id: " ++ Decimal.ofInt k.id.val ++ ", bits: " ++
    Decimal.ofNat k.publicKey.bits ++ " \x7d"

end SigningKey
end Keyring
