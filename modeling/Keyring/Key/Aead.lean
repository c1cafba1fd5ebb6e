import Keyring.Crypto.XChaCha20Poly1305
import Keyring.Entropy
import Keyring.Envelope
import Keyring.KeyError
/-!
# Encryption keys

A key that seals plaintexts into envelopes and opens them again. An envelope is opened only by the
key whose number it carries; every refusal looks the same from outside.
-/
namespace Keyring

/-- A key version that encrypts. -/
structure AeadKey where
  record : KeyRecord
  keyType_eq : record.keyType = .symmetricAead
  length_eq : record.secret.length = XChaCha20Poly1305.keyLength
  deriving DecidableEq

/-- The reason for which a record of one kind is not loaded as a key of another. -/
def KeyRecord.kindMismatch (record : KeyRecord) (expected : KeyType) : KeyError :=
  .corruptRecord ("key " ++ Decimal.ofInt record.id.val ++ " has type " ++ record.keyType.name ++
    ", expected " ++ expected.name)

namespace AeadKey

def load (record : KeyRecord) : Except KeyError AeadKey :=
  if kind : record.keyType = .symmetricAead then
    if length : record.secret.length = XChaCha20Poly1305.keyLength then .ok ⟨record, kind, length⟩
    else .error (.corruptRecord ("key " ++ Decimal.ofInt record.id.val ++ ": expected " ++
      Decimal.ofNat XChaCha20Poly1305.keyLength ++ " byte secret, was " ++
      Decimal.ofNat record.secret.length))
  else .error (record.kindMismatch .symmetricAead)

/-- A key has the record from which it was loaded. -/
theorem record_of_load {r : KeyRecord} {k : AeadKey} (h : load r = .ok k) : k.record = r := by
  unfold load at h
  split at h
  · split at h
    · injection h with h
      exact h ▸ rfl
    · cases h
  · cases h

/-- The record of a key loads as that key. -/
@[simp] theorem load_record (k : AeadKey) : load k.record = .ok k := by
  simp [load, k.keyType_eq, k.length_eq]

def generate (id : KeyId) (now : Timestamp) (pool : Entropy) : AeadKey × Entropy :=
  (⟨⟨id, .symmetricAead, (pool.draw XChaCha20Poly1305.keyLength).1, now⟩, rfl, by simp⟩,
    (pool.draw XChaCha20Poly1305.keyLength).2)

def id (k : AeadKey) : KeyId := k.record.id

/-- The envelope of a plaintext under a nonce. -/
def sealWith (k : AeadKey) (nonce plaintext : Bytes) : Envelope :=
  ⟨.xChaCha20Poly1305, k.id, nonce,
    XChaCha20Poly1305.encrypt k.record.secret nonce plaintext⟩

/-- The envelope of a plaintext under a fresh nonce. -/
def sealFresh (k : AeadKey) (plaintext : Bytes) (pool : Entropy) : Envelope × Entropy :=
  let (nonce, pool) := pool.draw XChaCha20Poly1305.nonceLength
  (k.sealWith nonce plaintext, pool)

def openEnvelope (k : AeadKey) (e : Envelope) : Except KeyError Bytes :=
  if e.keyId = k.id ∧ e.nonce.length = XChaCha20Poly1305.nonceLength then
    match XChaCha20Poly1305.decrypt? k.record.secret e.nonce e.ciphertext with
    | some plaintext => .ok plaintext
    | none => .error .authenticationFailed
  else .error .authenticationFailed

/-- The plaintext of an envelope in its sent form. -/
def decrypt (k : AeadKey) (bytes : Bytes) : Except KeyError Bytes :=
  match Envelope.ofBytes? bytes with
  | some e => k.openEnvelope e
  | none => .error .authenticationFailed

/-- A text for logs, without the secret. -/
def debugText (k : AeadKey) : String :=
  "AeadKey \x7b id: " ++ Decimal.ofInt k.id.val ++ " \x7d"

end AeadKey
end Keyring
