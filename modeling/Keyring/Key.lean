import Keyring.Key.Signing
/-!
# Key versions

A loaded key version of either kind. Its record can be stored and loads back to the same key. The
signing versions of a set are what is published of it.
-/
namespace Keyring

inductive Key
  | signing (key : SigningKey)
  | aead (key : AeadKey)
  deriving DecidableEq

namespace Key

/-- Loads a stored version as a key of its kind. -/
def load (record : KeyRecord) : Except KeyError Key :=
  match record.keyType with
  | .asymmetricSigning => (SigningKey.load record).map .signing
  | .symmetricAead => (AeadKey.load record).map .aead

/-- A new version of a kind; the size matters to a signing key only. -/
def generate (keyType : KeyType) (id : KeyId) (rsaBits : Nat) (now : Timestamp) (pool : Entropy) :
    Except KeyError Key × Entropy :=
  match keyType with
  | .asymmetricSigning =>
    let (key, pool) := SigningKey.generate id rsaBits now pool
    (key.map .signing, pool)
  | .symmetricAead =>
    let (key, pool) := AeadKey.generate id now pool
    (.ok (.aead key), pool)

def record : Key → KeyRecord
  | .signing k => k.record
  | .aead k => k.record

def keyType : Key → KeyType
  | .signing _ => .asymmetricSigning
  | .aead _ => .symmetricAead

def id (k : Key) : KeyId := k.record.id

def createdAt (k : Key) : Timestamp := k.record.createdAt

def asAead? : Key → Option AeadKey
  | .aead k => some k
  | .signing _ => none

/-- The version as an encryption key, or the failure that it is of the other kind. -/
def asAead : Key → Except KeyError AeadKey
  | .aead k => .ok k
  | .signing _ => .error (.wrongKeyType .symmetricAead .asymmetricSigning)

def publicKey : Key → Except KeyError Rsa.PublicKey
  | .signing k => .ok k.publicKey
  | .aead _ => .error (.unsupportedOperation .symmetricAead .publicKey)

def signer : Key → Except KeyError Signer
  | .signing k => .ok k.signer
  | .aead _ => .error (.unsupportedOperation .symmetricAead .signer)

/-- A text for logs, without the secret. -/
def debugText : Key → String
  | .signing k => "AsymmetricSigning(" ++ k.debugText ++ ")"
  | .aead k => "SymmetricAead(" ++ k.debugText ++ ")"

/-- The published form of a version, if it has one. -/
def jwk? : Key → Option Jwk
  | .signing k => some (k.publicKey.toJwk k.id)
  | .aead _ => none

/-- The kind of a key is the kind that its record names. -/
@[simp] theorem record_keyType (k : Key) : k.record.keyType = k.keyType := by
  cases k with
  | signing k => exact k.keyType_eq
  | aead k => exact k.keyType_eq

/-- A key has the record from which it was loaded. -/
theorem record_of_load {r : KeyRecord} {k : Key} (h : load r = .ok k) : k.record = r := by
  unfold load at h
  split at h
  · cases loaded : SigningKey.load r with
    | error e => simp [loaded, Except.map] at h
    | ok key =>
      simp only [loaded, Except.map, Except.ok.injEq] at h
      exact h ▸ SigningKey.record_of_load loaded
  · cases loaded : AeadKey.load r with
    | error e => simp [loaded, Except.map] at h
    | ok key =>
      simp only [loaded, Except.map, Except.ok.injEq] at h
      exact h ▸ AeadKey.record_of_load loaded

/-- The record of a key loads as that key. -/
@[simp] theorem load_record (k : Key) : load k.record = .ok k := by
  cases k with
  | signing k => simp [load, record, k.keyType_eq, Except.map]
  | aead k => simp [load, record, k.keyType_eq, Except.map]

end Key

/-- The published forms of the signing versions, in order. -/
def Jwks.ofKeys (keys : List Key) : Jwks := ⟨keys.filterMap Key.jwk?⟩

end Keyring
