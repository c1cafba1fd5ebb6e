import Keyring.KeyRecord
/-!
# Envelopes

An envelope is the wire form of one ciphertext: the construction that made it, the key version that
opens it, the nonce, and the ciphertext with its tag.
-/
namespace Keyring

/-- The construction that sealed an envelope. -/
inductive EncryptionMethod
  | xChaCha20Poly1305
  deriving DecidableEq, Repr

def EncryptionMethod.names : List (String × EncryptionMethod) :=
  [("xchacha20poly1305", .xChaCha20Poly1305)]

/-- The wire form of one ciphertext. -/
structure Envelope where
  method : EncryptionMethod
  keyId : KeyId
  nonce : Bytes
  ciphertext : Bytes
  deriving DecidableEq, Repr

namespace Envelope

def toJson (e : Envelope) : Json :=
  .object [("method", .string "xchacha20poly1305"), ("key_id", .int e.keyId.val),
    ("nonce", Json.base64 e.nonce), ("ciphertext", Json.base64 e.ciphertext)]

def ofTree? (tree : Json.Tree) : Option Envelope := do
  let fields ← tree.fields? ["method", "key_id", "nonce", "ciphertext"]
  let method ← fields.required? "method" (Json.Tree.choice? EncryptionMethod.names)
  let keyId ← fields.required? "key_id" Json.Tree.bounded?
  let nonce ← fields.required? "nonce" Json.Tree.base64?
  let ciphertext ← fields.required? "ciphertext" Json.Tree.base64?
  return ⟨method, keyId, nonce, ciphertext⟩

def toBytes (e : Envelope) : Bytes := e.toJson.render

def ofBytes? (bytes : Bytes) : Option Envelope := Json.read? ofTree? bytes

end Envelope
end Keyring
