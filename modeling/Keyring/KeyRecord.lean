import Keyring.KeyType
/-!
# Stored key versions

A record is what is stored of one key version: its number, its kind, its secret bytes and the time
of its creation. A debug text of a record shows everything but the secret.
-/
namespace Keyring

/-- The number of a key version within its key set, a signed integer of 32 bits. -/
abbrev KeyId := Bounded (-2147483648) 2147483648

/-- Seconds since the start of 1970, a signed integer of 64 bits. -/
abbrev Timestamp := Bounded (-9223372036854775808) 9223372036854775808

/-- One stored key version. -/
structure KeyRecord where
  id : KeyId
  keyType : KeyType
  /-- A PKCS#1 private key, or a secret of 32 bytes. -/
  secret : Bytes
  createdAt : Timestamp
  deriving DecidableEq, Repr

namespace KeyRecord

def toJson (r : KeyRecord) : Json :=
  .object [("id", .int r.id.val), ("type", r.keyType.toJson), ("secret", Json.base64 r.secret),
    ("created_at", .int r.createdAt.val)]

def ofTree? (tree : Json.Tree) : Option KeyRecord := do
  let fields ← tree.fields? ["id", "type", "secret", "created_at"]
  let id ← fields.required? "id" Json.Tree.bounded?
  let keyType ← fields.required? "type" KeyType.ofTree?
  let secret ← fields.required? "secret" Json.Tree.base64?
  let createdAt ← fields.required? "created_at" Json.Tree.bounded?
  return ⟨id, keyType, secret, createdAt⟩

/-- Reads a record that is already a value. -/
def ofJson? (value : Json) : Option KeyRecord := ofTree? value.toTree

/-- A text for logs, without the secret. -/
def debugText (r : KeyRecord) : String :=
  "KeyRecord \x7b id: " ++ Decimal.ofInt r.id.val ++ ", key_type: " ++ r.keyType.constructorName ++
    ", secret: \"<redacted>\", created_at: " ++ Decimal.ofInt r.createdAt.val ++ " \x7d"

end KeyRecord
end Keyring
