import Keyring.KeyRecord
/-!
# Stored key sets

The record of a key set names its active version and lists its versions. Zero stands for the active
version of a set that has none yet.
-/
namespace Keyring

/-- One stored key set. -/
structure KeySetRecord where
  activeId : KeyId
  keys : List KeyRecord
  deriving DecidableEq, Repr

/-- The number that no active version has. -/
def KeyId.none : KeyId := ⟨0, by decide, by decide⟩

namespace KeySetRecord

def toJson (r : KeySetRecord) : Json :=
  .object [("active_id", .int r.activeId.val), ("keys", .array (r.keys.map KeyRecord.toJson))]

/-- Reads the stored form; each field may be absent. -/
def ofTree? (tree : Json.Tree) : Option KeySetRecord := do
  let fields ← tree.fields? ["active_id", "keys"]
  let activeId ← fields.orDefault? "active_id" Json.Tree.bounded? KeyId.none
  let keys ← fields.orDefault? "keys" (Json.Tree.array? KeyRecord.ofTree?) []
  return ⟨activeId, keys⟩

/-- A text for logs, without secrets. -/
def debugText (r : KeySetRecord) : String :=
  "KeySetRecord \x7b active_id: " ++ Decimal.ofInt r.activeId.val ++ ", keys: [" ++
    ", ".intercalate (r.keys.map KeyRecord.debugText) ++ "] \x7d"

end KeySetRecord
end Keyring
