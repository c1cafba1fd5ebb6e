import Keyring.KeySet.Name
import Keyring.KeySet.Record
/-!
# Stored key sets with unread records

The records of a stored key set are kept as the values they are, so that a record which no key can
be loaded from survives when the set is written again. Reading the set fails only where the set
itself is not well formed.
-/
namespace Keyring

/-- A stored key set whose records have not been looked at. -/
structure KeySetData where
  activeId : KeyId
  records : List Json

namespace KeySetData

def empty : KeySetData := ⟨.none, []⟩

/-- How deeply a record may be nested within a set. -/
def recordDepth : Nat := 126

def ofTree? (tree : Json.Tree) : Option KeySetData := do
  let fields ← tree.fields? ["active_id", "keys"]
  let activeId ← fields.orDefault? "active_id" Json.Tree.bounded? KeyId.none
  let records ← fields.orDefault? "keys" (Json.Tree.array? (Json.Tree.value? recordDepth)) []
  return ⟨activeId, records⟩

def ofBytes? (bytes : Bytes) : Option KeySetData := Json.read? ofTree? bytes

/-- Reads the stored bytes of a named set. What the JSON reader has to say is left out of the
failure. -/
def ofBytes (name : KeySetName) (bytes : Bytes) : Except KeyError KeySetData :=
  match ofBytes? bytes with
  | some data => .ok data
  | none => .error (.corruptRecord ("key set " ++ name.text ++ ": "))

def toBytes (data : KeySetData) : Bytes :=
  (Json.object [("active_id", .int data.activeId.val), ("keys", .array data.records)]).render

end KeySetData
end Keyring
