import Keyring.KeySet
/-!
# Adding a key version

A write to a key set is planned on its stored form: either an active key is there and nothing has to
be done, or the set gets a version with the next free number. A rotation asks for a version in any
case, but keeps to the kind of the active key. The records of the set stay as they are stored.
-/
namespace Keyring

/-- A version that a set is going to get. -/
structure PendingVersion where
  data : KeySetData
  id : KeyId
  keyType : KeyType

/-- What has to be done to a stored set. -/
inductive KeySetPlan
  /-- Nothing: this version is active. -/
  | unchanged (id : KeyId)
  | needsVersion (pending : PendingVersion)

namespace KeySetPlan

/-- The number that a stored record carries, if it is one of a version. -/
def recordId? (value : Json) : Option KeyId :=
  ((value.member? "id").bind Json.int64?).bind Bounded.ofInt?

/-- The greatest number of a record, and zero without one above. -/
def maxId (records : List Json) : Int :=
  records.foldl (fun n value => max n ((recordId? value).elim 0 (·.val))) 0

/-- The key of a record, if the record carries the number of the active version. -/
def activeKey? (activeId : KeyId) (value : Json) : Option Key :=
  (KeySet.loadRecord? value).filter fun key => key.id = activeId ∧ 0 < key.id.val

/-- The kind of the active version: the last loadable record with its number counts. -/
def activeType? (data : KeySetData) : Option KeyType :=
  (data.records.filterMap (activeKey? data.activeId)).getLast?.map Key.keyType

/-- Plans a write to a named set. `rotate` asks for a new version also if there is an active one. -/
def make (name : KeySetName) (stored : Option Bytes) (keyType : KeyType) (rotate : Bool) :
    Except KeyError KeySetPlan :=
  match stored.elim (.ok KeySetData.empty) (KeySetData.ofBytes name) with
  | .error failure => .error failure
  | .ok data =>
    let next : Except KeyError KeySetPlan :=
      match (Bounded.ofInt? (maxId data.records + 1) : Option KeyId) with
      | some id => .ok (.needsVersion ⟨data, id, keyType⟩)
      | none => .error (.crypto ("key set " ++ name.text ++ " has exhausted its key ids"))
    match activeType? data with
    | none => next
    | some current =>
      if !rotate then .ok (.unchanged data.activeId)
      else if current ≠ keyType then .error (.wrongKeyType current keyType)
      else next

end KeySetPlan

namespace PendingVersion

/-- Where a record stands among the others: by its number, and without one at the end. -/
def position (value : Json) : Int :=
  ((value.member? "id").bind Json.int64?).getD 9223372036854775807

/-- The records with one more, in the order of their numbers. -/
def place (records : List Json) (record : KeyRecord) : List Json :=
  (records ++ [record.toJson.sorted]).mergeSort fun a b => position a ≤ position b

/-- The stored form of the set with the material as its new, active version. -/
def finish (pending : PendingVersion) (material : KeyRecord) : Except KeyError Bytes :=
  if material.keyType ≠ pending.keyType then
    .error (.wrongKeyType pending.keyType material.keyType)
  else
    let record := { material with id := pending.id }
    .ok (KeySetData.toBytes ⟨pending.id, place pending.data.records record⟩)

end PendingVersion
end Keyring
