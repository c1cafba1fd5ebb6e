import Keyring.Json.Reader
/-!
# Stored objects

The unit that a backend stores under a name in a namespace: fields of bytes and the version token of
the last write. Backends hand out objects, lists of them and notices of changes.
-/
namespace Keyring

/-- Where a backend keeps an object. -/
structure ObjectName where
  «namespace» : String
  name : String
  deriving DecidableEq, Repr

/-- The namespace and the name with a slash between them. -/
def ObjectName.qualified (n : ObjectName) : String := n.namespace ++ "/" ++ n.name

namespace ObjectName

instance : Ord ObjectName :=
  ⟨compareLex (compareOn ObjectName.namespace) (compareOn ObjectName.name)⟩

theorem compare_def (a b : ObjectName) :
    compare a b = (compare a.namespace b.namespace).then (compare a.name b.name) := rfl

instance : Std.TransOrd ObjectName :=
  inferInstanceAs <| Std.TransCmp <|
    compareLex (compareOn ObjectName.namespace) (compareOn ObjectName.name)

instance : Std.LawfulEqOrd ObjectName where
  eq_of_compare {a b} h := by
    rw [compare_def, Ordering.then_eq_eq] at h
    obtain ⟨space, name⟩ := a
    obtain ⟨space', name'⟩ := b
    have := Std.LawfulEqCmp.eq_of_compare h.1
    have := Std.LawfulEqCmp.eq_of_compare h.2
    simp_all

end ObjectName

/-- A named object with fields of bytes. -/
structure StoredObject where
  «namespace» : String
  name : String
  /-- The token of the write that stored it; empty before the first. -/
  resourceVersion : String
  data : SortedMap String Bytes
  deriving DecidableEq, Repr

namespace StoredObject

/-- An object that is not yet written and has no fields. -/
def fresh (name : ObjectName) : StoredObject :=
  ⟨name.namespace, name.name, "", .empty⟩

/-- The name under which the object says that it is stored. -/
def objectName (o : StoredObject) : ObjectName := ⟨o.namespace, o.name⟩

/-- The name for logs and messages. -/
def qualified (o : StoredObject) : String := o.objectName.qualified

/-- The JSON form, with the bytes of each field as an array of numbers. -/
def toJson (o : StoredObject) : Json :=
  .object [("namespace", .string o.namespace), ("name", .string o.name),
    ("resource_version", .string o.resourceVersion),
    ("data", .object (o.data.entries.map fun e => (e.1, Json.byteArray e.2)))]

def ofTree? (tree : Json.Tree) : Option StoredObject := do
  let fields ← tree.fields? ["namespace", "name", "resource_version", "data"]
  let «namespace» ← fields.required? "namespace" Json.Tree.string?
  let name ← fields.required? "name" Json.Tree.string?
  let resourceVersion ← fields.orDefault? "resource_version" Json.Tree.string? ""
  let data ← fields.orDefault? "data" (Json.Tree.map? Json.Tree.byteArray?) .empty
  return ⟨«namespace», name, resourceVersion, data⟩

end StoredObject

/-- The objects of a name, none or one, and the version at which they were listed. -/
structure ObjectList where
  items : List StoredObject
  resourceVersion : String
  deriving DecidableEq, Repr

/-- The notice of a change. -/
inductive WatchEvent
  | added (object : StoredObject)
  | modified (object : StoredObject)
  /-- The object as it was, with the version of its deletion. -/
  | deleted (object : StoredObject)
  /-- A version up to which everything has been told. -/
  | bookmark (resourceVersion : String)
  | error (message : String)
  deriving DecidableEq, Repr

end Keyring
