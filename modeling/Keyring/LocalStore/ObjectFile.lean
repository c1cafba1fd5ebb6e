import Keyring.KeyError
import Keyring.StoredObject
/-!
# Object files

What the file of an object says: the number of the last write, whether that was a deletion, and the
object as the write left it. A deletion leaves the file in place, so that numbers keep growing if
the object is created again. Every write is first planned on what the file says.
-/
namespace Keyring

/-- What the file of an object says. -/
structure ObjectFile where
  version : Nat
  deleted : Bool
  object : Option StoredObject
  deriving DecidableEq, Repr

namespace ObjectFile

/-- The object, unless it was deleted. -/
def live? (f : ObjectFile) : Option StoredObject := if f.deleted then none else f.object

/-! ## Planned writes -/

/-- The file after the next write of an object. -/
def next (version : Nat) (deleted : Bool) (object : StoredObject) : ObjectFile :=
  ⟨version + 1, deleted, some { object with resourceVersion := Decimal.ofNat (version + 1) }⟩

/-- The number of the last write, and zero before the first. -/
def lastVersion (existing : Option ObjectFile) : Nat := existing.elim 0 (·.version)

/-- The object, if there is one that was not deleted. -/
def current? (existing : Option ObjectFile) : Option StoredObject := existing.bind live?

/-- Plans to store an object that is not there. -/
def create (existing : Option ObjectFile) (object : StoredObject) : Except KeyError ObjectFile :=
  match current? existing with
  | some _ => .error (.alreadyExists object.qualified)
  | none => .ok (next (lastVersion existing) false object)

/-- Plans to replace an object, if it is still at the version that the new one names. -/
def update (existing : Option ObjectFile) (object : StoredObject) : Except KeyError ObjectFile :=
  match current? existing with
  | none => .error (.notFound object.qualified)
  | some _ =>
    let version := lastVersion existing
    if object.resourceVersion ≠ "" ∧ object.resourceVersion ≠ Decimal.ofNat version then
      .error (.conflict object.qualified object.resourceVersion (Decimal.ofNat version))
    else .ok (next version false object)

def delete (existing : Option ObjectFile) (name : ObjectName) : Except KeyError ObjectFile :=
  match current? existing with
  | none => .error (.notFound name.qualified)
  | some object => .ok (next (lastVersion existing) true object)

def list (existing : Option ObjectFile) : ObjectList :=
  ⟨(current? existing).toList, Decimal.ofNat (lastVersion existing)⟩

@[simp] theorem lastVersion_some (f : ObjectFile) : lastVersion (some f) = f.version := rfl

/-- A creation takes the next version. -/
theorem version_create {existing : Option ObjectFile} {object : StoredObject} {file : ObjectFile}
    (h : create existing object = .ok file) : file.version = lastVersion existing + 1 := by
  unfold create at h
  split at h
  · cases h
  · exact (Except.ok.inj h) ▸ rfl

/-- A replacement takes the next version. -/
theorem version_update {existing : Option ObjectFile} {object : StoredObject} {file : ObjectFile}
    (h : update existing object = .ok file) : file.version = lastVersion existing + 1 := by
  unfold update at h
  split at h
  · cases h
  · dsimp only at h
    split at h
    · cases h
    · exact (Except.ok.inj h) ▸ rfl

/-- A deletion takes the next version. -/
theorem version_delete {existing : Option ObjectFile} {name : ObjectName} {file : ObjectFile}
    (h : delete existing name = .ok file) : file.version = lastVersion existing + 1 := by
  unfold delete at h
  split at h
  · cases h
  · exact (Except.ok.inj h) ▸ rfl

/-! ## Stored form -/

def toJson (f : ObjectFile) : Json :=
  .object [("version", .int f.version), ("deleted", .bool f.deleted),
    ("object", f.object.elim .null StoredObject.toJson)]

def ofTree? (tree : Json.Tree) : Option ObjectFile := do
  let fields ← tree.fields? ["version", "deleted", "object"]
  let version ← fields.required? "version" Json.Tree.nat64?
  let deleted ← fields.orDefault? "deleted" Json.Tree.bool? false
  let object ← fields.optional? "object" StoredObject.ofTree?
  return ⟨version, deleted, object⟩

def toBytes (f : ObjectFile) : Bytes := f.toJson.render

def ofBytes? (bytes : Bytes) : Option ObjectFile := Json.read? ofTree? bytes

end ObjectFile
end Keyring
