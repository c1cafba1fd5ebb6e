import Keyring.Key
import Keyring.KeySet.Data
import Keyring.StoredObject
/-!
# Loaded key sets

The key versions that could be loaded from a stored set, by number, and the number of the active
one. A record from which no key can be loaded is left out, and so is a whole set that is not well
formed; neither takes anything else along.
-/
namespace Keyring

structure KeySet where
  activeId : KeyId
  versions : SortedMap KeyId Key
  id_eq : ∀ e ∈ versions.entries, e.2.id = e.1

namespace KeySet

def withoutVersions (activeId : KeyId) : KeySet := ⟨activeId, .empty, by simp [SortedMap.empty]⟩

/-- The set with one more version, in place of one with the same number. -/
def add (s : KeySet) (key : Key) : KeySet :=
  ⟨s.activeId, s.versions.insert key.id key, fun e he => by
    rcases SortedMap.mem_insertEntry he with rfl | he
    · rfl
    · exact s.id_eq e he⟩

def version? (s : KeySet) (id : KeyId) : Option Key := s.versions.get? id

def active? (s : KeySet) : Option Key := s.version? s.activeId

def keys (s : KeySet) : List Key := s.versions.values

def loadRecord? (value : Json) : Option Key :=
  (KeyRecord.ofJson? value).bind fun record => (Key.load record).toOption

/-- The set with the key of a stored record, if one can be loaded from it. -/
def addRecord (s : KeySet) (value : Json) : KeySet :=
  match loadRecord? value with
  | some key => s.add key
  | none => s

/-- The set of the records; of records with one number the last counts. -/
def ofData (data : KeySetData) : KeySet :=
  data.records.foldl addRecord (withoutVersions data.activeId)

def ofBytes? (bytes : Bytes) : Option KeySet := (KeySetData.ofBytes? bytes).map ofData

@[simp] theorem version?_add (s : KeySet) (key : Key) (id : KeyId) :
    (s.add key).version? id = if compare id key.id = .eq then some key else s.version? id :=
  SortedMap.get?_insert s.versions key.id id key

@[simp] theorem activeId_addRecord (s : KeySet) (value : Json) :
    (s.addRecord value).activeId = s.activeId := by
  unfold addRecord
  split <;> rfl

/-- A version carries the number under which it is found. -/
theorem id_of_version? {s : KeySet} {id : KeyId} {key : Key} (h : s.version? id = some key) :
    key.id = id :=
  s.id_eq _ ((SortedMap.get?_eq_some_iff s.versions id key).1 h)

end KeySet

abbrev KeySets := SortedMap String KeySet

namespace KeySets

/-- The key set of one field, if the field stores one. -/
def ofField? (field : String × Bytes) : Option (String × KeySet) :=
  (KeySetName.ofField? field.1).bind fun name =>
    (KeySet.ofBytes? field.2).map fun keySet => (name.text, keySet)

def ofObject (object : StoredObject) : KeySets :=
  SortedMap.ofList (object.data.entries.filterMap ofField?)

end KeySets
end Keyring
