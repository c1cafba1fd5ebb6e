import Keyring.Proofs.LocalStore.Files
import Keyring.Proofs.Stores.Calls

/-!
# Stores that may stand for each other

A store in files replies to the calls on an object as a store in memory does, texts of failures and
versions included. The number in the file is the counter of the store in memory, and a file that
says that its object was deleted is an object that is not there.
-/
namespace Keyring

/-- What a file says is what a store in memory knows of an object. -/
structure ObjectFile.Agrees (existing : Option ObjectFile) (m : MemoryStore) (name : ObjectName) :
    Prop where
  version : lastVersion existing = m.version
  object : current? existing = m.object? name
  token : ∀ object, m.object? name = some object →
    object.resourceVersion = Decimal.ofNat m.version

/-- A write fails on both sides alike, or is done on both sides alike. -/
def ObjectFile.WrittenAlike (existing : Option ObjectFile) (m : MemoryStore) (w : StoreWrite) :
    Prop :=
  (∃ failure, w.plan existing = .error failure ∧ m.write w = (m, w.reply (.error failure))) ∨
    ∃ file, w.plan existing = .ok file ∧ (m.write w).2 = w.reply (.ok file) ∧
      (m.write w).1.version = m.version + 1 ∧ Agrees (some file) (m.write w).1 w.target

namespace ObjectFile.Agrees

variable {existing : Option ObjectFile} {m : MemoryStore} {object : StoredObject}

/-- The file after a write that stores an object. -/
theorem put (m : MemoryStore) (kind : ChangeKind) (object : StoredObject) :
    Agrees (some (next m.version false object)) (m.put kind object).1 object.objectName := by
  refine ⟨rfl, ?_, ?_⟩
  · rw [m.object?_put_self kind object]
    rfl
  · intro stored hstored
    rw [m.object?_put_self kind object, Option.some.injEq] at hstored
    exact hstored ▸ rfl

theorem create (h : Agrees existing m object.objectName) :
    WrittenAlike existing m (.create object) := by
  cases hcurrent : m.object? object.objectName with
  | some current =>
    left
    refine ⟨.alreadyExists object.qualified, ?_, ?_⟩
    · rw [StoreWrite.plan, ObjectFile.create, h.object, hcurrent]
    · rw [MemoryStore.write, MemoryStore.create, hcurrent]
      rfl
  | none =>
    right
    have hcreate : m.create object = ((m.put .added object).1, .ok (m.put .added object).2) := by
      rw [MemoryStore.create, hcurrent]
    refine ⟨next m.version false object, ?_, ?_⟩
    · rw [StoreWrite.plan, ObjectFile.create, h.object, hcurrent, h.version]
    · rw [MemoryStore.write, hcreate]
      exact ⟨rfl, m.version_put .added object, put m .added object⟩

theorem update (h : Agrees existing m object.objectName) :
    WrittenAlike existing m (.update object) := by
  cases hcurrent : m.object? object.objectName with
  | none =>
    left
    refine ⟨.notFound object.qualified, ?_, ?_⟩
    · rw [StoreWrite.plan, ObjectFile.update, h.object, hcurrent]
    · rw [MemoryStore.write, MemoryStore.update, hcurrent]
      rfl
  | some current =>
    have htoken := h.token current hcurrent
    by_cases hconflict : object.resourceVersion ≠ "" ∧
        object.resourceVersion ≠ Decimal.ofNat m.version
    · left
      refine ⟨.conflict object.qualified object.resourceVersion (Decimal.ofNat m.version), ?_, ?_⟩
      · rw [StoreWrite.plan, ObjectFile.update, h.object, hcurrent, h.version]
        exact if_pos hconflict
      · rw [MemoryStore.write, MemoryStore.update, hcurrent]
        dsimp only
        rw [htoken, if_pos hconflict]
        rfl
    · right
      have hupdate : m.update object =
          ((m.put .modified object).1, .ok (m.put .modified object).2) := by
        rw [MemoryStore.update, hcurrent]
        dsimp only
        rw [htoken, if_neg hconflict]
      refine ⟨next m.version false object, ?_, ?_⟩
      · rw [StoreWrite.plan, ObjectFile.update, h.object, hcurrent, h.version]
        exact if_neg hconflict
      · rw [MemoryStore.write, hupdate]
        exact ⟨rfl, m.version_put .modified object, put m .modified object⟩

theorem delete {name : ObjectName} (h : Agrees existing m name) :
    WrittenAlike existing m (.delete name) := by
  cases hcurrent : m.object? name with
  | none =>
    left
    refine ⟨.notFound name.qualified, ?_, ?_⟩
    · rw [StoreWrite.plan, ObjectFile.delete, h.object, hcurrent]
    · rw [MemoryStore.write, MemoryStore.delete, hcurrent]
      rfl
  | some current =>
    right
    have hgone : (m.delete name).1.object? name = none := by
      rw [MemoryStore.delete, hcurrent]
      exact (SortedMap.get?_erase m.objects name name).trans (if_pos (BEq.refl name))
    have hnext : (m.delete name).1.version = m.version + 1 := by
      rw [MemoryStore.delete, hcurrent]
      rfl
    refine ⟨next m.version true current, ?_, ?_, hnext, hnext.symm, hgone.symm, ?_⟩
    · rw [StoreWrite.plan, ObjectFile.delete, h.object, hcurrent, h.version]
    · rw [MemoryStore.write, MemoryStore.delete, hcurrent]
      rfl
    · intro object hobject
      cases hgone.symm.trans hobject

theorem write {w : StoreWrite} (h : Agrees existing m w.target) : WrittenAlike existing m w := by
  cases w with
  | create object => exact h.create
  | update object => exact h.update
  | delete name => exact h.delete

end ObjectFile.Agrees

/-- A store in files says of an object what a store in memory says of it. -/
structure LocalStore.Mirrors (s : LocalStore) (place : FilePath) (name : ObjectName) (t : FileTree)
    (m : MemoryStore) : Prop where
  ready : s.Ready t place name
  load : ∃ existing, s.load t name = .ok existing ∧ ObjectFile.Agrees existing m name
  /-- No reads of the store in memory are planned to fail. -/
  sound : m.failingGets = 0 ∧ m.failingLists = 0

namespace LocalStore

variable {s : LocalStore} {name : ObjectName} {place : FilePath}

namespace Mirrors

/-- An object without files is one that was never written. -/
theorem start {t : FileTree} (hadmits : s.Admits name) (hready : s.Ready t place name)
    (hnone : t.at? (place ++ [fileName name]) = none) : s.Mirrors place name t .empty := by
  have hload := (hready.load_missing hnone).resolve_right fun hfailed => hfailed.1 hadmits
  exact ⟨hready, ⟨none, hload, rfl, rfl, fun _ h => by cases h⟩, rfl, rfl⟩

/-- The replies to a call are the same, and so is what is there afterwards, as long as the number
of the write can be read. -/
theorem reply {disk : Disk} {m : MemoryStore} (h : s.Mirrors place name disk.files m)
    (hadmits : s.Admits name) {call : StoreCall} (htarget : call.target = name) :
    (s.reply disk call).2 = (m.reply call).2 ∧
      s.Spares place name disk.files (s.reply disk call).1.files ∧
      s.Ready (s.reply disk call).1.files place name ∧
      (m.reply call).1.version ≤ m.version + StoreCall.writes [call] ∧
      ((m.reply call).1.version < ObjectFile.versionLimit →
        s.Mirrors place name (s.reply disk call).1.files (m.reply call).1) := by
  obtain ⟨hready, ⟨existing, hload, hagrees⟩, hgets, hlists⟩ := h
  have hsame : s.Mirrors place name disk.files m :=
    ⟨hready, ⟨existing, hload, hagrees⟩, hgets, hlists⟩
  cases call with
  | get called =>
    obtain rfl : called = name := htarget
    have hget : m.get called = (m, .ok (m.object? called)) := if_pos hgets
    rw [MemoryStore.reply, hget]
    refine ⟨?_, .refl s place _ _, hready, Nat.le_add_right _ _, fun _ => hsame⟩
    rw [LocalStore.reply, LocalStore.get, hload, Except.map, hagrees.object]
  | list called =>
    obtain rfl : called = name := htarget
    have hlist : m.list called = (m, .ok ⟨(m.object? called).toList, Decimal.ofNat m.version⟩) :=
      if_pos hlists
    rw [MemoryStore.reply, hlist]
    refine ⟨?_, .refl s place _ _, hready, Nat.le_add_right _ _, fun _ => hsame⟩
    rw [LocalStore.reply, LocalStore.list, hload, Except.map, ObjectFile.list, hagrees.object,
      hagrees.version]
  | write w =>
    obtain rfl : w.target = name := htarget
    rw [LocalStore.reply, write_eq, MemoryStore.reply]
    rcases hagrees.write with ⟨failure, hplan, hwrite⟩ | ⟨file, hplan, hreply, hnext, hafter⟩
    · rcases change_cases hadmits hready hload w.plan with ⟨failure', hplan', hchange⟩ |
        ⟨file, disk', hplan', -⟩
      · obtain rfl : failure = failure' := Except.error.inj (hplan.symm.trans hplan')
        rw [hchange, hwrite]
        exact ⟨rfl, .refl s place _ _, hready, Nat.le_add_right _ _, fun _ => hsame⟩
      · cases hplan.symm.trans hplan'
    · rcases change_cases hadmits hready hload w.plan with ⟨failure, hplan', -⟩ |
        ⟨file', disk', hplan', hchange, hready', hload', hspares⟩
      · cases hplan.symm.trans hplan'
      · obtain rfl : file = file' := Except.ok.inj (hplan.symm.trans hplan')
        obtain ⟨hgets', hlists'⟩ := m.failing_write w
        rw [hchange]
        refine ⟨hreply.symm, hspares, hready', Nat.le_of_eq hnext, fun hlimit => ?_⟩
        have hfile : file.version = (m.write w).1.version := hafter.version
        have hloaded := hload' (hfile ▸ hlimit)
        exact ⟨hready', ⟨some file, hloaded, hafter⟩, hgets'.trans hgets, hlists'.trans hlists⟩

/-- The replies to all calls are the same. -/
theorem replies {disk : Disk} {m : MemoryStore} (h : s.Mirrors place name disk.files m)
    (hadmits : s.Admits name) {calls : List StoreCall}
    (htarget : ∀ call ∈ calls, call.target = name)
    (hversion : m.version + StoreCall.writes calls < ObjectFile.versionLimit) :
    (Keyring.replies s.reply disk calls).2 = (Keyring.replies MemoryStore.reply m calls).2 := by
  induction calls generalizing disk m with
  | nil => rfl
  | cons call rest ih =>
    rw [StoreCall.writes_cons] at hversion
    obtain ⟨hreply, -, -, hversion', hnext⟩ := h.reply hadmits (htarget call List.mem_cons_self)
    have hrest := ih (hnext (by omega))
      (fun other hother => htarget other (List.mem_cons_of_mem call hother)) (by omega)
    exact congrArg₂ List.cons hreply hrest

end Mirrors

/-- A newly opened store in files replies to calls on an object as an empty store in memory does:
with the same objects and versions, and with the same failures. -/
theorem replies_eq_memory {disk disk' : Disk} {directory : String} {source : MasterKeySource}
    {pollMillis : ℕ} (hopen : openDirectory disk directory source pollMillis = (disk', .ok s))
    (hfresh : s.IsFresh disk'.files name) (hadmits : s.Admits name) {calls : List StoreCall}
    (htarget : ∀ call ∈ calls, call.target = name)
    (hwrites : StoreCall.writes calls < ObjectFile.versionLimit) :
    (replies s.reply disk' calls).2 = (replies MemoryStore.reply .empty calls).2 := by
  obtain ⟨place, hplace⟩ := exists_ready (isDirectory_of_openDirectory hopen)
  obtain ⟨hready, hnone⟩ := hplace name hfresh
  have hstart : s.Mirrors place name disk'.files .empty := .start hadmits hready hnone
  apply hstart.replies hadmits htarget
  rwa [show MemoryStore.empty.version = 0 from rfl, Nat.zero_add]

/-- Calls that create, delete and create an object again, with a replacement that comes too late. -/
def recreation : List StoreCall :=
  let object : StoredObject := ⟨"ns", "keys", "", .ofList [("a", [1, 2])]⟩
  [.get object.objectName, .write (.create object), .write (.delete object.objectName),
    .list object.objectName, .write (.create object),
    .write (.update { object with resourceVersion := "1" }), .get object.objectName]

theorem replies_eq_memory_recreation :
    openDirectory ⟨.empty, .ofSeed [1]⟩ "/keys" (.bytes firstStore.masterKey.bytes) 100 =
        (firstDisk, .ok firstStore) ∧
      firstStore.Admits ⟨"ns", "keys"⟩ ∧
      (∀ call ∈ recreation, call.target = ⟨"ns", "keys"⟩) ∧ StoreCall.writes recreation = 4 ∧
      (replies firstStore.reply firstDisk recreation).2 =
        (replies MemoryStore.reply .empty recreation).2 := by
  have hadmits : firstStore.Admits ⟨"ns", "keys"⟩ := by decide +kernel
  have htarget : ∀ call ∈ recreation, call.target = ⟨"ns", "keys"⟩ := by decide
  have hwrites : StoreCall.writes recreation = 4 := by decide
  refine ⟨openDirectory_first, hadmits, htarget, hwrites, ?_⟩
  apply replies_eq_memory openDirectory_first (isFresh_first _) hadmits htarget
  rw [hwrites, ObjectFile.versionLimit]
  decide

end LocalStore
end Keyring
