import Keyring.Proofs.LocalStore.Drafts
import Keyring.Proofs.Stores.Calls

/-!
# Stores that many share

A store in memory or in files answers calls. Reads of a store in memory may be planned to fail, and
the file system of a store in files may refuse a read, a draft or the exchange at any time. A call
that only reads or that fails leaves the store as it was: what is stored, under which versions, and
what watchers are told. A file that cannot be read stays in any case.
-/
namespace Keyring

/-- A store of either kind. -/
inductive SharedStore
  | memory (m : MemoryStore)
  | files (s : LocalStore) (disk : Disk)

/-- What is said to a call that fails. -/
def StoreCall.failed (call : StoreCall) (failure : KeyError) : StoreReply :=
  match call with
  | get _ => .found (.error failure)
  | list _ => .listed (.error failure)
  | write w => w.reply (.error failure)

def StoreReply.isFailure : StoreReply → Bool
  | found (.error _) | listed (.error _) | written (.error _) | deleted (.error _) => true
  | _ => false

@[simp] theorem StoreWrite.isFailure_reply_error (w : StoreWrite) (failure : KeyError) :
    (w.reply (.error failure)).isFailure = true := by
  cases w <;> rfl

/-- The reply to a write is a failure only if the write failed. -/
theorem StoreWrite.error_of_isFailure {w : StoreWrite} {outcome : Except KeyError ObjectFile}
    (h : (w.reply outcome).isFailure = true) : ∃ failure, outcome = .error failure := by
  cases outcome with
  | error failure => exact ⟨failure, rfl⟩
  | ok file => cases w <;> cases h

namespace SharedStore

/-- What a store may do with a call. -/
inductive Answers : SharedStore → StoreCall → SharedStore → StoreReply → Prop
  | memory (m : MemoryStore) (call : StoreCall) :
    Answers (.memory m) call (.memory (m.reply call).1) (m.reply call).2
  | files (s : LocalStore) (disk : Disk) (call : StoreCall) :
    Answers (.files s disk) call (.files s (s.reply disk call).1) (s.reply disk call).2
  /-- The file system does not let the object's file be read. -/
  | unread (s : LocalStore) (disk : Disk) (call : StoreCall) (text : String) :
    Answers (.files s disk) call (.files s disk) (call.failed (.backendUnavailable text))
  /-- The file system does not take the draft, or only a part of it, or not the exchange. -/
  | unwritten (s : LocalStore) (disk : Disk) (w : StoreWrite) (files : FileTree) (pool : Entropy)
    (h : files = disk.files ∨
      ∃ content, disk.files.write (s.draftPath w.target) content = .ok files) :
    Answers (.files s disk) (.write w) (.files s ⟨files, pool⟩) (w.reply (.error .io))

/-- What a store says of an object: the object, if there is one, and the number of the last write.
-/
def shows (store : SharedStore) (name : ObjectName) : Except KeyError (Option StoredObject × ℕ) :=
  match store with
  | memory m => .ok (m.object? name, m.version)
  | files s disk => (s.load disk.files name).map fun existing =>
      (ObjectFile.current? existing, ObjectFile.lastVersion existing)

/-- What a store in files says of an object is what it loads. -/
theorem shows_files_error {s : LocalStore} {disk : Disk} {name : ObjectName} {failure : KeyError}
    (h : (files s disk).shows name = .error failure) : s.load disk.files name = .error failure := by
  rw [shows] at h
  cases hload : s.load disk.files name with
  | error failed =>
    rw [hload] at h
    exact congrArg Except.error (Except.error.inj h)
  | ok existing =>
    rw [hload] at h
    cases h

theorem shows_files_ok {s : LocalStore} {disk : Disk} {name : ObjectName}
    {object : Option StoredObject} {version : ℕ}
    (h : (files s disk).shows name = .ok (object, version)) :
    ∃ existing, s.load disk.files name = .ok existing ∧ ObjectFile.current? existing = object ∧
      ObjectFile.lastVersion existing = version := by
  rw [shows] at h
  cases hload : s.load disk.files name with
  | error failure =>
    rw [hload] at h
    cases h
  | ok existing =>
    rw [hload] at h
    obtain ⟨hobject, hversion⟩ := Prod.mk.inj (Except.ok.inj h)
    exact ⟨existing, rfl, hobject, hversion⟩

/-- What a store tells the watchers of an object from now on: the feeds with the events on their
way, or what a look at the file finds. -/
inductive Telling
  | feeds (feeds : SortedMap ℕ Feed) (next : ℕ) (history : List Change)
  | file (file : Except KeyError (Option ObjectFile))

/-- What a store tells the watchers of an object. -/
def tells (store : SharedStore) (name : ObjectName) : Telling :=
  match store with
  | memory m => .feeds m.feeds m.nextFeed m.history
  | files s disk => .file (s.load disk.files name)

/-- The encrypted file of an object, if the store has files. -/
def file? (store : SharedStore) (name : ObjectName) : Option (Except FileFault Bytes) :=
  match store with
  | memory _ => none
  | files s disk => some (disk.files.read (s.path name))

/-! ## Calls that leave no trace -/

/-- A store in which nothing has changed but the reads that are planned to fail, or the drafts. -/
def Alike : SharedStore → SharedStore → Prop
  | memory m, memory m' =>
    m' = { m with failingGets := m'.failingGets, failingLists := m'.failingLists }
  | files s disk, files s' disk' =>
    s' = s ∧ ∀ name, disk'.files.read (s.path name) = disk.files.read (s.path name)
  | _, _ => False

variable {store store' : SharedStore} {call : StoreCall} {reply : StoreReply}

namespace Alike

theorem refl : (store : SharedStore) → store.Alike store
  | memory _ => rfl
  | files _ _ => ⟨rfl, fun _ => rfl⟩

/-- The same is stored under the same versions, watchers are told the same, and the files are the
same. -/
theorem same (h : store.Alike store') (name : ObjectName) :
    store'.shows name = store.shows name ∧ store'.tells name = store.tells name ∧
      store'.file? name = store.file? name := by
  match store, store', h with
  | memory m, memory m', h =>
    have heq : m' = _ := h
    rw [heq]
    exact ⟨rfl, rfl, rfl⟩
  | files s disk, files s' disk', h =>
    obtain ⟨rfl, hread⟩ := h
    have hload := LocalStore.load_of_read (hread name)
    refine ⟨?_, ?_, congrArg some (hread name)⟩
    · rw [shows, shows, hload]
    · rw [tells, tells, hload]

end Alike

end SharedStore

/-- A store in memory is left alone by reads and by calls that fail. -/
theorem MemoryStore.alike_reply {m : MemoryStore} {call : StoreCall}
    (h : call.isWrite = false ∨ (m.reply call).2.isFailure = true) :
    (SharedStore.memory m).Alike (.memory (m.reply call).1) := by
  cases call with
  | get name =>
    rw [reply, get]
    split <;> rfl
  | list name =>
    rw [reply, list]
    split <;> rfl
  | write w =>
    have hfailed : (m.write w).2.isFailure = true := h.resolve_left (by simp [StoreCall.isWrite])
    have hsame : (m.write w).1 = m := by
      cases w with
      | create object =>
        rcases m.create_cases object with ⟨current, -, heq⟩ | ⟨-, -, hwritten⟩
        · exact congrArg Prod.fst heq
        · rw [write, hwritten] at hfailed
          cases hfailed
      | update object =>
        rcases m.update_cases object with ⟨failure, heq⟩ | ⟨current, -, -, -, hwritten⟩
        · exact congrArg Prod.fst heq
        · rw [write, hwritten] at hfailed
          cases hfailed
      | delete name =>
        simp only [write, delete] at hfailed ⊢
        split at hfailed
        next => rfl
        next => cases hfailed
    rw [reply, hsame]
    exact .refl _

/-- A store in files is left alone by reads and by calls that fail. -/
theorem LocalStore.alike_reply {s : LocalStore} {disk : Disk} {call : StoreCall}
    (h : call.isWrite = false ∨ (s.reply disk call).2.isFailure = true) :
    (SharedStore.files s disk).Alike (.files s (s.reply disk call).1) := by
  cases call with
  | get name | list name => exact .refl _
  | write w =>
    have hfailed : (s.write disk w).2.isFailure = true :=
      h.resolve_left (by simp [StoreCall.isWrite])
    rw [write_eq] at hfailed
    obtain ⟨failure, houtcome⟩ := StoreWrite.error_of_isFailure hfailed
    rw [reply, write_eq]
    exact ⟨rfl, read_of_change_error (Prod.ext rfl houtcome)⟩

namespace SharedStore

variable {store store' : SharedStore} {call : StoreCall} {reply : StoreReply}

/-- A read, or a call that fails, leaves no trace. -/
theorem Answers.alike (h : store.Answers call store' reply)
    (hcall : call.isWrite = false ∨ reply.isFailure = true) : store.Alike store' := by
  cases h with
  | memory m => exact MemoryStore.alike_reply hcall
  | files s disk => exact LocalStore.alike_reply hcall
  | unread => exact .refl _
  | unwritten s disk w files pool hfiles =>
    rcases hfiles with rfl | ⟨content, hwrite⟩
    · exact ⟨rfl, fun _ => rfl⟩
    · exact ⟨rfl, LocalStore.read_of_draft hwrite⟩

/-- The reply to a write that stores an object tells what was stored, or the failure. -/
theorem Answers.written {w : StoreWrite} (h : store.Answers (.write w) store' reply)
    (hw : ∀ name, w ≠ .delete name) : ∃ result, reply = .written result := by
  cases w with
  | create object | update object => cases h <;> exact ⟨_, rfl⟩
  | delete name => exact absurd rfl (hw name)

/-! ## Files that cannot be read -/

/-- The files that cannot be read or decoded are left as they are. -/
def SparesUnreadable (store store' : SharedStore) : Prop :=
  ∀ name failure, store.shows name = .error failure → store'.file? name = store.file? name

theorem Alike.sparesUnreadable (h : store.Alike store') : store.SparesUnreadable store' :=
  fun name _ _ => (h.same name).2.2

/-- No call writes over a file that cannot be read. -/
theorem Answers.sparesUnreadable (h : store.Answers call store' reply) :
    store.SparesUnreadable store' := by
  cases h with
  | memory m => exact fun name failure hshows => nomatch hshows
  | unread => exact (Alike.refl _).sparesUnreadable
  | unwritten s disk w files pool hfiles =>
    have hanswers := Answers.unwritten s disk w files pool hfiles
    exact (hanswers.alike (Or.inr (w.isFailure_reply_error .io))).sparesUnreadable
  | files s disk =>
    cases call with
    | get | list => exact (Alike.refl _).sparesUnreadable
    | write w =>
      intro name failure hshows
      rw [LocalStore.reply, LocalStore.write_eq]
      exact congrArg some (LocalStore.read_of_load_error (shows_files_error hshows))

end SharedStore
end Keyring
