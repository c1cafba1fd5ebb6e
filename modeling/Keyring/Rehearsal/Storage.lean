import Keyring.LocalStore.Poller
import Keyring.MemoryStore
/-!
# Stores side by side

The stores of a rehearsal, of either kind, with the disk that the local ones share and the watches
that are open on them.
-/
namespace Keyring.Rehearsal

/-- A store of either kind. -/
inductive Backend
  | memory (store : MemoryStore)
  | local (store : LocalStore)

def Backend.kindName : Backend → String
  | .memory _ => "memory"
  | .local _ => "local"

inductive Subscription
  | feed (store feed : Nat)
  | poller (poller : Nat)
  /-- Given events, after which the watch stays open or ends. -/
  | scripted (events : List WatchEvent) (staysOpen : Bool)

/-- Another writer, who is faster. -/
inductive Rival
  /-- Sets these fields, in a new object if there is none. -/
  | merge (data : SortedMap String Bytes)
  | delete

/-- The stores, their disk, and the pollers of the watches on files. -/
structure Storage where
  backends : List Backend
  disk : Disk
  pollers : SortedMap Nat Poller
  nextPoller : Nat

namespace Storage

/-- The store of a number; there is an empty one behind each number that is not in use. -/
def backend (s : Storage) (i : Nat) : Backend := s.backends[i]?.getD (.memory .empty)

/-- Puts a store under the next number. -/
def add (s : Storage) (b : Backend) : Storage × Nat :=
  ({ s with backends := s.backends ++ [b] }, s.backends.length)

/-- Takes over what an operation left of a memory store. -/
def withMemory {α : Type} (s : Storage) (i : Nat) (outcome : MemoryStore × α) : Storage × α :=
  ({ s with backends := s.backends.set i (.memory outcome.1) }, outcome.2)

/-- Takes over what an operation left of the disk. -/
def withDisk {α : Type} (s : Storage) (outcome : Disk × α) : Storage × α :=
  ({ s with disk := outcome.1 }, outcome.2)

/-- Changes a memory store; a local one stays as it is. -/
def modifyMemory (s : Storage) (i : Nat) (f : MemoryStore → MemoryStore) : Storage :=
  match s.backend i with
  | .memory m => { s with backends := s.backends.set i (.memory (f m)) }
  | .local _ => s

/-! ## Operations on the store of a number -/

def get (s : Storage) (i : Nat) (name : ObjectName) :
    Storage × Except KeyError (Option StoredObject) :=
  match s.backend i with
  | .memory m => s.withMemory i (m.get name)
  | .local l => (s, l.get s.disk name)

def create (s : Storage) (i : Nat) (object : StoredObject) :
    Storage × Except KeyError StoredObject :=
  match s.backend i with
  | .memory m => s.withMemory i (m.create object)
  | .local l => s.withDisk (l.create s.disk object)

def update (s : Storage) (i : Nat) (object : StoredObject) :
    Storage × Except KeyError StoredObject :=
  match s.backend i with
  | .memory m => s.withMemory i (m.update object)
  | .local l => s.withDisk (l.update s.disk object)

def delete (s : Storage) (i : Nat) (name : ObjectName) : Storage × Except KeyError Unit :=
  match s.backend i with
  | .memory m => s.withMemory i (m.delete name)
  | .local l => s.withDisk (l.delete s.disk name)

def list (s : Storage) (i : Nat) (name : ObjectName) : Storage × Except KeyError ObjectList :=
  match s.backend i with
  | .memory m => s.withMemory i (m.list name)
  | .local l => (s, l.list s.disk name)

def watch (s : Storage) (i : Nat) (name : ObjectName) (token : String) (now : Nat) :
    Storage × Except KeyError Subscription :=
  match s.backend i with
  | .memory m =>
    let (s, result) := s.withMemory i (m.watch name token)
    (s, result.map (.feed i))
  | .local l =>
    match parseVersion token with
    | .error failure => (s, .error failure)
    | .ok version =>
      ({ s with
          pollers := s.pollers.insert s.nextPoller (.start l name version now)
          nextPoller := s.nextPoller + 1 },
        .ok (.poller s.nextPoller))

/-- Takes the events of a watch that are there, and tells whether the watch has ended. -/
def take (s : Storage) (now : Nat) :
    Subscription → Storage × Subscription × List WatchEvent × Bool
  | .feed i feed =>
    match s.backend i with
    | .memory m =>
      let (s, events, ended) := s.withMemory i (m.take feed)
      (s, .feed i feed, events, ended)
    | .local _ => (s, .feed i feed, [], true)
  | .poller i =>
    match s.pollers.get? i with
    | none => (s, .poller i, [], true)
    | some p =>
      let (p, events, ended) := p.take s.disk.files now
      ({ s with pollers := s.pollers.insert i p }, .poller i, events, ended)
  | .scripted events staysOpen => (s, .scripted [] staysOpen, events, !staysOpen)

/-- Ends a watch from the side of the watcher. -/
def drop (s : Storage) : Subscription → Storage
  | .feed i feed => s.modifyMemory i fun m => m.drop feed
  | .poller i => { s with pollers := s.pollers.erase i }
  | .scripted .. => s

/-- Lets another writer write to an object. -/
def interfere (s : Storage) (i : Nat) (name : ObjectName) : Rival → Storage
  | .delete => (s.delete i name).1
  | .merge data =>
    match s.get i name with
    | (s, .ok (some object)) =>
      let merged := data.entries.foldl (fun d e => d.insert e.1 e.2) object.data
      (s.update i { object with data := merged }).1
    | (s, .ok none) => (s.create i { StoredObject.fresh name with data }).1
    | (s, .error _) => s

/-! ## Time -/

/-- Lets the forwarders of all memory stores run until they have to wait. -/
def forwardAll (s : Storage) : Storage :=
  { s with backends := s.backends.map fun b =>
      match b with
      | .memory m => .memory m.forwardAll
      | .local l => .local l }

/-- The time of the next look at a file that may find something. -/
def nextLook? (s : Storage) : Option Nat :=
  (s.pollers.values.filterMap fun p => p.due? s.disk.files).min?

/-- Does all looks that are due. -/
def tickAll (s : Storage) (now : Nat) : Storage :=
  { s with pollers := s.pollers.map fun _ p => p.tick s.disk.files now }

end Storage
end Keyring.Rehearsal
