import Keyring.KeyError
import Keyring.MemoryStore.Feed
/-!
# Objects in memory

A store that keeps its objects in memory. One counter numbers the writes to all objects. The last of
them are on record, so a watch may start at an earlier version as long as every write since then is
among them. For rehearsals, reads can be made to fail and watches to end.
-/
namespace Keyring

/-- Objects in memory, the writes that led to them, and the feeds of the watches. -/
structure MemoryStore where
  objects : SortedMap ObjectName StoredObject
  /-- The number of the last write. -/
  version : Nat
  /-- The writes, the newest first. -/
  history : List Change
  feeds : SortedMap Nat Feed
  nextFeed : Nat
  /-- How many of the next reads fail. -/
  failingGets : Nat
  /-- How many of the next lists fail. -/
  failingLists : Nat

/-- The version that a token names; the empty token stands for the time before the first write. -/
def parseVersion (token : String) : Except KeyError Nat :=
  if token = "" then .ok 0
  else
    match Decimal.nat64? token with
    | some version => .ok version
    | none => .error (.backendUnavailable ("invalid resource version " ++ Text.quoted token))

namespace MemoryStore

/-- How many writes are on record. -/
def historyLimit : Nat := 1024

def empty : MemoryStore := ⟨.empty, 0, [], .empty, 0, 0, 0⟩

def object? (s : MemoryStore) (name : ObjectName) : Option StoredObject := s.objects.get? name

/-- Tells all feeds. -/
def publish (s : MemoryStore) (n : Notice) : MemoryStore :=
  { s with feeds := s.feeds.map fun _ f => f.push n }

/-- Adds a change to the history and tells all feeds. -/
def record (s : MemoryStore) (c : Change) : MemoryStore :=
  { s with history := c :: s.history }.publish (.change c)

/-- The writes on record, the newest first. -/
def onRecord (s : MemoryStore) : List Change := s.history.take historyLimit

/-- The object as the next write leaves it. -/
def stamp (s : MemoryStore) (object : StoredObject) : StoredObject :=
  { object with resourceVersion := Decimal.ofNat (s.version + 1) }

/-- Stores an object under the next version. -/
def put (s : MemoryStore) (kind : ChangeKind) (object : StoredObject) :
    MemoryStore × StoredObject :=
  let object := s.stamp object
  let version := s.version + 1
  ({ s with objects := s.objects.insert object.objectName object, version }.record
    ⟨kind, object, version⟩, object)

@[simp] theorem version_put (s : MemoryStore) (kind : ChangeKind) (object : StoredObject) :
    (s.put kind object).1.version = s.version + 1 := rfl

@[simp] theorem object?_put_self (s : MemoryStore) (kind : ChangeKind) (object : StoredObject) :
    (s.put kind object).1.object? object.objectName = some (s.stamp object) :=
  SortedMap.get?_insert_self s.objects object.objectName (s.stamp object)

/-- A write to one object leaves the others as they are. -/
theorem object?_put_of_ne (s : MemoryStore) (kind : ChangeKind) (object : StoredObject)
    {name : ObjectName} (h : name ≠ object.objectName) :
    (s.put kind object).1.object? name = s.object? name :=
  SortedMap.get?_insert_of_ne s.objects h (s.stamp object)

def get (s : MemoryStore) (name : ObjectName) :
    MemoryStore × Except KeyError (Option StoredObject) :=
  if s.failingGets = 0 then (s, .ok (s.object? name))
  else
    ({ s with failingGets := s.failingGets - 1 },
      .error (.backendUnavailable ("injected failure fetching " ++ name.qualified)))

def create (s : MemoryStore) (object : StoredObject) : MemoryStore × Except KeyError StoredObject :=
  match s.object? object.objectName with
  | some _ => (s, .error (.alreadyExists object.qualified))
  | none =>
    let (s, written) := s.put .added object
    (s, .ok written)

/-- Replaces an object, if it is still at the version that the new one names. -/
def update (s : MemoryStore) (object : StoredObject) : MemoryStore × Except KeyError StoredObject :=
  match s.object? object.objectName with
  | none => (s, .error (.notFound object.qualified))
  | some current =>
    if object.resourceVersion ≠ "" ∧ object.resourceVersion ≠ current.resourceVersion then
      (s, .error (.conflict object.qualified object.resourceVersion current.resourceVersion))
    else
      let (s, written) := s.put .modified object
      (s, .ok written)

/-- Removes an object. The deletion has a version of its own. -/
def delete (s : MemoryStore) (name : ObjectName) : MemoryStore × Except KeyError Unit :=
  match s.object? name with
  | none => (s, .error (.notFound name.qualified))
  | some object =>
    let object := s.stamp object
    let version := s.version + 1
    ({ s with objects := s.objects.erase name, version }.record ⟨.deleted, object, version⟩, .ok ())

/-- The object of a name, if there is one, and the version of the whole store. -/
def list (s : MemoryStore) (name : ObjectName) : MemoryStore × Except KeyError ObjectList :=
  if s.failingLists = 0 then
    (s, .ok ⟨(s.object? name).toList, Decimal.ofNat s.version⟩)
  else
    ({ s with failingLists := s.failingLists - 1 },
      .error (.backendUnavailable ("injected failure listing " ++ name.qualified)))

/-- The recorded writes to an object after a version, in order. -/
def recordedSince (s : MemoryStore) (name : ObjectName) (version : Nat) : List Change :=
  (s.onRecord.filter fun c => version < c.version && c.target == name).reverse

/-- The first version after the one of a token. Versions count on without an end here, but a token is
a word: for one beyond the counter, the sum wraps around. -/
def following (s : MemoryStore) (version : Nat) : Nat :=
  if version ≤ s.version then version + 1 else (version + 1) % 18446744073709551616

theorem following_le (s : MemoryStore) (version : Nat) : s.following version ≤ version + 1 := by
  unfold following
  split
  · exact Nat.le_refl _
  · exact Nat.mod_le _ _

/-- Whether every write after a version is on record. -/
def remembers (s : MemoryStore) (version : Nat) : Bool :=
  match s.onRecord.getLast? with
  | some oldest => oldest.version ≤ s.following version
  | none => true

/-- Starts a watch of the writes after a version, and gives the number of its feed. -/
def watch (s : MemoryStore) (name : ObjectName) (token : String) :
    MemoryStore × Except KeyError Nat :=
  match parseVersion token with
  | .error failure => (s, .error failure)
  | .ok version =>
    if s.remembers version then
      let feed := Feed.start name version (s.recordedSince name version)
      ({ s with feeds := s.feeds.insert s.nextFeed feed, nextFeed := s.nextFeed + 1 },
        .ok s.nextFeed)
    else
      (s, .error (.backendUnavailable
        ("resource version " ++ Decimal.ofNat version ++ " is too old")))

/-- Takes all events of a feed, and tells whether the feed has ended. -/
def take (s : MemoryStore) (feed : Nat) : MemoryStore × List WatchEvent × Bool :=
  match s.feeds.get? feed with
  | none => (s, [], true)
  | some f =>
    let rest := f.exhausted
    ({ s with feeds := s.feeds.insert feed rest }, f.available, rest.ended)

/-- Ends the watch of a feed from the side of the watcher. -/
def drop (s : MemoryStore) (feed : Nat) : MemoryStore := { s with feeds := s.feeds.erase feed }

/-- Lets the forwarders of all feeds run until they have to wait. -/
def forwardAll (s : MemoryStore) : MemoryStore :=
  { s with feeds := s.feeds.map fun _ f => f.forward }

/-- Tells all feeds the version of the store. -/
def bookmark (s : MemoryStore) : MemoryStore := s.publish (.bookmark s.version)

def closeWatches (s : MemoryStore) : MemoryStore :=
  { s with feeds := s.feeds.map fun _ f => f.close }

end MemoryStore
end Keyring
