import Keyring.StoredObject
import Keyring.Text.Decimal
/-!
# Feeds of changes

A watch on one object has a feed. The store puts every notice into the feed, also those about other
objects; a forwarder hands the relevant ones on to a short queue, from which the watcher takes them.
A forwarder that finds more notices than a feed may hold gives up: it tells how many were lost and
ends the feed.
-/
namespace Keyring

/-- What happened to an object. -/
inductive ChangeKind
  | added
  | modified
  | deleted
  deriving DecidableEq, Repr

/-- A write to an object: the object as the write left it, with the version of the write. -/
structure Change where
  kind : ChangeKind
  object : StoredObject
  version : Nat
  deriving DecidableEq, Repr

namespace Change

/-- The object that was written. -/
def target (c : Change) : ObjectName := c.object.objectName

def event (c : Change) : WatchEvent :=
  match c.kind with
  | .added => .added c.object
  | .modified => .modified c.object
  | .deleted => .deleted c.object

end Change

/-- What a store tells its feeds. -/
inductive Notice
  | change (change : Change)
  /-- All changes up to a version have been told. -/
  | bookmark (version : Nat)
  deriving DecidableEq, Repr

namespace Notice

def version : Notice → Nat
  | .change c => c.version
  | .bookmark version => version

def event : Notice → WatchEvent
  | .change c => c.event
  | .bookmark version => .bookmark (Decimal.ofNat version)

/-- Whether a watcher of an object, who knows all up to a version, gets the notice. -/
def isRelevant (name : ObjectName) (last : Nat) : Notice → Bool
  | .change c => c.target == name && last < c.version
  | .bookmark _ => true

end Notice

/-- The changes on their way to one watcher. -/
structure Feed where
  name : ObjectName
  /-- The version up to which the forwarder has read. -/
  last : Nat
  /-- Notices that the forwarder has not read, the newest first. -/
  unread : List Notice
  /-- Events that the forwarder holds until the queue has room. -/
  outgoing : List WatchEvent
  /-- Events that the watcher has not taken. -/
  queue : List WatchEvent
  /-- The store has asked to end the feed. -/
  closing : Bool
  /-- The forwarder reads no more. -/
  ended : Bool
  deriving DecidableEq, Repr

namespace Feed

/-- The most notices that a feed may hold. -/
def unreadLimit : Nat := 256

/-- The most events that a queue may hold. -/
def queueLimit : Nat := 64

/-- A feed that starts with recorded changes, in the order of their versions. -/
def start (name : ObjectName) (sinceVersion : Nat) (recorded : List Change) : Feed :=
  ⟨name, recorded.foldl (fun _ c => c.version) sinceVersion, [], recorded.map Change.event, [],
    false, false⟩

/-- Takes a notice of the store. -/
def push (f : Feed) (n : Notice) : Feed :=
  if f.ended then f else { f with unread := n :: f.unread }

/-- The notices that the forwarder has not read, in their order. -/
def pending (f : Feed) : List Notice := f.unread.reverse

/-- How many notices are more than a feed may hold. -/
def lost (f : Feed) : Nat := f.unread.length - unreadLimit

/-- Asks the forwarder to end the feed. -/
def close (f : Feed) : Feed := { f with closing := true }

/-- What a watcher is told who has lost that many notices. -/
def lagEvent (lost : Nat) : WatchEvent :=
  .error ("watch lagged by " ++ Decimal.ofNat lost ++ " events")

/-- The relevant events of notices, and the version up to which they go. -/
def read (name : ObjectName) : (last : Nat) → List Notice → List WatchEvent × Nat
  | last, [] => ([], last)
  | last, n :: rest =>
    if n.isRelevant name last then
      let (events, last) := read name (max last n.version) rest
      (n.event :: events, last)
    else read name last rest

/-- Hands held events on as far as the queue has room. -/
def flush (f : Feed) : Feed :=
  let room := queueLimit - f.queue.length
  { f with queue := f.queue ++ f.outgoing.take room, outgoing := f.outgoing.drop room }

/-- Reads notices, the oldest first, until one is relevant that the queue has no room for. -/
def readPending (f : Feed) : List Notice → Feed
  | [] => { f with unread := [] }
  | n :: rest =>
    if n.isRelevant f.name f.last then
      let f := { f with last := max f.last n.version }
      if f.queue.length < queueLimit then
        { f with queue := f.queue ++ [n.event] }.readPending rest
      else { f with outgoing := [n.event], unread := rest.reverse }
    else f.readPending rest

/-- Lets the forwarder run until it has to wait. -/
def forward (f : Feed) : Feed :=
  let f := f.flush
  if f.outgoing ≠ [] ∨ f.ended then f
  else if f.closing then { f with ended := true, unread := [] }
  else if f.lost = 0 then f.readPending f.pending
  else { f with outgoing := [lagEvent f.lost], unread := [], ended := true }.flush

/-- All events that a watcher gets who takes events for as long as there are any. -/
def available (f : Feed) : List WatchEvent :=
  let held := f.queue ++ f.outgoing
  if f.ended ∨ f.closing then held
  else if f.lost = 0 then held ++ (read f.name f.last f.pending).1
  else held ++ [lagEvent f.lost]

/-- The feed after a watcher has taken all events. -/
def exhausted (f : Feed) : Feed :=
  { f with
    last := if f.ended ∨ f.closing then f.last else (read f.name f.last f.pending).2
    unread := []
    outgoing := []
    queue := []
    ended := f.ended || f.closing || f.lost != 0 }

end Feed
end Keyring
