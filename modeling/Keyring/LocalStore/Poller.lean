import Keyring.LocalStore
/-!
# Polling a file

A watch on a stored file looks at it at once and then at fixed intervals. A look finds at most one
event: what the file says, if its number is above all that were seen. Writes between two looks are
told as one. A look that fails is told and ends the watch. Events go to a short queue; while one of
them waits for room there, the poller does not look.
-/
namespace Keyring

/-- A watch on a file, and the events on their way to the watcher. -/
structure Poller where
  store : LocalStore
  name : ObjectName
  /-- The number of the last write that was told. -/
  last : Nat
  /-- Whether the object was there then. -/
  wasLive : Bool
  /-- The time of the next look. -/
  nextLook : Nat
  /-- The revision of the files at the last look. -/
  seen : Option Nat
  /-- Events that the watcher has not taken. -/
  queue : List WatchEvent
  /-- An event that waits until the queue has room. -/
  held : Option WatchEvent
  /-- The poller looks no more. -/
  ended : Bool

namespace Poller

/-- The most events that a queue may hold. -/
def queueLimit : Nat := 16

/-- A watch of the writes after a number. Looks that are no time apart cannot be planned. -/
def start (store : LocalStore) (name : ObjectName) (sinceVersion now : Nat) : Poller :=
  ⟨store, name, sinceVersion, decide (0 < sinceVersion), now, none, [], none,
    decide (store.pollMillis = 0)⟩

/-- The event that tells what a file says. -/
def eventOf (wasLive : Bool) (file : ObjectFile) : WatchEvent :=
  match file.object with
  | none => .bookmark (Decimal.ofNat file.version)
  | some object =>
    if file.deleted then .deleted object
    else if wasLive then .modified object
    else .added object

/-- Whether the object is there, after a look at its file. -/
def liveAfter (wasLive : Bool) (file : ObjectFile) : Bool :=
  if file.object.isSome then !file.deleted else wasLive

/-- Hands an event to the queue, or holds it until there is room. -/
def emit (p : Poller) (event : WatchEvent) : Poller :=
  if p.queue.length < queueLimit then { p with queue := p.queue ++ [event] }
  else { p with held := some event }

/-- Takes the outcome of a look. -/
def look (p : Poller) : Except KeyError (Option ObjectFile) → Poller
  | .error failure => { p with ended := true }.emit (.error failure.message)
  | .ok none => p
  | .ok (some file) =>
    if file.version ≤ p.last then p
    else
      { p with last := file.version, wasLive := liveAfter p.wasLive file }.emit
        (eventOf p.wasLive file)

@[simp] theorem last_emit (p : Poller) (event : WatchEvent) : (p.emit event).last = p.last := by
  unfold emit
  split <;> rfl

/-- Whether the poller waits for nothing but the time of its next look. -/
def isTicking (p : Poller) : Bool := !p.ended && p.held.isNone

/-- The first time after `now` at which a look is planned. -/
def lookAfter (p : Poller) (now : Nat) : Nat :=
  if now < p.nextLook then p.nextLook
  else p.nextLook + ((now - p.nextLook) / p.store.pollMillis + 1) * p.store.pollMillis

/-- Does the looks that are due. Those after the first find nothing new. -/
def tick (p : Poller) (files : FileTree) (now : Nat) : Poller :=
  if !p.isTicking || now < p.nextLook then p
  else
    let next := { p with nextLook := p.lookAfter now, seen := some files.revision }
    if p.seen = some files.revision then next else next.look (p.store.load files p.name)

/-- The time of the next look that may find something, if the files stay as they are. -/
def due? (p : Poller) (files : FileTree) : Option Nat :=
  if p.isTicking && p.seen != some files.revision then some p.nextLook else none

/-- The events that a watcher takes at once, and whether the watch has ended. -/
def take (p : Poller) (files : FileTree) (now : Nat) : Poller × List WatchEvent × Bool :=
  let taken := p.queue ++ p.held.toList
  let rest := { p with queue := [], held := none }.tick files now
  ({ rest with queue := [] }, taken ++ rest.queue, rest.ended)

end Poller
end Keyring
