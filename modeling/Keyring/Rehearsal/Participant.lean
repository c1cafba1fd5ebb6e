import Keyring.KeySet.Write
import Keyring.Rehearsal.Storage
import Keyring.SyncOptions
import Keyring.WatchLoop
/-!
# Participants

A participant is a process with a cache of its own and perhaps a watch loop. Its calls to the store
can be answered by a script in place of the store, and are recorded.
-/
namespace Keyring.Rehearsal

inductive ScriptedWrite
  | answer (result : Except KeyError StoredObject)
  /-- Another writer comes first; then the store answers. -/
  | race (rival : Rival)

/-- Scripted answers to the next calls, by the operation; the store answers where there is none. -/
structure Script where
  gets : List (Except KeyError (Option StoredObject))
  creates : List ScriptedWrite
  updates : List ScriptedWrite
  lists : List (Except KeyError ObjectList)
  /-- The events of a watch, and whether it stays open after them. -/
  watches : List (Except KeyError (List WatchEvent × Bool))

inductive CallKind
  | get
  | create
  | update
  | list
  | watch (token : String)
  deriving DecidableEq, Repr

/-- A call to the store, and how it failed if it did. -/
structure CallRecord where
  kind : CallKind
  failure : Option KeyError
  deriving DecidableEq, Repr

/-- When a pause ends; of pauses that end together the one with the smaller order comes first. -/
structure Alarm where
  time : Nat
  order : Nat

def Alarm.isBefore (a b : Alarm) : Bool :=
  a.time < b.time || a.time == b.time && a.order < b.order

/-- A process that shares an object with others. -/
structure Participant where
  backend : Nat
  target : ObjectName
  options : SyncOptions
  recordsCalls : Bool
  cache : Cache
  script : Script
  /-- The calls since the last view, the newest first. -/
  calls : List CallRecord
  loop : Option WatchLoop
  /-- What its loops have shown last. -/
  shown : WatchState
  /-- A loop that was replaced has yet to end, and will show it. -/
  replaced : Bool
  /-- The watch from which the loop takes events. -/
  subscription : Option Subscription
  /-- When the loop's pause ends. -/
  alarm : Option Alarm
  /-- The loop has been asked to stop. -/
  cancelled : Bool
  /-- Somebody can still ask the loop to stop. -/
  held : Bool

namespace Script

def empty : Script := ⟨[], [], [], [], []⟩

end Script

namespace Participant

/-- The object that is used where none is named. -/
def defaultTarget : ObjectName := ⟨"keyward-system", "keyward-keys"⟩

def start (backend : Nat) (target : ObjectName) (options : SyncOptions) (recordsCalls : Bool) :
    Participant :=
  ⟨backend, target, options, recordsCalls, .empty, .empty, [], none, .idle, false, none, none,
    false, false⟩

def isLooping (p : Participant) : Bool := p.loop.any fun l => !l.isOver

/-- Goes on with a loop, which shows its phase. -/
def withLoop (p : Participant) (l : WatchLoop) : Participant :=
  { p with loop := some l, shown := l.state }

def record (p : Participant) (kind : CallKind) (failure : Option KeyError) : Participant :=
  if p.recordsCalls then { p with calls := ⟨kind, failure⟩ :: p.calls } else p

end Participant

/-- What can be seen of a participant. -/
structure View where
  state : WatchState
  version : Int
  /-- For each cached key set the active version and all versions. -/
  keySets : List (String × Option KeyId × List KeyId)
  calls : List CallRecord

def Participant.view (p : Participant) : View where
  state := p.shown
  version := p.cache.resourceVersion
  keySets := p.cache.keySets.entries.map fun e =>
    (e.1, p.cache.activeId? e.1, e.2.keys.map Key.id)
  calls := p.calls.reverse

end Keyring.Rehearsal
