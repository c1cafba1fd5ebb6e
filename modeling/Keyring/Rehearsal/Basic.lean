import Keyring.Rehearsal.Participant
/-!
# Rehearsals

Participants that share stores, under a clock that moves only when everything waits for it. A
rehearsal is a value, so it runs the same way each time. Acts change it step by step.
-/
namespace Keyring

/-- Participants, their stores, and what has been kept of earlier acts. -/
structure Rehearsal where
  /-- Milliseconds since the start. -/
  clock : Nat
  /-- The time of day that new keys carry. -/
  timestamp : Timestamp
  storage : Rehearsal.Storage
  /-- The directory in which files are put and looked at. -/
  directory : String
  /-- The stores that can be used without a participant. -/
  openStores : List Nat
  participants : List Rehearsal.Participant
  nextAlarm : Nat
  /-- Watches without a participant; none where one was dropped. -/
  watches : List (Option Rehearsal.Subscription)
  /-- Key sets by participant and name. -/
  handles : List (Nat × String)
  /-- Sealed envelopes. -/
  sealedBytes : List Bytes

/-- Something that happens in a rehearsal. -/
abbrev Act := StateM Rehearsal

namespace Rehearsal

/-- A rehearsal with one empty directory and without stores or participants. -/
def start (directory : String) (pool : Entropy) (timestamp : Timestamp) : Rehearsal where
  clock := 0
  timestamp := timestamp
  storage :=
    ⟨[], ⟨(FileTree.empty.createDirectories (.ofText directory)).1, pool⟩, .empty, 0⟩
  directory := directory
  openStores := []
  participants := []
  nextAlarm := 0
  watches := []
  handles := []
  sealedBytes := []

def onStorage {α : Type} (f : Storage → Storage × α) : Act α :=
  modifyGet fun r =>
    let (storage, a) := f r.storage
    (a, { r with storage })

/-- The participant of a number; there is an idle one behind each number that is not in use. -/
def participant (i : Nat) : Act Participant := do
  let r ← get
  return r.participants[i]?.getD (.start 0 Participant.defaultTarget .standard true)

def modifyParticipant (i : Nat) (f : Participant → Participant) : Act Unit :=
  modify fun r => { r with participants := r.participants.modify i f }

def modifyScript (i : Nat) (f : Script → Script) : Act Unit :=
  modifyParticipant i fun p => { p with script := f p.script }

/-! ## Calls of a participant to its store -/

/-- The failure of a result, if it is one. -/
def failure? {α : Type} : Except KeyError α → Option KeyError
  | .ok _ => none
  | .error failure => some failure

/-- Records a call and passes its result on. -/
def recorded {α : Type} (i : Nat) (kind : CallKind) (result : Except KeyError α) :
    Act (Except KeyError α) := do
  modifyParticipant i fun p => p.record kind (failure? result)
  return result

def callGet (i : Nat) : Act (Except KeyError (Option StoredObject)) := do
  let p ← participant i
  match p.script.gets with
  | scripted :: rest =>
    modifyScript i fun s => { s with gets := rest }
    recorded i .get scripted
  | [] =>
    let result ← onStorage fun s => s.get p.backend p.target
    recorded i .get result

def callList (i : Nat) : Act (Except KeyError ObjectList) := do
  let p ← participant i
  match p.script.lists with
  | scripted :: rest =>
    modifyScript i fun s => { s with lists := rest }
    recorded i .list scripted
  | [] =>
    let result ← onStorage fun s => s.list p.backend p.target
    recorded i .list result

def callWatch (i : Nat) (token : String) : Act (Except KeyError Subscription) := do
  let p ← participant i
  match p.script.watches with
  | scripted :: rest =>
    modifyScript i fun s => { s with watches := rest }
    recorded i (.watch token) (scripted.map fun (events, staysOpen) => .scripted events staysOpen)
  | [] =>
    let now := (← get).clock
    let result ← onStorage fun s => s.watch p.backend p.target token now
    recorded i (.watch token) result

def nextScripted (i : Nat) (isCreation : Bool) : Act (Option ScriptedWrite) := do
  let script := (← participant i).script
  if isCreation then
    modifyScript i fun s => { s with creates := s.creates.tail }
    return script.creates.head?
  else
    modifyScript i fun s => { s with updates := s.updates.tail }
    return script.updates.head?

def callStore (i : Nat) (isCreation : Bool) (object : StoredObject) :
    Act (Except KeyError StoredObject) := do
  let p ← participant i
  let kind := if isCreation then CallKind.create else .update
  let store : Act (Except KeyError StoredObject) :=
    onStorage fun s =>
      if isCreation then s.create p.backend object else s.update p.backend object
  match ← nextScripted i isCreation with
  | some (.answer result) => recorded i kind result
  | some (.race rival) =>
    modify fun r => { r with storage := r.storage.interfere p.backend object.objectName rival }
    recorded i kind (← store)
  | none => recorded i kind (← store)

end Rehearsal
end Keyring
