import Keyring.Rehearsal.Clock
/-!
# Writes in a rehearsal

Writes that were asked for together run side by side: each goes on until it waits for key material
or for the end of a pause. Writes that never have to wait let others run from time to time.
-/
namespace Keyring.Rehearsal

/-- A participant's write under way. -/
structure Writer where
  owner : Nat
  write : KeySetWrite
  /-- When its pause ends. -/
  wake : Option Nat

namespace Writer

def start (owner : Nat) (request : WriteRequest) : Writer := ⟨owner, .start request, none⟩

def goOn (w : Writer) (write : KeySetWrite) : Act Writer := do
  match write.phase with
  | .pausing (some delay) =>
    return { w with write, wake := some ((← get).clock + pauseMillis delay) }
  | _ => return { w with write, wake := none }

/-- Goes on with a write that left the participant's cache behind. -/
def goOnWith (w : Writer) (outcome : KeySetWrite × Cache) : Act Writer := do
  modifyParticipant w.owner fun p => { p with cache := outcome.2 }
  w.goOn outcome.1

/-- Does the write's next call to the store, if there is one to do. -/
def call (w : Writer) : Act Writer := do
  match w.write.phase with
  | .fetching =>
    let result ← callGet w.owner
    w.goOnWith (w.write.fetched (← participant w.owner).cache result)
  | .storing object id =>
    let result ← callStore w.owner (KeySetWrite.isCreation object) object
    w.goOnWith (w.write.stored id (← participant w.owner).cache result)
  | _ => return w

/-- Makes the key material that the write waits for, if it does. -/
def supply (w : Writer) : Act Writer := do
  match w.write.phase with
  | .generating fetched pending =>
    let bits := (← participant w.owner).options.rsaBits
    let keyType := w.write.request.keyType
    let material ← modifyGet fun r =>
      let disk := r.storage.disk
      let (key, pool) := Key.generate keyType .none bits r.timestamp disk.pool
      (key.map Key.record, { r with storage := { r.storage with disk := { disk with pool } } })
    w.goOn (w.write.generated fetched pending material)
  | _ => return w

def isGenerating (w : Writer) : Bool :=
  match w.write.phase with
  | .generating .. => true
  | _ => false

def resumeAt (now : Nat) (w : Writer) : Writer :=
  match w.wake with
  | some time => if time ≤ now then { w with write := w.write.resume, wake := none } else w
  | none => w

/-- How often a write can wait at most: for key material and for the end of each pause. -/
def maxWaits (w : Writer) : Nat := w.write.request.retry.maxRetries + 3

end Writer

/-- How often writes go on before others run. -/
def turnLimit : Nat := 32

/-- Waits until a time. If it has come already, others run once the writes have had their turns.
Gives the turns taken since others have run. -/
def waitUntil (time turns : Nat) : Act Nat := do
  let now := (← get).clock
  if now < time then
    wait (time - now)
    return 0
  else if turns < turnLimit then return turns
  else
    settle
    return 0

/-- Runs writes until all have ended. One whose pause cannot be computed breaks off. -/
def runWriters : (fuel turns : Nat) → List Writer → Act (List Writer)
  | 0, _, writers => return writers
  | fuel + 1, turns, writers => do
    let writers ← writers.mapM fun w => do (← w.call).call
    if writers.any Writer.isGenerating then
      runWriters fuel turns (← writers.mapM Writer.supply)
    else
      match (writers.filterMap Writer.wake).min? with
      | none => return writers
      | some time =>
        let turns ← waitUntil time (turns + writers.length)
        let now := (← get).clock
        runWriters fuel turns (writers.map (Writer.resumeAt now))

/-- Runs writes side by side, each of one participant, and gives their results; none for one that
broke off. -/
def writeAll (requests : List (Nat × WriteRequest)) :
    Act (List (Option (Except KeyError KeyId))) := do
  let writers := requests.map fun (i, request) => Writer.start i request
  let writers ← runWriters (writers.foldl (fun n w => n + w.maxWaits) 0) 0 writers
  return writers.map fun w => w.write.result?

def write (i : Nat) (name : KeySetName) (keyType : KeyType) (rotate : Bool) :
    Act (Option (Except KeyError KeyId)) := do
  let p ← participant i
  let results ← writeAll [(i, ⟨p.target, name, keyType, rotate, p.options.writeRetry⟩)]
  return results.head?.join

end Keyring.Rehearsal
