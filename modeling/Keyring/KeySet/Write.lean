import Keyring.Cache
import Keyring.KeySet.Plan
import Keyring.Retry
/-!
# Writes to a key set

A write fetches the object, plans on what it finds, and stores the object with one more version. If
another writer was faster it pauses and starts again from the fetch, as often as the policy allows.
Key material is made at most once and serves all attempts. The write is a machine that is told the
outcomes of its calls one by one, so between two of them anything may happen to the store.
-/
namespace Keyring

structure WriteRequest where
  target : ObjectName
  name : KeySetName
  keyType : KeyType
  /-- Asks for a new version also if there is an active one. -/
  rotate : Bool
  retry : RetryPolicy

/-- What a write waits for. -/
inductive WritePhase
  /-- The object, as it is stored. -/
  | fetching
  /-- Key material. -/
  | generating (fetched : StoredObject) (pending : PendingVersion)
  /-- The outcome of storing the object, which is created if it was never written. -/
  | storing (object : StoredObject) (id : KeyId)
  /-- The end of a pause. Without one that can be computed, the write has broken off. -/
  | pausing (delay : Option Duration)
  | finished (result : Except KeyError KeyId)

/-- A write under way. -/
structure KeySetWrite where
  request : WriteRequest
  /-- The retries so far. -/
  retries : Nat
  /-- The key material, once it is made. -/
  material : Option KeyRecord
  phase : WritePhase

namespace KeySetWrite

def start (request : WriteRequest) : KeySetWrite := ⟨request, 0, none, .fetching⟩

/-- Ends an attempt that failed: the write pauses for another one or gives up. -/
def fail (w : KeySetWrite) (failure : KeyError) : KeySetWrite :=
  if failure.isWriteConflict ∧ w.retries < w.request.retry.maxRetries then
    { w with
      retries := w.retries + 1
      phase := .pausing (w.request.retry.delay? (w.retries + 1)) }
  else { w with phase := .finished (.error failure) }

/-- Adds the version with the material to the object that was fetched. -/
def prepare (w : KeySetWrite) (fetched : StoredObject) (pending : PendingVersion)
    (material : KeyRecord) : KeySetWrite :=
  match pending.finish material with
  | .error failure => w.fail failure
  | .ok bytes =>
    { w with
      phase := .storing { fetched with data := fetched.data.insert w.request.name.field bytes }
        pending.id }

/-- Goes on with what the store answered to the fetch. -/
def fetched (w : KeySetWrite) (cache : Cache) :
    Except KeyError (Option StoredObject) → KeySetWrite × Cache
  | .error failure => (w.fail failure, cache)
  | .ok found =>
    let object := found.getD (.fresh w.request.target)
    match KeySetPlan.make w.request.name (object.data.get? w.request.name.field)
        w.request.keyType w.request.rotate with
    | .error failure => (w.fail failure, cache)
    | .ok (.unchanged id) => ({ w with phase := .finished (.ok id) }, (cache.update object).1)
    | .ok (.needsVersion pending) =>
      match w.material with
      | some material => (w.prepare object pending material, cache)
      | none => ({ w with phase := .generating object pending }, cache)

/-- Goes on with new key material. -/
def generated (w : KeySetWrite) (fetched : StoredObject) (pending : PendingVersion) :
    Except KeyError KeyRecord → KeySetWrite
  | .error failure => w.fail failure
  | .ok material => { w with material := some material }.prepare fetched pending material

/-- Goes on with what the store answered to the write. -/
def stored (w : KeySetWrite) (id : KeyId) (cache : Cache) :
    Except KeyError StoredObject → KeySetWrite × Cache
  | .error failure => (w.fail failure, cache)
  | .ok written => ({ w with phase := .finished (.ok id) }, (cache.update written).1)

def resume (w : KeySetWrite) : KeySetWrite := { w with phase := .fetching }

/-- Whether the object to be stored is to be created. -/
def isCreation (object : StoredObject) : Bool := object.resourceVersion == ""

def result? (w : KeySetWrite) : Option (Except KeyError KeyId) :=
  match w.phase with
  | .finished result => some result
  | _ => none

/-! ## What a step leaves behind -/

@[simp] theorem request_fail (w : KeySetWrite) (failure : KeyError) :
    (w.fail failure).request = w.request := by
  unfold fail
  split <;> rfl

/-- Only a faster writer makes a write start again. -/
theorem result?_fail_of_not_conflict (w : KeySetWrite) (failure : KeyError)
    (h : failure.isWriteConflict = false) : (w.fail failure).result? = some (.error failure) := by
  simp [fail, h, result?]

end KeySetWrite

/-- How a failed write shows where a key set was asked for. -/
def KeySetName.creationFailed (name : KeySetName) (failure : KeyError) : KeyError :=
  .creationFailed name.text failure

end Keyring
