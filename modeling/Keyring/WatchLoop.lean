import Keyring.Cache
import Keyring.Retry
/-!
# Watch loops

A watch loop keeps a cache current: it lists the object, opens a watch from the version of the list,
and takes the events. Whatever fails, it backs off and starts again from the list. The pause grows
with the failures in a row; an attempt that got to watch starts the count afresh. If a policy gives
no pause, the loop breaks off. The loop is a machine that is told the outcomes of its calls and the
events one by one.
-/
namespace Keyring

/-- What a loop shows of its phase. -/
inductive WatchState
  | idle
  | listing
  | watching
  | backoff
  | stopped
  deriving DecidableEq, Repr

def WatchState.name : WatchState → String
  | .idle => "Idle"
  | .listing => "Listing"
  | .watching => "Watching"
  | .backoff => "Backoff"
  | .stopped => "Stopped"

/-- What a loop waits for. -/
inductive LoopPhase
  | listing
  /-- The watch that starts at the version of a list. -/
  | opening (token : String)
  | watching
  /-- The end of a pause. -/
  | backoff (delay : Duration)
  | stopped
  /-- Nothing more: there was no pause to make. It goes on to show what it did before. -/
  | broken (last : WatchState)
  deriving DecidableEq, Repr

structure WatchLoop where
  target : ObjectName
  backoff : RetryPolicy
  phase : LoopPhase
  /-- The failures in a row. -/
  failures : Nat

namespace WatchLoop

def start (target : ObjectName) (backoff : RetryPolicy) : WatchLoop :=
  ⟨target, backoff, .listing, 0⟩

/-- What a loop shows of its phase. -/
def state (l : WatchLoop) : WatchState :=
  match l.phase with
  | .listing => .listing
  | .opening _ => .listing
  | .watching => .watching
  | .backoff _ => .backoff
  | .stopped => .stopped
  | .broken last => last

def isOver (l : WatchLoop) : Bool :=
  match l.phase with
  | .stopped | .broken _ => true
  | _ => false

/-- The largest count of failures; more count as that many. -/
def maxFailures : Nat := 4294967295

def nextFailures (l : WatchLoop) : Nat :=
  if l.phase = .watching then 1 else min (l.failures + 1) maxFailures

/-- Backs off, if there is a pause to make. -/
def fail (l : WatchLoop) : WatchLoop :=
  match l.backoff.delay? l.nextFailures with
  | some delay => { l with phase := .backoff delay, failures := l.nextFailures }
  | none => { l with phase := .broken l.state, failures := l.nextFailures }

/-- Whether an object is the one that the loop is about. -/
def isOwn (l : WatchLoop) (object : StoredObject) : Bool := object.objectName == l.target

/-- Goes on with a list. Without the object in it, the key sets of the cache are gone. -/
def listed (l : WatchLoop) (cache : Cache) : Except KeyError ObjectList → WatchLoop × Cache
  | .error _ => (l.fail, cache)
  | .ok list =>
    let own := list.items.filter l.isOwn
    let cache :=
      if own.isEmpty then (cache.delete list.resourceVersion).1
      else own.foldl (fun c object => (c.update object).1) cache
    ({ l with phase := .opening list.resourceVersion }, cache)

/-- Goes on once the watch is open, or has failed to open. -/
def opened (l : WatchLoop) : Except KeyError Unit → WatchLoop
  | .error _ => l.fail
  | .ok () => { l with phase := .watching }

def receive (l : WatchLoop) (cache : Cache) : WatchEvent → WatchLoop × Cache
  | .added object | .modified object =>
    if l.isOwn object then (l, (cache.update object).1) else (l.fail, cache)
  | .deleted object =>
    if l.isOwn object then (l, (cache.delete object.resourceVersion).1) else (l.fail, cache)
  | .bookmark _ => (l, cache)
  | .error _ => (l.fail, cache)

/-- Takes events for as long as the loop watches. -/
def receiveAll (l : WatchLoop) (cache : Cache) : List WatchEvent → WatchLoop × Cache
  | [] => (l, cache)
  | event :: rest =>
    if l.phase = .watching then
      let (l, cache) := l.receive cache event
      l.receiveAll cache rest
    else (l, cache)

def resume (l : WatchLoop) : WatchLoop := { l with phase := .listing }

def cancel (l : WatchLoop) : WatchLoop := { l with phase := .stopped }

/-! ## What a step leaves behind -/

/-- After a failure the loop watches no more. -/
theorem phase_fail_ne (l : WatchLoop) : l.fail.phase ≠ .watching := by
  unfold fail
  split <;> simp

/-- A failure changes neither the object nor the policy of a loop. -/
@[simp] theorem fixed_fail (l : WatchLoop) :
    l.fail.target = l.target ∧ l.fail.backoff = l.backoff := by
  unfold fail
  split <;> exact ⟨rfl, rfl⟩

@[simp] theorem fixed_listed (l : WatchLoop) (cache : Cache)
    (result : Except KeyError ObjectList) :
    (l.listed cache result).1.target = l.target ∧
      (l.listed cache result).1.backoff = l.backoff := by
  cases result with
  | error failure => exact l.fixed_fail
  | ok list => exact ⟨rfl, rfl⟩

@[simp] theorem fixed_opened (l : WatchLoop) (result : Except KeyError Unit) :
    (l.opened result).target = l.target ∧ (l.opened result).backoff = l.backoff := by
  cases result with
  | error failure => exact l.fixed_fail
  | ok => exact ⟨rfl, rfl⟩

@[simp] theorem fixed_receive (l : WatchLoop) (cache : Cache) (event : WatchEvent) :
    (l.receive cache event).1.target = l.target ∧
      (l.receive cache event).1.backoff = l.backoff := by
  unfold receive
  split
  case h_1 | h_2 | h_3 =>
    split
    · exact ⟨rfl, rfl⟩
    · exact l.fixed_fail
  case h_4 => exact ⟨rfl, rfl⟩
  case h_5 => exact l.fixed_fail

/-- Pauses are counted from one. -/
theorem nextFailures_pos (l : WatchLoop) : 0 < l.nextFailures := by
  unfold nextFailures maxFailures
  split <;> omega

/-- A list does not take the cache back. -/
theorem resourceVersion_le_listed (l : WatchLoop) (cache : Cache)
    (result : Except KeyError ObjectList) :
    cache.resourceVersion ≤ (l.listed cache result).2.resourceVersion := by
  have updates : ∀ (objects : List StoredObject) (c : Cache),
      c.resourceVersion ≤
        (objects.foldl (fun c object => (c.update object).1) c).resourceVersion := by
    intro objects
    induction objects with
    | nil => exact fun c => Int.le_refl _
    | cons object rest ih =>
      exact fun c => Int.le_trans (c.resourceVersion_le_update object) (ih _)
  unfold listed
  split
  next => exact Int.le_refl _
  next =>
    dsimp only
    split
    next => exact cache.resourceVersion_le_delete _
    next => exact updates _ _

/-- An event does not take the cache back. -/
theorem resourceVersion_le_receive (l : WatchLoop) (cache : Cache) (event : WatchEvent) :
    cache.resourceVersion ≤ (l.receive cache event).2.resourceVersion := by
  unfold receive
  split
  case h_1 | h_2 =>
    split
    · exact cache.resourceVersion_le_update _
    · exact Int.le_refl _
  case h_3 =>
    split
    · exact cache.resourceVersion_le_delete _
    · exact Int.le_refl _
  all_goals exact Int.le_refl _

/-- A loop that has failed takes nothing more of the same watch. -/
theorem receiveAll_of_not_watching (l : WatchLoop) (cache : Cache) (events : List WatchEvent)
    (h : l.phase ≠ .watching) : l.receiveAll cache events = (l, cache) := by
  cases events with
  | nil => rfl
  | cons event rest => simp [receiveAll, h]

end WatchLoop
end Keyring
