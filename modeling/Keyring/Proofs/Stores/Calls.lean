import Keyring.LocalStore
import Keyring.Proofs.MemoryStore.History

/-!
# Calls to a store

What any store can be asked for, and what stores in memory and in files reply. A write is planned
on what is there, so all writes to a file are one operation with different plans.
-/
namespace Keyring

/-- A call that may change an object. -/
inductive StoreWrite
  | create (object : StoredObject)
  | update (object : StoredObject)
  | delete (name : ObjectName)
  deriving DecidableEq, Repr

/-- What a store is asked for. -/
inductive StoreCall
  | get (name : ObjectName)
  | list (name : ObjectName)
  | write (write : StoreWrite)
  deriving DecidableEq, Repr

/-- What a store says to a call. -/
inductive StoreReply
  | found (result : Except KeyError (Option StoredObject))
  | listed (result : Except KeyError ObjectList)
  | written (result : Except KeyError StoredObject)
  | deleted (result : Except KeyError Unit)

namespace StoreWrite

def target : StoreWrite → ObjectName
  | create object | update object => object.objectName
  | delete name => name

/-- The file after a write, by what it said before. -/
def plan (w : StoreWrite) (existing : Option ObjectFile) : Except KeyError ObjectFile :=
  match w with
  | create object => ObjectFile.create existing object
  | update object => ObjectFile.update existing object
  | delete name => ObjectFile.delete existing name

/-- The reply to a write with that outcome. -/
def reply (w : StoreWrite) (outcome : Except KeyError ObjectFile) : StoreReply :=
  match w with
  | create object | update object => .written (outcome.map (LocalStore.written object))
  | delete _ => .deleted (outcome.map fun _ => ())

end StoreWrite

namespace StoreCall

def target : StoreCall → ObjectName
  | get name | list name => name
  | write w => w.target

def isWrite : StoreCall → Bool
  | get _ | list _ => false
  | write _ => true

/-- How many of the calls may change their objects. -/
def writes (calls : List StoreCall) : ℕ := calls.countP isWrite

theorem writes_cons (call : StoreCall) (rest : List StoreCall) :
    writes (call :: rest) = writes [call] + writes rest := by
  rw [writes, writes, writes, ← List.countP_append, List.singleton_append]

end StoreCall

namespace StoreReply

def objects : StoreReply → List StoredObject
  | found (.ok object) => object.toList
  | listed (.ok list) => list.items
  | written (.ok object) => [object]
  | _ => []

def withoutVersion : StoreReply → StoreReply
  | listed result => listed (result.map fun list => { list with resourceVersion := "" })
  | reply => reply

end StoreReply

def WatchEvent.object? : WatchEvent → Option StoredObject
  | added object | modified object | deleted object => some object
  | _ => none

@[simp] theorem Change.object?_event (c : Change) : c.event.object? = some c.object := by
  unfold event
  cases c.kind <;> rfl

theorem StoreWrite.objects_reply_error (w : StoreWrite) (failure : KeyError) :
    (w.reply (.error failure)).objects = [] := by
  cases w <;> rfl

/-- What calls lead to one after the other, and the replies to them. -/
def replies {σ : Type} (reply : σ → StoreCall → σ × StoreReply) (state : σ) :
    List StoreCall → σ × List StoreReply
  | [] => (state, [])
  | call :: rest =>
    let (next, answer) := reply state call
    let (last, answers) := replies reply next rest
    (last, answer :: answers)

/-- What holds before the calls and is kept by each of them holds after them. -/
theorem replies_induction {σ : Type} {reply : σ → StoreCall → σ × StoreReply}
    {P : ℕ → σ → Prop} {calls : List StoreCall} {state : σ}
    (hstep : ∀ call ∈ calls, ∀ left state, P (StoreCall.writes [call] + left) state →
      P left (reply state call).1)
    (h : P (StoreCall.writes calls) state) : P 0 (replies reply state calls).1 := by
  induction calls generalizing state with
  | nil => exact h
  | cons call rest ih =>
    rw [replies]
    apply ih fun other hother => hstep other (List.mem_cons_of_mem call hother)
    apply hstep call List.mem_cons_self
    rwa [← StoreCall.writes_cons]

/-! ## Stores in memory -/

namespace MemoryStore

def write (m : MemoryStore) : StoreWrite → MemoryStore × StoreReply
  | .create object => ((m.create object).1, .written (m.create object).2)
  | .update object => ((m.update object).1, .written (m.update object).2)
  | .delete name => ((m.delete name).1, .deleted (m.delete name).2)

/-- What a store in memory does with a call. -/
def reply (m : MemoryStore) : StoreCall → MemoryStore × StoreReply
  | .get name => ((m.get name).1, .found (m.get name).2)
  | .list name => ((m.list name).1, .listed (m.list name).2)
  | .write w => m.write w

/-- What a write does. -/
theorem write_cases {m : MemoryStore} (hm : m.Consistent) (w : StoreWrite) :
    (m.write w).1 = m ∨ ∃ c, c.target = w.target ∧ m.Wrote (m.write w).1 c := by
  cases w with
  | create object =>
    rcases m.create_cases object with ⟨current, -, hfailed⟩ | ⟨-, hwrote, -⟩
    · exact Or.inl (congrArg Prod.fst hfailed)
    · exact Or.inr ⟨_, rfl, hwrote⟩
  | update object =>
    rcases m.update_cases object with ⟨failure, hfailed⟩ | ⟨current, -, -, hwrote, -⟩
    · exact Or.inl (congrArg Prod.fst hfailed)
    · exact Or.inr ⟨_, rfl, hwrote⟩
  | delete name =>
    rcases m.delete_cases hm name with ⟨failure, hfailed⟩ | ⟨object, -, hname, hwrote⟩
    · exact Or.inl (congrArg Prod.fst hfailed)
    · exact Or.inr ⟨⟨.deleted, m.stamp object, m.version + 1⟩, hname, hwrote⟩

/-- Writes use up no failures that are planned for reads. -/
theorem failing_write (m : MemoryStore) (w : StoreWrite) :
    (m.write w).1.failingGets = m.failingGets ∧ (m.write w).1.failingLists = m.failingLists := by
  cases w with
  | create object =>
    rw [write, create]
    split <;> exact ⟨rfl, rfl⟩
  | update object =>
    rw [write, update]
    split
    · exact ⟨rfl, rfl⟩
    · split <;> exact ⟨rfl, rfl⟩
  | delete name =>
    rw [write, delete]
    split <;> exact ⟨rfl, rfl⟩

end MemoryStore

/-! ## Stores in files -/

namespace LocalStore

def write (s : LocalStore) (disk : Disk) : StoreWrite → Disk × StoreReply
  | .create object => ((s.create disk object).1, .written (s.create disk object).2)
  | .update object => ((s.update disk object).1, .written (s.update disk object).2)
  | .delete name => ((s.delete disk name).1, .deleted (s.delete disk name).2)

/-- What a store in files does with a call. -/
def reply (s : LocalStore) (disk : Disk) : StoreCall → Disk × StoreReply
  | .get name => (disk, .found (s.get disk name))
  | .list name => (disk, .listed (s.list disk name))
  | .write w => s.write disk w

/-- Every write is its plan, done. -/
theorem write_eq (s : LocalStore) (disk : Disk) (w : StoreWrite) :
    s.write disk w =
      ((s.change disk w.target w.plan).1, w.reply (s.change disk w.target w.plan).2) := by
  cases w with
  | create object =>
    have hplan : (StoreWrite.create object).plan =
        fun existing => ObjectFile.create existing object := rfl
    rw [write, create, hplan]
    rfl
  | update object =>
    have hplan : (StoreWrite.update object).plan =
        fun existing => ObjectFile.update existing object := rfl
    rw [write, update, hplan]
    rfl
  | delete name =>
    have hplan : (StoreWrite.delete name).plan =
        fun existing => ObjectFile.delete existing name := rfl
    rw [write, delete, hplan]
    rfl

end LocalStore
end Keyring
