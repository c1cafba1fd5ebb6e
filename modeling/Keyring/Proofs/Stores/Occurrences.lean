import Keyring.Proofs.Runs
import Keyring.Proofs.Stores.Calls

/-!
# What is seen of a store

A run of a store leaves a log: the writes that were done, the objects that replies have shown, and
what watchers were told. In the log of a store that can be relied upon, the writes to each object
have growing numbers, each write is stamped with its number, and every object that is seen is what
some write stored. Then a name and a token tell which object was seen.
-/
namespace Keyring

/-- Something that is seen of a store. -/
inductive Occurrence
  /-- A write was done. -/
  | wrote (change : Change)
  /-- An object was shown in reply to a call about that name. -/
  | shown (name : ObjectName) (object : StoredObject)
  /-- A watcher got an event, or learned that there will be none any more. -/
  | told (watch : ℕ) (event : Option WatchEvent)
  deriving DecidableEq, Repr

/-! ## Writes as changes -/

def StoreWrite.kind : StoreWrite → ChangeKind
  | create _ => .added
  | update _ => .modified
  | delete _ => .deleted

/-- The change that a write made, by the object before, the number of the write and the reply. -/
def StoreWrite.change? (w : StoreWrite) (before : Option StoredObject) (number : ℕ) :
    StoreReply → Option Change
  | .written (.ok object) => some ⟨w.kind, object, number⟩
  | .deleted (.ok ()) =>
    let last := before.getD (.fresh w.target)
    some ⟨w.kind, { last with resourceVersion := Decimal.ofNat number }, number⟩
  | _ => none

def StoreCall.change? (call : StoreCall) (before : Option StoredObject) (number : ℕ)
    (reply : StoreReply) : Option Change :=
  match call with
  | .write w => w.change? before number reply
  | _ => none

namespace Occurrence

def ofCall (call : StoreCall) (change : Option Change) (reply : StoreReply) : List Occurrence :=
  (change.map wrote).toList ++ reply.objects.map (shown call.target)

/-- What is seen of a watcher who takes events, and may learn that there will be no more. -/
def ofTaken (watch : ℕ) (taken : List WatchEvent) (ended : Bool) : List Occurrence :=
  taken.map (fun event => told watch (some event)) ++ if ended then [told watch none] else []

/-! ## Reading a log -/

def change? : Occurrence → Option Change
  | wrote change => some change
  | _ => none

def object? : Occurrence → Option StoredObject
  | wrote _ => none
  | shown _ object => some object
  | told _ event => event.bind WatchEvent.object?

def event? (watch : ℕ) : Occurrence → Option WatchEvent
  | told other event => if other = watch then event else none
  | _ => none

def writes (log : List Occurrence) : List Change := log.filterMap change?

def seen (log : List Occurrence) : List StoredObject := log.filterMap object?

def events (watch : ℕ) (log : List Occurrence) : List WatchEvent := log.filterMap (event? watch)

def writesTo (name : ObjectName) (log : List Occurrence) : List Change :=
  (writes log).filter fun c => c.target == name

def lastWrite? (name : ObjectName) (log : List Occurrence) : Option Change :=
  (writesTo name log).getLast?

section Views

variable {log later : List Occurrence} {name : ObjectName} {watch : ℕ}

@[simp] theorem writes_nil : writes [] = [] := rfl

@[simp] theorem seen_nil : seen [] = [] := rfl

@[simp] theorem events_nil : events watch [] = [] := rfl

@[simp] theorem writes_append : writes (log ++ later) = writes log ++ writes later :=
  List.filterMap_append

@[simp] theorem seen_append : seen (log ++ later) = seen log ++ seen later :=
  List.filterMap_append

@[simp] theorem events_append :
    events watch (log ++ later) = events watch log ++ events watch later :=
  List.filterMap_append

@[simp] theorem writesTo_nil : writesTo name [] = [] := rfl

@[simp] theorem writesTo_append :
    writesTo name (log ++ later) = writesTo name log ++ writesTo name later := by
  rw [writesTo, writes_append, List.filter_append, writesTo, writesTo]

theorem mem_writesTo {c : Change} : c ∈ writesTo name log ↔ c ∈ writes log ∧ c.target = name := by
  simp [writesTo]

theorem mem_of_lastWrite? {c : Change} (h : lastWrite? name log = some c) :
    c ∈ writes log ∧ c.target = name :=
  mem_writesTo.1 (List.mem_of_getLast? h)

/-- An object that is seen was shown in a reply or told in an event. -/
theorem mem_seen {object : StoredObject} (h : object ∈ seen log) :
    (∃ name, shown name object ∈ log) ∨
      ∃ watch, ∃ event ∈ events watch log, event.object? = some object := by
  obtain ⟨occurrence, hmem, hobject⟩ := List.mem_filterMap.1 h
  cases occurrence with
  | wrote change => cases hobject
  | shown name other => exact Or.inl ⟨name, Option.some.inj hobject ▸ hmem⟩
  | told watch event =>
    obtain ⟨event, rfl, hevent⟩ := Option.bind_eq_some_iff.1 hobject
    refine Or.inr ⟨watch, event, List.mem_filterMap.2 ⟨_, hmem, ?_⟩, hevent⟩
    rw [event?, if_pos rfl]

/-- Without a write to an object its last write stays. -/
theorem lastWrite?_append_of_nil (h : writesTo name later = []) :
    lastWrite? name (log ++ later) = lastWrite? name log := by
  rw [lastWrite?, writesTo_append, h, List.append_nil, lastWrite?]

theorem lastWrite?_append_of_singleton {c : Change} (h : writesTo name later = [c]) :
    lastWrite? name (log ++ later) = some c := by
  rw [lastWrite?, writesTo_append, h, List.getLast?_concat]

end Views

section Calls

variable (call : StoreCall) (change : Option Change) (reply : StoreReply)

@[simp] theorem writes_ofCall : writes (ofCall call change reply) = change.toList := by
  have hshown : (reply.objects.map (shown call.target)).filterMap change? = [] := by
    simp [change?]
  rw [writes, ofCall, List.filterMap_append, hshown, List.append_nil]
  cases change <;> rfl

@[simp] theorem seen_ofCall : seen (ofCall call change reply) = reply.objects := by
  have hwrote : (change.map wrote).toList.filterMap object? = [] := by
    cases change <;> rfl
  rw [seen, ofCall, List.filterMap_append, hwrote, List.nil_append, List.filterMap_map]
  exact List.filterMap_some

@[simp] theorem events_ofCall (watch : ℕ) : events watch (ofCall call change reply) = [] := by
  rw [events, ofCall, List.filterMap_append]
  cases change <;> simp [event?]

end Calls

theorem shown_mem_ofCall {call : StoreCall} {change : Option Change} {reply : StoreReply}
    {name : ObjectName} {object : StoredObject} (h : shown name object ∈ ofCall call change reply) :
    name = call.target ∧ object ∈ reply.objects := by
  rw [ofCall, List.mem_append] at h
  rcases h with hwrote | hshown
  · cases change <;> simp at hwrote
  · obtain ⟨other, hother, heq⟩ := List.mem_map.1 hshown
    obtain ⟨rfl, rfl⟩ := shown.inj heq
    exact ⟨rfl, hother⟩

section Taken

variable (watch : ℕ) (taken : List WatchEvent) (ended : Bool)

@[simp] theorem writes_ofTaken : writes (ofTaken watch taken ended) = [] := by
  cases ended <;> simp [writes, ofTaken, change?]

@[simp] theorem seen_ofTaken :
    seen (ofTaken watch taken ended) = taken.filterMap WatchEvent.object? := by
  cases ended <;> simp [seen, ofTaken, object?, Function.comp_def]

@[simp] theorem events_ofTaken_self : events watch (ofTaken watch taken ended) = taken := by
  cases ended <;> simp [events, ofTaken, event?, Function.comp_def]

theorem events_ofTaken_of_ne {other : ℕ} (h : watch ≠ other) :
    events other (ofTaken watch taken ended) = [] := by
  cases ended <;> simp [events, ofTaken, event?, h]

theorem shown_not_mem_ofTaken {name : ObjectName} {object : StoredObject} :
    shown name object ∉ ofTaken watch taken ended := by
  cases ended <;> simp [ofTaken]

theorem told_none_mem_ofTaken {other : ℕ} (h : told other none ∈ ofTaken watch taken ended) :
    watch = other ∧ ended = true := by
  cases ended <;> simp_all [ofTaken]

end Taken

/-! ## Logs that can be relied upon -/

/-- A log in which a write is told by its object and its number. -/
structure Faithful (log : List Occurrence) : Prop where
  increasing : ∀ name, (writesTo name log).Pairwise fun a b => a.version < b.version
  stamped : ∀ c ∈ writes log, c.object.resourceVersion = Decimal.ofNat c.version
  stored : ∀ object ∈ seen log, ∃ c ∈ writes log, c.object = object

namespace Faithful

variable {log : List Occurrence}

theorem nil : Faithful [] := by
  refine ⟨fun name => .nil, fun c hc => ?_, fun object hobject => ?_⟩
  · cases hc
  · cases hobject

/-- A log that goes on with a write of a greater number, or without a write. -/
theorem append (h : Faithful log) {later : List Occurrence} (change : Option Change)
    (hwrites : writes later = change.toList)
    (hgreater : ∀ c, change = some c → ∀ d ∈ writesTo c.target log, d.version < c.version)
    (hstamped : ∀ c, change = some c → c.object.resourceVersion = Decimal.ofNat c.version)
    (hstored : ∀ object ∈ seen later, ∃ c ∈ writes (log ++ later), c.object = object) :
    Faithful (log ++ later) := by
  refine ⟨fun name => ?_, fun c hc => ?_, fun object hobject => ?_⟩
  · rw [writesTo_append, List.pairwise_append]
    have hlater : writesTo name later = change.toList.filter fun c => c.target == name := by
      rw [writesTo, hwrites]
    refine ⟨h.increasing name, ?_, ?_⟩
    · rw [hlater]
      cases change with
      | none => exact .nil
      | some c => exact (List.pairwise_singleton _ c).filter _
    · intro d hd c hc
      rw [hlater, List.mem_filter, Option.mem_toList, beq_iff_eq] at hc
      exact hgreater c hc.1 d (hc.2 ▸ hd)
  · rw [writes_append, List.mem_append, hwrites, Option.mem_toList] at hc
    rcases hc with hearlier | hnew
    · exact h.stamped c hearlier
    · exact hstamped c hnew
  · rw [seen_append, List.mem_append] at hobject
    rcases hobject with hearlier | hnew
    · obtain ⟨c, hc, hco⟩ := h.stored object hearlier
      exact ⟨c, by rw [writes_append]; exact List.mem_append_left _ hc, hco⟩
    · exact hstored object hnew

/-- Two writes to one object do not have the same number. -/
theorem eq_of_version (h : Faithful log) {c d : Change} (hc : c ∈ writes log) (hd : d ∈ writes log)
    (htarget : c.target = d.target) (hversion : c.version = d.version) : c = d := by
  have hnodup : ((writesTo d.target log).map Change.version).Nodup := by
    rw [List.Nodup, List.pairwise_map]
    exact (h.increasing d.target).imp Nat.ne_of_lt
  exact List.inj_on_of_nodup_map hnodup (mem_writesTo.2 ⟨hc, htarget⟩) (mem_writesTo.2 ⟨hd, rfl⟩)
    hversion

theorem eq_of_token (h : Faithful log) {c d : Change} (hc : c ∈ writes log) (hd : d ∈ writes log)
    (htarget : c.target = d.target) (htoken : c.object.resourceVersion = d.object.resourceVersion) :
    c = d := by
  rw [h.stamped c hc, h.stamped d hd] at htoken
  exact h.eq_of_version hc hd htarget (Decimal.ofNat_injective htoken)

/-- An object that is seen twice with one token is the same both times. -/
theorem seen_unique (h : Faithful log) {object other : StoredObject} (hobject : object ∈ seen log)
    (hother : other ∈ seen log) (hname : object.objectName = other.objectName)
    (htoken : object.resourceVersion = other.resourceVersion) : object = other := by
  obtain ⟨c, hc, rfl⟩ := h.stored object hobject
  obtain ⟨d, hd, rfl⟩ := h.stored other hother
  rw [h.eq_of_token hc hd hname htoken]

/-- The last write to an object has the greatest number. -/
theorem version_le_last (h : Faithful log) {c last : Change} (hc : c ∈ writes log)
    (hlast : lastWrite? c.target log = some last) : c.version ≤ last.version := by
  obtain ⟨earlier, hsplit⟩ := List.getLast?_eq_some_iff.1 hlast
  have hincreasing := h.increasing c.target
  have hmem : c ∈ earlier ++ [last] := hsplit ▸ mem_writesTo.2 ⟨hc, rfl⟩
  rw [hsplit, List.pairwise_append] at hincreasing
  rcases List.mem_append.1 hmem with hearlier | hhere
  · exact Nat.le_of_lt (hincreasing.2.2 c hearlier last (List.mem_singleton.2 rfl))
  · exact Nat.le_of_eq (congrArg Change.version (List.mem_singleton.1 hhere))

end Faithful

/-! ## Runs with their logs -/

variable {σ α : Type}

/-- Steps one after the other, with the log that they leave. -/
abbrev run? (step? : σ → α → Option (σ × List Occurrence)) (state : σ) (acts : List α) :
    Option (σ × List Occurrence) :=
  runLogged? step? state acts

end Occurrence
end Keyring
