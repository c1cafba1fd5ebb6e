import Keyring.Proofs.Fleet.Writing

/-!
# No rotation is lost

Processes that share an object from its first write on, with no other program writing to it, only
ever append to ledgers: in every state that they can reach, whatever the order of their steps, each
field of the object is the ledger of a key set, and each write that succeeds puts one record behind
those of one field. A rotation that succeeds tells the number of the record that it has appended.
-/
namespace Keyring

open KeySetData (Ledger ofStored?)

/-- The field of a set is the ledger of those records, or it is missing and there are none. -/
def LedgerAt (fields : SortedMap String Bytes) (name : KeySetName) (records : List KeyRecord) :
    Prop :=
  ∃ data, ofStored? (fields.get? name.field) = some data ∧ data.Ledger records ∧
    (records = [] → fields.get? name.field = none)

/-- The fields of an object, each of which is the ledger of a key set. -/
structure Ledgers (fields : SortedMap String Bytes) : Prop where
  named : ∀ field bytes, fields.get? field = some bytes → ∃ name : KeySetName, field = name.field
  ledger : ∀ name : KeySetName, ∃ records, LedgerAt fields name records

/-- The fields of an object before and after a record was put behind those of a set. -/
structure Appends (before after : SortedMap String Bytes) (name : KeySetName)
    (records : List KeyRecord) (record : KeyRecord) : Prop where
  old : LedgerAt before name records
  new : LedgerAt after name (records ++ [record])
  others : ∃ bytes, after = before.insert name.field bytes

variable {fields before after : SortedMap String Bytes} {name other : KeySetName}
  {records records' : List KeyRecord} {record : KeyRecord}

theorem KeySetName.field_injective (h : name.field = other.field) : name = other := by
  have hname := ofField?_field name
  rw [h, ofField?_field, Option.some.injEq] at hname
  exact hname.symm

namespace LedgerAt

/-- A field is the ledger of one list of records. -/
theorem unique (h : LedgerAt fields name records) (h' : LedgerAt fields name records') :
    records = records' := by
  obtain ⟨data, hstored, hledger, -⟩ := h
  obtain ⟨data', hstored', hledger', -⟩ := h'
  rw [hstored, Option.some.injEq] at hstored'
  exact hledger.unique (hstored' ▸ hledger')

/-- The ledger of a field that is there has records. -/
theorem ne_nil (h : LedgerAt fields name records) {bytes : Bytes}
    (hbytes : fields.get? name.field = some bytes) : records ≠ [] := by
  obtain ⟨data, -, -, hnone⟩ := h
  intro hnil
  rw [hnone hnil] at hbytes
  cases hbytes

end LedgerAt

namespace Appends

/-- The number of the record is the number of records after it. -/
theorem id_eq (h : Appends before after name records record) :
    record.id.val = records.length + 1 := by
  obtain ⟨data, -, hledger, -⟩ := h.new
  exact (KeySetData.numbered_append.1 hledger.numbered).2

/-- Ledgers of other sets stay as they are. -/
theorem ledgerAt_of_ne (h : Appends before after name records record) (hne : other ≠ name)
    (hother : LedgerAt before other records') : LedgerAt after other records' := by
  obtain ⟨bytes, rfl⟩ := h.others
  have hfield : other.field ≠ name.field := fun heq => hne (KeySetName.field_injective heq)
  unfold LedgerAt
  rw [SortedMap.get?_insert_of_ne before hfield]
  exact hother

/-- No ledger loses a record. -/
theorem prefix_ledgerAt (h : Appends before after name records record)
    (hother : LedgerAt before other records') :
    ∃ more, LedgerAt after other (records' ++ more) := by
  by_cases hname : other = name
  · subst hname
    rw [hother.unique h.old]
    exact ⟨[record], h.new⟩
  · exact ⟨[], by simpa using h.ledgerAt_of_ne hname hother⟩

end Appends

namespace Ledgers

theorem empty : Ledgers .empty := by
  constructor
  · intro field bytes hbytes
    cases hbytes
  · intro name
    exact ⟨[], .empty, rfl, KeySetData.ledger_empty, fun _ => rfl⟩

/-- Appending a record keeps the fields ledgers. -/
theorem append (h : Ledgers before) (happends : Appends before after name records record) :
    Ledgers after := by
  constructor
  · intro field bytes hbytes
    obtain ⟨new, rfl⟩ := happends.others
    by_cases hfield : field = name.field
    · exact ⟨name, hfield⟩
    · rw [SortedMap.get?_insert_of_ne before hfield] at hbytes
      exact h.named field bytes hbytes
  · intro other
    obtain ⟨records', hledger⟩ := h.ledger other
    obtain ⟨more, hafter⟩ := happends.prefix_ledgerAt hledger
    exact ⟨records' ++ more, hafter⟩

/-- A request that has set the field of its set has appended a record. -/
theorem appends_of_sets {s s' : MemoryStore} {r : WriteRequest} {id : KeyId}
    (h : Ledgers (s.fields r.target)) (hsets : r.Sets s s' id) :
    ∃ records record, Appends (s.fields r.target) (s'.fields r.target) r.name records record ∧
      record.id = id := by
  obtain ⟨pending, material, bytes, hplan, hfits, hfinish, rfl, hafter⟩ := hsets.planned
  obtain ⟨records, data, hstored, hledger, hnone⟩ := h.ledger r.name
  obtain ⟨data', hstored', hcases⟩ := KeySetPlan.make_ok_cases hplan
  rw [hstored, Option.some.injEq] at hstored'
  subst hstored'
  rcases hcases with ⟨-, -, hunchanged⟩ | ⟨id, hid, hactive, hneeds⟩
  · cases hunchanged
  · obtain rfl := KeySetPlan.needsVersion.inj hneeds
    have hkind : KeySetPlan.activeType? data = none ∨
        KeySetPlan.activeType? data = some r.keyType := by
      rcases hactive with hnone | ⟨-, hsome⟩
      · exact Or.inl hnone
      · exact Or.inr hsome
    obtain ⟨bytes', next, hfinish', hread, hnext⟩ :=
      hledger.finish hid hkind hfits.keyType hfits.loads
    rw [hfinish, Except.ok.injEq] at hfinish'
    subst hfinish'
    refine ⟨records, { material with id := id }, ⟨⟨data, hstored, hledger, hnone⟩,
      ⟨next, ?_, hnext, ?_⟩, bytes, hafter⟩, rfl⟩
    · rw [hafter, SortedMap.get?_insert_self]
      exact hread
    · intro hnil
      simp at hnil

end Ledgers

/-- The object that an action of another program writes to. -/
def Action.target? : Action → Option ObjectName
  | .store (.create object) | .store (.update object) => some object.objectName
  | .store (.delete name) => some name
  | _ => none

namespace Fleet

variable {members : ℕ → Member} {fleet next : Fleet} {target : ObjectName}

/-! ## Steps -/

/-- A fleet whose object is made of ledgers and whose writes hold only what they have planned. -/
structure Kept (fleet : Fleet) (members : ℕ → Member) (target : ObjectName) : Prop where
  sound : fleet.Sound members
  prepared : ∀ i c, fleet.call i = some c → c.Prepared fleet.store
  ledgers : Ledgers (fleet.store.fields target)

theorem prepared_step? {action : Action} (hsound : fleet.Sound members)
    (hprepared : ∀ i c, fleet.call i = some c → c.Prepared fleet.store)
    (h : fleet.step? members action = some next) :
    ∀ i c, next.call i = some c → c.Prepared next.store := by
  intro i c hc
  rcases call_of_step? h hc with hold | ⟨owner, errand, name, keyType, -, -, rfl⟩ |
    ⟨step, d, cache, -, hd, hstep⟩
  · intro w hw
    exact (hprepared i c hold w hw).later (step?_spec hsound h).2.leads
  · exact Call.prepared_start _ owner (members owner) _ errand name keyType
  · exact Call.step?_prepared hsound.store (hsound.calls i d hd) (hprepared i d hd) hstep

theorem store_step?_object? {s s' : MemoryStore} {step : StoreStep} (hs : s.Consistent)
    (hquiet : (Action.store step).target? ≠ some target) (h : s.step? step = some s') :
    s'.object? target = s.object? target := by
  cases step with
  | create object =>
    rw [← Option.some.inj h]
    rcases s.create_cases object with ⟨current, -, hfailed⟩ | ⟨-, hwrote, -⟩
    · rw [hfailed]
    · rw [hwrote.object?]
      exact if_neg fun htarget => hquiet (congrArg some htarget)
  | update object =>
    rw [← Option.some.inj h]
    rcases s.update_cases object with ⟨failure, hfailed⟩ | ⟨current, -, -, hwrote, -⟩
    · rw [hfailed]
    · rw [hwrote.object?]
      exact if_neg fun htarget => hquiet (congrArg some htarget)
  | delete name =>
    rw [← Option.some.inj h]
    rcases s.delete_cases hs name with ⟨failure, hfailed⟩ | ⟨object, -, hname, hwrote⟩
    · rw [hfailed]
    · rw [hwrote.object?]
      exact if_neg fun htarget => hquiet (congrArg some (hname.symm.trans htarget))
  | failGets count => exact Option.some.inj h ▸ rfl
  | failLists count => exact Option.some.inj h ▸ rfl
  | bookmark => exact Option.some.inj h ▸ rfl
  | closeWatches => exact Option.some.inj h ▸ rfl
  | forward feed step =>
    obtain ⟨f, -, hstep⟩ := Option.bind_eq_some_iff.1 h
    obtain ⟨f', -, rfl⟩ := Option.map_eq_some_iff.1 hstep
    rfl

/-- The call has just been told that its write to the object succeeded. -/
def Wrote (members : ℕ → Member) (target : ObjectName) (next : Fleet) (action : Action) : Prop :=
  ∃ i c object, action = .call i .ask ∧ next.call i = some c ∧ (members c.owner).target = target ∧
    c.answer = some (.written (.ok object))

theorem not_wrote {action : Action} (h : ∀ i, action ≠ .call i .ask) :
    ¬ Wrote members target next action := by
  rintro ⟨i, c, object, haction, -⟩
  exact h i haction

theorem Wrote.of_setCall {i : ℕ} {c : Call}
    (h : Wrote members target (fleet.setCall i c) (.call i .ask)) :
    (members c.owner).target = target ∧ ∃ object, c.answer = some (.written (.ok object)) := by
  obtain ⟨j, d, object, haction, hd, htarget, hanswer⟩ := h
  obtain ⟨rfl, -⟩ := Action.call.inj haction
  rcases call_setCall hd with ⟨-, rfl⟩ | ⟨hne, -⟩
  · exact ⟨htarget, object, hanswer⟩
  · exact absurd rfl hne

/-- A request leaves the object alone and does not succeed in writing to it, or it puts a record
behind those of a set. -/
theorem Kept.ask?_cases (hkept : fleet.Kept members target) {i : ℕ} {c : Call}
    (hc : fleet.call i = some c) {w : KeySetWrite} (hw : c.write = some w) {store : MemoryStore}
    {answer : StoreAnswer} (hask : Call.ask? w fleet.store = some (store, answer)) :
    (store.object? target = fleet.store.object? target ∧ ((members c.owner).target = target →
        ∀ object, answer ≠ .written (.ok object))) ∨
      ∃ object records record, w.phase = .storing object record.id ∧
        Appends (fleet.store.fields target) (store.fields target) w.request.name records
          record := by
  have hsound := (hkept.sound.calls i c hc).write w hw
  rcases Call.ask?_cases hkept.sound.store hsound (hkept.prepared i c hc w hw) hask with
    ⟨hsame, hunwritten⟩ | ⟨object, id, hphase, hsets⟩
  · exact Or.inl ⟨hsame target, fun _ => hunwritten⟩
  · by_cases htarget : w.request.target = target
    · subst htarget
      obtain ⟨records, record, happends, rfl⟩ := hkept.ledgers.appends_of_sets hsets
      exact Or.inr ⟨object, records, record, hphase, happends⟩
    · refine Or.inl ⟨hsets.others target (Ne.symm htarget), ?_⟩
      intro hmine
      exact absurd (hsound.request.trans hmine) htarget

/-- If no other program writes to the object, a step leaves it alone, or it is the request of a
write that puts a record behind those of its set. -/
theorem Kept.step?_cases (hkept : fleet.Kept members target) {action : Action}
    (hquiet : action.target? ≠ some target) (h : fleet.step? members action = some next) :
    (next.store.object? target = fleet.store.object? target ∧ ¬ Wrote members target next action) ∨
      ∃ i c w object records record, action = .call i .ask ∧ fleet.call i = some c ∧
        c.write = some w ∧ w.phase = .storing object record.id ∧
        Appends (fleet.store.fields target) (next.store.fields target) w.request.name records
          record := by
  rcases Fleet.step?_cases h with ⟨step, store, rfl, hstep, rfl⟩ |
    ⟨i, owner, errand, name, keyType, rfl, -, rfl⟩ |
    ⟨i, step, c, store, cache, c', rfl, hc, hstep, rfl⟩ | ⟨k, owner, rfl, -, rfl⟩ |
    ⟨k, step, w, store, cache, w', rfl, hw, hstep, rfl⟩
  · exact Or.inl ⟨store_step?_object? hkept.sound.store hquiet hstep, not_wrote (by simp)⟩
  · exact Or.inl ⟨rfl, not_wrote (by simp)⟩
  · rcases Call.step?_cases hstep with ⟨w, answer, rfl, hw, -, hask, rfl, rfl⟩ |
      ⟨-, -, -, rfl, -, -, -, rfl, -⟩ | ⟨_, _, hkind, -, rfl, -, -⟩ | ⟨-, -, rfl, -, -, rfl, -, -⟩
    · rcases hkept.ask?_cases hc hw hask with ⟨hsame, hunwritten⟩ |
        ⟨object, records, record, hphase, happends⟩
      · refine Or.inl ⟨hsame, ?_⟩
        intro hwrote
        obtain ⟨hmine, object, hanswer⟩ := hwrote.of_setCall
        exact hunwritten hmine object (Option.some.inj hanswer)
      · exact Or.inr ⟨i, c, w, object, records, record, rfl, hc, hw, hphase, happends⟩
    · exact Or.inl ⟨rfl, not_wrote (by simp)⟩
    · refine Or.inl ⟨rfl, not_wrote ?_⟩
      intro j haction
      rcases hkind with ⟨now, pool, rfl, -⟩ | ⟨rfl, -⟩
      · cases haction
      · cases haction
    · exact Or.inl ⟨rfl, not_wrote (by simp)⟩
  · exact Or.inl ⟨rfl, not_wrote (by simp)⟩
  · have hstepped := Watcher.step?_spec hkept.sound.store (hkept.sound.caches w.owner)
      (hkept.sound.watchers k w hw) hstep
    exact Or.inl ⟨hstepped.quiet.object? target, not_wrote (by simp)⟩

/-- A fleet stays made of ledgers, which lose no record. -/
theorem Kept.step? (hkept : fleet.Kept members target) {action : Action}
    (hquiet : action.target? ≠ some target) (h : fleet.step? members action = some next) :
    next.Kept members target ∧ ∀ name records, LedgerAt (fleet.store.fields target) name records →
      ∃ more, LedgerAt (next.store.fields target) name (records ++ more) := by
  have hsound := (step?_spec hkept.sound h).1
  have hprepared := prepared_step? hkept.sound hkept.prepared h
  rcases hkept.step?_cases hquiet h with ⟨hsame, -⟩ |
    ⟨i, c, w, object, records, record, -, -, -, -, happends⟩
  · have hfields : next.store.fields target = fleet.store.fields target := by
      unfold MemoryStore.fields
      rw [hsame]
    rw [hfields]
    refine ⟨⟨hsound, hprepared, hfields ▸ hkept.ledgers⟩, ?_⟩
    intro name records hledger
    exact ⟨[], by simpa using hledger⟩
  · exact ⟨⟨hsound, hprepared, hkept.ledgers.append happends⟩,
      fun name records hledger => happends.prefix_ledgerAt hledger⟩

/-! ## Runs -/

/-- A run in which no other program writes to the object. -/
def Quiet (target : ObjectName) (actions : List Action) : Prop :=
  ∀ action ∈ actions, action.target? ≠ some target

/-- A fleet of a new object is made of ledgers. -/
theorem kept_of_absent {actions : List Action} (h : start.run? members actions = some fleet)
    (habsent : fleet.store.object? target = none) : fleet.Kept members target := by
  have hprepared : ∀ i c, fleet.call i = some c → c.Prepared fleet.store := by
    refine runSteps?_induction (P := fun _ fleet => ∀ i c, fleet.call i = some c →
      c.Prepared fleet.store) ?_ ?_ h
    · intro i c hc
      cases hc
    · intro actions action before after hrun hbefore hstep
      exact prepared_step? (run?_spec (.start members) hrun).1 hbefore hstep
  refine ⟨(run?_spec (.start members) h).1, hprepared, ?_⟩
  have hempty : fleet.store.fields target = .empty := by
    rw [MemoryStore.fields, habsent]
    rfl
  rw [hempty]
  exact .empty

theorem Kept.run? (hkept : fleet.Kept members target) {actions : List Action} {last : Fleet}
    (hquiet : Quiet target actions) (h : fleet.run? members actions = some last) :
    last.Kept members target ∧ ∀ name records, LedgerAt (fleet.store.fields target) name records →
      ∃ more, LedgerAt (last.store.fields target) name (records ++ more) := by
  revert hquiet
  refine runSteps?_induction (P := fun actions last => Quiet target actions →
    last.Kept members target ∧ ∀ name records, LedgerAt (fleet.store.fields target) name records →
      ∃ more, LedgerAt (last.store.fields target) name (records ++ more)) ?_ ?_ h
  · intro _
    exact ⟨hkept, fun name records hledger => ⟨[], by simpa using hledger⟩⟩
  · intro actions action before after _ ih hstep hquiet
    obtain ⟨hbefore, hgrown⟩ := ih fun a ha => hquiet a (List.mem_append_left _ ha)
    obtain ⟨hafter, hgrows⟩ := hbefore.step? (hquiet action (by simp)) hstep
    refine ⟨hafter, ?_⟩
    intro name records hledger
    obtain ⟨more, hmore⟩ := hgrown name records hledger
    obtain ⟨yet, hyet⟩ := hgrows name _ hmore
    exact ⟨more ++ yet, by rwa [← List.append_assoc]⟩

end Fleet
end Keyring
