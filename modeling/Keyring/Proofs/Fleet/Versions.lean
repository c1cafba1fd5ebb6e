import Keyring.Proofs.Fleet.Ledgers
import Keyring.Proofs.KeySet.Lookups

/-!
# Ledgers at earlier versions

The key set that a cache holds is loaded from the ledger that the object had right after the write
of the cache's version. The ledger of a later version goes on from that of an earlier one, so a
cache at a later version holds the same records and maybe more.
-/
namespace Keyring

namespace MemoryStore

/-- The fields of an object right after the write of that number. -/
def fieldsAt (s : MemoryStore) (version : ℕ) (name : ObjectName) : SortedMap String Bytes :=
  (s.objectAt version name).elim .empty StoredObject.data

variable {s s' : MemoryStore}

theorem Consistent.fields_eq (hs : s.Consistent) (name : ObjectName) :
    s.fields name = s.fieldsAt s.version name := by
  rw [fields, hs.object?_eq, fieldsAt]

theorem Leads.fieldsAt (h : s.Leads s') {version : ℕ} (hversion : version ≤ s.version)
    (name : ObjectName) : s'.fieldsAt version name = s.fieldsAt version name := by
  rw [MemoryStore.fieldsAt, h.objectAt hversion, MemoryStore.fieldsAt]

end MemoryStore

/-- The key sets of an object, looked up by a text. -/
theorem KeySets.get?_ofObject?_eq_some_iff {object : Option StoredObject} {text : String}
    {keySet : KeySet} :
    (ofObject? object).get? text = some keySet ↔ ∃ name : KeySetName, name.text = text ∧
      ((object.elim .empty StoredObject.data).get? name.field).bind KeySet.ofBytes? =
        some keySet := by
  cases object with
  | none =>
    constructor
    · intro h
      cases h
    · rintro ⟨name, -, h⟩
      cases h
  | some object => exact get?_ofObject_eq_some_iff

namespace LedgerAt

variable {fields : SortedMap String Bytes} {name : KeySetName} {records : List KeyRecord}

/-- A set that is loaded from a field that is a ledger. -/
theorem ledger_of_loaded (h : LedgerAt fields name records) {keySet : KeySet}
    (hloaded : (fields.get? name.field).bind KeySet.ofBytes? = some keySet) :
    ∃ data : KeySetData, data.Ledger records ∧ KeySet.ofData data = keySet := by
  obtain ⟨data, hstored, hledger, -⟩ := h
  obtain ⟨bytes, hbytes, hset⟩ := Option.bind_eq_some_iff.1 hloaded
  obtain ⟨data', hdata', rfl⟩ := Option.map_eq_some_iff.1 hset
  rw [hbytes, KeySetData.ofStored?, Option.elim_some, hdata', Option.some.injEq] at hstored
  exact ⟨data', hstored ▸ hledger, rfl⟩

/-- A ledger with records is loaded. -/
theorem loaded_of_ne_nil (h : LedgerAt fields name records) (hne : records ≠ []) :
    ∃ data : KeySetData, data.Ledger records ∧
      (fields.get? name.field).bind KeySet.ofBytes? = some (KeySet.ofData data) := by
  obtain ⟨data, hstored, hledger, -⟩ := h
  refine ⟨data, hledger, ?_⟩
  cases hfield : fields.get? name.field with
  | none =>
    rw [hfield, KeySetData.ofStored?, Option.elim_none, Option.some.injEq] at hstored
    subst hstored
    exact absurd (hledger.unique KeySetData.ledger_empty) hne
  | some bytes =>
    rw [hfield, KeySetData.ofStored?, Option.elim_some] at hstored
    rw [Option.bind_some, KeySet.ofBytes?, hstored, Option.map_some]

end LedgerAt

theorem Appends.ne {before after : SortedMap String Bytes} {name : KeySetName}
    {records : List KeyRecord} {record : KeyRecord}
    (h : Appends before after name records record) : before ≠ after := by
  rintro rfl
  simpa using h.old.unique h.new

namespace Cache

/-- A cache without key sets, or one at that version or a later one. -/
def Since (cache : Cache) (floor : ℕ) : Prop :=
  cache.keySets = .empty ∨ (floor : ℤ) ≤ cache.resourceVersion

/-- A cache with a set that was loaded from the ledger of those records. -/
def Holds (cache : Cache) (text : String) (records : List KeyRecord) : Prop :=
  ∃ data : KeySetData, data.Ledger records ∧
    cache.keySets.get? text = some (KeySet.ofData data)

/-- The active version of a cached set. -/
theorem activeKey_eq_ok_iff {cache : Cache} {text : String} {key : Key} :
    cache.activeKey text = .ok key ↔
      ∃ keySet, cache.keySets.get? text = some keySet ∧ keySet.active? = some key := by
  cases hset : cache.keySets.get? text with
  | none => simp [activeKey, keySet, hset, Except.bind, Bind.bind]
  | some keySet =>
    cases hactive : keySet.active? with
    | none =>
      simp [activeKey, Cache.keySet, hset, hactive, Except.bind, Bind.bind, throw, throwThe,
        MonadExceptOf.throw]
    | some active =>
      simp [activeKey, Cache.keySet, hset, hactive, Except.bind, Bind.bind, pure, Except.pure]

end Cache

namespace Fleet

variable {members : ℕ → Member} {target : ObjectName} {first fleet last : Fleet}
  {actions : List Action}

theorem kept_start (members : ℕ → Member) (target : ObjectName) :
    start.Kept members target := by
  have hrun : start.run? members [] = some start := rfl
  exact kept_of_absent hrun rfl

/-- Between two versions of a run no ledger loses a record. -/
theorem Kept.ledgerAt_grows (hkept : first.Kept members target) (hquiet : Quiet target actions)
    (h : first.run? members actions = some last) {version later : ℕ}
    (hfirst : first.store.version ≤ version) (hle : version ≤ later)
    (hlast : later ≤ last.store.version) (name : KeySetName) :
    ∃ records more, LedgerAt (last.store.fieldsAt version target) name records ∧
      LedgerAt (last.store.fieldsAt later target) name (records ++ more) := by
  obtain ⟨upToLater, rest, atLater, rfl, hrunLater, rfl⟩ :=
    hkept.sound.exists_version h later (Nat.le_trans hfirst hle) hlast
  obtain ⟨upTo, between, atVersion, rfl, hrun, rfl⟩ :=
    hkept.sound.exists_version hrunLater version hfirst hle
  have hkeptAt := (hkept.run? (fun a ha => hquiet a (by simp [ha])) hrun).1
  have hbetween := (runSteps?_append_of_run hrun between).symm.trans hrunLater
  obtain ⟨hkeptLater, hgrown⟩ := hkeptAt.run? (fun a ha => hquiet a (by simp [ha])) hbetween
  have hrest := (runSteps?_append_of_run hrunLater rest).symm.trans h
  obtain ⟨-, hleads, -⟩ := run?_spec hkeptAt.sound hbetween
  obtain ⟨-, hleadsLast, -⟩ := run?_spec hkeptLater.sound hrest
  obtain ⟨records, hrecords⟩ := hkeptAt.ledgers.ledger name
  obtain ⟨more, hmore⟩ := hgrown name records hrecords
  refine ⟨records, more, ?_, ?_⟩
  · rw [(hleads.trans hleadsLast).fieldsAt (Nat.le_refl _), ← hkeptAt.sound.store.fields_eq]
    exact hrecords
  · rw [hleadsLast.fieldsAt (Nat.le_refl _), ← hkeptLater.sound.store.fields_eq]
    exact hmore

/-- A set in a cache was loaded from the field of its name at the version of the cache. -/
theorem Sound.loaded_of_cached {floor : ℕ} (h : fleet.Sound members) {i : ℕ}
    (hi : (members i).target = target) (hsince : (fleet.cache i).Since floor) {text : String}
    {keySet : KeySet} (hset : (fleet.cache i).keySets.get? text = some keySet) :
    ∃ (version : ℕ) (name : KeySetName), (fleet.cache i).resourceVersion = version ∧
      floor ≤ version ∧ version ≤ fleet.store.version ∧ name.text = text ∧
      ((fleet.store.fieldsAt version target).get? name.field).bind KeySet.ofBytes? =
        some keySet := by
  obtain ⟨version, hversion, hcached, hkeySets⟩ := h.caches i
  have hfloor : floor ≤ version := by
    rcases hsince with hempty | hle
    · rw [hempty] at hset
      cases hset
    · omega
  rw [hkeySets, hi] at hset
  obtain ⟨name, hname, hloaded⟩ := KeySets.get?_ofObject?_eq_some_iff.1 hset
  exact ⟨version, name, hcached, hfloor, hversion, hname, hloaded⟩

/-- A set in a cache is a loaded ledger, and the object has at least its records now. -/
theorem Kept.ledger_of_cached (hkept : first.Kept members target) (hquiet : Quiet target actions)
    (h : first.run? members actions = some last) {i : ℕ} (hi : (members i).target = target)
    (hsince : (last.cache i).Since first.store.version) {text : String} {keySet : KeySet}
    (hset : (last.cache i).keySets.get? text = some keySet) :
    ∃ (name : KeySetName) (data : KeySetData) (records more : List KeyRecord), name.text = text ∧
      records ≠ [] ∧ data.Ledger records ∧ keySet = KeySet.ofData data ∧
      LedgerAt (last.store.fields target) name (records ++ more) := by
  obtain ⟨hlast, -, -⟩ := run?_spec hkept.sound h
  obtain ⟨version, name, -, hfirst, hversion, hname, hloaded⟩ :=
    hlast.loaded_of_cached hi hsince hset
  obtain ⟨records, more, hrecords, hmore⟩ :=
    hkept.ledgerAt_grows hquiet h hfirst hversion (Nat.le_refl _) name
  obtain ⟨data, hledger, rfl⟩ := hrecords.ledger_of_loaded hloaded
  obtain ⟨bytes, hbytes, -⟩ := Option.bind_eq_some_iff.1 hloaded
  rw [← hlast.store.fields_eq] at hmore
  exact ⟨name, data, records, more, hname, hrecords.ne_nil hbytes, hledger, rfl, hmore⟩

/-- A set in a cache is in every cache of the same or a later version, with its records in front. -/
theorem Kept.holds_later {before after : List Action} (hkept : first.Kept members target)
    (hquiet : Quiet target (before ++ after)) (hbefore : first.run? members before = some fleet)
    (hafter : fleet.run? members after = some last) {i j : ℕ} (hi : (members i).target = target)
    (hj : (members j).target = target) (hsince : (fleet.cache i).Since first.store.version)
    (hle : (fleet.cache i).resourceVersion ≤ (last.cache j).resourceVersion) {text : String}
    {keySet : KeySet} (hset : (fleet.cache i).keySets.get? text = some keySet) :
    ∃ (data : KeySetData) (records more : List KeyRecord), data.Ledger records ∧
      keySet = KeySet.ofData data ∧ (last.cache j).Holds text (records ++ more) := by
  have hrun : first.run? members (before ++ after) = some last :=
    (runSteps?_append_of_run hbefore after).trans hafter
  obtain ⟨hfleet, -, -⟩ := run?_spec hkept.sound hbefore
  obtain ⟨hlast, hleads, -⟩ := run?_spec hfleet hafter
  obtain ⟨version, name, hcached, hfirst, hversion, rfl, hloaded⟩ :=
    hfleet.loaded_of_cached hi hsince hset
  obtain ⟨later, hlater, hcachedLater, hkeySets⟩ := hlast.caches j
  obtain ⟨records, more, hrecords, hmore⟩ :=
    hkept.ledgerAt_grows hquiet hrun hfirst (by omega) hlater name
  rw [hleads.fieldsAt hversion] at hrecords
  obtain ⟨data, hledger, rfl⟩ := hrecords.ledger_of_loaded hloaded
  obtain ⟨bytes, hbytes, -⟩ := Option.bind_eq_some_iff.1 hloaded
  obtain ⟨data', hledger', hloaded'⟩ :=
    hmore.loaded_of_ne_nil (List.append_ne_nil_of_left_ne_nil (hrecords.ne_nil hbytes) more)
  refine ⟨data, records, more, hledger, rfl, data', hledger', ?_⟩
  rw [hkeySets, hj]
  exact KeySets.get?_ofObject?_eq_some_iff.2 ⟨name, rfl, hloaded'⟩

end Fleet
end Keyring
