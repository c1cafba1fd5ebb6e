import Keyring.Proofs.KeySet.Rotation

/-!
# Ledgers

A stored set that was only ever written by adding versions is a ledger: its records are numbered
from one, in order, all load and are of one kind, and the last one is active. A plan on a ledger
finds the next number free, and the write that it asks for puts one record behind the others.
-/
namespace Keyring

namespace KeySetData

/-- A stored set with the records of versions 1, 2, … of one kind, the last of which is active. -/
structure Ledger (data : KeySetData) (records : List KeyRecord) : Prop where
  stored : data.records = records.map fun r => r.toJson.sorted
  active : data.activeId.val = records.length
  numbered : records.map (fun r => r.id.val) = (List.range' 1 records.length).map Int.ofNat
  oneKind : ∀ r ∈ records, ∀ r' ∈ records, r.keyType = r'.keyType
  loads : ∀ r ∈ records, ∃ key, Key.load r = .ok key

variable {data : KeySetData} {records : List KeyRecord}

theorem ledger_empty : empty.Ledger [] :=
  ⟨rfl, rfl, rfl, fun _ h => absurd h List.not_mem_nil, fun _ h => absurd h List.not_mem_nil⟩

/-- The number of a further record. -/
theorem numbered_append {records : List KeyRecord} {record : KeyRecord} :
    (records ++ [record]).map (fun r => r.id.val) =
        (List.range' 1 (records ++ [record]).length).map Int.ofNat ↔
      records.map (fun r => r.id.val) = (List.range' 1 records.length).map Int.ofNat ∧
        record.id.val = records.length + 1 := by
  have hrange : (List.range' 1 (records ++ [record]).length).map Int.ofNat =
      (List.range' 1 records.length).map Int.ofNat ++ [(records.length : ℤ) + 1] := by
    rw [List.length_append, List.length_singleton, List.range'_1_concat, List.map_append]
    simp [Nat.add_comm]
  rw [hrange, List.map_append, List.map_singleton]
  constructor
  · intro h
    obtain ⟨hinit, hlast⟩ := List.append_inj' h rfl
    exact ⟨hinit, List.singleton_inj.1 hlast⟩
  · rintro ⟨hinit, hlast⟩
    rw [hinit, hlast]

/-- The records of a ledger have the numbers up to its length. -/
theorem id_le_of_numbered
    (h : records.map (fun r => r.id.val) = (List.range' 1 records.length).map Int.ofNat)
    {r : KeyRecord} (hr : r ∈ records) : 1 ≤ r.id.val ∧ r.id.val ≤ records.length := by
  have hmem : r.id.val ∈ records.map fun r => r.id.val := List.mem_map_of_mem hr
  rw [h, List.mem_map] at hmem
  obtain ⟨n, hn, hval⟩ := hmem
  rw [List.mem_range'_1] at hn
  rw [← hval]
  simp only [Int.ofNat_eq_natCast]
  omega

namespace Ledger

theorem isStored (h : data.Ledger records) : data.Stored := by
  intro v hv
  rw [h.stored] at hv
  obtain ⟨r, -, rfl⟩ := List.mem_map.1 hv
  exact ⟨KeyRecord.storable_toJson r, KeyRecord.canonical_toJson r⟩

/-- A set is the ledger of one list of records. -/
theorem unique {records' : List KeyRecord} (h : data.Ledger records) (h' : data.Ledger records') :
    records = records' := by
  have hread : ∀ rs : List KeyRecord,
      (rs.map fun r => r.toJson.sorted).filterMap KeyRecord.ofJson? = rs := by
    intro rs
    induction rs with
    | nil => rfl
    | cons r rest ih =>
      rw [List.map_cons, List.filterMap_cons, KeyRecord.ofJson?_toJson, ih]
  rw [← hread records, ← h.stored, h'.stored, hread]

/-! ## Versions of a ledger -/

theorem keys_ofData (h : data.Ledger records) :
    (KeySet.ofData data).keys.map Key.record = records := by
  have hall : ∀ rs : List KeyRecord,
      rs.map (fun r => r.id.val) = (List.range' 1 rs.length).map Int.ofNat →
      (∀ r ∈ rs, ∃ key, Key.load r = .ok key) →
      (((rs.map fun r => r.toJson.sorted).foldl KeySet.addRecord
        (.withoutVersions data.activeId)).versions.entries.map fun e => e.2.record) = rs := by
    intro rs
    induction rs using List.reverseRecOn with
    | nil => exact fun _ _ => rfl
    | append_singleton rs r ih =>
      intro hnumbered hloads
      obtain ⟨hinit, hlast⟩ := numbered_append.1 hnumbered
      have hentries := ih hinit fun r hr => hloads r (List.mem_append_left _ hr)
      obtain ⟨key, hload⟩ := hloads r (by simp)
      have hrecord := Key.record_of_load hload
      rw [List.map_append, List.map_singleton, List.foldl_append]
      generalize hset : (rs.map fun r => r.toJson.sorted).foldl KeySet.addRecord
        (.withoutVersions data.activeId) = set at hentries
      have hadd : set.addRecord r.toJson.sorted = set.add key := by
        rw [KeySet.addRecord, KeySet.loadRecord?_toJson, hload]
        rfl
      have hbelow : ∀ e ∈ set.versions.entries, compare e.1 key.id = .lt := by
        intro e he
        have hmem : e.2.record ∈ rs := by
          rw [← hentries]
          exact List.mem_map_of_mem he
        have hid : e.2.record.id = e.1 := set.id_eq e he
        have hle := (id_le_of_numbered hinit hmem).2
        rw [Bounded.compare_def, Int.compare_eq_lt, ← hid, Key.id, hrecord, hlast]
        omega
      have hinsert : (set.add key).versions.entries = set.versions.entries ++ [(key.id, key)] :=
        SortedMap.insertEntry_last hbelow
      rw [List.foldl_cons, List.foldl_nil, hadd, hinsert, List.map_append, hentries,
        List.map_singleton, hrecord]
  rw [KeySet.ofData, h.stored, KeySet.keys, SortedMap.values, List.map_map]
  exact hall records h.numbered h.loads

/-! ## Plans on a ledger -/

theorem maxId_eq (h : data.Ledger records) : KeySetPlan.maxId data.records = records.length := by
  have hall : ∀ rs : List KeyRecord,
      rs.map (fun r => r.id.val) = (List.range' 1 rs.length).map Int.ofNat →
      KeySetPlan.maxId (rs.map fun r => r.toJson.sorted) = rs.length := by
    intro rs
    induction rs using List.reverseRecOn with
    | nil => exact fun _ => rfl
    | append_singleton rs r ih =>
      intro hnumbered
      obtain ⟨hinit, hlast⟩ := numbered_append.1 hnumbered
      rw [List.map_append, List.map_singleton, KeySetPlan.maxId_append, ih hinit,
        KeySetPlan.recordId?_toJson, Option.elim_some, hlast, List.length_append,
        List.length_singleton]
      omega
  rw [h.stored]
  exact hall records h.numbered

/-- The last record of a ledger is the active version. -/
theorem activeType?_append {record : KeyRecord} (h : data.Ledger (records ++ [record])) :
    KeySetPlan.activeType? data = some record.keyType := by
  obtain ⟨key, hload⟩ := h.loads record (by simp)
  have hrecord := Key.record_of_load hload
  obtain ⟨-, hid⟩ := numbered_append.1 h.numbered
  have hkey : KeySetPlan.activeKey? data.activeId record.toJson.sorted = some key := by
    have hactive : key.id = data.activeId := by
      apply Bounded.ext
      rw [Key.id, hrecord, hid, h.active, List.length_append, List.length_singleton]
      rfl
    have hpos : 0 < key.id.val := by
      rw [Key.id, hrecord, hid]
      omega
    rw [KeySetPlan.activeKey?, KeySet.loadRecord?_toJson, hload]
    simp [Except.toOption, Option.filter, hactive, hactive ▸ hpos]
  rw [KeySetPlan.activeType?, h.stored, List.map_append, List.map_singleton, List.filterMap_append]
  simp [hkey, ← Key.record_keyType, hrecord]

/-- The active version is of the kind of all. -/
theorem keyType_eq (h : data.Ledger records) {keyType : KeyType}
    (hactive : KeySetPlan.activeType? data = none ∨
      KeySetPlan.activeType? data = some keyType) : ∀ r ∈ records, r.keyType = keyType := by
  intro r hr
  induction records using List.reverseRecOn with
  | nil => cases hr
  | append_singleton init last _ =>
    rw [h.activeType?_append] at hactive
    rcases hactive with hnone | hsome
    · cases hnone
    · rw [← Option.some.inj hsome]
      exact h.oneKind r hr last (by simp)

/-- A record with the next number goes behind the others. -/
theorem place_eq (h : data.Ledger records) {record : KeyRecord}
    (hid : record.id.val = records.length + 1) :
    PendingVersion.place data.records record =
      (records ++ [record]).map fun r => r.toJson.sorted := by
  have happend : data.records ++ [record.toJson.sorted] =
      (records ++ [record]).map fun r => r.toJson.sorted := by
    rw [h.stored, List.map_append, List.map_singleton]
  have hsorted : ((records ++ [record]).map fun r => r.toJson.sorted).Pairwise
      fun a b => PendingVersion.before a b = true := by
    have hnumbered := numbered_append.2 ⟨h.numbered, hid⟩
    have hascending : ((records ++ [record]).map fun r => r.id.val).Pairwise (· ≤ ·) := by
      rw [hnumbered, List.pairwise_map]
      apply List.pairwise_le_range'.imp
      intro a b hab
      exact Int.ofNat_le.2 hab
    rw [List.pairwise_map] at hascending ⊢
    apply hascending.imp
    intro a b hab
    simpa [PendingVersion.before] using hab
  rw [PendingVersion.place_eq, happend]
  exact List.mergeSort_of_pairwise hsorted

/-- A planned write puts one record behind the others, under the next number. -/
theorem finish (h : data.Ledger records) {id : KeyId}
    (hid : id.val = KeySetPlan.maxId data.records + 1) {keyType : KeyType}
    (hactive : KeySetPlan.activeType? data = none ∨
      KeySetPlan.activeType? data = some keyType)
    {material : KeyRecord} (hkind : material.keyType = keyType)
    (hload : ∃ key, Key.load material = .ok key) :
    ∃ bytes next, (⟨data, id, keyType⟩ : PendingVersion).finish material = .ok bytes ∧
      ofBytes? bytes = some next ∧ next.Ledger (records ++ [{ material with id := id }]) := by
  rw [h.maxId_eq] at hid
  have hdata : (⟨data, id, keyType⟩ : PendingVersion).data.Stored := h.isStored
  obtain ⟨bytes, hfinish, hread⟩ := PendingVersion.ofBytes?_finish hdata hkind
  refine ⟨bytes, _, hfinish, hread, ?_, ?_, ?_, ?_, ?_⟩
  · simp only
    rw [h.place_eq hid, List.map_map]
    apply List.map_congr_left
    intro r _
    exact KeyRecord.reread_toJson r
  · rw [List.length_append, List.length_singleton]
    exact hid
  · exact numbered_append.2 ⟨h.numbered, hid⟩
  · have hall : ∀ r ∈ records ++ [{ material with id := id }], r.keyType = keyType := by
      intro r hr
      rcases List.mem_append.1 hr with hold | hnew
      · exact h.keyType_eq hactive r hold
      · rw [List.mem_singleton.1 hnew]
        exact hkind
    intro r hr r' hr'
    rw [hall r hr, hall r' hr']
  · intro r hr
    rcases List.mem_append.1 hr with hold | hnew
    · exact h.loads r hold
    · obtain ⟨key, hkey⟩ := hload
      obtain ⟨key', hkey', -⟩ := Key.load_withId hkey id
      exact ⟨key', List.mem_singleton.1 hnew ▸ hkey'⟩

end Ledger
end KeySetData
end Keyring
