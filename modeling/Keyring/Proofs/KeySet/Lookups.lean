import Keyring.Proofs.KeySet.Ledger

/-!
# Look-ups in loaded key sets

The key set of a name is the one that the field of the name stores, whatever other fields there are.
A loaded ledger has a version for each of its records and no others, and the last one is active.
-/
namespace Keyring

theorem KeySetName.ext_text {name other : KeySetName} (h : name.text = other.text) :
    name = other := by
  have hname := ofText?_text name
  rw [h, ofText?_text, Option.some.injEq] at hname
  exact hname.symm

namespace KeySets

variable {object : StoredObject} {text : String} {keySet : KeySet}

theorem mem_ofField? :
    (text, keySet) ∈ object.data.entries.filterMap ofField? ↔
      ∃ name : KeySetName, name.text = text ∧
        (object.data.get? name.field).bind KeySet.ofBytes? = some keySet := by
  rw [List.mem_filterMap]
  constructor
  · rintro ⟨⟨field, bytes⟩, hmem, hfield⟩
    obtain ⟨name, hname, hmap⟩ := Option.bind_eq_some_iff.1 hfield
    obtain ⟨loaded, hloaded, heq⟩ := Option.map_eq_some_iff.1 hmap
    obtain ⟨rfl, rfl⟩ := Prod.mk.inj heq
    refine ⟨name, rfl, ?_⟩
    rw [KeySetName.field_of_ofField? hname,
      (SortedMap.get?_eq_some_iff object.data field bytes).2 hmem]
    exact hloaded
  · rintro ⟨name, rfl, hget⟩
    obtain ⟨bytes, hbytes, hloaded⟩ := Option.bind_eq_some_iff.1 hget
    refine ⟨(name.field, bytes), (SortedMap.get?_eq_some_iff object.data _ bytes).1 hbytes, ?_⟩
    simp [ofField?, hloaded]

/-- The key set of a text is the one that the field of the name stores, if the text is a name. -/
theorem get?_ofObject_eq_some_iff :
    (ofObject object).get? text = some keySet ↔
      ∃ name : KeySetName, name.text = text ∧
        (object.data.get? name.field).bind KeySet.ofBytes? = some keySet := by
  rw [ofObject, SortedMap.get?_ofList_eq_some_iff, mem_ofField?]
  intro v w hv hw
  obtain ⟨name, hname, hget⟩ := mem_ofField?.1 hv
  obtain ⟨name', hname', hget'⟩ := mem_ofField?.1 hw
  obtain rfl := KeySetName.ext_text (hname.trans hname'.symm)
  exact Option.some.inj (hget.symm.trans hget')

end KeySets

namespace KeySet

/-- The versions of a set are found under their numbers. -/
theorem version?_eq_some_iff {s : KeySet} {id : KeyId} {key : Key} :
    s.version? id = some key ↔ key ∈ s.keys ∧ key.id = id := by
  rw [version?, SortedMap.get?_eq_some_iff]
  constructor
  · exact fun hmem => ⟨List.mem_map_of_mem hmem, s.id_eq _ hmem⟩
  · rintro ⟨hkey, rfl⟩
    obtain ⟨entry, hentry, rfl⟩ := List.mem_map.1 hkey
    rw [s.id_eq entry hentry]
    exact hentry

end KeySet

namespace Key

/-- Keys with one record are one key. -/
theorem ext_record {key other : Key} (h : key.record = other.record) : key = other := by
  have hload := load_record key
  rw [h, load_record, Except.ok.injEq] at hload
  exact hload.symm

end Key

namespace KeySetData.Ledger

variable {data : KeySetData} {records : List KeyRecord} {key : Key}

theorem mem_keys_ofData (h : data.Ledger records) :
    key ∈ (KeySet.ofData data).keys ↔ key.record ∈ records := by
  constructor
  · intro hkey
    have hmem := List.mem_map_of_mem (f := Key.record) hkey
    rwa [h.keys_ofData] at hmem
  · intro hrecord
    rw [← h.keys_ofData] at hrecord
    obtain ⟨other, hother, hsame⟩ := List.mem_map.1 hrecord
    rwa [← Key.ext_record hsame]

/-- The versions of a loaded ledger are the keys of its records. -/
theorem version?_ofData (h : data.Ledger records) {id : KeyId} :
    (KeySet.ofData data).version? id = some key ↔ key.record ∈ records ∧ key.id = id := by
  rw [KeySet.version?_eq_some_iff, h.mem_keys_ofData]

/-- The active version of a loaded ledger has the number of its records. -/
theorem active?_ofData (h : data.Ledger records) (hkey : (KeySet.ofData data).active? = some key) :
    key.record ∈ records ∧ key.id.val = records.length := by
  rw [KeySet.active?, KeySet.activeId_ofData, h.version?_ofData] at hkey
  obtain ⟨hrecord, hid⟩ := hkey
  exact ⟨hrecord, by rw [hid, h.active]⟩

/-- A loaded ledger with records has an active version. -/
theorem exists_active?_ofData (h : data.Ledger records) (hne : records ≠ []) :
    ∃ key, (KeySet.ofData data).active? = some key ∧ key.id = data.activeId := by
  induction records using List.reverseRecOn with
  | nil => exact absurd rfl hne
  | append_singleton rest record _ =>
    obtain ⟨key, hload⟩ := h.loads record (by simp)
    have hrecord := Key.record_of_load hload
    have hid : key.id = data.activeId := by
      apply Bounded.ext
      rw [Key.id, hrecord, (numbered_append.1 h.numbered).2, h.active, List.length_append,
        List.length_singleton]
      rfl
    refine ⟨key, ?_, hid⟩
    rw [KeySet.active?, KeySet.activeId_ofData, h.version?_ofData]
    exact ⟨by simp [hrecord], hid⟩

end KeySetData.Ledger
end Keyring
