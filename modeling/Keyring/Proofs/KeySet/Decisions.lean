import Keyring.Proofs.Fleet.Creations
import Keyring.Proofs.KeySet.Rotation

/-!
# What makes a set initialized

The same question is put to a stored set twice: a plan goes through its records, and a process that
has loaded it looks the active version up. Both find the same version, save that a plan takes none
whose number is not positive, while a loaded set has one under any number.
-/
namespace Keyring

open KeySet (loadRecord? loadsAs lastVersion?)

/-- The stored set loads, and its active version has that number. -/
def KeySet.LoadsActive (stored : Option Bytes) (id : KeyId) : Prop :=
  ∃ s key, stored.bind ofBytes? = some s ∧ s.active? = some key ∧ key.id = id

namespace KeySetPlan

theorem activeKey?_eq_some_iff {id : KeyId} {v : Json} {key : Key} :
    activeKey? id v = some key ↔ loadRecord? v = some key ∧ key.id = id ∧ 0 < id.val := by
  rw [activeKey?, Option.filter_eq_some_iff, decide_eq_true_eq]
  constructor
  · rintro ⟨hload, rfl, hpos⟩
    exact ⟨hload, rfl, hpos⟩
  · rintro ⟨hload, rfl, hpos⟩
    exact ⟨hload, rfl, hpos⟩

/-- Under a positive number, a plan takes the key of just the records that load under it. -/
theorem activeKey?_of_pos {id : KeyId} (hpos : 0 < id.val) (v : Json) :
    activeKey? id v = if loadsAs id v then loadRecord? v else none := by
  ext key
  rw [activeKey?_eq_some_iff]
  constructor
  · rintro ⟨hload, hid, -⟩
    rw [if_pos (KeySet.loadsAs_iff.2 ⟨key, hload, hid⟩), hload]
  · intro h
    split_ifs at h with hloads
    obtain ⟨other, hother, hid⟩ := KeySet.loadsAs_iff.1 hloads
    rw [h, Option.some.injEq] at hother
    exact ⟨h, hother ▸ hid, hpos⟩

/-- The last key that a plan takes is the version that a look-up finds. -/
theorem getLast?_activeKeys {id : KeyId} (hpos : 0 < id.val) (records : List Json) :
    (records.filterMap (activeKey? id)).getLast? = lastVersion? id records := by
  induction records using List.reverseRecOn with
  | nil => rfl
  | append_singleton rest v ih =>
    rw [List.filterMap_append, List.getLast?_append, ih, KeySet.lastVersion?_append,
      KeySet.lastVersion?_singleton, ← activeKey?_of_pos hpos]
    cases hkey : activeKey? id v with
    | none =>
      rw [List.filterMap_cons_none hkey]
      rfl
    | some key =>
      rw [List.filterMap_cons_some hkey]
      rfl

/-- No plan takes a key under a number that is not positive. -/
theorem activeKeys_eq_nil {id : KeyId} (hpos : ¬ 0 < id.val) (records : List Json) :
    records.filterMap (activeKey? id) = [] := by
  apply List.filterMap_eq_nil_iff.2
  intro v _
  by_contra hne
  obtain ⟨key, hkey⟩ := Option.ne_none_iff_exists'.1 hne
  exact hpos (activeKey?_eq_some_iff.1 hkey).2.2

/-- The kind that a plan finds is that of the loaded active version, if its number is positive. -/
theorem activeType?_eq (data : KeySetData) :
    activeType? data =
      if 0 < data.activeId.val then (KeySet.ofData data).active?.map Key.keyType else none := by
  rw [activeType?, KeySet.active?, KeySet.activeId_ofData, KeySet.version?_ofData]
  split_ifs with hpos
  · rw [getLast?_activeKeys hpos]
  · rw [activeKeys_eq_nil hpos]
    rfl

/-- A plan keeps a version exactly if it is the loaded active one and has a positive number. -/
theorem make_unchanged_iff {name : KeySetName} {stored : Option Bytes} {keyType : KeyType}
    {id : KeyId} :
    make name stored keyType false = .ok (.unchanged id) ↔
      KeySet.LoadsActive stored id ∧ 0 < id.val := by
  constructor
  · intro h
    obtain ⟨data, hdata, ⟨-, hactive, hplan⟩ | ⟨_, -, -, hplan⟩⟩ := make_ok_cases h
    · obtain rfl : id = data.activeId := (KeySetPlan.unchanged.inj hplan)
      rw [activeType?_eq] at hactive
      split_ifs at hactive with hpos
      · rw [Option.isSome_map] at hactive
        obtain ⟨key, hkey⟩ := Option.isSome_iff_exists.1 hactive
        have hid : key.id = data.activeId :=
          (KeySet.id_of_version? hkey).trans (KeySet.activeId_ofData data)
        cases stored with
        | none =>
          rw [← Option.some.inj hdata] at hkey
          cases hkey
        | some bytes =>
          have hload : KeySet.ofBytes? bytes = some (KeySet.ofData data) :=
            congrArg (Option.map KeySet.ofData) hdata
          exact ⟨⟨_, key, hload, hkey, hid⟩, hpos⟩
      · cases hactive
    · cases hplan
  · rintro ⟨⟨s, key, hload, hkey, rfl⟩, hpos⟩
    obtain ⟨bytes, rfl, hbytes⟩ := Option.bind_eq_some_iff.1 hload
    obtain ⟨data, hdata, rfl⟩ := Option.map_eq_some_iff.1 hbytes
    have hid : key.id = data.activeId :=
      (KeySet.id_of_version? hkey).trans (KeySet.activeId_ofData data)
    have hactive : (activeType? data).isSome = true := by
      rw [activeType?_eq, if_pos (hid ▸ hpos), hkey]
      rfl
    rw [hid]
    exact make_of_active hdata hactive keyType

end KeySetPlan

/-! ## Handles and writes -/

/-- A process that has loaded an object finds the active version of the set stored in it. -/
theorem Cache.activeKey_ofObject {version : ℤ} {object : StoredObject} {name : KeySetName}
    {key : Key} :
    (⟨version, KeySets.ofObject object⟩ : Cache).activeKey name.text = .ok key ↔
      ∃ s, (object.data.get? name.field).bind KeySet.ofBytes? = some s ∧ s.active? = some key := by
  rw [activeKey_eq_ok_iff]
  constructor
  · rintro ⟨s, hget, hkey⟩
    obtain ⟨other, hother, hload⟩ := KeySets.get?_ofObject_eq_some_iff.1 hget
    obtain rfl := KeySetName.ext_text hother
    exact ⟨s, hload, hkey⟩
  · rintro ⟨s, hload, hkey⟩
    exact ⟨s, KeySets.get?_ofObject_eq_some_iff.2 ⟨name, rfl, hload⟩, hkey⟩

/-- A call for a handle is over at once exactly if the set that was loaded has an active version. -/
theorem Call.result_start_keySet {owner : ℕ} {member : Member} {version : ℤ}
    {object : StoredObject} {name : KeySetName} {keyType : KeyType} {id : KeyId} :
    (start owner member ⟨version, KeySets.ofObject object⟩ .keySet name.text keyType).result =
        some (.ok id) ↔
      KeySet.LoadsActive (object.data.get? name.field) id := by
  constructor
  · intro h
    obtain ⟨key, hkey, hid⟩ := result_start h
    obtain ⟨s, hload, hactive⟩ := Cache.activeKey_ofObject.1 hkey
    exact ⟨s, key, hload, hactive, hid⟩
  · rintro ⟨s, key, hload, hactive, rfl⟩
    obtain ⟨cache, hcache⟩ : ∃ cache : Cache, cache = ⟨version, KeySets.ofObject object⟩ := ⟨_, rfl⟩
    have hkey : cache.activeKey name.text = .ok key :=
      hcache ▸ Cache.activeKey_ofObject.2 ⟨s, hload, hactive⟩
    have hname : KeySetName.ofText name.text = .ok name := by
      rw [KeySetName.ofText, KeySetName.ofText?_text]
    simp only [start, hname, ← hcache, hkey]

/-- A write that asks for an active version ends with the object that it fetched exactly if the plan
keeps the version there. -/
theorem KeySetWrite.result?_fetched {w : KeySetWrite} (hensure : w.request.rotate = false)
    {cache : Cache} {found : Option StoredObject} {id : KeyId} :
    (w.fetched cache (.ok found)).1.result? = some (.ok id) ↔
      KeySetPlan.make w.request.name
          ((found.getD (.fresh w.request.target)).data.get? w.request.name.field)
          w.request.keyType false = .ok (.unchanged id) := by
  have hfail : ∀ failure, (w.fail failure).result? ≠ some (.ok id) := by
    intro failure
    unfold fail
    split_ifs <;> simp [result?]
  rw [fetched, hensure]
  cases hplan : KeySetPlan.make w.request.name
      ((found.getD (.fresh w.request.target)).data.get? w.request.name.field)
      w.request.keyType false with
  | error failure => simp [hfail]
  | ok plan =>
    cases plan with
    | unchanged other => simp [result?]
    | needsVersion pending =>
      cases hmaterial : w.material with
      | none => simp [result?]
      | some material =>
        dsimp only
        unfold prepare
        split
        next => simp [hfail]
        next => simp [result?]

/-- Planning keeps a version exactly if the stored set loads with it as the active one and its
number is positive. So planning and loading agree on a stored set unless that number is zero or
negative, and that is the only way in which a handle on a cached set and a write to it can judge
differently whether the set is there. -/
theorem KeySetPlan.keeps_active_iff (name : KeySetName) :
    (∀ stored keyType id, make name stored keyType false = .ok (.unchanged id) ↔
        KeySet.LoadsActive stored id ∧ 0 < id.val) ∧
      (∀ stored, (∀ keyType id, make name stored keyType false = .ok (.unchanged id) ↔
          KeySet.LoadsActive stored id) ↔
        ∀ id, KeySet.LoadsActive stored id → 0 < id.val) ∧
      ∀ (object : StoredObject) (version : ℤ) (owner : ℕ) (member : Member) (keyType : KeyType)
        (w : KeySetWrite) (cache : Cache) (id : KeyId),
        w.request.name = name → w.request.rotate = false →
        ((Call.start owner member ⟨version, KeySets.ofObject object⟩ .keySet name.text
              keyType).result = some (.ok id) ↔
            KeySet.LoadsActive (object.data.get? name.field) id) ∧
          ((w.fetched cache (.ok (some object))).1.result? = some (.ok id) ↔
            KeySet.LoadsActive (object.data.get? name.field) id ∧ 0 < id.val) := by
  refine ⟨fun stored keyType id => make_unchanged_iff, fun stored => ?_, ?_⟩
  · constructor
    · intro hagree id hloads
      exact (make_unchanged_iff.1 ((hagree .symmetricAead id).2 hloads)).2
    · intro hpos keyType id
      rw [make_unchanged_iff]
      exact and_iff_left_of_imp (hpos id)
  · rintro object version owner member keyType w cache id rfl hensure
    refine ⟨Call.result_start_keySet, ?_⟩
    rw [KeySetWrite.result?_fetched hensure]
    exact make_unchanged_iff

/-! ## Sets of one version -/

/-- A stored set whose only version is its active one. -/
def KeySetData.single (r : KeyRecord) : KeySetData := ⟨r.id, [r.toJson.sorted]⟩

theorem KeySetData.stored_single (r : KeyRecord) : (single r).Stored := by
  intro v hv
  rw [List.mem_singleton.1 hv]
  exact ⟨r.storable_toJson, r.canonical_toJson⟩

/-- If the version loads, it is found as the active one. -/
theorem KeySet.loadsActive_single {r : KeyRecord} {key : Key} (h : Key.load r = .ok key) :
    LoadsActive (some (KeySetData.single r).toBytes) r.id := by
  have hread := KeySetData.ofBytes?_toBytes (KeySetData.stored_single r)
  have hload : loadRecord? r.toJson.sorted.reread = some key := by
    rw [loadRecord?_reread, loadRecord?_toJson, h]
    rfl
  have hid : key.id = r.id := congrArg KeyRecord.id (Key.record_of_load h)
  refine ⟨_, key, by rw [Option.bind_some, ofBytes?, hread, Option.map_some], ?_, hid⟩
  rw [active?, activeId_ofData, version?_ofData]
  have hlast := lastVersion?_singleton r.id r.toJson.sorted.reread
  rw [if_pos (loadsAs_iff.2 ⟨key, hload, hid⟩), hload] at hlast
  exact hlast

def StoredObject.withSet (name : KeySetName) (data : KeySetData) : StoredObject :=
  { StoredObject.fresh ⟨"n", "o"⟩ with data := SortedMap.empty.insert name.field data.toBytes }

theorem StoredObject.get?_withSet (name : KeySetName) (data : KeySetData) :
    (withSet name data).data.get? name.field = some data.toBytes := by
  simp [withSet]

theorem KeyRecord.load_zeros : ∃ key, Key.load zeros = .ok key :=
  ⟨_, Key.load_record (.aead ⟨zeros, rfl, by decide⟩)⟩

def KeyRecord.firstZeros : KeyRecord := { zeros with id := .first }

theorem KeyRecord.load_firstZeros : ∃ key, Key.load firstZeros = .ok key :=
  ⟨_, Key.load_record (.aead ⟨firstZeros, rfl, by decide⟩)⟩

/-- A handle on a set whose active version has the number zero is given out at once, but planning
takes the set for one without an active version. -/
theorem KeySetPlan.not_agree_zeros :
    (Call.start 0 ⟨⟨"n", "o"⟩, .standard⟩
        ⟨1, KeySets.ofObject (.withSet .sample (.single .zeros))⟩ .keySet KeySetName.sample.text
          .symmetricAead).result = some (.ok .none) ∧
      ¬ ∀ keyType id,
        make .sample (some (KeySetData.single .zeros).toBytes) keyType false =
            .ok (.unchanged id) ↔
          KeySet.LoadsActive (some (KeySetData.single .zeros).toBytes) id := by
  obtain ⟨key, hkey⟩ := KeyRecord.load_zeros
  have hloads := KeySet.loadsActive_single hkey
  refine ⟨?_, fun hagree => ?_⟩
  · rw [← StoredObject.get?_withSet .sample] at hloads
    exact Call.result_start_keySet.2 hloads
  · have hpos := (make_unchanged_iff.1 ((hagree .symmetricAead _).2 hloads)).2
    exact absurd hpos (by decide)

/-- Both a handle and a write find a first version. -/
theorem KeySetPlan.keeps_active_firstZeros :
    (Call.start 0 ⟨⟨"n", "o"⟩, .standard⟩
        ⟨1, KeySets.ofObject (.withSet .sample (.single .firstZeros))⟩ .keySet
          KeySetName.sample.text .symmetricAead).result = some (.ok .first) ∧
      ((KeySetWrite.start ⟨⟨"n", "o"⟩, .sample, .symmetricAead, false, .standard⟩).fetched .empty
        (.ok (some (.withSet .sample (.single .firstZeros))))).1.result? = some (.ok .first) := by
  obtain ⟨key, hkey⟩ := KeyRecord.load_firstZeros
  have hloads := KeySet.loadsActive_single hkey
  rw [← StoredObject.get?_withSet .sample] at hloads
  obtain ⟨hhandle, hwrite⟩ := (keeps_active_iff .sample).2.2
    (.withSet .sample (.single .firstZeros)) 1 0 ⟨⟨"n", "o"⟩, .standard⟩ .symmetricAead
    (KeySetWrite.start ⟨⟨"n", "o"⟩, .sample, .symmetricAead, false, .standard⟩) .empty
    KeyRecord.firstZeros.id rfl rfl
  exact ⟨hhandle.2 hloads, hwrite.2 ⟨hloads, by decide⟩⟩

end Keyring
