import Keyring.Proofs.KeySet.Planning

/-!
# Rotation of a stored key set

What a write that adds a version owes to the stored set: the number of the version is new, the set
that is loaded afterwards has the version and all versions from before, and another plan finds the
version active. A record that is written as an object takes part in this as it should. A record that
is written as an array of its fields is loaded but not counted, and it moves behind all others, so
the write keeps its promise just for the sets whose arrays have other numbers and hide no object.
-/
namespace Keyring

/-! ## Stable sorting -/

section Sorting

variable {α : Type} {le : α → α → Bool}

/-- Elements that are level with each other keep their order. -/
theorem filter_mergeSort_of_level (trans : ∀ a b c, le a b → le b c → le a c)
    (total : ∀ a b, le a b || le b a) {p : α → Bool} (hp : ∀ a b, p a → p b → le a b)
    (l : List α) : (l.mergeSort le).filter p = l.filter p := by
  have hlevel : (l.filter p).Pairwise fun a b => le a b = true := by
    rw [List.pairwise_filter]
    exact List.pairwise_of_forall fun {a b} ha hb => hp a b ha hb
  have hsub := (List.sublist_mergeSort trans total hlevel List.filter_sublist).filter p
  have hlength : ((l.mergeSort le).filter p).length = (l.filter p).length :=
    ((List.mergeSort_perm l le).filter p).length_eq
  rw [List.filter_filter] at hsub
  simp only [Bool.and_self] at hsub
  exact (hsub.eq_of_length hlength.symm).symm

/-- In a sorted list the elements of a lower kind stand before those of a higher one. -/
theorem filter_or_of_pairwise {p q : α → Bool} {l : List α}
    (h : l.Pairwise fun a b => q a = true → p b = false) (hpq : ∀ a, p a = true → q a = false) :
    l.filter (fun a => p a || q a) = l.filter p ++ l.filter q := by
  induction l with
  | nil => rfl
  | cons a rest ih =>
    obtain ⟨ha, hrest⟩ := List.pairwise_cons.1 h
    have hih := ih hrest
    cases hp : p a with
    | true =>
      have hq := hpq a hp
      simp [hp, hq, hih]
    | false =>
      cases hq : q a with
      | false => simp [hp, hq, hih]
      | true =>
        have hnil : rest.filter p = [] := by
          rw [List.filter_eq_nil_iff]
          intro b hb
          rw [ha b hb hq]
          exact Bool.false_ne_true
        rw [hnil, List.nil_append] at hih
        simp [hp, hq, hnil, hih]

end Sorting

/-! ## The record of a new version -/

namespace Key

/-- A record that loads does so under any number. -/
theorem load_withId {r : KeyRecord} {k : Key} (h : load r = .ok k) (id : KeyId) :
    ∃ k' : Key, load { r with id := id } = .ok k' ∧ k'.record = { r with id := id } := by
  have hr := record_of_load h
  cases k with
  | signing s =>
    have hload := load_record (.signing ⟨{ s.record with id := id }, s.privateKey, s.keyType_eq,
      s.privateKey_eq⟩)
    subst hr
    exact ⟨_, hload, rfl⟩
  | aead a =>
    have hload := load_record (.aead ⟨{ a.record with id := id }, a.keyType_eq, a.length_eq⟩)
    subst hr
    exact ⟨_, hload, rfl⟩

end Key

namespace KeySet

/-- The versions that are loaded from stored bytes; none without them. -/
def ofStored (stored : Option Bytes) : KeySet :=
  (stored.bind ofBytes?).getD (withoutVersions .none)

/-- Whether a record that is no array loads under a number. -/
def keyedAs (id : KeyId) (v : Json) : Bool := loadsAs id v && !v.isArray

/-- Whether a record that is an array loads under a number. -/
def listedAs (id : KeyId) (v : Json) : Bool := loadsAs id v && v.isArray

theorem loadsAs_eq (id : KeyId) (v : Json) : loadsAs id v = (keyedAs id v || listedAs id v) := by
  unfold keyedAs listedAs
  cases loadsAs id v <;> cases v.isArray <;> rfl

theorem position_of_keyedAs {id : KeyId} {v : Json} (h : keyedAs id v = true) :
    PendingVersion.position v = id.val := by
  simp only [keyedAs, Bool.and_eq_true, Bool.not_eq_true'] at h
  obtain ⟨key, hkey, rfl⟩ := loadsAs_iff.1 h.1
  exact PendingVersion.position_of_recordId? (KeySetPlan.recordId?_of_load hkey h.2)

theorem position_of_listedAs {id : KeyId} {v : Json} (h : listedAs id v = true) :
    PendingVersion.position v = 9223372036854775807 := by
  simp only [listedAs, Bool.and_eq_true] at h
  exact PendingVersion.position_array h.2

end KeySet

namespace PendingVersion

/-- The order of stored records. -/
def before (a b : Json) : Bool := position a ≤ position b

theorem before_trans (a b c : Json) (hab : before a b) (hbc : before b c) : before a c := by
  simp only [before, decide_eq_true_eq] at *
  omega

theorem before_total (a b : Json) : before a b || before b a := by
  simp only [before, Bool.or_eq_true, decide_eq_true_eq]
  omega

/-- Sorting keeps the order of the objects with one number and of the arrays, and puts the arrays
behind. -/
theorem filter_sorted (id : KeyId) (records : List Json) :
    (records.mergeSort before).filter (KeySet.loadsAs id) =
      records.filter (KeySet.keyedAs id) ++ records.filter (KeySet.listedAs id) := by
  have hkeyed := filter_mergeSort_of_level before_trans before_total
    (fun a b (ha : KeySet.keyedAs id a = true) (hb : KeySet.keyedAs id b = true) => by
      rw [before, KeySet.position_of_keyedAs ha, KeySet.position_of_keyedAs hb]
      simp) records
  have hlisted := filter_mergeSort_of_level before_trans before_total
    (fun a b (ha : KeySet.listedAs id a = true) (hb : KeySet.listedAs id b = true) => by
      rw [before, KeySet.position_of_listedAs ha, KeySet.position_of_listedAs hb]
      simp) records
  have hsorted := List.pairwise_mergeSort before_trans before_total records
  have horder : (records.mergeSort before).Pairwise fun a b =>
      KeySet.listedAs id a = true → KeySet.keyedAs id b = false := by
    apply hsorted.imp
    intro a b hab ha
    by_contra hb
    rw [Bool.not_eq_false] at hb
    rw [before, KeySet.position_of_listedAs ha, KeySet.position_of_keyedAs hb] at hab
    have := id.lt_upper
    simp only [decide_eq_true_eq] at hab
    omega
  have hexclusive : ∀ v, KeySet.keyedAs id v = true → KeySet.listedAs id v = false := by
    intro v hv
    simp only [KeySet.keyedAs, Bool.and_eq_true, Bool.not_eq_true'] at hv
    rw [KeySet.listedAs, hv.2, Bool.and_false]
  have hsplit := filter_or_of_pairwise horder hexclusive
  have hloads : KeySet.loadsAs id = fun v => KeySet.keyedAs id v || KeySet.listedAs id v := by
    funext v
    exact KeySet.loadsAs_eq id v
  rw [hloads, hsplit, hkeyed, hlisted]

/-- The versions that only the arrays among the records give. -/
def listed (pending : PendingVersion) : KeySet :=
  KeySet.ofData ⟨pending.data.activeId, pending.data.records.filter Json.isArray⟩

/-- The loaded arrays have other numbers than the new version, and each of them is the version with
its number already. -/
def ListedAgree (pending : PendingVersion) : Prop :=
  ∀ id key, pending.listed.version? id = some key →
    id ≠ pending.id ∧ (KeySet.ofData pending.data).version? id = some key

theorem version?_listed (pending : PendingVersion) (id : KeyId) :
    pending.listed.version? id =
      (pending.data.records.filter (KeySet.listedAs id)).getLast?.bind KeySet.loadRecord? := by
  rw [listed, KeySet.version?_ofData, KeySet.lastVersion?, List.filter_filter]
  rfl

/-- The version that the objects among some records give. -/
def keyedVersion? (id : KeyId) (records : List Json) : Option Key :=
  (records.filter (KeySet.keyedAs id)).getLast?.bind KeySet.loadRecord?

theorem isSome_getLast_load {p : Json → Bool} {id : KeyId}
    (hp : ∀ v, p v = true → KeySet.loadsAs id v = true) {records : List Json}
    (h : (records.filter p).getLast?.bind KeySet.loadRecord? = none) : records.filter p = [] := by
  by_contra hne
  obtain ⟨last, hlast⟩ := Option.isSome_iff_exists.1 (List.getLast?_isSome.2 hne)
  have hlastp := (List.mem_filter.1 (List.mem_of_getLast? hlast)).2
  obtain ⟨key, hkey, -⟩ := KeySet.loadsAs_iff.1 (hp last hlastp)
  rw [hlast, Option.bind_some, hkey] at h
  cases h

theorem loadsAs_of_listedAs {id : KeyId} {v : Json} (h : KeySet.listedAs id v = true) :
    KeySet.loadsAs id v = true := by
  rw [KeySet.loadsAs_eq, h, Bool.or_true]

/-- Without an array that loads under a number the objects give the version. -/
theorem version?_of_listed_none {pending : PendingVersion} {id : KeyId}
    (h : pending.listed.version? id = none) :
    (KeySet.ofData pending.data).version? id = keyedVersion? id pending.data.records := by
  rw [version?_listed] at h
  have hnil := isSome_getLast_load (fun v hv => loadsAs_of_listedAs hv) h
  have hfilter : pending.data.records.filter (KeySet.loadsAs id) =
      pending.data.records.filter (KeySet.keyedAs id) := by
    apply List.filter_congr
    intro v hv
    have hnot : ¬ KeySet.listedAs id v = true := List.filter_eq_nil_iff.1 hnil v hv
    rw [KeySet.loadsAs_eq, Bool.eq_false_iff.2 hnot, Bool.or_false]
  rw [KeySet.version?_ofData, KeySet.lastVersion?, hfilter, keyedVersion?]

/-- A version that an array gives is some version of the whole set. -/
theorem isSome_version?_of_listed {pending : PendingVersion} {id : KeyId} {key : Key}
    (h : pending.listed.version? id = some key) :
    (KeySet.ofData pending.data).version? id ≠ none := by
  intro hnone
  rw [KeySet.version?_ofData, KeySet.lastVersion?_eq_none_iff] at hnone
  rw [version?_listed, Option.bind_eq_some_iff] at h
  obtain ⟨v, hv, -⟩ := h
  obtain ⟨hmem, hlisted⟩ := List.mem_filter.1 (List.mem_of_getLast? hv)
  have hloads := loadsAs_of_listedAs hlisted
  rw [hnone v hmem] at hloads
  cases hloads

/-! ## The finished set -/

variable {record : KeyRecord} {key : Key}

/-- The records of the set with one more. -/
def extended (pending : PendingVersion) (record : KeyRecord) : List Json :=
  pending.data.records ++ [record.toJson.sorted]

theorem place_eq (records : List Json) (record : KeyRecord) :
    place records record = (records ++ [record.toJson.sorted]).mergeSort before := rfl

theorem isArray_toJson (record : KeyRecord) : record.toJson.sorted.isArray = false := by
  rw [KeyRecord.sorted_toJson]
  rfl

theorem loadsAs_toJson (hload : Key.load record = .ok key) (id : KeyId) :
    KeySet.loadsAs id record.toJson.sorted = decide (record.id = id) := by
  rw [KeySet.loadsAs, KeySet.loadRecord?_toJson, hload]
  simp [Except.toOption, Key.id, Key.record_of_load hload]

/-- In the finished set an array comes first, then the new record, then the objects. -/
theorem version?_place (pending : PendingVersion) (hload : Key.load record = .ok key) (id : KeyId) :
    KeySet.lastVersion? id (place pending.data.records record) =
      (pending.listed.version? id).or
        (if record.id = id then some key else keyedVersion? id pending.data.records) := by
  have hlisted : (pending.extended record).filter (KeySet.listedAs id) =
      pending.data.records.filter (KeySet.listedAs id) := by
    rw [extended, List.filter_append]
    simp [KeySet.listedAs, isArray_toJson]
  have hkeyed : (pending.extended record).filter (KeySet.keyedAs id) =
      pending.data.records.filter (KeySet.keyedAs id) ++
        if record.id = id then [record.toJson.sorted] else [] := by
    rw [extended, List.filter_append]
    by_cases hid : record.id = id
    · simp [KeySet.keyedAs, isArray_toJson, loadsAs_toJson hload, hid]
    · simp [KeySet.keyedAs, isArray_toJson, loadsAs_toJson hload, hid]
  have hkey : KeySet.loadRecord? record.toJson.sorted = some key := by
    rw [KeySet.loadRecord?_toJson, hload]
    rfl
  have hsorted := filter_sorted id (pending.extended record)
  rw [hlisted, hkeyed] at hsorted
  rw [place_eq, KeySet.lastVersion?]
  rw [extended] at hsorted
  rw [hsorted, List.getLast?_append, version?_listed]
  cases hl : (pending.data.records.filter (KeySet.listedAs id)).getLast? with
  | some v =>
    have hv := (List.mem_filter.1 (List.mem_of_getLast? hl)).2
    obtain ⟨k, hk, -⟩ := KeySet.loadsAs_iff.1 (loadsAs_of_listedAs hv)
    rw [Option.some_or, Option.bind_some, hk, Option.some_or]
  | none =>
    rw [Option.none_or, Option.bind_none, Option.none_or]
    by_cases hid : record.id = id
    · rw [if_pos hid, if_pos hid, List.getLast?_append]
      exact hkey
    · rw [if_neg hid, if_neg hid, List.append_nil, keyedVersion?]

/-- The bytes of a finished set are read as the set with one more version. -/
theorem ofBytes?_finish {pending : PendingVersion} (hdata : pending.data.Stored)
    {material : KeyRecord} (hkind : material.keyType = pending.keyType) :
    ∃ bytes, pending.finish material = .ok bytes ∧ KeySetData.ofBytes? bytes =
      some ⟨pending.id, (place pending.data.records { material with id := pending.id }).map
        Json.reread⟩ := by
  have hstored : KeySetData.Stored ⟨pending.id,
      place pending.data.records { material with id := pending.id }⟩ := by
    intro v hv
    rw [place_eq, List.mem_mergeSort, List.mem_append, List.mem_singleton] at hv
    rcases hv with hv | rfl
    · exact hdata v hv
    · exact ⟨KeyRecord.storable_toJson _, KeyRecord.canonical_toJson _⟩
  refine ⟨_, ?_, KeySetData.ofBytes?_toBytes hstored⟩
  rw [finish, if_neg (not_not.2 hkind)]

/-- The finished set has the new number active and holds the new record. -/
theorem finish_spec {pending : PendingVersion} (hdata : pending.data.Stored) {material : KeyRecord}
    (hkind : material.keyType = pending.keyType)
    (hload : Key.load { material with id := pending.id } = .ok key) :
    ∃ bytes data, pending.finish material = .ok bytes ∧ KeySetData.ofBytes? bytes = some data ∧
      data.activeId = pending.id ∧
      ({ material with id := pending.id } : KeyRecord).toJson.sorted ∈ data.records ∧
      ∀ id, (KeySet.ofData data).version? id = (pending.listed.version? id).or
        (if pending.id = id then some key else keyedVersion? id pending.data.records) := by
  obtain ⟨bytes, hfinish, hread⟩ := ofBytes?_finish hdata hkind
  refine ⟨bytes, _, hfinish, hread, rfl, ?_, ?_⟩
  · rw [List.mem_map]
    refine ⟨_, ?_, KeyRecord.reread_toJson _⟩
    rw [place_eq, List.mem_mergeSort]
    simp
  · intro id
    rw [KeySet.version?_ofData, KeySet.lastVersion?_reread]
    exact version?_place pending hload id

/-- The next plan keeps a version that was just added. -/
theorem make_of_added {name : KeySetName} {bytes : Bytes} {data : KeySetData}
    (hread : KeySetData.ofBytes? bytes = some data) {id : KeyId} (hactive : data.activeId = id)
    (hpos : 0 < id.val) (hmem : record.toJson.sorted ∈ data.records) (hid : record.id = id)
    (hload : Key.load record = .ok key) (keyType : KeyType) :
    KeySetPlan.make name (some bytes) keyType false = .ok (.unchanged id) := by
  have hkey : KeySet.loadRecord? record.toJson.sorted = some key := by
    rw [KeySet.loadRecord?_toJson, hload]
    rfl
  have hkeyId : key.id = id := by rw [Key.id, Key.record_of_load hload, hid]
  rw [← hactive]
  apply KeySetPlan.make_of_active hread
  apply KeySetPlan.isSome_activeType? hmem hkey (hkeyId.trans hactive.symm)
  rw [hkeyId]
  exact hpos

end PendingVersion

/-! ## Lossless rotation -/

/-- A set is another one with one more version, which is active. -/
structure KeySet.Extends (after before : KeySet) (record : KeyRecord) : Prop where
  active : after.activeId = record.id
  added : (after.version? record.id).map Key.record = some record
  kept : ∀ id, id ≠ record.id → after.version? id = before.version? id

/-- What a plan for a new version owes to the set that is stored: the number is new, and the written
bytes give the set with the material under that number, which the next plan finds active. -/
structure PendingVersion.Lossless (pending : PendingVersion) (name : KeySetName)
    (stored : Option Bytes) (material : KeyRecord) : Prop where
  positive : 1 ≤ pending.id.val
  fresh : (KeySet.ofStored stored).version? pending.id = none
  finished : ∃ bytes after, pending.finish material = .ok bytes ∧
    KeySet.ofBytes? bytes = some after ∧
    after.Extends (KeySet.ofStored stored) { material with id := pending.id } ∧
    ∀ keyType, KeySetPlan.make name (some bytes) keyType false = .ok (.unchanged pending.id)

theorem KeySet.ofStored_eq {stored : Option Bytes} {data : KeySetData}
    (h : KeySetData.ofStored? stored = some data) : ofStored stored = ofData data := by
  cases stored with
  | none =>
    rw [← Option.some.inj h]
    rfl
  | some bytes =>
    have hbytes : KeySetData.ofBytes? bytes = some data := h
    rw [ofStored, Option.bind_some, ofBytes?, hbytes]
    rfl

/-- The number of a plan is the number of no object. -/
theorem PendingVersion.keyedVersion?_of_maxId {records : List Json} {id : KeyId}
    (h : id.val = KeySetPlan.maxId records + 1) : keyedVersion? id records = none := by
  have hnil : records.filter (KeySet.keyedAs id) = [] := by
    rw [List.filter_eq_nil_iff]
    intro v hv hkeyed
    have hposition := hkeyed
    simp only [KeySet.keyedAs, Bool.and_eq_true, Bool.not_eq_true'] at hposition
    obtain ⟨key, hkey, rfl⟩ := KeySet.loadsAs_iff.1 hposition.1
    have hid := KeySetPlan.recordId?_of_load hkey hposition.2
    have := KeySetPlan.recordId?_le_maxId hv hid
    omega
  rw [keyedVersion?, hnil]
  rfl

/-- A write that adds a version loses nothing and takes a new number, whatever is stored, just if
the records that are written as arrays agree with the others. -/
theorem PendingVersion.lossless_iff_listedAgree {name : KeySetName} {stored : Option Bytes}
    {keyType : KeyType} {rotate : Bool} {pending : PendingVersion}
    (hplan : KeySetPlan.make name stored keyType rotate = .ok (.needsVersion pending))
    {material : KeyRecord} (hkind : material.keyType = keyType) {key : Key}
    (hload : Key.load material = .ok key) :
    pending.Lossless name stored material ↔ pending.ListedAgree := by
  obtain ⟨data, hdata, hcases⟩ := KeySetPlan.make_ok_cases hplan
  rcases hcases with ⟨-, -, hunchanged⟩ | ⟨id, hid, -, hneeds⟩
  · cases hunchanged
  obtain rfl : pending = ⟨data, id, keyType⟩ := KeySetPlan.needsVersion.inj hneeds
  have hbefore := KeySet.ofStored_eq hdata
  have hpos : 0 < id.val := by
    have := KeySetPlan.maxId_nonneg data.records
    omega
  have hstored : (⟨data, id, keyType⟩ : PendingVersion).data.Stored :=
    KeySetData.stored_ofStored? hdata
  obtain ⟨key', hload', hrecord⟩ := Key.load_withId hload id
  obtain ⟨bytes, next, hfinish, hread, hactive, hmem, hversion⟩ := finish_spec hstored hkind hload'
  have hafter : KeySet.ofBytes? bytes = some (KeySet.ofData next) := by
    rw [KeySet.ofBytes?, hread]
    rfl
  constructor
  · rintro ⟨-, hfresh, bytes', after, hfinish', hafter', hextends, -⟩ other k hk
    have hne : other ≠ id := by
      rintro rfl
      rw [hbefore] at hfresh
      exact isSome_version?_of_listed hk hfresh
    refine ⟨hne, ?_⟩
    rw [hfinish, Except.ok.injEq] at hfinish'
    rw [← hfinish', hafter, Option.some.injEq] at hafter'
    have hkept := hextends.kept other hne
    rw [← hafter', hversion, hk, Option.some_or, hbefore] at hkept
    exact hkept.symm
  · intro hagree
    have hnone : (⟨data, id, keyType⟩ : PendingVersion).listed.version? id = none := by
      by_contra hne
      obtain ⟨k, hk⟩ := Option.ne_none_iff_exists'.1 hne
      exact (hagree id k hk).1 rfl
    refine ⟨hpos, ?_, bytes, _, hfinish, hafter, ⟨?_, ?_, ?_⟩, ?_⟩
    · rw [hbefore]
      exact (version?_of_listed_none hnone).trans (keyedVersion?_of_maxId hid)
    · exact (KeySet.activeId_ofData next).trans hactive
    · rw [hversion, hnone, Option.none_or, if_pos rfl, Option.map_some, hrecord]
    · intro other hne
      rw [hversion, if_neg (Ne.symm hne), hbefore]
      cases hk : (⟨data, id, keyType⟩ : PendingVersion).listed.version? other with
      | some k => exact (hagree other k hk).2.symm
      | none => exact (version?_of_listed_none hk).symm
    · exact make_of_added hread hactive hpos hmem rfl hload'

def KeyId.first : KeyId := ⟨1, by decide, by decide⟩

def KeySetName.sample : KeySetName := ⟨"s", by decide, by decide, by decide⟩

def KeyRecord.zeros : KeyRecord :=
  ⟨.none, .symmetricAead, List.replicate 32 0, ⟨9, by decide, by decide⟩⟩

def KeyRecord.filled (id : KeyId) (b : UInt8) : KeyRecord :=
  ⟨id, .symmetricAead, List.replicate 32 b, ⟨9, by decide, by decide⟩⟩

/-- A filled record as it is stored. -/
def Json.filledRecord (id : KeyId) (b : UInt8) : Json :=
  .object [("created_at", .int 9), ("id", .int id.val),
    ("secret", Json.base64 (List.replicate 32 b)), ("type", .string "symmetric_aead")]

/-- Version 3 of the set below, written as an array of its fields. -/
def Json.thirdArray : Json :=
  .array [.int 3, .string "symmetric_aead", Json.base64 (List.replicate 32 4), .int 9]

/-- A set with three versions and a record that is none. Version 4 is there twice, and version 3 is
written as an array. -/
def KeySetData.assorted : KeySetData :=
  ⟨⟨4, by decide, by decide⟩,
    [.filledRecord .first 1, .filledRecord ⟨4, by decide, by decide⟩ 2, .object [("id", .int 7)],
      .filledRecord ⟨4, by decide, by decide⟩ 3, .thirdArray]⟩

theorem KeySetData.stored_assorted : assorted.Stored := by
  have hfilled : ∀ id b, (Json.filledRecord id b).Storable ∧
      (Json.filledRecord id b).Canonical recordDepth := by
    intro id b
    have hsorted : (KeyRecord.filled id b).toJson.sorted = .filledRecord id b :=
      KeyRecord.sorted_toJson _
    exact ⟨hsorted ▸ KeyRecord.storable_toJson _, hsorted ▸ KeyRecord.canonical_toJson _⟩
  simp only [Stored, assorted, List.forall_mem_cons]
  refine ⟨hfilled _ _, hfilled _ _, ?_, hfilled _ _, ?_, List.forall_mem_nil _⟩
  · simp [Json.Storable, Json.StorableMembers, Json.int, Json.Number.Storable, Json.Number.IsWord,
      Json.Canonical, Json.Ascending, Json.CanonicalMembers, recordDepth]
  · simp [Json.thirdArray, Json.Storable, Json.StorableItems, Json.int, Json.base64,
      Json.Number.Storable, Json.Number.IsWord, Json.Canonical, Json.CanonicalItems, recordDepth]

/-- A rotation of that set takes the number after the greatest one and loses nothing. -/
theorem PendingVersion.lossless_assorted :
    ∃ id : KeyId, id.val = 8 ∧
      KeySetPlan.make .sample (some KeySetData.assorted.toBytes) .symmetricAead true =
        .ok (.needsVersion ⟨.assorted, id, .symmetricAead⟩) ∧
      KeyRecord.zeros.keyType = .symmetricAead ∧
      (∃ key, Key.load KeyRecord.zeros = .ok key) ∧
      PendingVersion.Lossless ⟨.assorted, id, .symmetricAead⟩ .sample
        (some KeySetData.assorted.toBytes) .zeros := by
  have hread : KeySetData.ofBytes? KeySetData.assorted.toBytes = some .assorted :=
    KeySetData.ofBytes?_toBytes KeySetData.stored_assorted
  have hactive : KeySetPlan.activeType? .assorted = some .symmetricAead := rfl
  have hplan : KeySetPlan.make .sample (some KeySetData.assorted.toBytes) .symmetricAead true =
      .ok (.needsVersion ⟨.assorted, ⟨8, by decide, by decide⟩, .symmetricAead⟩) := by
    simp only [KeySetPlan.make, Option.elim_some, KeySetData.ofBytes, hread, hactive]
    rfl
  have hload : Key.load KeyRecord.zeros = .ok (.aead ⟨.zeros, rfl, by decide⟩) :=
    Key.load_record (.aead ⟨.zeros, rfl, by decide⟩)
  refine ⟨_, rfl, hplan, rfl, ⟨_, hload⟩, (lossless_iff_listedAgree hplan rfl hload).2 ?_⟩
  -- the only array gives version 3, which no object gives
  obtain ⟨third, hthird, hid, hversion⟩ : ∃ third, KeySet.loadRecord? .thirdArray = some third ∧
      third.id = ⟨3, by decide, by decide⟩ ∧
      (KeySet.ofData .assorted).version? ⟨3, by decide, by decide⟩ = some third :=
    ⟨_, rfl, rfl, rfl⟩
  intro id key hkey
  have hlisted : KeySet.lastVersion? id [.thirdArray] = some key := by
    rwa [listed, KeySet.version?_ofData] at hkey
  rw [KeySet.lastVersion?_singleton] at hlisted
  split at hlisted
  next hloads =>
    obtain ⟨key', hkey', rfl⟩ := KeySet.loadsAs_iff.1 hloads
    obtain rfl : key' = third := Option.some.inj (hkey'.symm.trans hthird)
    obtain rfl : key' = key := Option.some.inj (hthird.symm.trans hlisted)
    rw [hid]
    exact ⟨by decide, hversion⟩
  next => cases hlisted

/-- A set whose active version is written as an array of its fields. -/
def KeySetData.listedFirst : KeySetData :=
  ⟨.first, [.array [.int 1, .string "symmetric_aead", Json.base64 (List.replicate 32 0), .int 9]]⟩

theorem KeySetData.stored_listedFirst : listedFirst.Stored := by
  intro v hv
  simp only [listedFirst, List.mem_singleton] at hv
  subst hv
  constructor
  · simp [Json.Storable, Json.StorableItems, Json.int, Json.base64, Json.Number.Storable,
      Json.Number.IsWord]
  · simp [Json.Canonical, Json.CanonicalItems, Json.int, Json.base64, recordDepth]

/-- A rotation of such a set takes the number that its version has. -/
theorem PendingVersion.not_lossless_listedFirst :
    KeySetPlan.make .sample (some KeySetData.listedFirst.toBytes) .symmetricAead true =
        .ok (.needsVersion ⟨.listedFirst, .first, .symmetricAead⟩) ∧
      KeyRecord.zeros.keyType = .symmetricAead ∧
      (∃ key, Key.load KeyRecord.zeros = .ok key) ∧
      ¬ PendingVersion.Lossless ⟨.listedFirst, .first, .symmetricAead⟩ .sample
        (some KeySetData.listedFirst.toBytes) .zeros := by
  have hread : KeySetData.ofBytes? KeySetData.listedFirst.toBytes = some .listedFirst :=
    KeySetData.ofBytes?_toBytes KeySetData.stored_listedFirst
  have hactive : KeySetPlan.activeType? .listedFirst = some .symmetricAead := rfl
  have hload : Key.load KeyRecord.zeros = .ok (.aead ⟨.zeros, rfl, by decide⟩) :=
    Key.load_record (.aead ⟨.zeros, rfl, by decide⟩)
  refine ⟨?_, rfl, ⟨_, hload⟩, ?_⟩
  · simp only [KeySetPlan.make, Option.elim_some, KeySetData.ofBytes, hread, hactive]
    rfl
  · intro hlossless
    have hloaded : (KeySet.ofData .listedFirst).version? .first ≠ none := by decide
    have hstored : KeySetData.ofStored? (some KeySetData.listedFirst.toBytes) =
        some .listedFirst := by
      rw [KeySetData.ofStored?, Option.elim_some, hread]
    have hbefore := KeySet.ofStored_eq hstored
    have hfresh := hlossless.fresh
    rw [hbefore] at hfresh
    exact hloaded hfresh

end Keyring
