import Keyring.Proofs.Json.Wholeness
import Keyring.Proofs.KeySet.Decisions

/-!
# Damage to stored key sets

An object gives the key set of a name what the field of that name stores, and no other field
matters to it. Within a stored set a value from which no key can be loaded is left out, wherever it
stands. Only a record that has no value at all is not left out: the whole set is lost with it.
-/
namespace Keyring

/-! ## Names -/

namespace KeySetName

/-- An ASCII letter or digit, a hyphen or an underscore. -/
def Plain (c : Char) : Prop :=
  ('a' ≤ c ∧ c ≤ 'z') ∨ ('A' ≤ c ∧ c ≤ 'Z') ∨ ('0' ≤ c ∧ c ≤ '9') ∨ c = '-' ∨ c = '_'

/-- A text of 1 to 200 plain characters. -/
structure Spelled (text : String) : Prop where
  pos : 1 ≤ text.length
  short : text.length ≤ 200
  plain : ∀ c ∈ text.toList, Plain c

theorem isPlain_iff {c : Char} : isPlain c = true ↔ Plain c := by
  delta isPlain Char.isAlphanum Char.isAlpha Char.isUpper Char.isLower Char.isDigit
  simp only [Bool.or_eq_true, Bool.and_eq_true, decide_eq_true_eq, beq_iff_eq, Plain, Char.le_def]
  tauto

theorem utf8Size_of_plain {c : Char} (h : Plain c) : c.utf8Size = 1 := by
  have hz : 'z'.val.toNat = 122 := rfl
  have hZ : 'Z'.val.toNat = 90 := rfl
  have h9 : '9'.val.toNat = 57 := rfl
  rw [Char.utf8Size_eq_one_iff, UInt32.le_iff_toNat_le]
  simp only [Plain, Char.le_def, UInt32.le_iff_toNat_le] at h
  rcases h with ⟨-, h⟩ | ⟨-, h⟩ | ⟨-, h⟩ | rfl | rfl
  · exact h.trans (by decide)
  · exact h.trans (by decide)
  · exact h.trans (by decide)
  · decide
  · decide

/-- A plain text has as many bytes as characters. -/
theorem utf8ByteSize_of_plain {text : String} (h : ∀ c ∈ text.toList, Plain c) :
    text.utf8ByteSize = text.length := by
  have hlist : ∀ cs : List Char, (∀ c ∈ cs, Plain c) →
      (String.ofList cs).utf8ByteSize = cs.length := by
    intro cs
    induction cs with
    | nil => exact fun _ => rfl
    | cons c rest ih =>
      intro hplain
      obtain ⟨hc, hrest⟩ := List.forall_mem_cons.1 hplain
      rw [String.ofList_cons, String.utf8ByteSize_append, String.utf8ByteSize_singleton,
        ih hrest, utf8Size_of_plain hc, List.length_cons, Nat.add_comm]
  rw [← String.length_toList, ← hlist _ h, String.ofList_toList]

/-- A text is a name exactly if it is spelled as one. -/
theorem exists_name_iff {text : String} :
    (∃ name : KeySetName, name.text = text) ↔ Spelled text := by
  constructor
  · rintro ⟨name, rfl⟩
    have hplain : ∀ c ∈ name.text.toList, Plain c := fun c hc =>
      isPlain_iff.1 (List.all_eq_true.1 name.plain c hc)
    have hsize := utf8ByteSize_of_plain hplain
    have hshort := name.short
    refine ⟨?_, by omega, hplain⟩
    rw [Nat.one_le_iff_ne_zero]
    intro hzero
    exact name.nonempty (String.toList_eq_nil_iff.1 (List.length_eq_zero_iff.1 hzero))
  · intro h
    have hsize := utf8ByteSize_of_plain h.plain
    have hshort := h.short
    refine ⟨⟨text, ?_, by omega, List.all_eq_true.2 fun c hc => isPlain_iff.2 (h.plain c hc)⟩, rfl⟩
    rintro rfl
    exact absurd h.pos (by decide)

/-- The field of a name is the name behind the fixed beginning. -/
theorem field_eq (name : KeySetName) : name.field = "keyset." ++ name.text := by
  apply String.toList_inj.1
  rw [field, String.toList_ofList, String.toList_append]
  rfl

end KeySetName

/-! ## Fields -/

namespace KeySets

/-- The key set of a name is the one that the field of the name stores. -/
theorem get?_ofObject (object : StoredObject) (name : KeySetName) :
    (ofObject object).get? name.text = (object.data.get? name.field).bind KeySet.ofBytes? := by
  apply Option.ext
  intro keySet
  rw [get?_ofObject_eq_some_iff]
  constructor
  · rintro ⟨other, hother, hget⟩
    rwa [KeySetName.ext_text hother] at hget
  · exact fun hget => ⟨name, rfl, hget⟩

/-- A text that is no name has no key set. -/
theorem get?_ofObject_of_not_spelled (object : StoredObject) {text : String}
    (h : ¬ KeySetName.Spelled text) : (ofObject object).get? text = none := by
  rw [Option.eq_none_iff_forall_ne_some]
  intro keySet hget
  obtain ⟨name, hname, -⟩ := get?_ofObject_eq_some_iff.1 hget
  exact h (KeySetName.exists_name_iff.1 ⟨name, hname⟩)

/-- Objects that agree on the fields of all names have the same key sets. -/
theorem ofObject_congr {object other : StoredObject}
    (h : ∀ name : KeySetName, object.data.get? name.field = other.data.get? name.field) :
    ofObject object = ofObject other := by
  apply SortedMap.ext_get?
  intro text
  by_cases hspelled : KeySetName.Spelled text
  · obtain ⟨name, rfl⟩ := KeySetName.exists_name_iff.2 hspelled
    rw [get?_ofObject, get?_ofObject, h]
  · rw [get?_ofObject_of_not_spelled object hspelled, get?_ofObject_of_not_spelled other hspelled]

end KeySets

/-! ## Added items -/

/-- A list with further items put in between, the further items being listed on their own. -/
inductive Inserted {α : Type} : (added before after : List α) → Prop
  | nil : Inserted [] [] []
  | keep (item : α) {added before after : List α} (h : Inserted added before after) :
    Inserted added (item :: before) (item :: after)
  | add (item : α) {added before after : List α} (h : Inserted added before after) :
    Inserted (item :: added) before (item :: after)

namespace Inserted

variable {α β : Type} {f : α → Option β} {added before after : List α}

/-- If all items can be read, so can the list with the further items. -/
theorem mapM_some (h : Inserted added before after) {news olds : List β}
    (hadded : added.mapM f = some news) (hbefore : before.mapM f = some olds) :
    ∃ all, after.mapM f = some all ∧ Inserted news olds all := by
  induction h generalizing news olds with
  | nil =>
    cases hadded
    cases hbefore
    exact ⟨[], rfl, .nil⟩
  | keep item _ ih =>
    simp only [List.mapM_cons, Option.bind_eq_bind, Option.bind_eq_some_iff, Option.pure_def,
      Option.some.injEq] at hbefore
    obtain ⟨value, hvalue, rest, hrest, rfl⟩ := hbefore
    obtain ⟨all, hall, hinserted⟩ := ih hadded hrest
    refine ⟨value :: all, ?_, hinserted.keep value⟩
    rw [List.mapM_cons, hvalue, hall]
    rfl
  | add item _ ih =>
    simp only [List.mapM_cons, Option.bind_eq_bind, Option.bind_eq_some_iff, Option.pure_def,
      Option.some.injEq] at hadded
    obtain ⟨value, hvalue, rest, hrest, rfl⟩ := hadded
    obtain ⟨all, hall, hinserted⟩ := ih hrest hbefore
    refine ⟨value :: all, ?_, hinserted.add value⟩
    rw [List.mapM_cons, hvalue, hall]
    rfl

theorem mem_of_mem_added (h : Inserted added before after) {item : α} (hitem : item ∈ added) :
    item ∈ after := by
  induction h with
  | nil => exact hitem
  | keep other _ ih => exact List.mem_cons_of_mem other (ih hitem)
  | add other _ ih =>
    rcases List.mem_cons.1 hitem with rfl | hrest
    · exact List.mem_cons_self
    · exact List.mem_cons_of_mem other (ih hrest)

theorem mem_of_mem_before (h : Inserted added before after) {item : α} (hitem : item ∈ before) :
    item ∈ after := by
  induction h with
  | nil => exact hitem
  | keep other _ ih =>
    rcases List.mem_cons.1 hitem with rfl | hrest
    · exact List.mem_cons_self
    · exact List.mem_cons_of_mem other (ih hrest)
  | add other _ ih => exact List.mem_cons_of_mem other (ih hitem)

/-- Further steps that change nothing may be left out. -/
theorem foldl_eq {σ : Type} {step : σ → α → σ} (h : Inserted added before after)
    (hidle : ∀ item ∈ added, ∀ s, step s item = s) (s : σ) :
    after.foldl step s = before.foldl step s := by
  induction h generalizing s with
  | nil => rfl
  | keep item _ ih => exact ih hidle (step s item)
  | add item _ ih =>
    obtain ⟨hitem, hrest⟩ := List.forall_mem_cons.1 hidle
    rw [List.foldl_cons, hitem, ih hrest]

end Inserted

theorem isSome_mapM_iff {α β : Type} {f : α → Option β} {items : List α} :
    (items.mapM f).isSome = true ↔ ∀ item ∈ items, (f item).isSome = true := by
  induction items with
  | nil => simp
  | cons item rest ih =>
    rw [List.forall_mem_cons, ← ih, List.mapM_cons]
    cases f item <;> cases rest.mapM f <;> simp

theorem exists_of_mem_mapM {α β : Type} {f : α → Option β} {items : List α} {values : List β}
    (h : items.mapM f = some values) : ∀ value ∈ values, ∃ item ∈ items, f item = some value := by
  induction items generalizing values with
  | nil =>
    cases h
    intro value hvalue
    cases hvalue
  | cons item rest ih =>
    simp only [List.mapM_cons, Option.bind_eq_bind, Option.bind_eq_some_iff, Option.pure_def,
      Option.some.injEq] at h
    obtain ⟨first, hfirst, others, hothers, rfl⟩ := h
    refine List.forall_mem_cons.2 ⟨⟨item, List.mem_cons_self, hfirst⟩, fun value hvalue => ?_⟩
    obtain ⟨source, hsource, hread⟩ := ih hothers value hvalue
    exact ⟨source, List.mem_cons_of_mem item hsource, hread⟩

/-! ## Arrays of keys -/

namespace Json.Tree

/-- Two trees of one key set that differ in the array of its keys at most. -/
inductive SameButKeys (items items' : List Tree) : Tree → Tree → Prop
  | object (before after : List (Option String × Tree)) :
    SameButKeys items items' (.object (before ++ (some "keys", .array items) :: after))
      (.object (before ++ (some "keys", .array items') :: after))
  | array (activeId : Tree) (rest : List Tree) :
    SameButKeys items items' (.array (activeId :: .array items :: rest))
      (.array (activeId :: .array items' :: rest))

/-- The members after one that is known, if they can be told apart from it. -/
theorem knownMembers?_cons {names : List String} {key : String}
    (hkey : names.contains key = true) (value : Tree) {rest : List (Option String × Tree)}
    {known : List (String × Tree)} (hrest : knownMembers? names rest = some known) :
    knownMembers? names ((some key, value) :: rest) =
      if known.any (fun m => m.1 == key) then none else some ((key, value) :: known) := by
  rw [knownMembers?, hrest]
  simp only [hkey, Bool.not_true, Bool.false_eq_true, if_false]

/-- Which keys there are does not depend on the values. -/
theorem any_key_around (front back : List (String × Tree)) (key other : String) (value : Tree) :
    (front ++ (key, value) :: back).any (fun m => m.1 == other) =
      (key == other || (front ++ back).any fun m => m.1 == other) := by
  rw [List.any_append, List.any_cons, List.any_append, Bool.or_left_comm]

/-- Which members of an object are known, and whether they can be told apart, does not depend on
the value of one of them. -/
theorem knownMembers?_around {names : List String} {key : String}
    (hkey : names.contains key = true) (before after : List (Option String × Tree)) :
    (∀ value, knownMembers? names (before ++ (some key, value) :: after) = none) ∨
      ∃ front back : List (String × Tree), (∀ m ∈ front, m.1 ≠ key) ∧
        ∀ value, knownMembers? names (before ++ (some key, value) :: after) =
          some (front ++ (key, value) :: back) := by
  induction before with
  | nil =>
    cases hafter : knownMembers? names after with
    | none => exact Or.inl fun value => by rw [List.nil_append, knownMembers?, hafter]
    | some known =>
      cases hrepeated : known.any fun m => m.1 == key with
      | true =>
        left
        intro value
        rw [List.nil_append, knownMembers?_cons hkey value hafter, hrepeated, if_pos rfl]
      | false =>
        refine Or.inr ⟨[], known, fun m hm => absurd hm List.not_mem_nil, fun value => ?_⟩
        rw [List.nil_append, knownMembers?_cons hkey value hafter, hrepeated]
        rfl
  | cons m rest ih =>
    obtain ⟨other, tree⟩ := m
    cases other with
    | none => exact Or.inl fun value => rfl
    | some other =>
      rcases ih with hnone | ⟨front, back, hfront, hknown⟩
      · exact Or.inl fun value => by rw [List.cons_append, knownMembers?, hnone]
      by_cases hother : names.contains other = true
      · cases hrepeated : (key == other || (front ++ back).any fun m => m.1 == other) with
        | true =>
          left
          intro value
          rw [List.cons_append, knownMembers?_cons hother tree (hknown value), any_key_around,
            hrepeated, if_pos rfl]
        | false =>
          have hne : other ≠ key := by
            rintro rfl
            simp at hrepeated
          refine Or.inr ⟨(other, tree) :: front, back, List.forall_mem_cons.2 ⟨hne, hfront⟩, ?_⟩
          intro value
          rw [List.cons_append, knownMembers?_cons hother tree (hknown value), any_key_around,
            hrepeated]
          rfl
      · refine Or.inr ⟨front, back, hfront, fun value => ?_⟩
        rw [List.cons_append, knownMembers?, hknown]
        simp only [hother, Bool.not_false, if_true]

/-- Unless neither is a key set, the trees have the same active number and the given records. -/
theorem SameButKeys.fields? {items items' : List Tree} {tree tree' : Tree}
    (h : SameButKeys items items' tree tree') :
    (tree.fields? ["active_id", "keys"] = none ∧ tree'.fields? ["active_id", "keys"] = none) ∨
      ∃ fields fields' : Fields, tree.fields? ["active_id", "keys"] = some fields ∧
        tree'.fields? ["active_id", "keys"] = some fields' ∧
        fields'.get? "active_id" = fields.get? "active_id" ∧
        fields.get? "keys" = some (.array items) ∧
        fields'.get? "keys" = some (.array items') := by
  cases h with
  | object before after =>
    have hkey : ["active_id", "keys"].contains "keys" = true := by decide
    rcases knownMembers?_around hkey before after with hnone | ⟨front, back, hfront, hknown⟩
    · exact Or.inl ⟨by rw [Tree.fields?, hnone]; rfl, by rw [Tree.fields?, hnone]; rfl⟩
    · have hskip : front.find? (fun m => m.1 == "keys") = none := by
        rw [List.find?_eq_none]
        exact fun m hm => by simpa using hfront m hm
      have hkeys : ∀ value, (Fields.mk true (front ++ ("keys", value) :: back)).get? "keys" =
          some value := by
        intro value
        rw [Fields.get?, List.find?_append, hskip]
        rfl
      have hactive : ∀ value, (Fields.mk true (front ++ ("keys", value) :: back)).get?
          "active_id" = (Fields.mk true (front ++ back)).get? "active_id" := by
        simp [Fields.get?, List.find?_append]
      refine Or.inr ⟨_, _, by rw [Tree.fields?, hknown]; rfl, by rw [Tree.fields?, hknown]; rfl,
        ?_, hkeys _, hkeys _⟩
      rw [hactive, hactive]
  | array activeId rest =>
    cases rest with
    | nil => exact Or.inr ⟨_, _, rfl, rfl, rfl, rfl, rfl⟩
    | cons next more => exact Or.inl ⟨by simp [Tree.fields?], by simp [Tree.fields?]⟩

end Json.Tree

/-! ## Added records -/

namespace KeySetData

/-- A set is read from the active number and the records. -/
theorem ofTree?_eq {tree : Json.Tree} {fields : Json.Tree.Fields} {items : List Json.Tree}
    (hfields : tree.fields? ["active_id", "keys"] = some fields)
    (hkeys : fields.get? "keys" = some (.array items)) :
    ofTree? tree = (fields.orDefault? "active_id" Json.Tree.bounded? KeyId.none).bind fun id =>
      (items.mapM (Json.Tree.value? recordDepth)).bind fun records => some ⟨id, records⟩ := by
  have hrecords : fields.orDefault? "keys" (Json.Tree.array? (Json.Tree.value? recordDepth)) [] =
      items.mapM (Json.Tree.value? recordDepth) := by
    rw [Json.Tree.Fields.orDefault?, hkeys]
    rfl
  rw [ofTree?, hfields]
  simp only [Option.bind_eq_bind, Option.bind_some, hrecords, Option.pure_def]

end KeySetData

namespace KeySet

/-- A value that can be read as a record and from which a key can be loaded. -/
def Loadable (tree : Json.Tree) : Prop :=
  ∃ value key, tree.value? KeySetData.recordDepth = some value ∧ loadRecord? value = some key

variable {bytes bytes' : Bytes} {tree tree' : Json.Tree} {items items' added : List Json.Tree}

/-- Records from which no key can be loaded change nothing, if they have values. -/
theorem ofBytes?_of_inserted (hparse : Json.Tree.parse? bytes = some tree)
    (hparse' : Json.Tree.parse? bytes' = some tree')
    (hsame : Json.Tree.SameButKeys items items' tree tree')
    (hinserted : Inserted added items items') (hadded : ∀ item ∈ added, ¬ Loadable item)
    (hvalues : ∀ item ∈ added, (item.value? KeySetData.recordDepth).isSome = true) :
    ofBytes? bytes' = ofBytes? bytes := by
  rw [ofBytes?, ofBytes?, KeySetData.ofBytes?, KeySetData.ofBytes?, Json.read?, Json.read?, hparse,
    hparse', Option.bind_some, Option.bind_some]
  rcases hsame.fields? with
    ⟨hnone, hnone'⟩ | ⟨fields, fields', hread, hread', hactive, hkeys, hkeys'⟩
  · simp [KeySetData.ofTree?, hnone, hnone']
  have hhead : fields'.orDefault? "active_id" Json.Tree.bounded? KeyId.none =
      fields.orDefault? "active_id" Json.Tree.bounded? KeyId.none := by
    rw [Json.Tree.Fields.orDefault?, Json.Tree.Fields.orDefault?, hactive]
  obtain ⟨news, hnews⟩ := Option.isSome_iff_exists.1 (isSome_mapM_iff.2 hvalues)
  have hidle : ∀ value ∈ news, ∀ s : KeySet, s.addRecord value = s := by
    intro value hvalue s
    obtain ⟨item, hitem, hread⟩ := exists_of_mem_mapM hnews value hvalue
    rw [addRecord]
    cases hload : loadRecord? value with
    | none => rfl
    | some key => exact absurd ⟨value, key, hread, hload⟩ (hadded item hitem)
  rw [KeySetData.ofTree?_eq hread hkeys, KeySetData.ofTree?_eq hread' hkeys', hhead]
  cases hbefore : items.mapM (Json.Tree.value? KeySetData.recordDepth) with
  | none =>
    have hafter : items'.mapM (Json.Tree.value? KeySetData.recordDepth) = none := by
      rw [← Option.not_isSome_iff_eq_none, isSome_mapM_iff] at hbefore ⊢
      exact fun hall => hbefore fun item hitem => hall item (hinserted.mem_of_mem_before hitem)
    rw [hafter]
  | some olds =>
    obtain ⟨all, hall, hmixed⟩ := hinserted.mapM_some hnews hbefore
    rw [hall]
    cases fields.orDefault? "active_id" Json.Tree.bounded? KeyId.none with
    | none => rfl
    | some id =>
      simp only [Option.bind_some, Option.map_some, ofData]
      rw [hmixed.foldl_eq hidle]

/-- Records without a value take the whole set along. -/
theorem ofBytes?_of_inserted_unread (hparse' : Json.Tree.parse? bytes' = some tree')
    (hsame : Json.Tree.SameButKeys items items' tree tree')
    (hinserted : Inserted added items items')
    (hvalues : ¬ ∀ item ∈ added, (item.value? KeySetData.recordDepth).isSome = true) :
    ofBytes? bytes' = none := by
  -- all records are given their values before any of them is looked at
  have hafter : items'.mapM (Json.Tree.value? KeySetData.recordDepth) = none := by
    rw [← Option.not_isSome_iff_eq_none, isSome_mapM_iff]
    exact fun hall => hvalues fun item hitem => hall item (hinserted.mem_of_mem_added hitem)
  rw [ofBytes?, KeySetData.ofBytes?, Json.read?, hparse', Option.bind_some]
  rcases hsame.fields? with ⟨-, hnone'⟩ | ⟨-, fields', -, hread', -, -, hkeys'⟩
  · simp [KeySetData.ofTree?, hnone']
  · rw [KeySetData.ofTree?_eq hread' hkeys', hafter]
    cases fields'.orDefault? "active_id" Json.Tree.bounded? KeyId.none <;> rfl

end KeySet

/-! ## A damaged set -/

namespace KeySetData

/-- The record of a first version that is all zeros, as a tree. -/
def firstZerosTree : Json.Tree := KeyRecord.firstZeros.toJson.sorted.toTree

/-- The tree of a set with some records, of which the first one is active. -/
def treeOf (records : List Json.Tree) : Json.Tree :=
  .object [(some "active_id", .number (some (.int 1))), (some "keys", .array records)]

/-- The stored set of the zeros, with more text at the end of its array. -/
def zerosThen (more : String) : Bytes :=
  Bytes.ofAscii ("\x7b\"active_id\":1,\"keys\":[\x7b\"created_at\":9,\"id\":1,\"secret\":" ++
    "\"AAAAAAAAAAAAAAAAAAAAAAAAAAAAAAAAAAAAAAAAAAA=\",\"type\":\"symmetric_aead\"\x7d" ++
    more ++ "]\x7d")

set_option maxRecDepth 100000 in
theorem zerosThen_eq : zerosThen "" = (single .firstZeros).toBytes := by rfl

set_option maxRecDepth 100000 in
theorem parse?_zerosThen : Json.Tree.parse? (zerosThen "") = some (treeOf [firstZerosTree]) := by
  rfl

set_option maxRecDepth 100000 in
theorem parse?_zerosThen_null :
    Json.Tree.parse? (zerosThen ",null") = some (treeOf [firstZerosTree, .null]) := by
  rfl

/-- A record that was created at a time which is too large for any number. -/
def untimelyTree : Json.Tree :=
  .object [(some "created_at", .number none), (some "id", .number (some (.int 2))),
    (some "secret", .string (some "AAAA")), (some "type", .string (some "symmetric_aead"))]

/-- The text of that record behind another one. -/
def thenUntimely : String :=
  ",\x7b\"created_at\":1e400,\"id\":2,\"secret\":\"AAAA\",\"type\":\"symmetric_aead\"\x7d"

set_option maxRecDepth 100000 in
theorem parse?_thenUntimely : Json.Tree.parse? (zerosThen thenUntimely) =
    some (treeOf [firstZerosTree, untimelyTree]) := by
  rfl

theorem loadsActive_zerosThen : KeySet.LoadsActive (some (zerosThen "")) .first := by
  obtain ⟨key, hkey⟩ := KeyRecord.load_firstZeros
  rw [zerosThen_eq]
  exact KeySet.loadsActive_single hkey

theorem sameButKeys_treeOf (items items' : List Json.Tree) :
    Json.Tree.SameButKeys items items' (treeOf items) (treeOf items') :=
  .object [(some "active_id", .number (some (.int 1)))] []

end KeySetData

theorem KeySet.not_loadable_of_value {tree : Json.Tree} {value : Json}
    (hvalue : tree.value? KeySetData.recordDepth = some value) (hload : loadRecord? value = none) :
    ¬ Loadable tree := by
  rintro ⟨other, key, hother, hkey⟩
  rw [hvalue, Option.some.injEq] at hother
  rw [← hother, hload] at hkey
  cases hkey

theorem KeySet.not_loadable_of_unread {tree : Json.Tree}
    (hvalue : tree.value? KeySetData.recordDepth = none) : ¬ Loadable tree := by
  rintro ⟨value, key, hread, -⟩
  rw [hvalue] at hread
  cases hread

/-! ## Damage -/

/-- Fields that belong to no name do not matter. The key set of a name depends on the field of that
name only. Added records from which no key can be loaded change nothing, except that a number or a
string without a value in one of them, or one that is nested too deeply, makes the set unreadable. -/
theorem KeySets.damage_stays_local (object : StoredObject) (bytes bytes' : Bytes) :
    (∀ other : StoredObject,
        (∀ text, KeySetName.Spelled text →
          object.data.get? ("keyset." ++ text) = other.data.get? ("keyset." ++ text)) →
        ofObject object = ofObject other) ∧
      (∀ field, (∃ name, KeySetName.ofField? field = some name) ↔
        ∃ text, KeySetName.Spelled text ∧ field = "keyset." ++ text) ∧
      (∀ text, KeySetName.Spelled text →
        (∃ name, KeySetName.ofField? ("keyset." ++ text) = some name ∧ name.text = text ∧
          name.field = "keyset." ++ text) ∧
        (ofObject object).get? text =
          (object.data.get? ("keyset." ++ text)).bind KeySet.ofBytes? ∧
        ∀ other : StoredObject,
          object.data.get? ("keyset." ++ text) = other.data.get? ("keyset." ++ text) →
          (ofObject object).get? text = (ofObject other).get? text) ∧
      ∀ (tree tree' : Json.Tree) (items items' added : List Json.Tree),
        Json.Tree.parse? bytes = some tree → Json.Tree.parse? bytes' = some tree' →
        Json.Tree.SameButKeys items items' tree tree' → Inserted added items items' →
        (∀ item ∈ added, ¬ KeySet.Loadable item) →
        ((∀ item ∈ added, item.IsWhole ∧ item.nesting < KeySetData.recordDepth) →
          KeySet.ofBytes? bytes' = KeySet.ofBytes? bytes) ∧
        ((∃ item ∈ added, ¬ (item.IsWhole ∧ item.nesting < KeySetData.recordDepth)) →
          KeySet.ofBytes? bytes' = none) := by
  have hget : ∀ text, KeySetName.Spelled text → ∀ object : StoredObject,
      (ofObject object).get? text =
        (object.data.get? ("keyset." ++ text)).bind KeySet.ofBytes? := by
    intro text hspelled object
    obtain ⟨name, rfl⟩ := KeySetName.exists_name_iff.2 hspelled
    rw [get?_ofObject, KeySetName.field_eq]
  have hvalue : ∀ item : Json.Tree, (item.value? KeySetData.recordDepth).isSome = true ↔
      item.IsWhole ∧ item.nesting < KeySetData.recordDepth :=
    fun item => Json.Tree.isSome_value?_iff _ item (by decide)
  refine ⟨fun other hagree => ?_, fun field => ⟨?_, ?_⟩, fun text hspelled => ⟨?_, ?_, ?_⟩,
    fun tree tree' items items' added hparse hparse' hsame hinserted hadded =>
      ⟨fun hvalues => ?_, fun hlost => ?_⟩⟩
  · apply ofObject_congr
    intro name
    rw [KeySetName.field_eq]
    exact hagree name.text (KeySetName.exists_name_iff.1 ⟨name, rfl⟩)
  · rintro ⟨name, hname⟩
    refine ⟨name.text, KeySetName.exists_name_iff.1 ⟨name, rfl⟩, ?_⟩
    rw [← KeySetName.field_eq, KeySetName.field_of_ofField? hname]
  · rintro ⟨text, hspelled, rfl⟩
    obtain ⟨name, rfl⟩ := KeySetName.exists_name_iff.2 hspelled
    exact ⟨name, KeySetName.field_eq name ▸ KeySetName.ofField?_field name⟩
  · obtain ⟨name, rfl⟩ := KeySetName.exists_name_iff.2 hspelled
    rw [← KeySetName.field_eq]
    exact ⟨name, KeySetName.ofField?_field name, rfl, rfl⟩
  · exact hget text hspelled object
  · intro other hsame
    rw [hget text hspelled, hget text hspelled, hsame]
  · exact KeySet.ofBytes?_of_inserted hparse hparse' hsame hinserted hadded
      fun item hitem => (hvalue item).2 (hvalues item hitem)
  · obtain ⟨item, hitem, hnot⟩ := hlost
    exact KeySet.ofBytes?_of_inserted_unread hparse' hsame hinserted
      fun hall => hnot ((hvalue item).1 (hall item hitem))

/-- A field of another kind and a null among the records leave the set as it is. -/
theorem KeySets.null_record_left_out :
    ofObject { StoredObject.withSet .sample (.single .firstZeros) with
        data := (StoredObject.withSet .sample (.single .firstZeros)).data.insert "notes" [0xff] } =
        ofObject (.withSet .sample (.single .firstZeros)) ∧
      KeySet.ofBytes? (KeySetData.zerosThen ",null") =
        KeySet.ofBytes? (KeySetData.zerosThen "") ∧
      KeySet.LoadsActive (some (KeySetData.zerosThen "")) .first := by
  obtain ⟨hfields, -, -, hrecords⟩ := damage_stays_local
    { StoredObject.withSet .sample (.single .firstZeros) with
      data := (StoredObject.withSet .sample (.single .firstZeros)).data.insert "notes" [0xff] }
    (KeySetData.zerosThen "") (KeySetData.zerosThen ",null")
  refine ⟨hfields _ fun text _ => ?_, ?_, KeySetData.loadsActive_zerosThen⟩
  · apply SortedMap.get?_insert_of_ne
    intro heq
    have hhead := congrArg (fun s : String => s.toList.head?) heq
    simp at hhead
  · have hadded : ∀ item ∈ [Json.Tree.null], ¬ KeySet.Loadable item :=
      List.forall_mem_singleton.2 (KeySet.not_loadable_of_value rfl rfl)
    exact (hrecords _ _ _ _ _ KeySetData.parse?_zerosThen KeySetData.parse?_zerosThen_null
      (KeySetData.sameButKeys_treeOf _ _) (.keep _ (.add _ .nil)) hadded).1
      (List.forall_mem_singleton.2 ⟨trivial, by decide⟩)

/-- A record with a number that is too large, put behind the record of a version, takes that version
along. -/
theorem KeySets.untimely_record_loses_set :
    Json.Tree.parse? (KeySetData.zerosThen "") =
        some (KeySetData.treeOf [KeySetData.firstZerosTree]) ∧
      Json.Tree.parse? (KeySetData.zerosThen KeySetData.thenUntimely) =
        some (KeySetData.treeOf [KeySetData.firstZerosTree, KeySetData.untimelyTree]) ∧
      ¬ KeySet.Loadable KeySetData.untimelyTree ∧
      KeySet.LoadsActive (some (KeySetData.zerosThen "")) .first ∧
      KeySet.ofBytes? (KeySetData.zerosThen KeySetData.thenUntimely) = none ∧
      KeySet.ofBytes? (KeySetData.zerosThen KeySetData.thenUntimely) ≠
        KeySet.ofBytes? (KeySetData.zerosThen "") := by
  have hnone : KeySet.ofBytes? (KeySetData.zerosThen KeySetData.thenUntimely) = none :=
    KeySet.ofBytes?_of_inserted_unread KeySetData.parse?_thenUntimely
      (KeySetData.sameButKeys_treeOf [KeySetData.firstZerosTree] _) (.keep _ (.add _ .nil))
      fun hall => absurd (List.forall_mem_singleton.1 hall) (by decide)
  refine ⟨KeySetData.parse?_zerosThen, KeySetData.parse?_thenUntimely,
    KeySet.not_loadable_of_unread rfl, KeySetData.loadsActive_zerosThen, hnone, ?_⟩
  obtain ⟨keySet, -, hload, -⟩ := KeySetData.loadsActive_zerosThen
  rw [Option.bind_some] at hload
  rw [hnone, hload]
  exact (Option.some_ne_none keySet).symm

end Keyring
