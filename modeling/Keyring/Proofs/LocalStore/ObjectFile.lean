import Keyring.LocalStore.ObjectFile
import Keyring.Proofs.Json.Rereading
import Keyring.Proofs.SortedMap

/-!
# Stored forms of objects and their files

The stored bytes of a file are read as the file, whatever the object in it holds, as long as the
number of the write has 64 bits.
-/
namespace Keyring

namespace Json

theorem mapM_byte?_toTrees (bytes : Bytes) :
    (toTrees (bytes.map fun b => int b.toNat)).mapM Tree.byte? = some bytes := by
  induction bytes with
  | nil => rfl
  | cons b rest ih =>
    have hbyte : (int b.toNat).toTree.byte? = some b := by
      have hlt := b.toNat_lt_size
      have hrange : (0 : ℤ) ≤ b.toNat ∧ (b.toNat : ℤ) < 256 := by
        rw [UInt8.size] at hlt
        omega
      simp [int, toTree, Tree.byte?, Tree.int?, hrange.2]
    rw [List.map_cons, toTrees, List.mapM_cons, hbyte, ih]
    rfl

/-- An array of bytes is read from its numbers. -/
theorem byteArray?_byteArray (bytes : Bytes) :
    (byteArray bytes).toTree.byteArray? = some bytes :=
  mapM_byte?_toTrees bytes

theorem storable_byteArray (bytes : Bytes) : (byteArray bytes).Storable := by
  apply storableItems_iff.2
  intro item hitem
  obtain ⟨b, -, rfl⟩ := List.mem_map.1 hitem
  have hlt := b.toNat_lt_size
  rw [UInt8.size] at hlt
  have hword : Number.IsWord (b.toNat : ℤ) := by
    rw [Number.IsWord]
    omega
  exact hword

@[simp] theorem reread_byteArray (bytes : Bytes) : (byteArray bytes).reread = byteArray bytes := by
  have hitems : rereadItems (bytes.map fun b => int b.toNat) =
      bytes.map fun b => int b.toNat := by
    induction bytes with
    | nil => rfl
    | cons b rest ih =>
      rw [List.map_cons, rereadItems, ih]
      rfl
  rw [byteArray, reread, hitems]

end Json

namespace StoredObject

/-- The fields of an object as members with arrays of bytes. -/
def fieldMembers (fields : List (String × Bytes)) : List (String × Json) :=
  fields.map fun e => (e.1, Json.byteArray e.2)

theorem mapM_fieldMembers (fields : List (String × Bytes)) :
    (Json.toTreeMembers (fieldMembers fields)).mapM
      (Json.Tree.keyValue? Json.Tree.byteArray?) = some fields := by
  induction fields with
  | nil => rfl
  | cons e rest ih =>
    have hfield : Json.Tree.keyValue? Json.Tree.byteArray? (some e.1, (Json.byteArray e.2).toTree) =
        some e := by
      rw [Json.Tree.keyValue?, Json.byteArray?_byteArray, Option.map_some]
    rw [fieldMembers, List.map_cons, Json.toTreeMembers, List.mapM_cons, hfield]
    rw [fieldMembers] at ih
    rw [ih]
    rfl

theorem reread_fieldMembers (fields : List (String × Bytes)) :
    Json.rereadMembers (fieldMembers fields) = fieldMembers fields := by
  induction fields with
  | nil => rfl
  | cons e rest ih =>
    rw [fieldMembers] at ih ⊢
    rw [List.map_cons, Json.rereadMembers, ih, Json.reread_byteArray]

@[simp] theorem reread_toJson (o : StoredObject) : o.toJson.reread = o.toJson := by
  have hdata := reread_fieldMembers o.data.entries
  rw [fieldMembers] at hdata
  simp [toJson, Json.reread, Json.rereadMembers, hdata]

theorem storable_toJson (o : StoredObject) : o.toJson.Storable := by
  have hdata : Json.StorableMembers (fieldMembers o.data.entries) := by
    apply Json.storableMembers_iff.2
    intro m hm
    obtain ⟨e, -, rfl⟩ := List.mem_map.1 hm
    exact Json.storable_byteArray e.2
  exact ⟨trivial, trivial, trivial, hdata, trivial⟩

/-- An object is read from its JSON form. -/
theorem ofTree?_toJson (o : StoredObject) : ofTree? o.toJson.toTree = some o := by
  obtain ⟨space, name, token, data⟩ := o
  obtain ⟨fields, hfields⟩ : ∃ fields : Json.Tree.Fields, fields = ⟨true,
      [("namespace", .string (some space)), ("name", .string (some name)),
        ("resource_version", .string (some token)),
        ("data", .object (Json.toTreeMembers (fieldMembers data.entries)))]⟩ := ⟨_, rfl⟩
  have hread : (toJson ⟨space, name, token, data⟩).toTree.fields?
      ["namespace", "name", "resource_version", "data"] = some fields := by
    rw [hfields]
    rfl
  have hspace : fields.required? "namespace" Json.Tree.string? = some space := by
    rw [hfields]
    rfl
  have hname : fields.required? "name" Json.Tree.string? = some name := by
    rw [hfields]
    rfl
  have htoken : fields.orDefault? "resource_version" Json.Tree.string? "" = some token := by
    rw [hfields]
    rfl
  have hdata : fields.orDefault? "data" (Json.Tree.map? Json.Tree.byteArray?) .empty =
      some data := by
    have hmap : (Json.Tree.object (Json.toTreeMembers (fieldMembers data.entries))).map?
        Json.Tree.byteArray? = some data := by
      rw [Json.Tree.map?, mapM_fieldMembers, Option.map_some, SortedMap.ofList_entries]
    rw [hfields]
    exact hmap
  simp [ofTree?, hread, hspace, hname, htoken, hdata]

end StoredObject

namespace ObjectFile

/-- How many numbers of writes there are. -/
def versionLimit : ℕ := 18446744073709551616

/-- The stored bytes are read as the file. -/
theorem ofBytes?_toBytes (f : ObjectFile) (h : f.version < versionLimit) :
    ofBytes? f.toBytes = some f := by
  obtain ⟨version, deleted, object⟩ := f
  have hlimit : (version : ℤ) < 18446744073709551616 := by
    have hversion : version < versionLimit := h
    rw [versionLimit] at hversion
    omega
  have hobject : (object.elim .null StoredObject.toJson).Storable ∧
      (object.elim .null StoredObject.toJson).reread = object.elim .null StoredObject.toJson := by
    cases object with
    | none => exact ⟨trivial, rfl⟩
    | some object => exact ⟨object.storable_toJson, object.reread_toJson⟩
  obtain ⟨hstorable, hreread⟩ := hobject
  have hword : Json.Number.IsWord (version : ℤ) := by
    rw [Json.Number.IsWord]
    omega
  have hparse := Json.parse?_render (v := toJson ⟨version, deleted, object⟩)
    ⟨hword, trivial, hstorable, trivial⟩
  obtain ⟨fields, hfields⟩ : ∃ fields : Json.Tree.Fields, fields = ⟨true,
      [("version", (Json.int version).toTree), ("deleted", .bool deleted),
        ("object", (object.elim .null StoredObject.toJson).toTree)]⟩ := ⟨_, rfl⟩
  have hread : (toJson ⟨version, deleted, object⟩).reread.toTree.fields?
      ["version", "deleted", "object"] = some fields := by
    rw [toJson, Json.reread, Json.rereadMembers, Json.rereadMembers, Json.rereadMembers, hreread,
      hfields]
    rfl
  have hversion : fields.required? "version" Json.Tree.nat64? = some version := by
    have hget : fields.get? "version" = some (Json.int version).toTree := by
      rw [hfields]
      rfl
    have hint : (Json.int version).toTree.int? = some (version : ℤ) := rfl
    rw [Json.Tree.Fields.required?, hget, Option.bind_some, Json.Tree.nat64?, hint,
      Option.bind_some, if_pos ⟨Int.natCast_nonneg version, hlimit⟩, Int.toNat_natCast]
  have hdeleted : fields.orDefault? "deleted" Json.Tree.bool? false = some deleted := by
    rw [hfields]
    rfl
  have hobject : fields.optional? "object" StoredObject.ofTree? = some object := by
    have hnullable : (object.elim .null StoredObject.toJson).toTree.nullable?
        StoredObject.ofTree? = some object := by
      cases object with
      | none => rfl
      | some object => exact congrArg (Option.map some) object.ofTree?_toJson
    rw [hfields]
    exact hnullable
  rw [ofBytes?, Json.read?, toBytes, hparse, Option.bind_some]
  simp [ofTree?, hread, hversion, hdeleted, hobject]

end ObjectFile
end Keyring
