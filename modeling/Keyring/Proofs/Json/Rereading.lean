import Keyring.Json.Reader
import Keyring.Proofs.Json.Canonical

/-!
# Readers of what was written

Only floating-point numbers may change when a value is written and read again, and no reader of
typed data looks at one. Such a reader therefore finds the same in both values.
-/
namespace Keyring.Json

namespace Tree

mutual

/-- The tree whose numbers were written and read again. -/
def reread : Tree → Tree
  | .number n => .number (n.map Number.reread)
  | .array items => .array (rereadTrees items)
  | .object members => .object (rereadTreeMembers members)
  | leaf => leaf

/-- The trees of array items whose numbers were written and read again. -/
def rereadTrees : List Tree → List Tree
  | [] => []
  | item :: rest => reread item :: rereadTrees rest

/-- The trees of object members whose numbers were written and read again. -/
def rereadTreeMembers : List (Option String × Tree) → List (Option String × Tree)
  | [] => []
  | (key, value) :: rest => (key, reread value) :: rereadTreeMembers rest

end

end Tree

mutual

theorem toTree_reread : (v : Json) → v.reread.toTree = v.toTree.reread
  | .null => rfl
  | .bool _ => rfl
  | .number _ => rfl
  | .string _ => rfl
  | .array items => by rw [reread, toTree, toTree, Tree.reread, toTrees_reread items]
  | .object members => by
    rw [reread, toTree, toTree, Tree.reread, toTreeMembers_reread members]

theorem toTrees_reread : (items : List Json) →
    toTrees (rereadItems items) = Tree.rereadTrees (toTrees items)
  | [] => rfl
  | item :: rest => by
    rw [rereadItems, toTrees, toTrees, Tree.rereadTrees, toTree_reread item, toTrees_reread rest]

theorem toTreeMembers_reread : (members : List (String × Json)) →
    toTreeMembers (rereadMembers members) = Tree.rereadTreeMembers (toTreeMembers members)
  | [] => rfl
  | (key, value) :: rest => by
    rw [rereadMembers, toTreeMembers, toTreeMembers, Tree.rereadTreeMembers, toTree_reread value,
      toTreeMembers_reread rest]

end

/-! ## Readers of leaves -/

namespace Tree

@[simp] theorem int?_reread (t : Tree) : t.reread.int? = t.int? := by
  cases t with
  | number n =>
    cases n with
    | none => rfl
    | some n =>
      cases n with
      | int z => rfl
      | float f =>
        rw [reread, Option.map_some, Number.reread]
        split <;> rfl
  | _ => rfl

@[simp] theorem string?_reread (t : Tree) : t.reread.string? = t.string? := by
  cases t <;> rfl

@[simp] theorem bounded?_reread {lower upper : ℤ} (t : Tree) :
    (t.reread.bounded? : Option (Bounded lower upper)) = t.bounded? := by
  rw [bounded?, bounded?, int?_reread]

@[simp] theorem base64?_reread (t : Tree) : t.reread.base64? = t.base64? := by
  rw [base64?, base64?, string?_reread]

@[simp] theorem choice?_reread {α : Type} (names : List (String × α)) (t : Tree) :
    t.reread.choice? names = t.choice? names := by
  cases t with
  | object members =>
    cases members with
    | nil => rfl
    | cons m rest =>
      obtain ⟨key, value⟩ := m
      cases rest with
      | cons next more => cases key <;> cases value <;> rfl
      | nil => cases key <;> cases value <;> rfl
  | _ => rfl

/-! ## Records -/

/-- The fields whose numbers were written and read again. -/
def Fields.reread (fields : Fields) : Fields :=
  ⟨fields.keyed, fields.present.map fun f => (f.1, f.2.reread)⟩

@[simp] theorem Fields.get?_reread (fields : Fields) (name : String) :
    fields.reread.get? name = (fields.get? name).map Tree.reread := by
  simp only [Fields.get?, Fields.reread, List.find?_map, Option.map_map]
  rfl

theorem knownMembers?_reread (names : List String) (members : List (Option String × Tree)) :
    knownMembers? names (rereadTreeMembers members) =
      (knownMembers? names members).map fun known => known.map fun k => (k.1, k.2.reread) := by
  induction members with
  | nil => rfl
  | cons m rest ih =>
    obtain ⟨key, value⟩ := m
    cases key with
    | none => rfl
    | some key =>
      rw [rereadTreeMembers, knownMembers?, knownMembers?, ih]
      cases knownMembers? names rest with
      | none => rfl
      | some known =>
        simp only [Option.map_some, List.any_map, Function.comp_def]
        split
        · rfl
        · split <;> simp

theorem zip_rereadTrees (names : List String) (items : List Tree) :
    names.zip (rereadTrees items) = (names.zip items).map fun f => (f.1, f.2.reread) := by
  induction items generalizing names with
  | nil => simp [rereadTrees]
  | cons item rest ih =>
    cases names with
    | nil => rfl
    | cons name more => simp [rereadTrees, ih]

theorem length_rereadTrees (items : List Tree) : (rereadTrees items).length = items.length := by
  induction items with
  | nil => rfl
  | cons item rest ih => simp [rereadTrees, ih]

/-- The fields of a record stay. -/
theorem fields?_reread (names : List String) (t : Tree) :
    t.reread.fields? names = (t.fields? names).map Fields.reread := by
  cases t with
  | object members =>
    rw [reread, fields?, fields?, knownMembers?_reread, Option.map_map, Option.map_map]
    rfl
  | array items =>
    rw [reread, fields?, fields?, length_rereadTrees, zip_rereadTrees]
    split <;> rfl
  | _ => rfl

theorem Fields.required?_reread {α : Type} (fields : Fields) (name : String)
    {read? : Tree → Option α} (hread : ∀ t : Tree, read? t.reread = read? t) :
    fields.reread.required? name read? = fields.required? name read? := by
  rw [required?, required?, get?_reread]
  cases fields.get? name with
  | none => rfl
  | some t => exact hread t

theorem storable_knownMembers? {names : List String} {members : List (Option String × Tree)}
    (hm : ∀ m ∈ members, m.2.Storable) {known : List (String × Tree)}
    (h : knownMembers? names members = some known) : ∀ k ∈ known, k.2.Storable := by
  induction members generalizing known with
  | nil =>
    rw [knownMembers?, Option.some.injEq] at h
    subst h
    intro k hk
    cases hk
  | cons m rest ih =>
    obtain ⟨key, value⟩ := m
    obtain ⟨hvalue, hrest⟩ := List.forall_mem_cons.1 hm
    cases key with
    | none => cases h
    | some key =>
      rw [knownMembers?] at h
      split at h
      next => cases h
      next others hothers =>
        split at h
        · exact Option.some.inj h ▸ ih hrest hothers
        · split at h
          · cases h
          · rw [Option.some.injEq] at h
            subst h
            exact List.forall_mem_cons.2 ⟨hvalue, ih hrest hothers⟩

/-- The fields of a record that can be stored can be stored. -/
theorem storable_fields? {names : List String} {t : Tree} (ht : t.Storable) {fields : Fields}
    (h : t.fields? names = some fields) : ∀ f ∈ fields.present, f.2.Storable := by
  cases t with
  | object members =>
    obtain ⟨known, hknown, rfl⟩ := Option.map_eq_some_iff.1 h
    exact storable_knownMembers? (storableTreeMembers_iff.1 ht) hknown
  | array items =>
    rw [fields?] at h
    split at h
    · rw [Option.some.injEq] at h
      subst h
      intro f hf
      exact storableTrees_iff.1 ht f.2 (List.of_mem_zip hf).2
    · cases h
  | _ => cases h

theorem Fields.storable_get? {fields : Fields} (hf : ∀ f ∈ fields.present, f.2.Storable)
    {name : String} {t : Tree} (h : fields.get? name = some t) : t.Storable := by
  obtain ⟨f, hfind, rfl⟩ := Option.map_eq_some_iff.1 h
  exact hf f (List.mem_of_find?_eq_some hfind)

end Tree

/-! ## Members of values -/

end Keyring.Json
