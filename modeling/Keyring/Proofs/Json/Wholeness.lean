import Keyring.Json.Value
import Mathlib.Data.Nat.Notation

/-!
# Trees that have a value

A JSON text may be well formed and still have no value: a number may be too large, a string may be
no text, or the arrays and objects may lie deeper in one another than a reader goes. There is no
other reason.
-/
namespace Keyring.Json.Tree

mutual

/-- Every number and every string of a tree has a value. -/
def IsWhole : Tree → Prop
  | .number n => n.isSome = true
  | .string s => s.isSome = true
  | .array items => AreWhole items
  | .object members => HasWholeMembers members
  | _ => True

/-- Every number and every string of array items has a value. -/
def AreWhole : List Tree → Prop
  | [] => True
  | item :: rest => IsWhole item ∧ AreWhole rest

/-- Every number and every string of object members has a value, those of the keys included. -/
def HasWholeMembers : List (Option String × Tree) → Prop
  | [] => True
  | (key, value) :: rest => key.isSome = true ∧ IsWhole value ∧ HasWholeMembers rest

end

mutual

/-- How many arrays and objects lie in one another. -/
def nesting : Tree → ℕ
  | .array items => nestingOfItems items + 1
  | .object members => nestingOfMembers members + 1
  | _ => 0

/-- The greatest nesting of array items. -/
def nestingOfItems : List Tree → ℕ
  | [] => 0
  | item :: rest => max (nesting item) (nestingOfItems rest)

/-- The greatest nesting of the values of object members. -/
def nestingOfMembers : List (Option String × Tree) → ℕ
  | [] => 0
  | (_, value) :: rest => max (nesting value) (nestingOfMembers rest)

end

mutual

/-- A tree has a value exactly if its leaves have one and it is not nested too deeply. -/
theorem isSome_value?_iff : (depth : ℕ) → (tree : Tree) → 0 < depth →
    ((tree.value? depth).isSome = true ↔ tree.IsWhole ∧ tree.nesting < depth)
  | depth, .null, hdepth => by simp [value?, IsWhole, nesting, hdepth]
  | depth, .bool b, hdepth => by simp [value?, IsWhole, nesting, hdepth]
  | depth, .number n, hdepth => by simp [value?, IsWhole, nesting, hdepth]
  | depth, .string s, hdepth => by simp [value?, IsWhole, nesting, hdepth]
  | depth, .array items, hdepth => by
    rw [value?, IsWhole, nesting]
    split
    next hshallow =>
      have hdeep : ¬ nestingOfItems items + 1 < depth := by omega
      simp [hdeep]
    next hroom =>
      rw [Option.isSome_map, isSome_values?_iff (depth - 1) items (by omega)]
      have hlevel : nestingOfItems items < depth - 1 ↔ nestingOfItems items + 1 < depth := by omega
      rw [hlevel]
  | depth, .object members, hdepth => by
    rw [value?, IsWhole, nesting]
    split
    next hshallow =>
      have hdeep : ¬ nestingOfMembers members + 1 < depth := by omega
      simp [hdeep]
    next hroom =>
      rw [Option.isSome_map, isSome_memberValues?_iff (depth - 1) members (by omega)]
      have hlevel : nestingOfMembers members < depth - 1 ↔ nestingOfMembers members + 1 < depth := by
        omega
      rw [hlevel]

theorem isSome_values?_iff : (depth : ℕ) → (items : List Tree) → 0 < depth →
    ((values? depth items).isSome = true ↔ AreWhole items ∧ nestingOfItems items < depth)
  | depth, [], hdepth => by simp [values?, AreWhole, nestingOfItems, hdepth]
  | depth, item :: rest, hdepth => by
    have hitem := isSome_value?_iff depth item hdepth
    have hrest := isSome_values?_iff depth rest hdepth
    have hboth : (values? depth (item :: rest)).isSome = true ↔
        (item.value? depth).isSome = true ∧ (values? depth rest).isSome = true := by
      rw [values?]
      cases item.value? depth <;> cases values? depth rest <;> simp
    rw [hboth, hitem, hrest, AreWhole, nestingOfItems, Nat.max_lt]
    exact and_and_and_comm

theorem isSome_memberValues?_iff : (depth : ℕ) → (members : List (Option String × Tree)) →
    0 < depth → ((memberValues? depth members).isSome = true ↔
      HasWholeMembers members ∧ nestingOfMembers members < depth)
  | depth, [], hdepth => by simp [memberValues?, HasWholeMembers, nestingOfMembers, hdepth]
  | depth, (key, value) :: rest, hdepth => by
    have hvalue := isSome_value?_iff depth value hdepth
    have hrest := isSome_memberValues?_iff depth rest hdepth
    have hall : (memberValues? depth ((key, value) :: rest)).isSome = true ↔
        key.isSome = true ∧ (value.value? depth).isSome = true ∧
          (memberValues? depth rest).isSome = true := by
      cases hkey : key <;> cases hv : value.value? depth <;> cases hr : memberValues? depth rest <;>
        simp [memberValues?, hv, hr]
    rw [hall, hvalue, hrest, HasWholeMembers, nestingOfMembers, Nat.max_lt]
    constructor
    · rintro ⟨hkey, ⟨hwhole, hlevel⟩, hothers, hlevels⟩
      exact ⟨⟨hkey, hwhole, hothers⟩, hlevel, hlevels⟩
    · rintro ⟨⟨hkey, hwhole, hothers⟩, hlevel, hlevels⟩
      exact ⟨hkey, ⟨hwhole, hlevel⟩, hothers, hlevels⟩

end

end Keyring.Json.Tree
