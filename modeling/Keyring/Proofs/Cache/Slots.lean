import Keyring.Cache
import Keyring.Proofs.SortedMap
import Mathlib.Data.Int.Notation
import Mathlib.Logic.Function.Basic
import Mathlib.Tactic.Common

/-!
# Slots of cached key sets

A cache keeps each key set in a slot that whoever uses the set may hold on to. A write to the cache
puts a new key set into the slot of its name, clears the slots of names that are gone and makes
slots for new names. Seen through the names, that is the same as to replace all key sets at once.
-/
namespace Keyring

/-! ## Entries put one after the other -/

namespace SortedMap

variable {κ α : Type} [Ord κ] [Std.TransOrd κ] [Std.LawfulEqOrd κ] {l : List (κ × α)} {key : κ}

theorem get?_foldl_insert_of_notMem (h : ∀ e ∈ l, e.1 ≠ key) (m : SortedMap κ α) :
    (l.foldl (fun m e => m.insert e.1 e.2) m).get? key = m.get? key := by
  induction l generalizing m with
  | nil => rfl
  | cons e rest ih =>
    obtain ⟨hne, hrest⟩ := List.forall_mem_cons.1 h
    rw [List.foldl_cons, ih hrest, get?_insert_of_ne m hne.symm]

theorem get?_foldl_insert_of_mem (h : l.Pairwise fun a b => compare a.1 b.1 = .lt) {value : α}
    (hmem : (key, value) ∈ l) (m : SortedMap κ α) :
    (l.foldl (fun m e => m.insert e.1 e.2) m).get? key = some value := by
  induction l generalizing m with
  | nil => cases hmem
  | cons e rest ih =>
    obtain ⟨hlater, hrest⟩ := List.pairwise_cons.1 h
    rw [List.foldl_cons]
    rcases List.mem_cons.1 hmem with rfl | hmem
    · have hne : ∀ e ∈ rest, e.1 ≠ key := by
        rintro e he rfl
        have hlt : compare e.1 e.1 = .lt := hlater e he
        simp [Std.ReflCmp.compare_self] at hlt
      rw [get?_foldl_insert_of_notMem hne, get?_insert_self]
    · exact ih hrest hmem _

/-- A map stays as it is if its entries are put over those of some of its keys. -/
theorem foldl_insert_filter_contains (m n : SortedMap κ α) :
    n.entries.foldl (fun m e => m.insert e.1 e.2) (m.filter fun key _ => n.contains key) = n := by
  apply ext_get?
  intro key
  cases hget : n.get? key with
  | some value =>
    exact get?_foldl_insert_of_mem n.sorted ((get?_eq_some_iff n key value).1 hget) _
  | none =>
    have hne : ∀ e ∈ n.entries, e.1 ≠ key := by
      rintro ⟨k, value⟩ he rfl
      rw [(get?_eq_some_iff n k value).2 he] at hget
      cases hget
    rw [get?_foldl_insert_of_notMem hne, get?_filter, contains, hget]
    cases m.get? key <;> rfl

end SortedMap

/-- What a slot holds when its key set is gone. -/
def KeySet.cleared : KeySet := withoutVersions .none

/-- A cache with numbered slots. No slot belongs to two names, and one that belongs to none holds
nothing. -/
structure SlotCache where
  resourceVersion : ℤ
  slots : SortedMap String ℕ
  content : ℕ → KeySet
  /-- How many slots there have been. -/
  made : ℕ
  lt_made : ∀ {name slot}, slots.get? name = some slot → slot < made
  name_eq : ∀ {name other slot},
    slots.get? name = some slot → slots.get? other = some slot → name = other
  content_eq : ∀ {slot}, (∀ name, slots.get? name ≠ some slot) → content slot = .cleared

namespace SlotCache

def empty : SlotCache where
  resourceVersion := 0
  slots := .empty
  content _ := .cleared
  made := 0
  lt_made h := by cases h
  name_eq h := by cases h
  content_eq _ := rfl

variable (c : SlotCache)

def keySets : KeySets := c.slots.map fun _ slot => c.content slot

/-- The cache as it is seen through the names. -/
def view : Cache := ⟨c.resourceVersion, c.keySets⟩

/-- Whether a slot belongs to a name that is not kept. -/
def isDropped (keep : String → Bool) (slot : ℕ) : Bool :=
  c.slots.entries.any fun e => e.2 == slot && !keep e.1

variable {c} {keep : String → Bool} {name : String} {slot : ℕ}

theorem isDropped_iff :
    c.isDropped keep slot = true ↔ ∃ name, c.slots.get? name = some slot ∧ keep name = false := by
  simp only [isDropped, List.any_eq_true, Bool.and_eq_true, beq_iff_eq, Bool.not_eq_true',
    SortedMap.get?_eq_some_iff]
  constructor
  · rintro ⟨e, hmem, rfl, hkeep⟩
    exact ⟨e.1, hmem, hkeep⟩
  · rintro ⟨name, hmem, hkeep⟩
    exact ⟨_, hmem, rfl, hkeep⟩

/-- The slot of a name that is kept is not cleared. -/
theorem isDropped_of_keep (hname : c.slots.get? name = some slot) (hkeep : keep name = true) :
    c.isDropped keep slot = false := by
  rw [Bool.eq_false_iff, Ne, isDropped_iff]
  rintro ⟨other, hother, hdrop⟩
  rw [c.name_eq hother hname, hkeep] at hdrop
  cases hdrop

variable (c)

/-- Drops the names that are not kept, and clears their slots. -/
def retain (keep : String → Bool) : SlotCache where
  resourceVersion := c.resourceVersion
  slots := c.slots.filter fun name _ => keep name
  content slot := if c.isDropped keep slot then .cleared else c.content slot
  made := c.made
  lt_made h := by
    rw [SortedMap.get?_filter] at h
    exact c.lt_made (Option.filter_eq_some_iff.1 h).1
  name_eq h h' := by
    rw [SortedMap.get?_filter] at h h'
    exact c.name_eq (Option.filter_eq_some_iff.1 h).1 (Option.filter_eq_some_iff.1 h').1
  content_eq {slot} hnone := by
    split_ifs with hdropped
    · rfl
    · apply c.content_eq
      intro name hname
      apply hnone name
      rw [SortedMap.get?_filter, Option.filter_eq_some_iff]
      refine ⟨hname, ?_⟩
      by_contra hkeep
      exact hdropped (isDropped_iff.2 ⟨name, hname, Bool.eq_false_iff.2 hkeep⟩)

/-- Puts a key set into the slot of a name, or into a new one. -/
def put (name : String) (keySet : KeySet) : SlotCache :=
  match hname : c.slots.get? name with
  | some slot =>
    { c with
      content := Function.update c.content slot keySet
      content_eq := by
        intro other hnone
        rw [Function.update_of_ne]
        · exact c.content_eq hnone
        · rintro rfl
          exact hnone name hname }
  | none =>
    { c with
      slots := c.slots.insert name c.made
      content := Function.update c.content c.made keySet
      made := c.made + 1
      lt_made := by
        intro other slot h
        rw [SortedMap.get?_insert] at h
        split_ifs at h
        · rw [← Option.some.inj h]
          exact Nat.lt_succ_self c.made
        · exact Nat.lt_succ_of_lt (c.lt_made h)
      name_eq := by
        intro first second slot h h'
        rw [SortedMap.get?_insert] at h h'
        split_ifs at h h' with hfirst hsecond hsecond
        · rw [Std.LawfulEqCmp.eq_of_compare hfirst, Std.LawfulEqCmp.eq_of_compare hsecond]
        · have hlt := c.lt_made h'
          rw [← Option.some.inj h] at hlt
          exact absurd hlt (Nat.lt_irrefl _)
        · have hlt := c.lt_made h
          rw [← Option.some.inj h'] at hlt
          exact absurd hlt (Nat.lt_irrefl _)
        · exact c.name_eq h h'
      content_eq := by
        intro slot hnone
        have hne : slot ≠ c.made := by
          rintro rfl
          exact hnone name (SortedMap.get?_insert_self _ _ _)
        rw [Function.update_of_ne hne]
        apply c.content_eq
        intro other hother
        by_cases heq : other = name
        · rw [heq, hname] at hother
          cases hother
        · exact hnone other (by rw [SortedMap.get?_insert_of_ne _ heq, hother]) }

/-- Takes in all key sets of a version. -/
def update (version : ℤ) (keySets : KeySets) : SlotCache :=
  { keySets.entries.foldl (fun c e => c.put e.1 e.2) (c.retain keySets.contains) with
    resourceVersion := version }

/-- Takes in that there are no key sets at a version. -/
def delete (version : ℤ) : SlotCache :=
  { c.retain fun _ => false with resourceVersion := version }

/-! ## Look-ups by name -/

theorem get?_keySets (name : String) : c.keySets.get? name = (c.slots.get? name).map c.content :=
  SortedMap.get?_map _ _ _

theorem keySets_retain (keep : String → Bool) :
    (c.retain keep).keySets = c.keySets.filter fun name _ => keep name := by
  apply SortedMap.ext_get?
  intro name
  rw [get?_keySets, SortedMap.get?_filter, get?_keySets]
  have hslots : (c.retain keep).slots.get? name =
      (c.slots.get? name).filter fun _ => keep name := SortedMap.get?_filter _ _ _
  rw [hslots]
  cases hname : c.slots.get? name with
  | none => rfl
  | some slot =>
    cases hkeep : keep name with
    | false => rfl
    | true =>
      have hcontent : (c.retain keep).content slot = c.content slot :=
        if_neg (by rw [isDropped_of_keep hname hkeep]; exact Bool.false_ne_true)
      simp [Option.filter, hcontent]

theorem keySets_put (name : String) (keySet : KeySet) :
    (c.put name keySet).keySets = c.keySets.insert name keySet := by
  apply SortedMap.ext_get?
  intro other
  rw [SortedMap.get?_insert, get?_keySets, get?_keySets, put]
  split
  next slot hname =>
    dsimp only
    split_ifs with heq
    · rw [Std.LawfulEqCmp.eq_of_compare heq, hname, Option.map_some, Function.update_self]
    · cases hother : c.slots.get? other with
      | none => rfl
      | some slot' =>
        have hne : slot' ≠ slot := by
          rintro rfl
          rw [c.name_eq hother hname] at heq
          exact heq Std.ReflCmp.compare_self
        rw [Option.map_some, Option.map_some, Function.update_of_ne hne]
  next hname =>
    dsimp only
    rw [SortedMap.get?_insert]
    split_ifs with heq
    · rw [Option.map_some, Function.update_self]
    · cases hother : c.slots.get? other with
      | none => rfl
      | some slot' =>
        have hne : slot' ≠ c.made := Nat.ne_of_lt (c.lt_made hother)
        rw [Option.map_some, Option.map_some, Function.update_of_ne hne]

theorem keySets_foldl_put (l : List (String × KeySet)) :
    (l.foldl (fun c e => c.put e.1 e.2) c).keySets =
      l.foldl (fun m e => m.insert e.1 e.2) c.keySets := by
  induction l generalizing c with
  | nil => rfl
  | cons e rest ih => rw [List.foldl_cons, List.foldl_cons, ih, keySets_put]

/-- Taking in a version replaces all key sets. -/
@[simp] theorem view_update (version : ℤ) (keySets : KeySets) :
    (c.update version keySets).view = ⟨version, keySets⟩ := by
  have hsets : (c.update version keySets).keySets = keySets := by
    refine (keySets_foldl_put _ _).trans ?_
    rw [keySets_retain, SortedMap.foldl_insert_filter_contains]
  rw [view, hsets]
  rfl

/-- A deletion leaves no key set. -/
@[simp] theorem view_delete (version : ℤ) : (c.delete version).view = ⟨version, .empty⟩ := by
  have hsets : (c.delete version).keySets = .empty := by
    refine (keySets_retain c fun _ => false).trans ?_
    apply SortedMap.ext_get?
    intro name
    rw [SortedMap.get?_filter]
    cases c.keySets.get? name <;> rfl
  rw [view, hsets]
  rfl

@[simp] theorem view_empty : empty.view = Cache.empty := rfl

end SlotCache
end Keyring
