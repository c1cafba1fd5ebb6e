/-!
# Sorted maps

A finite map is kept as the list of its entries in strictly ascending order of the keys. The order
is part of the type, so two maps with the same look-ups are equal and an enumeration has one
possible order.
-/
namespace Keyring

/-- A finite map: entries in strictly ascending order of the keys. -/
structure SortedMap (κ α : Type) [Ord κ] where
  entries : List (κ × α)
  sorted : entries.Pairwise fun a b => compare a.1 b.1 = .lt
  deriving DecidableEq, Repr

namespace SortedMap

variable {κ α β : Type} [Ord κ]

def empty : SortedMap κ α := ⟨[], .nil⟩

instance : EmptyCollection (SortedMap κ α) := ⟨empty⟩

instance : Inhabited (SortedMap κ α) := ⟨empty⟩

/-- The value at a key. -/
def lookup (key : κ) : List (κ × α) → Option α
  | [] => none
  | (k, v) :: rest =>
    match compare key k with
    | .lt => none
    | .eq => some v
    | .gt => lookup key rest

def get? (m : SortedMap κ α) (key : κ) : Option α :=
  lookup key m.entries

def contains (m : SortedMap κ α) (key : κ) : Bool :=
  (m.get? key).isSome

def keys (m : SortedMap κ α) : List κ :=
  m.entries.map Prod.fst

def values (m : SortedMap κ α) : List α :=
  m.entries.map Prod.snd

/-- Puts an entry at its place, in place of one with the same key. -/
def insertEntry (key : κ) (value : α) : List (κ × α) → List (κ × α)
  | [] => [(key, value)]
  | (k, v) :: rest =>
    match compare key k with
    | .lt => (key, value) :: (k, v) :: rest
    | .eq => (key, value) :: rest
    | .gt => (k, v) :: insertEntry key value rest

theorem mem_insertEntry {key : κ} {value : α} {e : κ × α} {l : List (κ × α)} :
    e ∈ insertEntry key value l → e = (key, value) ∨ e ∈ l := by
  induction l with
  | nil => simp [insertEntry]
  | cons hd tl ih =>
    obtain ⟨k, v⟩ := hd
    unfold insertEntry
    split <;> grind

section Lawful

variable [Std.TransOrd κ] [Std.LawfulEqOrd κ]

theorem pairwise_insertEntry {key : κ} {value : α} {l : List (κ × α)}
    (h : l.Pairwise fun a b => compare a.1 b.1 = .lt) :
    (insertEntry key value l).Pairwise fun a b => compare a.1 b.1 = .lt := by
  induction l with
  | nil => simp [insertEntry]
  | cons hd tl ih =>
    obtain ⟨k, v⟩ := hd
    rw [List.pairwise_cons] at h
    unfold insertEntry
    split
    next hlt =>
      rw [List.pairwise_cons, List.pairwise_cons]
      refine ⟨fun e he => ?_, h⟩
      rcases List.mem_cons.1 he with rfl | he
      · exact hlt
      · exact Std.TransCmp.lt_trans hlt (h.1 e he)
    next heq =>
      cases Std.LawfulEqCmp.eq_of_compare heq
      exact List.pairwise_cons.2 ⟨h.1, h.2⟩
    next hgt =>
      refine List.pairwise_cons.2 ⟨fun e he => ?_, ih h.2⟩
      rcases mem_insertEntry he with rfl | he
      · exact Std.OrientedCmp.lt_of_gt hgt
      · exact h.1 e he

def insert (m : SortedMap κ α) (key : κ) (value : α) : SortedMap κ α :=
  ⟨insertEntry key value m.entries, pairwise_insertEntry m.sorted⟩

/-- The map that holds, for each key of the list, the value of its last entry. -/
def ofList (entries : List (κ × α)) : SortedMap κ α :=
  entries.foldl (fun m e => m.insert e.1 e.2) empty

end Lawful

def filter (m : SortedMap κ α) (p : κ → α → Bool) : SortedMap κ α :=
  ⟨m.entries.filter fun e => p e.1 e.2, m.sorted.filter _⟩

def erase [BEq κ] (m : SortedMap κ α) (key : κ) : SortedMap κ α :=
  m.filter fun k _ => k != key

def map (m : SortedMap κ α) (f : κ → α → β) : SortedMap κ β :=
  ⟨m.entries.map fun e => (e.1, f e.1 e.2), by
    rw [List.pairwise_map]
    exact m.sorted⟩

/-! ## Look-ups after each operation -/

@[simp] theorem get?_empty (key : κ) : (empty : SortedMap κ α).get? key = none := rfl

section Lawful

variable [Std.TransOrd κ] [Std.LawfulEqOrd κ]

theorem lookup_insertEntry (key key' : κ) (value : α) (l : List (κ × α))
    (h : l.Pairwise fun a b => compare a.1 b.1 = .lt) :
    lookup key' (insertEntry key value l) =
      if compare key' key = .eq then some value else lookup key' l := by
  induction l with
  | nil => simp only [insertEntry, lookup]; split <;> simp_all
  | cons hd tl ih =>
    obtain ⟨k, v⟩ := hd
    rw [List.pairwise_cons] at h
    unfold insertEntry
    split
    next hlt =>
      cases hk : compare key' key with
      | lt =>
        have : compare key' k = .lt := Std.TransCmp.lt_trans hk hlt
        simp [lookup, hk, this]
      | eq => simp [lookup, hk]
      | gt => simp [lookup, hk]
    next heq =>
      cases Std.LawfulEqCmp.eq_of_compare heq
      cases hk : compare key' key <;> simp [lookup, hk]
    next hgt =>
      cases hk : compare key' k with
      | lt =>
        have : compare key' key = .lt := Std.TransCmp.lt_trans hk (Std.OrientedCmp.lt_of_gt hgt)
        simp [lookup, hk, this]
      | eq =>
        cases Std.LawfulEqCmp.eq_of_compare hk
        have : compare key' key = .lt := Std.OrientedCmp.lt_of_gt hgt
        simp [lookup, this]
      | gt => simp [lookup, hk, ih h.2]

theorem get?_insert (m : SortedMap κ α) (key key' : κ) (value : α) :
    (m.insert key value).get? key' = if compare key' key = .eq then some value else m.get? key' :=
  lookup_insertEntry key key' value m.entries m.sorted

@[simp] theorem get?_insert_self (m : SortedMap κ α) (key : κ) (value : α) :
    (m.insert key value).get? key = some value := by
  simp [get?_insert, Std.ReflCmp.compare_self]

theorem get?_insert_of_ne (m : SortedMap κ α) {key key' : κ} (h : key' ≠ key) (value : α) :
    (m.insert key value).get? key' = m.get? key' := by
  rw [get?_insert, if_neg fun e => h (Std.LawfulEqCmp.eq_of_compare e)]

theorem lookup_eq_some_iff (key : κ) (value : α) (l : List (κ × α))
    (h : l.Pairwise fun a b => compare a.1 b.1 = .lt) :
    lookup key l = some value ↔ (key, value) ∈ l := by
  induction l with
  | nil => simp [lookup]
  | cons hd tl ih =>
    obtain ⟨k, v⟩ := hd
    rw [List.pairwise_cons] at h
    have later : ∀ w, (key, w) ∈ tl → compare k key = .lt := fun w hw => h.1 _ hw
    unfold lookup
    cases hk : compare key k with
    | lt =>
      simp only [List.mem_cons, Prod.mk.injEq, reduceCtorEq, false_iff, not_or, not_and]
      refine ⟨fun e => ?_, fun hm => ?_⟩
      · subst e; simp [Std.ReflCmp.compare_self] at hk
      · have := Std.OrientedCmp.gt_of_lt (later _ hm); simp_all
    | eq =>
      cases Std.LawfulEqCmp.eq_of_compare hk
      simp only [Option.some.injEq, List.mem_cons, Prod.mk.injEq, true_and]
      refine ⟨fun e => .inl e.symm, fun hm => hm.elim Eq.symm fun hm => ?_⟩
      have := later _ hm
      simp_all
    | gt =>
      simp only [ih h.2, List.mem_cons, Prod.mk.injEq]
      refine ⟨.inr, fun hm => hm.elim (fun e => ?_) id⟩
      rw [e.1] at hk; simp [Std.ReflCmp.compare_self] at hk

theorem get?_eq_some_iff (m : SortedMap κ α) (key : κ) (value : α) :
    m.get? key = some value ↔ (key, value) ∈ m.entries :=
  lookup_eq_some_iff key value m.entries m.sorted

/-- Maps with the same look-ups are equal. -/
theorem ext_get? {m n : SortedMap κ α} (h : ∀ key, m.get? key = n.get? key) : m = n := by
  have same : ∀ e : κ × α, e ∈ m.entries ↔ e ∈ n.entries := fun e => by
    rw [← get?_eq_some_iff m, ← get?_eq_some_iff n, h]
  have asymm : ∀ a b : κ × α, compare a.1 b.1 = .lt → compare b.1 a.1 = .lt → a = b := by
    intro a b h₁ h₂
    have := Std.OrientedCmp.gt_of_lt h₁
    simp_all
  have nodup : ∀ k : SortedMap κ α, k.entries.Nodup := fun k =>
    k.sorted.imp fun {a b} hab e => by subst e; simp [Std.ReflCmp.compare_self] at hab
  have perm : m.entries.Perm n.entries := by
    classical
    exact (List.perm_ext_iff_of_nodup (nodup m) (nodup n)).2 same
  have := perm.eq_of_pairwise (fun a b _ _ => asymm a b) m.sorted n.sorted
  cases m; cases n; simp_all

end Lawful
end SortedMap
end Keyring
