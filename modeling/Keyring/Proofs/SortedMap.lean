import Keyring.SortedMap
import Mathlib.Data.List.Induction

/-!
# Entries and look-ups

The map of a list holds no other entries than the list, and the map of entries in ascending order
has just those entries. Look-ups in a map without a key or with other values are look-ups in the map
itself.
-/
namespace Keyring.SortedMap

variable {κ α β : Type} [Ord κ] [Std.TransOrd κ]

/-- An entry with the greatest key goes to the end. -/
theorem insertEntry_last {key : κ} {value : α} {l : List (κ × α)}
    (h : ∀ e ∈ l, compare e.1 key = .lt) : insertEntry key value l = l ++ [(key, value)] := by
  induction l with
  | nil => rfl
  | cons hd tl ih =>
    have hgt : compare key hd.1 = .gt := Std.OrientedCmp.gt_of_lt (h hd List.mem_cons_self)
    have htl := ih fun e he => h e (List.mem_cons_of_mem hd he)
    rw [insertEntry, hgt]
    dsimp only
    rw [htl, List.cons_append]

variable [Std.LawfulEqOrd κ]

theorem mem_insert {m : SortedMap κ α} {key : κ} {value : α} {e : κ × α}
    (h : e ∈ (m.insert key value).entries) : e = (key, value) ∨ e ∈ m.entries :=
  mem_insertEntry h

theorem mem_foldl_insert {l : List (κ × α)} {m : SortedMap κ α} {e : κ × α}
    (h : e ∈ (l.foldl (fun m e => m.insert e.1 e.2) m).entries) : e ∈ l ∨ e ∈ m.entries := by
  induction l generalizing m with
  | nil => exact Or.inr h
  | cons hd tl ih =>
    rw [List.foldl_cons] at h
    rcases ih h with htl | hm
    · exact Or.inl (List.mem_cons_of_mem hd htl)
    · rcases mem_insert hm with rfl | hm
      · exact Or.inl List.mem_cons_self
      · exact Or.inr hm

theorem mem_ofList {l : List (κ × α)} {e : κ × α} (h : e ∈ (ofList l).entries) : e ∈ l := by
  rcases mem_foldl_insert h with hl | hempty
  · exact hl
  · cases hempty

theorem entries_foldl_insert {l : List (κ × α)} {m : SortedMap κ α}
    (h : (m.entries ++ l).Pairwise fun a b => compare a.1 b.1 = .lt) :
    (l.foldl (fun m e => m.insert e.1 e.2) m).entries = m.entries ++ l := by
  induction l generalizing m with
  | nil => simp
  | cons hd tl ih =>
    have hlast : (m.insert hd.1 hd.2).entries = m.entries ++ [hd] := by
      apply insertEntry_last
      intro e he
      exact (List.pairwise_append.1 h).2.2 e he hd List.mem_cons_self
    rw [List.foldl_cons, ih, hlast, List.append_assoc, List.singleton_append]
    rw [hlast, List.append_assoc, List.singleton_append]
    exact h

/-- Entries in ascending order stay as they are. -/
theorem entries_ofList {l : List (κ × α)} (h : l.Pairwise fun a b => compare a.1 b.1 = .lt) :
    (ofList l).entries = l := by
  rw [ofList, entries_foldl_insert]
  · rfl
  · exact h

theorem ofList_entries (m : SortedMap κ α) : ofList m.entries = m := by
  have hentries := entries_ofList m.sorted
  generalize ofList m.entries = copy at hentries
  cases copy
  cases m
  cases hentries
  rfl

/-- Each key of a list has a value in its map. -/
theorem exists_get?_ofList {l : List (κ × α)} {key : κ} {value : α} (h : (key, value) ∈ l) :
    ∃ last, (ofList l).get? key = some last := by
  induction l using List.reverseRecOn with
  | nil => cases h
  | append_singleton rest e ih =>
    have hlast : ofList (rest ++ [e]) = (ofList rest).insert e.1 e.2 := by
      rw [ofList, List.foldl_append]
      rfl
    rw [hlast, get?_insert]
    split
    next => exact ⟨e.2, rfl⟩
    next hne =>
      rcases List.mem_append.1 h with hrest | hhere
      · exact ih hrest
      · rw [← List.mem_singleton.1 hhere] at hne
        exact absurd Std.ReflCmp.compare_self hne

/-- A key with one value in a list has that value in its map. -/
theorem get?_ofList_eq_some_iff {l : List (κ × α)} {key : κ}
    (hunique : ∀ v w, (key, v) ∈ l → (key, w) ∈ l → v = w) (value : α) :
    (ofList l).get? key = some value ↔ (key, value) ∈ l := by
  have hmem : ∀ v, (ofList l).get? key = some v → (key, v) ∈ l := fun v hv =>
    mem_ofList ((get?_eq_some_iff _ key v).1 hv)
  constructor
  · exact hmem value
  · intro h
    obtain ⟨last, hlast⟩ := exists_get?_ofList h
    rw [hlast, hunique value last h (hmem last hlast)]

theorem get?_filter (m : SortedMap κ α) (p : κ → α → Bool) (key : κ) :
    (m.filter p).get? key = (m.get? key).filter (p key) := by
  ext value
  rw [get?_eq_some_iff, Option.filter_eq_some_iff, get?_eq_some_iff]
  simp [filter]

theorem get?_erase [BEq κ] [LawfulBEq κ] (m : SortedMap κ α) (key key' : κ) :
    (m.erase key).get? key' = if key' == key then none else m.get? key' := by
  rw [erase, get?_filter]
  by_cases h : key' = key
  · simp [h]
  · simp [h, Option.filter]
    cases m.get? key' <;> rfl

theorem get?_map (m : SortedMap κ α) (f : κ → α → β) (key : κ) :
    (m.map f).get? key = (m.get? key).map (f key) := by
  ext value
  rw [get?_eq_some_iff, Option.map_eq_some_iff]
  simp only [map, List.mem_map, Prod.mk.injEq, Prod.exists]
  constructor
  · rintro ⟨k, v, hmem, rfl, rfl⟩
    exact ⟨v, (get?_eq_some_iff m k v).2 hmem, rfl⟩
  · rintro ⟨v, hget, rfl⟩
    exact ⟨key, v, (get?_eq_some_iff m key v).1 hget, rfl, rfl⟩

end Keyring.SortedMap
