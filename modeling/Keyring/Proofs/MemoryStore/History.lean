import Keyring.MemoryStore
import Keyring.Proofs.SortedMap
import Keyring.Proofs.Text.Decimal
import Mathlib.Data.List.Nodup

/-!
# The history of a memory store

Every write is on the history, numbered without a gap, and the objects of a store are what the
history leaves of them. So the object of a name can be told for the time after any earlier write,
and no later write changes that.
-/
namespace Keyring

namespace Change

/-- What a write leaves of its object. -/
def left? (c : Change) : Option StoredObject :=
  match c.kind with
  | .added | .modified => some c.object
  | .deleted => none

/-- What a history, the newest write first, leaves of an object. -/
def lastLeft? (history : List Change) (name : ObjectName) : Option StoredObject :=
  (history.find? fun c => c.target == name).bind left?

@[simp] theorem lastLeft?_nil (name : ObjectName) : lastLeft? [] name = none := rfl

theorem lastLeft?_cons (c : Change) (history : List Change) (name : ObjectName) :
    lastLeft? (c :: history) name =
      if c.target = name then c.left? else lastLeft? history name := by
  by_cases h : c.target = name
  · simp [lastLeft?, h]
  · simp [lastLeft?, h]

/-- What is left of an object carries the name of the object. -/
theorem objectName_of_lastLeft? {history : List Change} {name : ObjectName} {object : StoredObject}
    (h : lastLeft? history name = some object) : object.objectName = name := by
  obtain ⟨c, hfind, hleft⟩ := Option.bind_eq_some_iff.1 h
  have htarget : c.target = name := by simpa using List.find?_some hfind
  rw [← htarget, target]
  unfold left? at hleft
  split at hleft
  case h_1 | h_2 => rw [← Option.some.inj hleft]
  case h_3 => cases hleft

/-- Writes to other objects do not matter. -/
theorem lastLeft?_filter_of_quiet {history : List Change} {name : ObjectName} {low high : ℕ}
    (hle : low ≤ high)
    (hquiet : ∀ c ∈ history, c.target = name → c.version ≤ high → c.version ≤ low) :
    lastLeft? (history.filter fun c => c.version ≤ high) name =
      lastLeft? (history.filter fun c => c.version ≤ low) name := by
  induction history with
  | nil => rfl
  | cons c rest ih =>
    have hrest := ih fun d hd => hquiet d (List.mem_cons_of_mem c hd)
    by_cases hhigh : c.version ≤ high
    · by_cases hlow : c.version ≤ low
      · rw [List.filter_cons_of_pos (by simpa), List.filter_cons_of_pos (by simpa),
          lastLeft?_cons, lastLeft?_cons, hrest]
      · have hother : c.target ≠ name := fun htarget =>
          hlow (hquiet c List.mem_cons_self htarget hhigh)
        rw [List.filter_cons_of_pos (by simpa), List.filter_cons_of_neg (by simpa using hlow),
          lastLeft?_cons, if_neg hother, hrest]
    · have hlow : ¬ c.version ≤ low := by omega
      rw [List.filter_cons_of_neg (by simpa using hhigh),
        List.filter_cons_of_neg (by simpa using hlow), hrest]

end Change

/-- The token of a number names no other number. -/
theorem eq_of_parseVersion {n version : ℕ} (h : parseVersion (Decimal.ofNat n) = .ok version) :
    version = n := by
  rw [parseVersion, if_neg (Decimal.ofNat_ne_empty n), Decimal.nat64?_ofNat] at h
  split at h
  next _ hsome =>
    split at hsome
    · rw [← Except.ok.inj h, ← Option.some.inj hsome]
    · cases hsome
  next => cases h

namespace MemoryStore

/-- The object of a name right after the write of that number; none before the first write. -/
def objectAt (s : MemoryStore) (version : ℕ) (name : ObjectName) : Option StoredObject :=
  Change.lastLeft? (s.history.filter fun c => c.version ≤ version) name

/-- The history tells everything about the objects. -/
structure Consistent (s : MemoryStore) : Prop where
  numbered : s.history.map Change.version = (List.range' 1 s.version).reverse
  stamped : ∀ c ∈ s.history, c.object.resourceVersion = Decimal.ofNat c.version
  present : ∀ name, s.object? name = Change.lastLeft? s.history name

/-- A store that is `s` after one more write. -/
structure Wrote (s s' : MemoryStore) (c : Change) : Prop where
  number : c.version = s.version + 1
  stamped : c.object.resourceVersion = Decimal.ofNat c.version
  version : s'.version = s.version + 1
  history : s'.history = c :: s.history
  object? : ∀ name, s'.object? name = if c.target = name then c.left? else s.object? name
  feeds : s'.feeds = s.feeds.map fun _ f => f.push (.change c)
  nextFeed : s'.nextFeed = s.nextFeed

variable {s s' : MemoryStore}

/-! ## Writes -/

theorem wrote_put (s : MemoryStore) (kind : ChangeKind) (hkind : kind ≠ .deleted)
    (object : StoredObject) :
    s.Wrote (s.put kind object).1 ⟨kind, s.stamp object, s.version + 1⟩ := by
  refine ⟨rfl, rfl, rfl, rfl, ?_, rfl, rfl⟩
  intro name
  have hleft : (⟨kind, s.stamp object, s.version + 1⟩ : Change).left? = some (s.stamp object) := by
    cases kind with
    | added => rfl
    | modified => rfl
    | deleted => exact absurd rfl hkind
  rw [hleft]
  by_cases h : object.objectName = name
  · subst h
    exact (object?_put_self s kind object).trans (if_pos rfl).symm
  · rw [object?_put_of_ne s kind object (Ne.symm h)]
    exact (if_neg h).symm

/-- What creating an object does. -/
theorem create_cases (s : MemoryStore) (object : StoredObject) :
    (∃ current, s.object? object.objectName = some current ∧
        s.create object = (s, .error (.alreadyExists object.qualified))) ∨
      (s.object? object.objectName = none ∧
        s.Wrote (s.create object).1 ⟨.added, s.stamp object, s.version + 1⟩ ∧
        (s.create object).2 = .ok (s.stamp object)) := by
  have hwrote := wrote_put s .added (by decide) object
  cases h : s.object? object.objectName with
  | some current =>
    left
    exact ⟨current, rfl, by rw [create, h]⟩
  | none =>
    right
    refine ⟨rfl, ?_, ?_⟩
    · rw [create, h]
      exact hwrote
    · rw [create, h]
      rfl

/-- What replacing an object does. -/
theorem update_cases (s : MemoryStore) (object : StoredObject) :
    (∃ failure, s.update object = (s, .error failure)) ∨
      (∃ current, s.object? object.objectName = some current ∧
        (object.resourceVersion = "" ∨ object.resourceVersion = current.resourceVersion) ∧
        s.Wrote (s.update object).1 ⟨.modified, s.stamp object, s.version + 1⟩ ∧
        (s.update object).2 = .ok (s.stamp object)) := by
  have hwrote := wrote_put s .modified (by decide) object
  unfold update
  split
  next => exact Or.inl ⟨_, rfl⟩
  next current hcurrent =>
    by_cases h : object.resourceVersion ≠ "" ∧ object.resourceVersion ≠ current.resourceVersion
    · rw [if_pos h]
      exact Or.inl ⟨_, rfl⟩
    · rw [if_neg h]
      right
      refine ⟨current, hcurrent, ?_, hwrote, rfl⟩
      by_cases hempty : object.resourceVersion = ""
      · exact Or.inl hempty
      · exact Or.inr (not_not.1 fun hne => h ⟨hempty, hne⟩)

/-- What removing an object does. -/
theorem delete_cases (s : MemoryStore) (hs : s.Consistent) (name : ObjectName) :
    (∃ failure, s.delete name = (s, .error failure)) ∨
      (∃ object, s.object? name = some object ∧ object.objectName = name ∧
        s.Wrote (s.delete name).1 ⟨.deleted, s.stamp object, s.version + 1⟩) := by
  unfold delete
  split
  next => exact Or.inl ⟨_, rfl⟩
  next object hobject =>
    right
    have hname : object.objectName = name := by
      rw [hs.present] at hobject
      exact Change.objectName_of_lastLeft? hobject
    refine ⟨object, hobject, hname, rfl, rfl, rfl, rfl, ?_, rfl, rfl⟩
    intro other
    have htarget : (⟨.deleted, s.stamp object, s.version + 1⟩ : Change).target = name := hname
    rw [htarget]
    have hget := SortedMap.get?_erase s.objects name other
    by_cases h : name = other
    · subst h
      rw [if_pos rfl]
      have hnone : (s.objects.erase name).get? name = none := by simpa using hget
      exact hnone
    · rw [if_neg h]
      have hsame : (s.objects.erase name).get? other = s.objects.get? other := by
        simpa [Ne.symm h] using hget
      exact hsame

/-! ## What a write does to the history -/

theorem consistent_empty : empty.Consistent :=
  ⟨rfl, fun _ hc => absurd hc List.not_mem_nil, fun _ => rfl⟩

theorem Wrote.consistent {c : Change} (h : s.Wrote s' c) (hs : s.Consistent) : s'.Consistent := by
  constructor
  · rw [h.history, h.version, List.map_cons, hs.numbered, h.number, List.range'_concat,
      List.reverse_append]
    simp [Nat.add_comm]
  · intro d hd
    rw [h.history, List.mem_cons] at hd
    rcases hd with rfl | hd
    · exact h.stamped
    · exact hs.stamped d hd
  · intro name
    rw [h.object?, h.history, Change.lastLeft?_cons, hs.present]

namespace Consistent

theorem version_mem (hs : s.Consistent) {c : Change} (hc : c ∈ s.history) :
    1 ≤ c.version ∧ c.version ≤ s.version := by
  have hmem : c.version ∈ s.history.map Change.version := List.mem_map_of_mem hc
  rw [hs.numbered, List.mem_reverse, List.mem_range'_1] at hmem
  omega

/-- The writes stand in descending order. -/
theorem descending (hs : s.Consistent) :
    s.history.Pairwise fun a b => b.version < a.version := by
  have hpairwise : (s.history.map Change.version).Pairwise fun a b => b < a := by
    rw [hs.numbered, List.pairwise_reverse]
    exact List.pairwise_lt_range'
  rwa [List.pairwise_map] at hpairwise

theorem object?_eq (hs : s.Consistent) (name : ObjectName) :
    s.object? name = s.objectAt s.version name := by
  have hall : (s.history.filter fun c => c.version ≤ s.version) = s.history := by
    rw [List.filter_eq_self]
    intro c hc
    exact decide_eq_true (hs.version_mem hc).2
  rw [objectAt, hall, hs.present]

theorem objectName_of_object? (hs : s.Consistent) {name : ObjectName} {object : StoredObject}
    (h : s.object? name = some object) : object.objectName = name := by
  rw [hs.present] at h
  exact Change.objectName_of_lastLeft? h

@[simp] theorem objectAt_zero (hs : s.Consistent) (name : ObjectName) :
    s.objectAt 0 name = none := by
  have hnone : (s.history.filter fun c => c.version ≤ 0) = [] := by
    rw [List.filter_eq_nil_iff]
    intro c hc
    have := (hs.version_mem hc).1
    simp only [decide_eq_true_eq]
    omega
  rw [objectAt, hnone, Change.lastLeft?_nil]

/-- Right after a write its object is what the write left. -/
theorem objectAt_of_mem (hs : s.Consistent) {c : Change} (hc : c ∈ s.history) :
    s.objectAt c.version c.target = c.left? := by
  obtain ⟨later, earlier, hsplit⟩ := List.append_of_mem hc
  have hdescending := hs.descending
  rw [hsplit, List.pairwise_append] at hdescending
  have hlater : later.filter (fun d => d.version ≤ c.version) = [] := by
    rw [List.filter_eq_nil_iff]
    intro d hd
    have := hdescending.2.2 d hd c List.mem_cons_self
    simp only [decide_eq_true_eq]
    omega
  rw [objectAt, hsplit, List.filter_append, hlater, List.nil_append,
    List.filter_cons_of_pos (by simp), Change.lastLeft?_cons, if_pos rfl]

end Consistent

/-- Between two times without a write to an object it stays as it is. -/
theorem objectAt_eq_of_quiet {name : ObjectName} {low high : ℕ} (hle : low ≤ high)
    (hquiet : ∀ c ∈ s.history, c.target = name → c.version ≤ high → c.version ≤ low) :
    s.objectAt high name = s.objectAt low name :=
  Change.lastLeft?_filter_of_quiet hle hquiet

/-! ## Later states of a store -/

/-- A store that has the history of `s` and maybe later writes. -/
structure Leads (s s' : MemoryStore) : Prop where
  version_le : s.version ≤ s'.version
  history : ∃ later, s'.history = later ++ s.history ∧ ∀ c ∈ later, s.version < c.version

namespace Leads

theorem refl (s : MemoryStore) : s.Leads s := ⟨Nat.le_refl _, [], rfl, fun _ hc => by cases hc⟩

theorem trans {s'' : MemoryStore} (h : s.Leads s') (h' : s'.Leads s'') : s.Leads s'' := by
  obtain ⟨later, hlater, hnew⟩ := h.history
  obtain ⟨later', hlater', hnew'⟩ := h'.history
  refine ⟨Nat.le_trans h.version_le h'.version_le, later' ++ later, ?_, ?_⟩
  · rw [hlater', hlater, List.append_assoc]
  · intro c hc
    rcases List.mem_append.1 hc with hc | hc
    · exact Nat.lt_of_le_of_lt h.version_le (hnew' c hc)
    · exact hnew c hc

theorem of_wrote {c : Change} (h : s.Wrote s' c) : s.Leads s' := by
  refine ⟨by rw [h.version]; omega, [c], h.history, ?_⟩
  intro d hd
  rw [List.mem_singleton.1 hd, h.number]
  omega

/-- Later writes do not change what was. -/
theorem objectAt (h : s.Leads s') {version : ℕ} (hversion : version ≤ s.version)
    (name : ObjectName) : s'.objectAt version name = s.objectAt version name := by
  obtain ⟨later, hlater, hnew⟩ := h.history
  have hnone : later.filter (fun c => c.version ≤ version) = [] := by
    rw [List.filter_eq_nil_iff]
    intro c hc
    have := hnew c hc
    simp only [decide_eq_true_eq]
    omega
  rw [MemoryStore.objectAt, hlater, List.filter_append, hnone, List.nil_append,
    MemoryStore.objectAt]

end Leads
end MemoryStore
end Keyring
