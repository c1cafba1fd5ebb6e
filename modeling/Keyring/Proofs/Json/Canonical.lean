import Keyring.Json.Value
import Keyring.Proofs.Json.RoundTrip
import Keyring.Proofs.SortedMap

/-!
# Canonical values

A value that was read from a text has only numbers that can be stored, its members are sorted, and
it is not too deep. It is read again from its own tree, and a text of it is read as a value of the
same form.
-/
namespace Keyring.Json

/-! ## Storable values -/

theorem storableItems_iff {items : List Json} :
    StorableItems items ↔ ∀ item ∈ items, item.Storable := by
  induction items with
  | nil => simp [StorableItems]
  | cons item rest ih => simp [StorableItems, ih]

theorem storableMembers_iff {members : List (String × Json)} :
    StorableMembers members ↔ ∀ m ∈ members, m.2.Storable := by
  induction members with
  | nil => simp [StorableMembers]
  | cons m rest ih => simp [StorableMembers, ih]

namespace Tree

mutual

/-- All numbers of a tree can be stored. -/
def Storable : Tree → Prop
  | .number n => ∀ m, n = some m → m.Storable
  | .array items => StorableTrees items
  | .object members => StorableTreeMembers members
  | _ => True

/-- All numbers of the trees of array items can be stored. -/
def StorableTrees : List Tree → Prop
  | [] => True
  | item :: rest => Storable item ∧ StorableTrees rest

/-- All numbers of the trees of object members can be stored. -/
def StorableTreeMembers : List (Option String × Tree) → Prop
  | [] => True
  | (_, value) :: rest => Storable value ∧ StorableTreeMembers rest

end

theorem storableTrees_iff {items : List Tree} :
    StorableTrees items ↔ ∀ item ∈ items, item.Storable := by
  induction items with
  | nil => simp [StorableTrees]
  | cons item rest ih => simp [StorableTrees, ih]

theorem storableTreeMembers_iff {members : List (Option String × Tree)} :
    StorableTreeMembers members ↔ ∀ m ∈ members, m.2.Storable := by
  induction members with
  | nil => simp [StorableTreeMembers]
  | cons m rest ih => simp [StorableTreeMembers, ih]

/-- An open array or object holds only trees that can be stored. -/
def Frame.Storable : Frame → Prop
  | .array items => ∀ item ∈ items, item.Storable
  | .object members _ => ∀ m ∈ members, m.2.Storable

namespace Parser

/-- All that a parser has read can be stored. -/
def Storable : Parser → Prop
  | .awaiting _ stack => ∀ frame ∈ stack, frame.Storable
  | .finished tree => tree.Storable

theorem storable_deliver {tree : Tree} (ht : tree.Storable) {stack : List Frame}
    (hs : ∀ frame ∈ stack, frame.Storable) : (deliver tree stack).Storable := by
  cases stack with
  | nil => exact ht
  | cons frame rest =>
    obtain ⟨hframe, hrest⟩ := List.forall_mem_cons.1 hs
    cases frame with
    | array items =>
      apply List.forall_mem_cons.2 ⟨_, hrest⟩
      exact List.forall_mem_cons.2 ⟨ht, hframe⟩
    | object members key =>
      apply List.forall_mem_cons.2 ⟨_, hrest⟩
      exact List.forall_mem_cons.2 ⟨ht, hframe⟩

theorem storable_begin? {stack : List Frame} (hs : ∀ frame ∈ stack, frame.Storable) {token : Token}
    {next : Parser} (h : begin? stack token = some next) : next.Storable := by
  cases token <;> simp only [begin?, Option.some.injEq, reduceCtorEq] at h <;> subst h
  case null => exact storable_deliver (show Tree.Storable .null from trivial) hs
  case bool b => exact storable_deliver (show Tree.Storable (.bool b) from trivial) hs
  case number written =>
    have hnumber : Tree.Storable (.number (Number.ofWritten? written)) := fun m hm =>
      Number.storable_ofWritten? hm
    exact storable_deliver hnumber hs
  case string written =>
    have hstring : Tree.Storable (.string (StringText.read? written)) := trivial
    exact storable_deliver hstring hs
  case openArray =>
    have hframe : Frame.Storable (.array []) := fun item hitem => by cases hitem
    exact List.forall_mem_cons.2 ⟨hframe, hs⟩
  case openObject =>
    have hframe : Frame.Storable (.object [] none) := fun m hm => by cases hm
    exact List.forall_mem_cons.2 ⟨hframe, hs⟩

theorem storable_close? {stack : List Frame} (hs : ∀ frame ∈ stack, frame.Storable) {token : Token}
    {next : Parser} (h : close? token stack = some next) : next.Storable := by
  unfold close? at h
  split at h
  next items rest =>
    obtain ⟨hitems, hrest⟩ := List.forall_mem_cons.1 hs
    rw [Option.some.injEq] at h
    subst h
    have harray : Tree.Storable (.array items.reverse) := storableTrees_iff.2 fun item hitem =>
      hitems item (List.mem_reverse.1 hitem)
    exact storable_deliver harray hrest
  next members key rest =>
    obtain ⟨hmembers, hrest⟩ := List.forall_mem_cons.1 hs
    rw [Option.some.injEq] at h
    subst h
    have hobject : Tree.Storable (.object members.reverse) :=
      storableTreeMembers_iff.2 fun m hm => hmembers m (List.mem_reverse.1 hm)
    exact storable_deliver hobject hrest
  next => cases h

theorem storable_key? {stack : List Frame} (hs : ∀ frame ∈ stack, frame.Storable) {token : Token}
    {next : Parser} (h : key? token stack = some next) : next.Storable := by
  unfold key? at h
  split at h
  next written members key rest =>
    obtain ⟨hmembers, hrest⟩ := List.forall_mem_cons.1 hs
    rw [Option.some.injEq] at h
    subst h
    exact List.forall_mem_cons.2 ⟨hmembers, hrest⟩
  next => cases h

theorem storable_step? {parser next : Parser} (hp : parser.Storable) {token : Token}
    (h : parser.step? token = some next) : next.Storable := by
  unfold step? at h
  split at h
  · cases h
  · exact storable_begin? hp h
  · exact storable_close? hp h
  · exact storable_begin? hp h
  · exact storable_key? hp h
  · exact storable_close? hp h
  · exact storable_key? hp h
  · rw [Option.some.injEq] at h
    exact h ▸ hp
  · cases h
  · rw [Option.some.injEq] at h
    exact h ▸ hp
  · rw [Option.some.injEq] at h
    subst h
    obtain ⟨hmembers, hrest⟩ := List.forall_mem_cons.1 hp
    exact List.forall_mem_cons.2 ⟨hmembers, hrest⟩
  · exact storable_close? hp h

theorem storable_run? {tokens : List Token} {parser next : Parser} (hp : parser.Storable)
    (h : parser.run? tokens = some next) : next.Storable := by
  induction tokens generalizing parser with
  | nil => exact Option.some.inj h ▸ hp
  | cons token rest ih =>
    rw [run?] at h
    split at h
    next middle hstep => exact ih (storable_step? hp hstep) h
    next => cases h

end Parser

/-- Every number of a text that is read can be stored. -/
theorem storable_parse? {text : Bytes} {tree : Tree} (h : parse? text = some tree) :
    tree.Storable := by
  simp only [parse?, Option.bind_eq_bind, Option.bind_eq_some_iff] at h
  obtain ⟨tokens, -, parser, hrun, hfinish⟩ := h
  have hparser : parser.Storable := by
    apply Parser.storable_run? _ hrun
    intro frame hframe
    cases hframe
  cases parser with
  | awaiting expected stack => cases hfinish
  | finished result => exact Option.some.inj hfinish ▸ hparser

end Tree

theorem mem_sortMembers {members : List (String × Json)} {m : String × Json}
    (h : m ∈ sortMembers members) : m ∈ members :=
  SortedMap.mem_ofList h

mutual

theorem storable_value? : (depth : ℕ) → (tree : Tree) → tree.Storable → (v : Json) →
    tree.value? depth = some v → v.Storable
  | _, .null, _, v, h => by
    simp only [Tree.value?, Option.some.injEq] at h
    exact h ▸ trivial
  | _, .bool b, _, v, h => by
    simp only [Tree.value?, Option.some.injEq] at h
    exact h ▸ trivial
  | _, .number n, hn, v, h => by
    simp only [Tree.value?, Option.map_eq_some_iff] at h
    obtain ⟨m, hm, rfl⟩ := h
    exact hn m hm
  | _, .string s, _, v, h => by
    simp only [Tree.value?, Option.map_eq_some_iff] at h
    obtain ⟨m, hm, rfl⟩ := h
    trivial
  | depth, .array items, hitems, v, h => by
    rw [Tree.value?] at h
    split at h
    · cases h
    · obtain ⟨values, hvalues, rfl⟩ := Option.map_eq_some_iff.1 h
      exact storable_values? (depth - 1) items hitems values hvalues
  | depth, .object members, hmembers, v, h => by
    rw [Tree.value?] at h
    split at h
    · cases h
    · obtain ⟨values, hvalues, rfl⟩ := Option.map_eq_some_iff.1 h
      have hall := storable_memberValues? (depth - 1) members hmembers values hvalues
      apply storableMembers_iff.2
      intro m hm
      exact storableMembers_iff.1 hall m (mem_sortMembers hm)

theorem storable_values? : (depth : ℕ) → (items : List Tree) → Tree.StorableTrees items →
    (values : List Json) → Tree.values? depth items = some values → StorableItems values
  | _, [], _, values, h => by
    rw [Tree.values?, Option.some.injEq] at h
    exact h ▸ trivial
  | depth, item :: rest, hitems, values, h => by
    rw [Tree.values?] at h
    split at h
    next v vs hv hvs =>
      rw [Option.some.injEq] at h
      subst h
      exact ⟨storable_value? depth item hitems.1 v hv, storable_values? depth rest hitems.2 vs hvs⟩
    next => cases h

theorem storable_memberValues? : (depth : ℕ) → (members : List (Option String × Tree)) →
    Tree.StorableTreeMembers members → (values : List (String × Json)) →
    Tree.memberValues? depth members = some values → StorableMembers values
  | _, [], _, values, h => by
    rw [Tree.memberValues?, Option.some.injEq] at h
    exact h ▸ trivial
  | _, (none, _) :: _, _, values, h => by simp [Tree.memberValues?] at h
  | depth, (some key, value) :: rest, hmembers, values, h => by
    simp only [Tree.memberValues?] at h
    split at h
    next k v vs hk hv hvs =>
      rw [Option.some.injEq] at h
      subst h
      exact ⟨storable_value? depth value hmembers.1 v hv,
        storable_memberValues? depth rest hmembers.2 vs hvs⟩
    next => cases h

end

/-! ## Order and depth -/

/-- Members in strictly ascending order of their keys. -/
def Ascending (members : List (String × Json)) : Prop :=
  members.Pairwise fun a b => compare a.1 b.1 = .lt

mutual

/-- The members of a value are sorted throughout, and it is at most so deep. -/
def Canonical : ℕ → Json → Prop
  | depth, .array items => 2 ≤ depth ∧ CanonicalItems (depth - 1) items
  | depth, .object members =>
    2 ≤ depth ∧ Ascending members ∧ CanonicalMembers (depth - 1) members
  | _, _ => True

def CanonicalItems : ℕ → List Json → Prop
  | _, [] => True
  | depth, item :: rest => Canonical depth item ∧ CanonicalItems depth rest

/-- The values of object members are canonical. -/
def CanonicalMembers : ℕ → List (String × Json) → Prop
  | _, [] => True
  | depth, (_, value) :: rest => Canonical depth value ∧ CanonicalMembers depth rest

end

theorem canonicalMembers_iff {depth : ℕ} {members : List (String × Json)} :
    CanonicalMembers depth members ↔ ∀ m ∈ members, m.2.Canonical depth := by
  induction members with
  | nil => simp [CanonicalMembers]
  | cons m rest ih => simp [CanonicalMembers, ih]

theorem ascending_sortMembers (members : List (String × Json)) : Ascending (sortMembers members) :=
  (SortedMap.ofList members).sorted

theorem sortMembers_of_ascending {members : List (String × Json)} (h : Ascending members) :
    sortMembers members = members :=
  SortedMap.entries_ofList h

mutual

/-- A value of a tree is canonical. -/
theorem canonical_value? : (depth : ℕ) → (tree : Tree) → (v : Json) →
    tree.value? depth = some v → v.Canonical depth
  | _, .null, v, h => by
    simp only [Tree.value?, Option.some.injEq] at h
    subst h
    simp [Canonical]
  | _, .bool b, v, h => by
    simp only [Tree.value?, Option.some.injEq] at h
    subst h
    simp [Canonical]
  | _, .number n, v, h => by
    simp only [Tree.value?, Option.map_eq_some_iff] at h
    obtain ⟨m, hm, rfl⟩ := h
    simp [Canonical]
  | _, .string s, v, h => by
    simp only [Tree.value?, Option.map_eq_some_iff] at h
    obtain ⟨m, hm, rfl⟩ := h
    simp [Canonical]
  | depth, .array items, v, h => by
    rw [Tree.value?] at h
    split at h
    · cases h
    next hdepth =>
      obtain ⟨values, hvalues, rfl⟩ := Option.map_eq_some_iff.1 h
      rw [Canonical]
      exact ⟨by omega, canonical_values? (depth - 1) items values hvalues⟩
  | depth, .object members, v, h => by
    rw [Tree.value?] at h
    split at h
    · cases h
    next hdepth =>
      obtain ⟨values, hvalues, rfl⟩ := Option.map_eq_some_iff.1 h
      have hall := canonical_memberValues? (depth - 1) members values hvalues
      rw [Canonical]
      refine ⟨by omega, ascending_sortMembers values, canonicalMembers_iff.2 ?_⟩
      intro m hm
      exact canonicalMembers_iff.1 hall m (mem_sortMembers hm)

theorem canonical_values? : (depth : ℕ) → (items : List Tree) → (values : List Json) →
    Tree.values? depth items = some values → CanonicalItems depth values
  | _, [], values, h => by
    rw [Tree.values?, Option.some.injEq] at h
    subst h
    simp [CanonicalItems]
  | depth, item :: rest, values, h => by
    rw [Tree.values?] at h
    split at h
    next v vs hv hvs =>
      rw [Option.some.injEq] at h
      subst h
      exact ⟨canonical_value? depth item v hv, canonical_values? depth rest vs hvs⟩
    next => cases h

theorem canonical_memberValues? : (depth : ℕ) → (members : List (Option String × Tree)) →
    (values : List (String × Json)) → Tree.memberValues? depth members = some values →
    CanonicalMembers depth values
  | _, [], values, h => by
    rw [Tree.memberValues?, Option.some.injEq] at h
    subst h
    simp [CanonicalMembers]
  | _, (none, _) :: _, values, h => by simp [Tree.memberValues?] at h
  | depth, (some key, value) :: rest, values, h => by
    simp only [Tree.memberValues?] at h
    split at h
    next k v vs hk hv hvs =>
      rw [Option.some.injEq] at h
      subst h
      exact ⟨canonical_value? depth value v hv, canonical_memberValues? depth rest vs hvs⟩
    next => cases h

end

mutual

/-- A canonical value is found again in its tree. -/
theorem value?_toTree : (depth : ℕ) → (v : Json) → v.Canonical depth →
    v.toTree.value? depth = some v
  | _, .null, _ => by rw [toTree, Tree.value?]
  | _, .bool b, _ => by rw [toTree, Tree.value?]
  | _, .number n, _ => by rw [toTree, Tree.value?, Option.map_some]
  | _, .string s, _ => by rw [toTree, Tree.value?, Option.map_some]
  | depth, .array items, h => by
    rw [Canonical] at h
    rw [toTree, Tree.value?, if_neg (by omega), values?_toTrees (depth - 1) items h.2,
      Option.map_some]
  | depth, .object members, h => by
    rw [Canonical] at h
    obtain ⟨hdepth, hsorted, hmembers⟩ := h
    rw [toTree, Tree.value?, if_neg (by omega),
      memberValues?_toTreeMembers (depth - 1) members hmembers, Option.map_some,
      sortMembers_of_ascending hsorted]

theorem values?_toTrees : (depth : ℕ) → (items : List Json) → CanonicalItems depth items →
    Tree.values? depth (toTrees items) = some items
  | _, [], _ => by rw [toTrees, Tree.values?]
  | depth, item :: rest, h => by
    rw [toTrees, Tree.values?, value?_toTree depth item h.1, values?_toTrees depth rest h.2]

theorem memberValues?_toTreeMembers : (depth : ℕ) → (members : List (String × Json)) →
    CanonicalMembers depth members →
    Tree.memberValues? depth (toTreeMembers members) = some members
  | _, [], _ => by rw [toTreeMembers, Tree.memberValues?]
  | depth, (key, value) :: rest, h => by
    simp only [toTreeMembers, Tree.memberValues?, value?_toTree depth value h.1,
      memberValues?_toTreeMembers depth rest h.2]

end

/-! ## Values that were written -/

theorem ascending_rereadMembers {members : List (String × Json)} (h : Ascending members) :
    Ascending (rereadMembers members) := by
  have hkeys : (rereadMembers members).map Prod.fst = members.map Prod.fst := by
    clear h
    induction members with
    | nil => rfl
    | cons m rest ih => simp [rereadMembers, ih]
  unfold Ascending at *
  rw [← List.pairwise_map (f := Prod.fst) (R := fun a b : String => compare a b = .lt)] at *
  rw [hkeys]
  exact h

mutual

theorem canonical_reread : (depth : ℕ) → (v : Json) → v.Canonical depth → v.reread.Canonical depth
  | _, .null, h => h
  | _, .bool _, h => h
  | _, .number n, _ => by simp [reread, Canonical]
  | _, .string _, h => h
  | depth, .array items, h => by
    rw [Canonical] at h
    rw [reread, Canonical]
    exact ⟨h.1, canonicalItems_reread (depth - 1) items h.2⟩
  | depth, .object members, h => by
    rw [Canonical] at h
    rw [reread, Canonical]
    exact ⟨h.1, ascending_rereadMembers h.2.1, canonicalMembers_reread (depth - 1) members h.2.2⟩

theorem canonicalItems_reread : (depth : ℕ) → (items : List Json) → CanonicalItems depth items →
    CanonicalItems depth (rereadItems items)
  | _, [], _ => by simp [rereadItems, CanonicalItems]
  | depth, item :: rest, h => by
    rw [rereadItems, CanonicalItems]
    exact ⟨canonical_reread depth item h.1, canonicalItems_reread depth rest h.2⟩

theorem canonicalMembers_reread : (depth : ℕ) → (members : List (String × Json)) →
    CanonicalMembers depth members → CanonicalMembers depth (rereadMembers members)
  | _, [], _ => by simp [rereadMembers, CanonicalMembers]
  | depth, (key, value) :: rest, h => by
    rw [rereadMembers, CanonicalMembers]
    exact ⟨canonical_reread depth value h.1, canonicalMembers_reread depth rest h.2⟩

end

end Keyring.Json
