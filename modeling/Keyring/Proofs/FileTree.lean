import Keyring.FileTree
import Keyring.Proofs.SortedMap

/-!
# Changes of file trees

A path leads on through directories that stay. So directories that are made on request are reached
afterwards, and a file that takes the place of another changes nothing but the two places.
-/
namespace Keyring.FileTree

/-- Every directory of a tree is one of the other. -/
def Extends (t t' : FileTree) : Prop :=
  ∀ place, t.at? place = some .directory → t'.at? place = some .directory

variable {t t' : FileTree}

theorem at?_put_of_ne (t : FileTree) {place place' : FilePath} (node : FileNode)
    (h : place' ≠ place) : (t.put place node).at? place' = t.at? place' :=
  SortedMap.get?_insert_of_ne t.nodes h node

theorem Extends.walk {place path last : FilePath} (h : t.Extends t')
    (hwalk : t.walk place path = .ok last) : t'.walk place path = .ok last := by
  fun_induction FileTree.walk t place path with
  | case1 place => exact hwalk
  | case2 | case3 | case6 => cases hwalk
  | case4 place rest hdirectory ih =>
    have hkept : t'.nodes.get? place = some .directory := h place hdirectory
    simpa [FileTree.walk, hkept] using ih hwalk
  | case5 place rest hdirectory _ ih =>
    have hkept : t'.nodes.get? place = some .directory := h place hdirectory
    simpa [FileTree.walk, hkept] using ih hwalk
  | case7 place name rest hdirectory hstays hback hshort ih =>
    have hkept : t'.nodes.get? place = some .directory := h place hdirectory
    simpa [FileTree.walk, hkept, hstays, hback, hshort] using ih hwalk

theorem Extends.locate {path place : FilePath} (h : t.Extends t')
    (hlocate : t.locate path = .ok place) : t'.locate path = .ok place := by
  unfold FileTree.locate at hlocate ⊢
  split at hlocate
  next hadmitted =>
    rw [if_pos hadmitted]
    exact h.walk hlocate
  next => cases hlocate

/-- A plain name leads into a directory, unless the file system does not take it. -/
theorem locate_child {path place : FilePath} {name : String} (reached : t.walk [] path = .ok place)
    (h : t.at? place = some .directory) (stays : name ≠ ".") (back : name ≠ "..") :
    t.locate (path ++ [name]) =
      if (FilePath.isAdmitted (path ++ [name])) = true ∧ name.utf8ByteSize ≤ FilePath.nameLimit
      then .ok (place ++ [name]) else .error .refused := by
  unfold FileTree.locate
  by_cases hadmitted : (FilePath.isAdmitted (path ++ [name])) = true
  · by_cases hshort : name.utf8ByteSize ≤ FilePath.nameLimit
    · rw [if_pos hadmitted, if_pos ⟨hadmitted, hshort⟩, t.walk_child reached h stays back hshort]
    · have hnode : t.nodes.get? place = some .directory := h
      rw [if_pos hadmitted, if_neg fun hboth => hshort hboth.2, walk_append, reached]
      simp [Except.bind, FileTree.walk, hnode, stays, back, Nat.not_le.1 hshort]
  · rw [if_neg hadmitted, if_neg fun hboth => hadmitted hboth.1]

/-- Something new where there is no directory. -/
theorem extends_put {place : FilePath} (node : FileNode) (h : t.at? place ≠ some .directory) :
    t.Extends (t.put place node) := by
  intro other hother
  have hne : other ≠ place := fun heq => h (heq ▸ hother)
  rw [at?_put_of_ne t node hne, hother]

theorem isDirectory_iff {path : FilePath} :
    t.isDirectory path = true ↔ ∃ place, t.locate path = .ok place ∧
      t.at? place = some .directory := by
  unfold isDirectory
  split
  next place hlocate => simp [hlocate]
  next fault hlocate => simp [hlocate]

/-! ## Directories that are made -/

/-- A directory is reached once it is made. -/
theorem isDirectory_of_made {path : FilePath} (h : t.makeDirectory path = .made t') :
    t'.isDirectory path = true := by
  unfold makeDirectory at h
  split at h
  next => cases h
  next => cases h
  next place hlocate =>
    split at h
    next => cases h
    next hnone =>
      obtain rfl := Making.made.inj h
      have hextends : t.Extends (t.put place .directory) :=
        extends_put .directory (by simp [hnone])
      exact isDirectory_iff.2 ⟨place, hextends.locate hlocate, at?_put_self t place .directory⟩

/-- What was not reached before is not forgotten. -/
theorem suffix_of_climb {unreached paths rest : List FilePath}
    (h : t.climb unreached paths = (t', some rest)) : unreached <:+ rest := by
  induction paths generalizing unreached with
  | nil =>
    obtain ⟨-, hrest⟩ := Prod.mk.inj h
    exact Option.some.inj hrest ▸ List.suffix_refl unreached
  | cons path above ih =>
    unfold climb at h
    split at h
    next =>
      obtain ⟨-, hrest⟩ := Prod.mk.inj h
      exact Option.some.inj hrest ▸ List.suffix_refl unreached
    next =>
      split at h
      · obtain ⟨-, hrest⟩ := Prod.mk.inj h
        exact Option.some.inj hrest ▸ List.suffix_refl unreached
      · cases (Prod.mk.inj h).2
    next => exact (List.suffix_cons path unreached).trans (ih h)
    next => cases (Prod.mk.inj h).2

/-- The lowest path is reached or is the last of those that are left. -/
theorem climb_spec {path : FilePath} {above rest : List FilePath}
    (h : t.climb [] (path :: above) = (t', some rest)) :
    (rest = [] ∧ t'.isDirectory path = true) ∨ rest.getLast? = some path := by
  unfold climb at h
  split at h
  next made hmade =>
    obtain ⟨rfl, hrest⟩ := Prod.mk.inj h
    exact Or.inl ⟨(Option.some.inj hrest).symm, isDirectory_of_made hmade⟩
  next =>
    split at h
    next hdirectory =>
      obtain ⟨rfl, hrest⟩ := Prod.mk.inj h
      exact Or.inl ⟨(Option.some.inj hrest).symm, hdirectory⟩
    next => cases (Prod.mk.inj h).2
  next =>
    right
    obtain ⟨before, rfl⟩ := suffix_of_climb h
    rw [List.getLast?_concat]
  next => cases (Prod.mk.inj h).2

/-- The last of the directories is reached. -/
theorem isDirectory_of_descend {paths : List FilePath} {path : FilePath}
    (h : t.descend paths = (t', true)) (hlast : paths.getLast? = some path) :
    t'.isDirectory path = true := by
  induction paths generalizing t with
  | nil => cases hlast
  | cons first rest ih =>
    have hend : ∀ made : FileTree, made.isDirectory first = true →
        made.descend rest = (t', true) → t'.isDirectory path = true := by
      intro made hfirst hdescend
      cases rest with
      | nil =>
        obtain ⟨rfl, -⟩ := Prod.mk.inj hdescend
        rw [List.getLast?_singleton, Option.some.injEq] at hlast
        exact hlast ▸ hfirst
      | cons second rest =>
        rw [List.getLast?_cons_cons] at hlast
        exact ih hdescend hlast
    unfold descend at h
    split at h
    next made hmade => exact hend made (isDirectory_of_made hmade) h
    next =>
      split at h
      next hdirectory => exact hend t hdirectory h
      next => cases (Prod.mk.inj h).2
    next => cases (Prod.mk.inj h).2
    next => cases (Prod.mk.inj h).2

/-- A directory that was made with those above it is reached. -/
theorem isDirectory_of_createDirectories {path : FilePath}
    (h : t.createDirectories path = (t', true)) : t'.isDirectory path = true := by
  unfold createDirectories at h
  split at h
  next climbed unreached hclimb =>
    rcases climb_spec hclimb with ⟨rfl, hdirectory⟩ | hlast
    · obtain ⟨rfl, -⟩ := Prod.mk.inj h
      exact hdirectory
    · exact isDirectory_of_descend h hlast
  next => cases (Prod.mk.inj h).2

/-- A directory names what is in it. -/
theorem mem_names_iff {directory place : FilePath} {name : String}
    (h : t.locate directory = .ok place) :
    name ∈ t.names directory ↔ t.at? (place ++ [name]) ≠ none := by
  have hkey : t.at? (place ++ [name]) ≠ none ↔ place ++ [name] ∈ t.nodes.keys := by
    rw [Option.ne_none_iff_exists', SortedMap.keys, List.mem_map]
    constructor
    · rintro ⟨node, hnode⟩
      exact ⟨(place ++ [name], node), (SortedMap.get?_eq_some_iff _ _ _).1 hnode, rfl⟩
    · rintro ⟨⟨key, node⟩, hmem, rfl⟩
      exact ⟨node, (SortedMap.get?_eq_some_iff _ _ _).2 hmem⟩
  rw [hkey, names, h]
  simp only [List.mem_filterMap]
  constructor
  · rintro ⟨other, hother, hlast⟩
    split at hlast
    next hin =>
      obtain ⟨-, hplace⟩ := hin
      obtain ⟨above, rfl⟩ := List.getLast?_eq_some_iff.1 hlast
      rw [List.dropLast_concat] at hplace
      exact hplace ▸ hother
    next => cases hlast
  · intro hmem
    exact ⟨place ++ [name], hmem, by simp⟩

/-! ## Files that take the place of others -/

theorem write_eq {path place : FilePath} {content : Bytes} (hlocate : t.locate path = .ok place)
    (h : t.at? place ≠ some .directory) :
    t.write path content = .ok (t.put place (.file content)) := by
  unfold write
  rw [hlocate]
  dsimp only
  split
  next hdirectory => exact absurd hdirectory h
  next => rfl

/-- A draft that is written and takes the place of a file. -/
theorem run_exchange {draft path draftPlace place : FilePath} (content : Bytes)
    (hdraft : t.locate draft = .ok draftPlace) (hpath : t.locate path = .ok place)
    (hdraftFree : t.at? draftPlace ≠ some .directory) (hfree : t.at? place ≠ some .directory)
    (hne : place ≠ draftPlace) :
    ∃ t', t.run [.write draft content, .rename draft path] = (t', true) ∧
      t'.at? place = some (.file content) ∧ t'.at? draftPlace = none ∧
      ∀ other, other ≠ place → other ≠ draftPlace → t'.at? other = t.at? other := by
  obtain ⟨written, hwritten⟩ : ∃ written, written = t.put draftPlace (.file content) := ⟨_, rfl⟩
  obtain ⟨moved, hmoved⟩ : ∃ moved, moved = written.put place (.file content) := ⟨_, rfl⟩
  have hwrittenExtends : t.Extends written := hwritten ▸ extends_put _ hdraftFree
  have hwrittenDraft : written.at? draftPlace = some (.file content) := by
    rw [hwritten, at?_put_self]
  have hwrittenPlace : written.at? place = t.at? place := by
    rw [hwritten, at?_put_of_ne t _ hne]
  have hmovedExtends : written.Extends moved :=
    hmoved ▸ extends_put _ (by rw [hwrittenPlace]; exact hfree)
  have hmovedDraft : moved.at? draftPlace = some (.file content) := by
    rw [hmoved, at?_put_of_ne written _ hne.symm, hwrittenDraft]
  have hwrite : t.write draft content = .ok written := hwritten ▸ write_eq hdraft hdraftFree
  have hread : written.read draft = .ok content := by
    simp only [read, hwrittenExtends.locate hdraft, hwrittenDraft]
  have hmove : written.write path content = .ok moved :=
    hmoved ▸ write_eq (hwrittenExtends.locate hpath) (by rw [hwrittenPlace]; exact hfree)
  have hremove : moved.remove draft = .ok ⟨moved.nodes.erase draftPlace, moved.revision + 1⟩ := by
    rw [remove, hmovedExtends.locate (hwrittenExtends.locate hdraft)]
    dsimp only
    rw [hmovedDraft]
  have hat : ∀ other, (⟨moved.nodes.erase draftPlace, moved.revision + 1⟩ : FileTree).at? other =
      if other = draftPlace then none else moved.at? other := by
    intro other
    by_cases hother : other = draftPlace
    · simp [at?, SortedMap.get?_erase, hother]
    · simp [at?, SortedMap.get?_erase, hother]
  refine ⟨⟨moved.nodes.erase draftPlace, moved.revision + 1⟩, ?_, ?_, ?_, ?_⟩
  · simp only [run, step, hwrite, rename, hread, hmove, Except.bind, hremove]
  · rw [hat, if_neg hne, hmoved, at?_put_self]
  · rw [hat, if_pos rfl]
  · intro other hplace hdraftPlace
    rw [hat, if_neg hdraftPlace, hmoved, at?_put_of_ne written _ hplace, hwritten,
      at?_put_of_ne t _ hdraftPlace]

end Keyring.FileTree
