import Keyring.Proofs.LocalStore.Files

/-!
# Drafts

Whatever else is in a tree, a write to the files of a store goes to a draft first. Once the draft
could be written the directory is known to be there, and until the draft takes the place of a file
every file of an object is read as before. So a write that fails has changed no file of an object.
-/
namespace Keyring.LocalStore

variable {s : LocalStore} {t t' : FileTree} {place : FilePath} {name : ObjectName}

/-- A draft that could be written is in the directory of the store. -/
theorem opened_of_draft {content : Bytes} (h : t.write (s.draftPath name) content = .ok t') :
    ∃ place, s.Opened t place ∧ s.Admits name ∧
      t.at? (place ++ [draftName name]) ≠ some .directory ∧
      t' = t.put (place ++ [draftName name]) (.file content) := by
  unfold FileTree.write at h
  split at h
  next => cases h
  next draftPlace hlocate =>
    have hfree : t.at? draftPlace ≠ some .directory := by
      intro hdirectory
      simp only [hdirectory] at h
      cases h
    have hput : t' = t.put draftPlace (.file content) := by
      split at h
      next => cases h
      next => exact (Except.ok.inj h).symm
    have hwalk : t.walk [] (.ofText s.directory ++ [draftName name]) = .ok draftPlace := by
      unfold FileTree.locate at hlocate
      split at hlocate
      next => exact hlocate
      next => cases hlocate
    rw [FileTree.walk_append] at hwalk
    cases hreached : t.walk [] (.ofText s.directory) with
    | error fault =>
      rw [hreached] at hwalk
      cases hwalk
    | ok place =>
      have hlast : t.walk place [draftName name] = .ok draftPlace := by
        rw [hreached] at hwalk
        exact hwalk
      have hdirectory : t.at? place = some .directory := by
        unfold FileTree.walk at hlast
        split at hlast
        next => cases hlast
        next => cases hlast
        next hnode => exact hnode
      have hopened : s.Opened t place := ⟨hreached, hdirectory⟩
      rw [hopened.locate_draftPath] at hlocate
      split_ifs at hlocate with hadmits
      obtain rfl := Except.ok.inj hlocate
      exact ⟨place, hopened, hadmits, hfree, hput⟩

/-- A draft leaves all files of objects as they are. -/
theorem read_of_draft {content : Bytes} (h : t.write (s.draftPath name) content = .ok t')
    (other : ObjectName) : t'.read (s.path other) = t.read (s.path other) := by
  obtain ⟨place, hopened, -, hfree, rfl⟩ := opened_of_draft h
  have hextends := FileTree.extends_put (.file content) hfree
  have hne : place ++ [fileName other] ≠ place ++ [draftName name] := by
    simp [fileName_ne_draftName]
  exact hopened.read_congr (hopened.mono hextends) (FileTree.at?_put_of_ne t _ hne)

/-! ## Writes that fail -/

/-- A save that fails leaves all files of objects as they are. -/
theorem read_of_save_error {disk disk' : Disk} {file : ObjectFile} {failure : KeyError}
    (h : s.save disk name file = (disk', .error failure)) (other : ObjectName) :
    disk'.files.read (s.path other) = disk.files.read (s.path other) := by
  unfold save at h
  dsimp only at h
  split at h
  next => cases (Prod.mk.inj h).2
  next files hrun =>
    obtain rfl := (Prod.mk.inj h).1
    rw [writeSteps, FileTree.run] at hrun
    split at hrun
    next draft hdraft =>
      have hkept := read_of_draft (s := s) hdraft other
      rw [FileTree.run] at hrun
      split at hrun
      next => simp [FileTree.run] at hrun
      next => exact (Prod.mk.inj hrun).1 ▸ hkept
    next => exact (Prod.mk.inj hrun).1 ▸ rfl

variable {disk disk' : Disk} {plan : Option ObjectFile → Except KeyError ObjectFile}

/-- A change that fails leaves all files of objects as they are. -/
theorem read_of_change_error {failure : KeyError}
    (h : s.change disk name plan = (disk', .error failure)) (other : ObjectName) :
    disk'.files.read (s.path other) = disk.files.read (s.path other) := by
  unfold change at h
  split at h
  next => exact (Prod.mk.inj h).1 ▸ rfl
  next file hplan =>
    split at h
    next => cases (Prod.mk.inj h).2
    next saved refused hsave =>
      rw [← (Prod.mk.inj h).1]
      exact read_of_save_error hsave other

/-! ## Writes that are done -/

/-- Where a draft could be written beside a file that is loaded, nothing is in the way. -/
theorem ready_of_draft {content : Bytes} (h : t.write (s.draftPath name) content = .ok t')
    {existing : Option ObjectFile} (hload : s.load t name = .ok existing) :
    ∃ place, s.Ready t place name ∧ s.Admits name := by
  obtain ⟨place, hopened, hadmits, hfree, -⟩ := opened_of_draft h
  refine ⟨place, ⟨hopened.reached, hopened.directory, ?_, hfree⟩, hadmits⟩
  intro hdirectory
  have hread : t.read (s.path name) = .error .refused := by
    rw [FileTree.read, hopened.locate_path, if_pos hadmits.path]
    simp only [hdirectory]
  rw [load, hread] at hload
  cases hload

/-- A change that is done has planned on what the file said, the file says what was planned, and
all files of objects with other file names are as they were. -/
theorem change_ok {file : ObjectFile} (h : s.change disk name plan = (disk', .ok file)) :
    ∃ existing, s.load disk.files name = .ok existing ∧ plan existing = .ok file ∧
      (file.version < ObjectFile.versionLimit → s.load disk'.files name = .ok (some file)) ∧
      ∀ other, fileName other ≠ fileName name →
        disk'.files.read (s.path other) = disk.files.read (s.path other) := by
  unfold change at h
  split at h
  next => cases (Prod.mk.inj h).2
  next planned hbind =>
    cases hload : s.load disk.files name with
    | error failure =>
      rw [hload] at hbind
      cases hbind
    | ok existing =>
      rw [hload] at hbind
      split at h
      next saved hsave =>
        obtain ⟨rfl, hfile⟩ := Prod.mk.inj h
        obtain rfl := Except.ok.inj hfile
        obtain ⟨draft, hdraft⟩ : ∃ draft, disk.files.write (s.draftPath name)
            (s.masterKey.encrypt planned.toBytes disk.pool).1 = .ok draft := by
          cases hwrite : disk.files.write (s.draftPath name)
              (s.masterKey.encrypt planned.toBytes disk.pool).1 with
          | ok draft => exact ⟨draft, rfl⟩
          | error fault => simp [save, writeSteps, FileTree.run, FileTree.step, hwrite] at hsave
        obtain ⟨place, hready, hadmits⟩ := ready_of_draft hdraft hload
        obtain ⟨disk₂, hsave₂, hplace, -, hothers⟩ := save_places hadmits hready planned
        obtain ⟨disk₃, hsave₃, -, hloaded, -⟩ := save_spec hadmits hready planned
        rw [hsave] at hsave₂ hsave₃
        obtain ⟨rfl, -⟩ := Prod.mk.inj hsave₂
        obtain ⟨rfl, -⟩ := Prod.mk.inj hsave₃
        refine ⟨existing, rfl, hbind, hloaded, fun other hother => ?_⟩
        obtain ⟨⟨hfile, hdraftFile⟩, -⟩ := places_ne place hother
        have hextends := hready.extends_of_places hothers
        exact hready.opened.read_congr (hready.opened.mono hextends) (hothers _ hfile hdraftFile)
      next => cases (Prod.mk.inj h).2

/-- No change writes over a file that cannot be loaded. -/
theorem read_of_load_error {other : ObjectName} {failure : KeyError}
    (h : s.load disk.files other = .error failure) :
    (s.change disk name plan).1.files.read (s.path other) = disk.files.read (s.path other) := by
  obtain ⟨disk', outcome, hchange⟩ : ∃ disk' outcome, s.change disk name plan = (disk', outcome) :=
    ⟨_, _, rfl⟩
  rw [hchange]
  cases outcome with
  | error refused => exact read_of_change_error hchange other
  | ok file =>
    obtain ⟨existing, hload, -, -, hothers⟩ := change_ok hchange
    apply hothers
    intro hsame
    rw [load_of_fileName hsame, hload] at h
    cases h

end Keyring.LocalStore
