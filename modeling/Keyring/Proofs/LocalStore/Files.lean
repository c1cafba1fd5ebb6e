import Keyring.LocalStore
import Keyring.Proofs.Crypto.Sealing
import Keyring.Proofs.FileTree
import Keyring.Proofs.LocalStore.ObjectFile

/-!
# Files of a local store

What is saved is loaded again, and objects with other file names do not notice. The file system has
to take the name, the directory has to be there, and no directory may be where the files go.
-/
namespace Keyring

/-- A key decrypts what it encrypted. -/
theorem MasterKey.decrypt_encrypt (key : MasterKey) (plaintext : Bytes) (pool : Entropy) :
    key.decrypt (key.encrypt plaintext pool).1 = .ok plaintext := by
  obtain ⟨nonce, hnonce⟩ : ∃ nonce, nonce = (pool.draw Gcm.nonceLength).1 := ⟨_, rfl⟩
  have hlength : nonce.length = Gcm.nonceLength := by rw [hnonce, Entropy.length_draw]
  have hencrypt : (key.encrypt plaintext pool).1 =
      nonce ++ Gcm.encrypt key.bytes nonce plaintext := by rw [hnonce, encrypt]
  have hlong : ¬ (nonce ++ Gcm.encrypt key.bytes nonce plaintext).length < Gcm.nonceLength := by
    rw [List.length_append]
    omega
  rw [hencrypt, decrypt, if_neg hlong, List.take_left' hlength, List.drop_left' hlength,
    Gcm.decrypt?_encrypt key.length_eq hlength]

namespace FilePath

theorem byteSize_concat (path : FilePath) (name : String) :
    byteSize (path ++ [name]) = path.byteSize + 1 + name.utf8ByteSize := by
  simp [byteSize]

end FilePath

namespace LocalStore

/-! ## File names -/

/-- The file name of what is written before it takes the place of an object's file. -/
def draftName (name : ObjectName) : String := fileName name ++ ".tmp"

theorem getLast?_fileName (name : ObjectName) :
    (fileName name).toList.getLast? = some 'j' := by
  rw [fileName, String.toList_append, List.getLast?_append]
  rfl

theorem getLast?_draftName (name : ObjectName) :
    (draftName name).toList.getLast? = some 'p' := by
  rw [draftName, String.toList_append, List.getLast?_append]
  rfl

/-- A text with another end is another text. -/
theorem ne_of_getLast? {text text' : String} {c c' : Char} (h : text.toList.getLast? = some c)
    (h' : text'.toList.getLast? = some c') (hne : c ≠ c') : text ≠ text' := by
  rintro rfl
  exact hne (Option.some.inj (h.symm.trans h'))

/-- A name without a dot at its end leads somewhere else. -/
theorem ne_dots {text : String} {c : Char} (h : text.toList.getLast? = some c) (hne : c ≠ '.') :
    text ≠ "." ∧ text ≠ ".." :=
  ⟨ne_of_getLast? h (by rfl) hne, ne_of_getLast? h (by rfl) hne⟩

theorem fileName_ne_draftName (name name' : ObjectName) : fileName name ≠ draftName name' :=
  ne_of_getLast? (getLast?_fileName name) (getLast?_draftName name') (by decide)

theorem draftName_inj {name name' : ObjectName} (h : draftName name = draftName name') :
    fileName name = fileName name' := by
  rw [draftName, draftName] at h
  exact (String.append_left_inj _).1 h

/-- The file system takes the two files of an object. -/
def Admits (s : LocalStore) (name : ObjectName) : Prop :=
  (s.draftPath name).isAdmitted = true ∧ (draftName name).utf8ByteSize ≤ FilePath.nameLimit

instance (s : LocalStore) (name : ObjectName) : Decidable (s.Admits name) :=
  inferInstanceAs (Decidable (_ ∧ _))

variable {s : LocalStore} {name : ObjectName}

theorem utf8ByteSize_draftName (name : ObjectName) :
    (draftName name).utf8ByteSize = (fileName name).utf8ByteSize + 4 := by
  rw [draftName, String.utf8ByteSize_append]
  rfl

/-- A path that is taken with a longer last name is taken. -/
theorem Admits.path (h : s.Admits name) :
    (s.path name).isAdmitted = true ∧ (fileName name).utf8ByteSize ≤ FilePath.nameLimit := by
  obtain ⟨hdraft, hshort⟩ := h
  rw [utf8ByteSize_draftName] at hshort
  refine ⟨?_, by omega⟩
  rw [draftPath, ← draftName, FilePath.isAdmitted, Bool.and_eq_true, decide_eq_true_eq,
    FilePath.byteSize_concat, utf8ByteSize_draftName, List.all_append, Bool.and_eq_true] at hdraft
  obtain ⟨hsize, hdirectory, hzero⟩ := hdraft
  rw [LocalStore.path, FilePath.isAdmitted, Bool.and_eq_true, decide_eq_true_eq,
    FilePath.byteSize_concat, List.all_append, Bool.and_eq_true]
  refine ⟨by omega, hdirectory, ?_⟩
  simp only [draftName, String.toList_append, List.all_cons, List.all_nil, Bool.and_true,
    List.contains_eq_mem, Bool.not_eq_true', decide_eq_false_iff_not, List.mem_append,
    not_or] at hzero ⊢
  exact hzero.1

/-! ## Files in a directory -/

/-- The directory of a store is at a place of the tree. -/
structure Opened (s : LocalStore) (t : FileTree) (place : FilePath) : Prop where
  reached : t.walk [] (.ofText s.directory) = .ok place
  directory : t.at? place = some .directory

/-- The place of a directory, with nothing in the way of an object's files. -/
structure Ready (s : LocalStore) (t : FileTree) (place : FilePath) (name : ObjectName) : Prop where
  reached : t.walk [] (.ofText s.directory) = .ok place
  directory : t.at? place = some .directory
  file : t.at? (place ++ [fileName name]) ≠ some .directory
  draft : t.at? (place ++ [draftName name]) ≠ some .directory

variable {t t' : FileTree} {place : FilePath}

namespace Opened

/-- A directory stays where it is. -/
theorem mono (h : s.Opened t place) (hextends : t.Extends t') : s.Opened t' place :=
  ⟨hextends.walk h.reached, hextends place h.directory⟩

/-- Where the object's file is found does not depend on what else is there. -/
theorem locate_path (h : s.Opened t place) (name : ObjectName) :
    t.locate (s.path name) =
      if (s.path name).isAdmitted = true ∧ (fileName name).utf8ByteSize ≤ FilePath.nameLimit
      then .ok (place ++ [fileName name]) else .error .refused := by
  obtain ⟨hstays, hback⟩ := ne_dots (getLast?_fileName name) (by decide)
  exact FileTree.locate_child h.reached h.directory hstays hback

theorem locate_draftPath (h : s.Opened t place) (name : ObjectName) :
    t.locate (s.draftPath name) =
      if s.Admits name then .ok (place ++ [draftName name]) else .error .refused := by
  obtain ⟨hstays, hback⟩ := ne_dots (getLast?_draftName name) (by decide)
  exact FileTree.locate_child h.reached h.directory hstays hback

/-- What is read as an object's file depends only on what is at its place. -/
theorem read_congr (h : s.Opened t place) (h' : s.Opened t' place)
    (hsame : t'.at? (place ++ [fileName name]) = t.at? (place ++ [fileName name])) :
    t'.read (s.path name) = t.read (s.path name) := by
  rw [FileTree.read, FileTree.read, h.locate_path, h'.locate_path]
  split
  next => rfl
  next found hfound =>
    split at hfound
    next => rw [← Except.ok.inj hfound, hsame]
    next => cases hfound

end Opened

/-- Files that are read alike say the same. -/
theorem load_of_read (h : t'.read (s.path name) = t.read (s.path name)) :
    s.load t' name = s.load t name := by
  rw [load, load, h]

/-- Names with one file name are one name to the file system. -/
theorem load_of_fileName {a b : ObjectName} (h : fileName a = fileName b) (t : FileTree) :
    s.load t a = s.load t b := by
  rw [load, load, path, path, pathText, pathText, h]

namespace Ready

theorem opened (h : s.Ready t place name) : s.Opened t place := ⟨h.reached, h.directory⟩

theorem locate_path (h : s.Ready t place name) :
    t.locate (s.path name) =
      if (s.path name).isAdmitted = true ∧ (fileName name).utf8ByteSize ≤ FilePath.nameLimit
      then .ok (place ++ [fileName name]) else .error .refused :=
  h.opened.locate_path name

theorem locate_draftPath (h : s.Ready t place name) :
    t.locate (s.draftPath name) =
      if s.Admits name then .ok (place ++ [draftName name]) else .error .refused :=
  h.opened.locate_draftPath name

/-- The same file gives the same object. -/
theorem load_congr (h : s.Ready t place name) (h' : s.Ready t' place name)
    (hsame : t'.at? (place ++ [fileName name]) = t.at? (place ++ [fileName name])) :
    s.load t' name = s.load t name :=
  load_of_read (h.opened.read_congr h'.opened hsame)

/-- Without a file there is no object. Only with a name that is not taken is that a failure. -/
theorem load_missing (h : s.Ready t place name)
    (hnone : t.at? (place ++ [fileName name]) = none) :
    s.load t name = .ok none ∨ ¬ s.Admits name ∧ ∃ failure, s.load t name = .error failure := by
  rw [load, FileTree.read, h.locate_path]
  by_cases htaken : (s.path name).isAdmitted = true ∧
      (fileName name).utf8ByteSize ≤ FilePath.nameLimit
  · left
    rw [if_pos htaken]
    simp only [hnone]
  · right
    rw [if_neg htaken]
    exact ⟨fun hadmits => htaken hadmits.path, _, rfl⟩

/-- What was encrypted is loaded. -/
theorem load_encrypted (h : s.Ready t place name) (hadmits : s.Admits name) {file : ObjectFile}
    {pool : Entropy} (hversion : file.version < ObjectFile.versionLimit)
    (hfile : t.at? (place ++ [fileName name]) =
      some (.file (s.masterKey.encrypt file.toBytes pool).1)) :
    s.load t name = .ok (some file) := by
  have hread : t.read (s.path name) = .ok (s.masterKey.encrypt file.toBytes pool).1 := by
    rw [FileTree.read, h.locate_path, if_pos hadmits.path]
    simp only [hfile]
  have hplain := s.masterKey.decrypt_encrypt file.toBytes pool
  have hparse := file.ofBytes?_toBytes hversion
  rw [load, hread]
  simp only [bind, Except.bind, hplain, hparse]
  rfl

end Ready

/-! ## Saving -/

/-- Objects with different file names share no place. -/
theorem places_ne (place : FilePath) {other : ObjectName} (h : fileName other ≠ fileName name) :
    (place ++ [fileName other] ≠ place ++ [fileName name] ∧
        place ++ [fileName other] ≠ place ++ [draftName name]) ∧
      place ++ [draftName other] ≠ place ++ [fileName name] ∧
        place ++ [draftName other] ≠ place ++ [draftName name] := by
  have hdraft : draftName other ≠ draftName name := fun heq => h (draftName_inj heq)
  simp [h, hdraft, fileName_ne_draftName, (fileName_ne_draftName name other).symm]

/-- Objects with other file names keep their files. -/
def Spares (s : LocalStore) (place : FilePath) (name : ObjectName) (t t' : FileTree) : Prop :=
  ∀ other, fileName other ≠ fileName name → s.Ready t place other →
    s.Ready t' place other ∧ s.load t' other = s.load t other

theorem Spares.refl (s : LocalStore) (place : FilePath) (name : ObjectName) (t : FileTree) :
    s.Spares place name t t :=
  fun _ _ h => ⟨h, rfl⟩

/-- A save puts the encrypted file in its place, takes the draft away and changes nothing else. -/
theorem save_places (hadmits : s.Admits name) {disk : Disk} (h : s.Ready disk.files place name)
    (file : ObjectFile) :
    ∃ disk', s.save disk name file = (disk', .ok ()) ∧
      disk'.files.at? (place ++ [fileName name]) =
        some (.file (s.masterKey.encrypt file.toBytes disk.pool).1) ∧
      disk'.files.at? (place ++ [draftName name]) = none ∧
      ∀ other, other ≠ place ++ [fileName name] → other ≠ place ++ [draftName name] →
        disk'.files.at? other = disk.files.at? other := by
  have hne : place ++ [fileName name] ≠ place ++ [draftName name] := by
    simp [fileName_ne_draftName]
  have hdraftPath : disk.files.locate (s.draftPath name) = .ok (place ++ [draftName name]) := by
    rw [h.locate_draftPath, if_pos hadmits]
  have hpath : disk.files.locate (s.path name) = .ok (place ++ [fileName name]) := by
    rw [h.locate_path, if_pos hadmits.path]
  obtain ⟨files, hrun, hplaces⟩ := FileTree.run_exchange
    (s.masterKey.encrypt file.toBytes disk.pool).1 hdraftPath hpath h.draft h.file hne
  refine ⟨⟨files, (s.masterKey.encrypt file.toBytes disk.pool).2⟩, ?_, hplaces⟩
  simp only [save, writeSteps, hrun]

/-- Every directory is there after a save. -/
theorem Ready.extends_of_places (h : s.Ready t place name)
    (hothers : ∀ other, other ≠ place ++ [fileName name] → other ≠ place ++ [draftName name] →
      t'.at? other = t.at? other) : t.Extends t' := by
  intro other hother
  have hfileNe : other ≠ place ++ [fileName name] := fun heq => h.file (heq ▸ hother)
  have hdraftNe : other ≠ place ++ [draftName name] := fun heq => h.draft (heq ▸ hother)
  rw [hothers other hfileNe hdraftNe, hother]

/-- What is saved is loaded, and objects with other file names stay as they are. -/
theorem save_spec (hadmits : s.Admits name) {disk : Disk} (h : s.Ready disk.files place name)
    (file : ObjectFile) :
    ∃ disk', s.save disk name file = (disk', .ok ()) ∧ s.Ready disk'.files place name ∧
      (file.version < ObjectFile.versionLimit → s.load disk'.files name = .ok (some file)) ∧
      s.Spares place name disk.files disk'.files := by
  obtain ⟨disk', hsave, hfile, hdraft, hothers⟩ := save_places hadmits h file
  have hextends := h.extends_of_places hothers
  have hreached := hextends.walk h.reached
  have hdirectory := hextends place h.directory
  have hready : s.Ready disk'.files place name :=
    ⟨hreached, hdirectory, by simp [hfile], by simp [hdraft]⟩
  refine ⟨disk', hsave, hready, ?_, ?_⟩
  · intro hversion
    exact hready.load_encrypted hadmits hversion hfile
  · intro other hother hotherReady
    obtain ⟨⟨hfileFile, hfileDraft⟩, hdraftFile, hdraftDraft⟩ := places_ne place hother
    have hsame := hothers _ hfileFile hfileDraft
    have hsameDraft := hothers _ hdraftFile hdraftDraft
    have hkept : s.Ready disk'.files place other :=
      ⟨hreached, hdirectory, hsame ▸ hotherReady.file, hsameDraft ▸ hotherReady.draft⟩
    exact ⟨hkept, hotherReady.load_congr hkept hsame⟩

/-- Nothing is written under a name that the file system does not take. -/
theorem change_refused (hnot : ¬ s.Admits name) {disk : Disk} (h : s.Ready disk.files place name)
    (plan : Option ObjectFile → Except KeyError ObjectFile) :
    (s.change disk name plan).1.files = disk.files ∧
      ∃ failure, (s.change disk name plan).2 = .error failure := by
  have hlocate := h.locate_draftPath
  rw [if_neg hnot] at hlocate
  have hrun : ∀ encrypted, disk.files.run (s.writeSteps name encrypted) = (disk.files, false) := by
    intro encrypted
    simp only [writeSteps, FileTree.run, FileTree.step, FileTree.write, hlocate]
  unfold change
  cases (s.load disk.files name).bind plan with
  | error failure => exact ⟨rfl, failure, rfl⟩
  | ok file =>
    obtain ⟨disk', hsave, hfiles⟩ : ∃ disk', s.save disk name file = (disk', .error .io) ∧
        disk'.files = disk.files := by
      refine ⟨⟨disk.files, (s.masterKey.encrypt file.toBytes disk.pool).2⟩, ?_, rfl⟩
      simp only [save, hrun]
    dsimp only
    rw [hsave]
    exact ⟨hfiles, .io, rfl⟩

/-- What a planned write does to a file that is loaded. -/
theorem change_cases (hadmits : s.Admits name) {disk : Disk} (h : s.Ready disk.files place name)
    {existing : Option ObjectFile} (hload : s.load disk.files name = .ok existing)
    (plan : Option ObjectFile → Except KeyError ObjectFile) :
    (∃ failure, plan existing = .error failure ∧ s.change disk name plan = (disk, .error failure)) ∨
      ∃ file disk', plan existing = .ok file ∧ s.change disk name plan = (disk', .ok file) ∧
        s.Ready disk'.files place name ∧
        (file.version < ObjectFile.versionLimit → s.load disk'.files name = .ok (some file)) ∧
        s.Spares place name disk.files disk'.files := by
  cases hplan : plan existing with
  | error failure =>
    left
    refine ⟨failure, rfl, ?_⟩
    simp only [change, hload, Except.bind, hplan]
  | ok file =>
    right
    obtain ⟨disk', hsave, hready, hloaded, hspares⟩ := save_spec hadmits h file
    refine ⟨file, disk', rfl, ?_, hready, hloaded, hspares⟩
    simp only [change, hload, Except.bind, hplan, hsave]

/-! ## Opening -/

/-- A new store has no files of an object yet. -/
def IsFresh (s : LocalStore) (t : FileTree) (name : ObjectName) : Prop :=
  fileName name ∉ t.names (.ofText s.directory) ∧ draftName name ∉ t.names (.ofText s.directory)

instance (s : LocalStore) (t : FileTree) (name : ObjectName) : Decidable (s.IsFresh t name) :=
  inferInstanceAs (Decidable (_ ∧ _))

/-- An open store has its directory. -/
theorem isDirectory_of_openDirectory {disk disk' : Disk} {directory : String}
    {source : MasterKeySource} {pollMillis : ℕ}
    (h : openDirectory disk directory source pollMillis = (disk', .ok s)) :
    disk'.files.isDirectory (.ofText s.directory) = true := by
  unfold openDirectory at h
  cases hcreate : disk.files.createDirectories (.ofText directory) with
  | mk files ready =>
    rw [hcreate] at h
    cases ready with
    | false => cases (Prod.mk.inj h).2
    | true =>
      have hdirectory := FileTree.isDirectory_of_createDirectories hcreate
      have hopened : ∀ (opened : Disk) (key : MasterKey), opened.files = files →
          (opened, (.ok ⟨directory, key, pollMillis⟩ : Except KeyError LocalStore)) =
            (disk', .ok s) → disk'.files.isDirectory (.ofText s.directory) = true := by
        intro opened key hfiles heq
        obtain ⟨rfl, hstore⟩ := Prod.mk.inj heq
        obtain rfl := Except.ok.inj hstore
        rw [hfiles]
        exact hdirectory
      cases source with
      | bytes bytes =>
        dsimp only at h
        cases hkey : MasterKey.ofBytes? bytes with
        | none =>
          rw [hkey] at h
          cases (Prod.mk.inj h).2
        | some key =>
          rw [hkey] at h
          exact hopened _ key rfl h
      | passphrase text => exact hopened _ _ rfl h
      | generated => exact hopened _ _ rfl h

/-- In a directory without files of an object, nothing is in their way and nothing is loaded. -/
theorem exists_ready (h : t.isDirectory (.ofText s.directory) = true) :
    ∃ place, ∀ name, s.IsFresh t name →
      s.Ready t place name ∧ t.at? (place ++ [fileName name]) = none := by
  obtain ⟨place, hlocate, hdirectory⟩ := FileTree.isDirectory_iff.1 h
  have hreached : t.walk [] (.ofText s.directory) = .ok place := by
    unfold FileTree.locate at hlocate
    split at hlocate
    next => exact hlocate
    next => cases hlocate
  refine ⟨place, fun name hfresh => ?_⟩
  obtain ⟨hfile, hdraft⟩ := hfresh
  rw [FileTree.mem_names_iff hlocate, not_not] at hfile hdraft
  exact ⟨⟨hreached, hdirectory, by simp [hfile], by simp [hdraft]⟩, hfile⟩

/-- A store in a directory that was not there before. -/
def firstStore : LocalStore := ⟨"/keys", ⟨List.replicate 32 7, rfl⟩, 100⟩

/-- The disk with the directory of the first store. -/
def firstDisk : Disk :=
  (openDirectory ⟨.empty, .ofSeed [1]⟩ "/keys" (.bytes firstStore.masterKey.bytes) 100).1

theorem openDirectory_first :
    openDirectory ⟨.empty, .ofSeed [1]⟩ "/keys" (.bytes firstStore.masterKey.bytes) 100 =
      (firstDisk, .ok firstStore) := rfl

theorem isFresh_first (name : ObjectName) : firstStore.IsFresh firstDisk.files name := by
  have hnames : firstDisk.files.names (.ofText firstStore.directory) = [] := by decide +kernel
  rw [IsFresh, hnames]
  exact ⟨List.not_mem_nil, List.not_mem_nil⟩

theorem load_firstDisk {name : ObjectName} (hadmits : firstStore.Admits name) :
    firstStore.load firstDisk.files name = .ok none := by
  obtain ⟨place, hplace⟩ := exists_ready (isDirectory_of_openDirectory openDirectory_first)
  obtain ⟨hready, hnone⟩ := hplace name (isFresh_first name)
  exact (hready.load_missing hnone).resolve_right fun hfailed => hfailed.1 hadmits

end LocalStore
end Keyring
