import Keyring.Proofs.LocalStore.Steps

/-!
# Readers of a local store

What readers can tell of a tree of files is what the file of each object says. A draft changes
nothing of it, whatever is in the draft, so the steps of a store in files are those of a shelf on
which each write puts a whole file at once. Two trees that differ in their drafts are one shelf.
-/
namespace Keyring

/-- What can be told of a tree of files without a look at the drafts. -/
@[ext]
structure Shelf where
  /-- What the file of an object says. -/
  loads : ObjectName → Except KeyError (Option ObjectFile)
  /-- Whether a draft can be written. -/
  isFree : ObjectName → Bool

namespace LocalStore

variable {s : LocalStore} {t t' : FileTree} {place : FilePath} {name : ObjectName}

/-- What a store can tell of its files. -/
def shelf (s : LocalStore) (t : FileTree) : Shelf :=
  ⟨s.load t, fun name => (t.write (s.draftPath name) []).isOk⟩

theorem load_of_shelf (h : s.shelf t' = s.shelf t) (name : ObjectName) :
    s.load t' name = s.load t name :=
  congrFun (congrArg Shelf.loads h) name

/-- What a file with that text says. -/
def understood (s : LocalStore) (name : ObjectName) (plaintext : Bytes) :
    Except KeyError (Option ObjectFile) :=
  match ObjectFile.ofBytes? plaintext with
  | some file => .ok (some file)
  | none => .error (.corruptRecord (s.pathText name ++ ": "))

/-- A shelf with another text in the file of an object. -/
def exchanged (s : LocalStore) (v : Shelf) (name : ObjectName) (plaintext : Bytes) : Shelf :=
  { v with loads := fun other =>
      if fileName other = fileName name then s.understood other plaintext else v.loads other }

theorem understood_toBytes (name : ObjectName) {file : ObjectFile}
    (h : file.version < ObjectFile.versionLimit) :
    s.understood name file.toBytes = .ok (some file) := by
  rw [understood, file.ofBytes?_toBytes h]

/-- What was encrypted is decrypted, and its text is understood or not. -/
theorem load_encrypted {plaintext : Bytes} {pool : Entropy}
    (h : t.read (s.path name) = .ok (s.masterKey.encrypt plaintext pool).1) :
    s.load t name = s.understood name plaintext := by
  rw [load, h]
  dsimp only
  rw [s.masterKey.decrypt_encrypt]
  rfl

/-- Whether a draft can be written does not depend on what is in it. -/
theorem write_draft_cases (s : LocalStore) (t : FileTree) (name : ObjectName) (content : Bytes) :
    (∃ t', t.write (s.draftPath name) content = .ok t' ∧ (s.shelf t).isFree name = true) ∨
      ∃ fault, t.write (s.draftPath name) content = .error fault ∧
        (s.shelf t).isFree name = false := by
  have hfree : (s.shelf t).isFree name = (t.write (s.draftPath name) []).isOk := rfl
  rw [hfree]
  unfold FileTree.write
  split
  next fault _ => exact Or.inr ⟨fault, rfl, rfl⟩
  next =>
    split
    next => exact Or.inr ⟨.refused, rfl, rfl⟩
    next => exact Or.inl ⟨_, rfl, rfl⟩

theorem isFree_eq (h : s.Opened t place) (name : ObjectName) :
    (s.shelf t).isFree name =
      decide (s.Admits name ∧ t.at? (place ++ [draftName name]) ≠ some .directory) := by
  simp only [shelf, FileTree.write, h.locate_draftPath]
  by_cases hadmits : s.Admits name
  · rw [if_pos hadmits]
    dsimp only
    split
    next hdirectory => simp [hdirectory, Except.isOk, Except.toBool]
    next hfree => simpa [hadmits, Except.isOk, Except.toBool] using hfree
  · simp [hadmits, Except.isOk, Except.toBool]

/-- A draft can be written in both of two trees, if a directory is in its way in both or in none. -/
theorem isFree_congr (h : s.Opened t place) (h' : s.Opened t' place)
    (hsame : ∀ name, t'.at? (place ++ [draftName name]) = some .directory ↔
      t.at? (place ++ [draftName name]) = some .directory) :
    (s.shelf t').isFree = (s.shelf t).isFree := by
  funext name
  rw [isFree_eq h, isFree_eq h']
  simp only [ne_eq, hsame name]

/-- Nobody can tell a draft. -/
theorem shelf_of_draft {content : Bytes} (h : t.write (s.draftPath name) content = .ok t') :
    s.shelf t' = s.shelf t := by
  obtain ⟨place, hopened, -, hfree, rfl⟩ := opened_of_draft h
  have hloads : s.load (t.put (place ++ [draftName name]) (.file content)) = s.load t :=
    funext fun other => load_of_read (read_of_draft h other)
  have hextends := FileTree.extends_put (.file content) hfree
  have hisFree := isFree_congr hopened (hopened.mono hextends) fun other => by
    by_cases hsame : place ++ [draftName other] = place ++ [draftName name]
    · rw [hsame, FileTree.at?_put_self]
      simp [hfree]
    · rw [FileTree.at?_put_of_ne t _ hsame]
  exact Shelf.ext hloads hisFree

/-- A draft takes the place of a file that could be loaded, and nothing else changes. -/
theorem rename_of_draft {existing : Option ObjectFile} {content : Bytes}
    (hdraft : t.write (s.draftPath name) content = .ok t') (hload : s.load t name = .ok existing) :
    ∃ place u, s.Ready t place name ∧ s.Admits name ∧
      t'.rename (s.draftPath name) (s.path name) = .ok u ∧
      u.at? (place ++ [fileName name]) = some (.file content) ∧
      u.at? (place ++ [draftName name]) = none ∧
      ∀ other, other ≠ place ++ [fileName name] → other ≠ place ++ [draftName name] →
        u.at? other = t.at? other := by
  obtain ⟨place, hready, hadmits⟩ := ready_of_draft hdraft hload
  have hdraftPath : t.locate (s.draftPath name) = .ok (place ++ [draftName name]) := by
    rw [hready.locate_draftPath, if_pos hadmits]
  have hpath : t.locate (s.path name) = .ok (place ++ [fileName name]) := by
    rw [hready.locate_path, if_pos hadmits.path]
  obtain ⟨u, hrun, hplaces⟩ := FileTree.run_exchange content hdraftPath hpath hready.draft
    hready.file (by simp [fileName_ne_draftName])
  have hrename : t'.rename (s.draftPath name) (s.path name) = .ok u := by
    simp only [FileTree.run, FileTree.step, hdraft] at hrun
    split at hrun
    next moved hmoved => rw [hmoved, (Prod.mk.inj hrun).1]
    next => cases (Prod.mk.inj hrun).2
  exact ⟨place, u, hready, hadmits, hrename, hplaces⟩

/-- With the draft in its place, the file says what was encrypted into it. -/
theorem shelf_of_rename {existing : Option ObjectFile} {plaintext : Bytes} {pool : Entropy}
    (hdraft : t.write (s.draftPath name) (s.masterKey.encrypt plaintext pool).1 = .ok t')
    (hload : s.load t name = .ok existing) :
    ∃ u, t'.rename (s.draftPath name) (s.path name) = .ok u ∧
      s.shelf u = s.exchanged (s.shelf t) name plaintext := by
  obtain ⟨place, u, hready, hadmits, hrename, hfile, hgone, hothers⟩ := rename_of_draft hdraft hload
  have hopened := hready.opened.mono (hready.extends_of_places hothers)
  have hloads : s.load u = (s.exchanged (s.shelf t) name plaintext).loads := by
    funext other
    by_cases hsame : fileName other = fileName name
    · have hread : u.read (s.path other) = .ok (s.masterKey.encrypt plaintext pool).1 := by
        rw [path, hsame, ← path, FileTree.read, hopened.locate_path, if_pos hadmits.path]
        simp only [hfile]
      simp only [exchanged, if_pos hsame, load_encrypted hread]
    · obtain ⟨⟨hne, hneDraft⟩, -⟩ := places_ne place hsame
      have hread := hready.opened.read_congr hopened (hothers _ hne hneDraft)
      simp only [exchanged, if_neg hsame, shelf, load_of_read hread]
  have hisFree := isFree_congr hready.opened hopened fun other => by
    by_cases hsame : draftName other = draftName name
    · rw [hsame, hgone]
      simp [hready.draft]
    · rw [hothers _ (by simp [(fileName_ne_draftName name other).symm]) (by simp [hsame])]
  exact ⟨u, hrename, Shelf.ext hloads hisFree⟩

end LocalStore

/-! ## One step -/

/-- What can be told of a busy disk: the shelf, and the write that goes on. -/
structure Outline where
  shelf : Shelf
  busy : Option Writing

namespace Outline

/-- What happens to the shelf. Where a draft cannot be written, a write fails; where it can be, the
exchange does not fail. -/
def act? (s : LocalStore) (v : Outline) : FileAct → Option (Outline × Option FileEvent)
  | .plan write =>
    match v.busy with
    | some _ => none
    | none =>
      match (v.shelf.loads write.target).bind write.plan with
      | .error failure => some (v, some (.ended write (.error failure)))
      | .ok file => some (⟨v.shelf, some ⟨write, file, false⟩⟩, none)
  | .spill _ =>
    match v.busy with
    | some ⟨write, _, false⟩ => if v.shelf.isFree write.target then some (v, none) else none
    | _ => none
  | .draft =>
    match v.busy with
    | some ⟨write, file, false⟩ =>
      if v.shelf.isFree write.target then some (⟨v.shelf, some ⟨write, file, true⟩⟩, none)
      else some (⟨v.shelf, none⟩, some (.ended write (.error .io)))
    | _ => none
  | .exchange =>
    match v.busy with
    | some ⟨write, file, true⟩ =>
      some (⟨s.exchanged v.shelf write.target file.toBytes, none⟩, some (.ended write (.ok file)))
    | _ => none
  | .fail => v.busy.map fun b => (⟨v.shelf, none⟩, some (.ended b.write (.error .io)))
  | .crash => some (⟨v.shelf, none⟩, none)
  | .get name => some (v, some (.found name ((v.shelf.loads name).map ObjectFile.current?)))
  | .list name => some (v, some (.listed name ((v.shelf.loads name).map ObjectFile.list)))
  | .poll p => some (v, some (.polled p (p.look (v.shelf.loads p.name))))

end Outline

/-- A write that is on its way: its file could be loaded, its bytes tell what was planned, and once
it is drafted they are in the draft. -/
structure Underway (s : LocalStore) (t : FileTree) (b : Writing) (encrypted : Bytes) : Prop where
  loaded : ∃ existing, s.load t b.write.target = .ok existing
  sealed : ∃ pool, encrypted = (s.masterKey.encrypt b.file.toBytes pool).1
  draft : b.drafted = true →
    ∃ before : FileTree, before.write (s.draftPath b.write.target) encrypted = .ok t

namespace BusyDisk

variable {s : LocalStore} {d : BusyDisk} {disk : Disk} {b : Writing} {encrypted : Bytes}

def outline (s : LocalStore) (d : BusyDisk) : Outline :=
  ⟨s.shelf d.disk.files, d.busy.map Prod.fst⟩

/-- The write that goes on, if there is one, is on its way. -/
def Kept (s : LocalStore) (d : BusyDisk) : Prop :=
  ∀ b encrypted, d.busy = some (b, encrypted) → Underway s d.disk.files b encrypted

theorem kept_idle (s : LocalStore) (disk : Disk) : Kept s ⟨disk, none⟩ := by
  rintro b encrypted ⟨⟩

theorem kept_busy (h : Underway s disk.files b encrypted) :
    Kept s ⟨disk, some (b, encrypted)⟩ := by
  rintro b' encrypted' ⟨⟩
  exact h

/-- A step on a disk is one on its shelf, with the same event, or neither can be taken. -/
def Agrees (s : LocalStore) (d : BusyDisk) (act : FileAct) : Prop :=
  (d.act? s act = none ∧ (d.outline s).act? s act = none) ∨
    ∃ d' event, d.act? s act = some (d', event) ∧
      (d.outline s).act? s act = some (d'.outline s, event) ∧ d'.Kept s

theorem agrees_plan (disk : Disk) (w : StoreWrite) : Agrees s ⟨disk, none⟩ (.plan w) := by
  right
  cases hload : s.load disk.files w.target with
  | error failure =>
    refine ⟨⟨disk, none⟩, some (.ended w (.error failure)), ?_, ?_, kept_idle s disk⟩
    · simp [act?, hload, Except.bind]
    · simp [Outline.act?, outline, LocalStore.shelf, hload, Except.bind]
  | ok existing =>
    cases hplan : w.plan existing with
    | error failure =>
      refine ⟨⟨disk, none⟩, some (.ended w (.error failure)), ?_, ?_, kept_idle s disk⟩
      · simp [act?, hload, hplan, Except.bind]
      · simp [Outline.act?, outline, LocalStore.shelf, hload, hplan, Except.bind]
    | ok file =>
      obtain ⟨⟨encrypted, rest⟩, hencrypt⟩ :
          ∃ result, s.masterKey.encrypt file.toBytes disk.pool = result := ⟨_, rfl⟩
      have hunderway : Underway s disk.files ⟨w, file, false⟩ encrypted :=
        ⟨⟨existing, hload⟩, ⟨disk.pool, by rw [hencrypt]⟩, fun hdrafted => by cases hdrafted⟩
      refine ⟨⟨⟨disk.files, rest⟩, some (⟨w, file, false⟩, encrypted)⟩, none, ?_, ?_, ?_⟩
      · simp [act?, hload, hplan, hencrypt, Except.bind]
      · simp [Outline.act?, outline, LocalStore.shelf, hload, hplan, Except.bind]
      · exact kept_busy hunderway

/-- Where a draft is written, nothing can be told of it, and what was planned stays planned. -/
theorem draft_underway {w : StoreWrite} {file : ObjectFile} {t' : FileTree} {content : Bytes}
    (h : Underway s disk.files ⟨w, file, false⟩ encrypted)
    (hwrite : disk.files.write (s.draftPath w.target) content = .ok t') (drafted : Bool)
    (hcontent : drafted = true → content = encrypted) :
    s.shelf t' = s.shelf disk.files ∧ Underway s t' ⟨w, file, drafted⟩ encrypted := by
  have hshelf := LocalStore.shelf_of_draft hwrite
  obtain ⟨existing, hload⟩ := h.loaded
  have hkept : s.load t' w.target = .ok existing :=
    (LocalStore.load_of_shelf hshelf w.target).trans hload
  refine ⟨hshelf, ⟨⟨existing, hkept⟩, h.sealed, fun hdrafted => ⟨disk.files, ?_⟩⟩⟩
  rw [← hcontent hdrafted]
  exact hwrite

theorem agrees_spill {w : StoreWrite} {file : ObjectFile}
    (h : Underway s disk.files ⟨w, file, false⟩ encrypted) (content : Bytes) :
    Agrees s ⟨disk, some (⟨w, file, false⟩, encrypted)⟩ (.spill content) := by
  rcases s.write_draft_cases disk.files w.target content with
    ⟨files, hwrite, hfree⟩ | ⟨fault, hwrite, hfree⟩
  · right
    obtain ⟨hshelf, hunderway⟩ := draft_underway h hwrite false (by simp)
    refine ⟨⟨⟨files, disk.pool⟩, some (⟨w, file, false⟩, encrypted)⟩, none, ?_, ?_, ?_⟩
    · simp [act?, hwrite]
    · simp [Outline.act?, outline, hfree, hshelf]
    · exact kept_busy hunderway
  · left
    constructor
    · simp [act?, hwrite]
    · simp [Outline.act?, outline, hfree]

theorem agrees_draft {w : StoreWrite} {file : ObjectFile}
    (h : Underway s disk.files ⟨w, file, false⟩ encrypted) :
    Agrees s ⟨disk, some (⟨w, file, false⟩, encrypted)⟩ .draft := by
  right
  rcases s.write_draft_cases disk.files w.target encrypted with
    ⟨files, hwrite, hfree⟩ | ⟨fault, hwrite, hfree⟩
  · obtain ⟨hshelf, hunderway⟩ := draft_underway h hwrite true fun _ => rfl
    refine ⟨⟨⟨files, disk.pool⟩, some (⟨w, file, true⟩, encrypted)⟩, none, ?_, ?_, ?_⟩
    · simp [act?, hwrite]
    · simp [Outline.act?, outline, hfree, hshelf]
    · exact kept_busy hunderway
  · refine ⟨⟨disk, none⟩, some (.ended w (.error .io)), ?_, ?_, kept_idle s disk⟩
    · simp [act?, hwrite]
    · simp [Outline.act?, outline, hfree]

theorem agrees_exchange {w : StoreWrite} {file : ObjectFile}
    (h : Underway s disk.files ⟨w, file, true⟩ encrypted) :
    Agrees s ⟨disk, some (⟨w, file, true⟩, encrypted)⟩ .exchange := by
  right
  obtain ⟨existing, hload⟩ := h.loaded
  obtain ⟨pool, hsealed⟩ := h.sealed
  obtain ⟨before, hdraft⟩ := h.draft rfl
  -- the exchange is looked at from before the draft, where the places are known
  have hshelf := LocalStore.shelf_of_draft hdraft
  have hloadBefore : s.load before w.target = .ok existing :=
    (LocalStore.load_of_shelf hshelf w.target).symm.trans hload
  rw [hsealed] at hdraft
  obtain ⟨files, hrename, hexchanged⟩ := LocalStore.shelf_of_rename hdraft hloadBefore
  refine ⟨⟨⟨files, disk.pool⟩, none⟩, some (.ended w (.ok file)), ?_, ?_, kept_idle s _⟩
  · simp [act?, hrename]
  · simp [Outline.act?, outline, hexchanged, hshelf]

/-- Every step on a disk is one on its shelf. -/
theorem agrees (h : d.Kept s) (act : FileAct) : d.Agrees s act := by
  obtain ⟨disk, busy⟩ := d
  cases act with
  | plan w =>
    cases busy with
    | none => exact agrees_plan disk w
    | some b => exact Or.inl ⟨rfl, rfl⟩
  | spill content =>
    rcases busy with - | ⟨⟨w, file, drafted⟩, encrypted⟩
    · exact Or.inl ⟨rfl, rfl⟩
    · cases drafted with
      | false => exact agrees_spill (h _ _ rfl) content
      | true => exact Or.inl ⟨rfl, rfl⟩
  | draft =>
    rcases busy with - | ⟨⟨w, file, drafted⟩, encrypted⟩
    · exact Or.inl ⟨rfl, rfl⟩
    · cases drafted with
      | false => exact agrees_draft (h _ _ rfl)
      | true => exact Or.inl ⟨rfl, rfl⟩
  | exchange =>
    rcases busy with - | ⟨⟨w, file, drafted⟩, encrypted⟩
    · exact Or.inl ⟨rfl, rfl⟩
    · cases drafted with
      | false => exact Or.inl ⟨rfl, rfl⟩
      | true => exact agrees_exchange (h _ _ rfl)
  | fail =>
    cases busy with
    | none => exact Or.inl ⟨rfl, rfl⟩
    | some b => exact Or.inr ⟨_, _, rfl, rfl, kept_idle s disk⟩
  | crash => exact Or.inr ⟨_, _, rfl, rfl, kept_idle s disk⟩
  | get name => exact Or.inr ⟨_, _, rfl, rfl, h⟩
  | list name => exact Or.inr ⟨_, _, rfl, rfl, h⟩
  | poll p => exact Or.inr ⟨_, _, rfl, rfl, h⟩

end BusyDisk
end Keyring
