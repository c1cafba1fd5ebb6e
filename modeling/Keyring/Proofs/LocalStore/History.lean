import Keyring.Proofs.LocalStore.WholeReads
import Mathlib.Data.List.Induction

/-!
# Histories of files

The writes to one file that are done follow each other: each was planned on what the one before it
has left, whoever else read or tried to write in between. So their numbers are counted from one, and
the file says what the last of them has left. Every step that changes anything in the files gives
them a greater revision.
-/
namespace Keyring

/-! ## What a write leaves -/

namespace StoreWrite

def isDeletion : StoreWrite → Bool
  | .delete _ => true
  | _ => false

/-- The object that a write leaves but for its version, by what the file said before. -/
def object? (w : StoreWrite) (existing : Option ObjectFile) : Option StoredObject :=
  match w with
  | .create object | .update object => some object
  | .delete _ => ObjectFile.current? existing

/-- What is planned is the next version of the object, deleted or not. -/
theorem plan_eq_next {w : StoreWrite} {existing : Option ObjectFile} {file : ObjectFile}
    (h : w.plan existing = .ok file) :
    ∃ object, w.object? existing = some object ∧
      file = .next (ObjectFile.lastVersion existing) w.isDeletion object := by
  cases w with
  | create object =>
    simp only [plan, ObjectFile.create] at h
    split at h
    next => cases h
    next => exact ⟨object, rfl, (Except.ok.inj h).symm⟩
  | update object =>
    simp only [plan, ObjectFile.update] at h
    split at h
    next => cases h
    next =>
      split at h
      next => cases h
      next => exact ⟨object, rfl, (Except.ok.inj h).symm⟩
  | delete name =>
    simp only [plan, ObjectFile.delete] at h
    split at h
    next => cases h
    next object hcurrent => exact ⟨object, hcurrent, (Except.ok.inj h).symm⟩

end StoreWrite

/-! ## Writes that are done -/

/-- A write that is done, and what it has left in the file. -/
structure DoneWrite where
  write : StoreWrite
  file : ObjectFile

def DoneWrite.version (d : DoneWrite) : ℕ := d.file.version

/-- Each write was planned on what the one before it has left, and the first one where nothing
was. -/
inductive Consecutive : List DoneWrite → Prop
  | nil : Consecutive []
  | concat {history : List DoneWrite} (h : Consecutive history) {d : DoneWrite}
      (hplan : d.write.plan (history.getLast?.map DoneWrite.file) = .ok d.file) :
      Consecutive (history ++ [d])

namespace Consecutive

variable {history : List DoneWrite} {d d' : DoneWrite}

/-- The number of the last write is how many there were. -/
theorem lastVersion_eq (h : Consecutive history) :
    ObjectFile.lastVersion (history.getLast?.map DoneWrite.file) = history.length := by
  induction h with
  | nil => rfl
  | concat h hplan ih =>
    obtain ⟨object, -, hfile⟩ := StoreWrite.plan_eq_next hplan
    simp only [List.getLast?_concat, Option.map_some, ObjectFile.lastVersion_some, hfile,
      ObjectFile.next, ih, List.length_append, List.length_singleton]

theorem version_le (h : Consecutive history) (hd : d ∈ history) : d.version ≤ history.length := by
  induction h with
  | nil => cases hd
  | concat h hplan ih =>
    rw [List.length_append, List.length_singleton]
    obtain hearlier | hlast := List.mem_append.1 hd
    · exact Nat.le_succ_of_le (ih hearlier)
    · obtain ⟨object, -, hfile⟩ := StoreWrite.plan_eq_next hplan
      rw [List.mem_singleton.1 hlast, DoneWrite.version, hfile, h.lastVersion_eq]
      exact Nat.le_refl _

theorem version_last (h : Consecutive history) (hd : history.getLast? = some d) :
    d.version = history.length := by
  rw [← h.lastVersion_eq, hd]
  rfl

/-- A number belongs to one write. -/
theorem eq_of_version_eq (h : Consecutive history) (hd : d ∈ history) (hd' : d' ∈ history)
    (heq : d.version = d'.version) : d = d' := by
  induction h with
  | nil => cases hd
  | @concat history h last hplan ih =>
    have hlast : last.version = history.length + 1 := by
      have hconcat := version_last (.concat h hplan) (List.getLast?_concat)
      rwa [List.length_append, List.length_singleton] at hconcat
    obtain hearlier | hd := List.mem_append.1 hd <;> obtain hearlier' | hd' := List.mem_append.1 hd'
    · exact ih hearlier hearlier'
    · rw [List.mem_singleton] at hd'
      have hle := h.version_le hearlier
      rw [hd'] at heq
      omega
    · rw [List.mem_singleton] at hd
      have hle := h.version_le hearlier'
      rw [hd] at heq
      omega
    · rw [List.mem_singleton.1 hd, List.mem_singleton.1 hd']

/-- A write has left an object with its number, and the file says whether it was a deletion. -/
theorem file_eq_next (h : Consecutive history) (hd : d ∈ history) :
    ∃ version object, d.file = .next version d.write.isDeletion object := by
  induction h with
  | nil => cases hd
  | concat h hplan ih =>
    obtain hearlier | hlast := List.mem_append.1 hd
    · exact ih hearlier
    · obtain ⟨object, -, hfile⟩ := StoreWrite.plan_eq_next hplan
      rw [List.mem_singleton.1 hlast]
      exact ⟨_, object, hfile⟩

end Consecutive

/-! ## The history in a log -/

namespace FileEvent

/-- The write to the file of an object that the event tells to be done. -/
def done? (name : ObjectName) : FileEvent → Option DoneWrite
  | .ended w (.ok file) =>
    if LocalStore.fileName name = LocalStore.fileName w.target then some ⟨w, file⟩ else none
  | _ => none

/-- The writes to the file of an object that are done, in their order. -/
def history (name : ObjectName) (log : List FileEvent) : List DoneWrite := log.filterMap (done? name)

variable {base : ObjectName → Except KeyError (Option ObjectFile)} {name : ObjectName}
  {log : List FileEvent}

theorem history_append (log later : List FileEvent) :
    history name (log ++ later) = history name log ++ history name later :=
  List.filterMap_append

theorem puts?_eq_map_done? (e : FileEvent) : e.puts? name = (e.done? name).map DoneWrite.file := by
  cases e with
  | ended w outcome =>
    cases outcome with
    | error failure => rfl
    | ok file =>
      rw [puts?, done?]
      split <;> rfl
  | _ => rfl

/-- The file says what the last write has left. -/
theorem asOf_eq (log : List FileEvent) :
    asOf base log name =
      match (history name log).getLast? with
      | some d => .ok (some d.file)
      | none => base name := by
  have hputs : log.filterMap (puts? name) = (history name log).map DoneWrite.file := by
    rw [history, List.map_filterMap]
    exact List.filterMap_congr fun e _ => puts?_eq_map_done? e
  rw [asOf, hputs, List.getLast?_map]
  cases (history name log).getLast? <;> rfl

/-- Where there was no file at first, a write is planned on what the last one has left. -/
theorem plan_of_asOf (hbase : ∀ file, base name ≠ .ok (some file))
    {plan : Option ObjectFile → Except KeyError ObjectFile} {file : ObjectFile}
    (h : (asOf base log name).bind plan = .ok file) :
    plan ((history name log).getLast?.map DoneWrite.file) = .ok file := by
  rw [asOf_eq] at h
  cases hlast : (history name log).getLast? with
  | some d =>
    rw [hlast] at h
    exact h
  | none =>
    rw [hlast] at h
    cases hfirst : base name with
    | error failure =>
      simp only [hfirst, Except.bind] at h
      cases h
    | ok existing =>
      cases existing with
      | some found => exact absurd hfirst (hbase found)
      | none =>
        simp only [hfirst, Except.bind] at h
        exact h

/-- Names with one file name are one name to a log. -/
theorem asOf_of_fileName {a b : ObjectName} (h : LocalStore.fileName a = LocalStore.fileName b)
    (hbase : base a = base b) : asOf base log a = asOf base log b := by
  have hputs : ∀ e : FileEvent, e.puts? a = e.puts? b := by
    intro e
    unfold puts?
    rw [h]
  rw [asOf, asOf, hbase, List.filterMap_congr fun e _ => hputs e]

/-- An event that fits goes on with a history. -/
theorem consecutive_concat (hbase : ∀ file, base name ≠ .ok (some file))
    (hsame : ∀ other, LocalStore.fileName name = LocalStore.fileName other →
      base other = base name)
    (h : Consecutive (history name log)) {e : FileEvent} (hfits : e.Fits (asOf base log)) :
    Consecutive (history name (log ++ [e])) := by
  rw [history_append]
  cases hdone : e.done? name with
  | none =>
    have hnone : history name [e] = [] := by simp [history, hdone]
    rwa [hnone, List.append_nil]
  | some d =>
    have hone : history name [e] = [d] := by simp [history, hdone]
    rw [hone]
    unfold done? at hdone
    split at hdone
    next w file =>
      split at hdone
      next hname =>
        obtain rfl := Option.some.inj hdone
        refine h.concat (plan_of_asOf hbase ?_)
        obtain hfailed | hplanned := hfits
        · cases hfailed
        · rw [asOf_of_fileName hname (hsame _ hname).symm]
          exact hplanned.symm
      next => cases hdone
    next => cases hdone

end FileEvent

/-! ## Revisions -/

namespace FileTree

variable {t t' : FileTree}

theorem revision_write {path : FilePath} {content : Bytes} (h : t.write path content = .ok t') :
    t.revision < t'.revision := by
  unfold write at h
  split at h
  next => cases h
  next =>
    split at h
    next => cases h
    next => exact Except.ok.inj h ▸ Nat.lt_succ_self _

theorem revision_remove {path : FilePath} (h : t.remove path = .ok t') :
    t.revision < t'.revision := by
  unfold remove at h
  split at h
  next => cases h
  next =>
    split at h
    next => exact Except.ok.inj h ▸ Nat.lt_succ_self _
    next => cases h
    next => cases h

theorem revision_rename {source target : FilePath} (h : t.rename source target = .ok t') :
    t.revision < t'.revision := by
  unfold rename at h
  split at h
  next content _ =>
    cases hwrite : t.write target content with
    | error fault =>
      rw [hwrite] at h
      cases h
    | ok written =>
      rw [hwrite] at h
      exact Nat.lt_trans (revision_write hwrite) (revision_remove h)
  next => cases h

end FileTree

/-- A step leaves the files as they are or gives them a greater revision. -/
theorem BusyDisk.files_act? {s : LocalStore} {d d' : BusyDisk} {act : FileAct}
    {event : Option FileEvent} (h : d.act? s act = some (d', event)) :
    d'.disk.files = d.disk.files ∨ d.disk.files.revision < d'.disk.files.revision := by
  obtain ⟨disk, busy⟩ := d
  cases act with
  | plan w =>
    simp only [act?] at h
    split at h
    next => cases h
    next =>
      split at h
      next =>
        cases h
        exact Or.inl rfl
      next =>
        cases h
        exact Or.inl rfl
  | spill content =>
    simp only [act?] at h
    split at h
    next =>
      split at h
      next files hwrite =>
        cases h
        exact Or.inr (FileTree.revision_write hwrite)
      next => cases h
    next => cases h
  | draft =>
    simp only [act?] at h
    split at h
    next =>
      split at h
      next files hwrite =>
        cases h
        exact Or.inr (FileTree.revision_write hwrite)
      next =>
        cases h
        exact Or.inl rfl
    next => cases h
  | exchange =>
    simp only [act?] at h
    split at h
    next =>
      split at h
      next files hrename =>
        cases h
        exact Or.inr (FileTree.revision_rename hrename)
      next =>
        cases h
        exact Or.inl rfl
    next => cases h
  | fail =>
    obtain ⟨b, -, heq⟩ := Option.map_eq_some_iff.1 h
    cases heq
    exact Or.inl rfl
  | crash | get | list | poll =>
    cases h
    exact Or.inl rfl

/-! ## Disks with a log -/

open FileEvent

namespace BusyDisk

variable {s : LocalStore} {start : FileTree} {name : ObjectName} {log : List FileEvent}
  {d d' : BusyDisk}

/-- The log tells what was done on a disk, and the writes to the file of an object follow each other
there. -/
structure Logged (s : LocalStore) (start : FileTree) (name : ObjectName) (log : List FileEvent)
    (d : BusyDisk) : Prop where
  kept : d.Kept s
  sound : (d.outline s).Sound (s.load start) log
  consecutive : Consecutive (history name log)

namespace Logged

theorem idle (s : LocalStore) (disk : Disk) (name : ObjectName) :
    Logged s disk.files name [] ⟨disk, none⟩ :=
  ⟨kept_idle s disk, ⟨rfl, fun b hb => by cases hb⟩, .nil⟩

/-- What is in the file is what the last write has left. -/
theorem last_of_load (h : d.Logged s start name log)
    (hnone : ∀ file, s.load start name ≠ .ok (some file)) {file : ObjectFile}
    (hload : s.load d.disk.files name = .ok (some file)) :
    ∃ w, (history name log).getLast? = some w ∧ w.file = file := by
  have hlast : s.load d.disk.files name = asOf (s.load start) log name :=
    congrFun h.sound.loads name
  rw [hload, asOf_eq] at hlast
  cases hhistory : (history name log).getLast? with
  | none =>
    rw [hhistory] at hlast
    exact absurd hlast.symm (hnone file)
  | some w =>
    rw [hhistory] at hlast
    exact ⟨w, rfl, (Option.some.inj (Except.ok.inj hlast)).symm⟩

/-- A step is seen as what goes on with the log. -/
theorem act? (h : d.Logged s start name log)
    (hnone : ∀ file, s.load start name ≠ .ok (some file)) {act : FileAct}
    {event : Option FileEvent} (hact : d.act? s act = some (d', event))
    (hnumbered : Numbered (log ++ event.toList)) :
    d'.Logged s start name (log ++ event.toList) := by
  obtain ⟨hstuck, -⟩ | ⟨next, seen, hdisk, hshelf, hkept⟩ := agrees h.kept act
  · rw [hstuck] at hact
    cases hact
  · obtain ⟨rfl, rfl⟩ := Prod.mk.inj (Option.some.inj (hdisk.symm.trans hact))
    obtain ⟨hfits, hsound⟩ := h.sound.act? hshelf fun w file hmem =>
      hnumbered w file (List.mem_append_right _ hmem)
    refine ⟨hkept, hsound, ?_⟩
    cases seen with
    | none =>
      rw [Option.toList_none, List.append_nil]
      exact h.consecutive
    | some e =>
      have hsame : ∀ other, LocalStore.fileName name = LocalStore.fileName other →
          s.load start other = s.load start name := fun other hother =>
        LocalStore.load_of_fileName hother.symm start
      exact consecutive_concat hnone hsame h.consecutive (hfits e rfl)

theorem run? {acts : List FileAct} {later : List FileEvent} (h : d.Logged s start name log)
    (hnone : ∀ file, s.load start name ≠ .ok (some file))
    (hrun : FileEvent.run? (BusyDisk.act? s) d acts = some (d', later))
    (hnumbered : Numbered (log ++ later)) : d'.Logged s start name (log ++ later) := by
  induction acts generalizing d log later with
  | nil =>
    obtain ⟨rfl, rfl⟩ := Prod.mk.inj (Option.some.inj hrun)
    rwa [List.append_nil]
  | cons act rest ih =>
    obtain ⟨next, event, others, hact, hrest, rfl⟩ := run?_cons_cases hrun
    rw [← List.append_assoc] at hnumbered ⊢
    refine ih (h.act? hnone hact fun w file hmem => ?_) hrest hnumbered
    exact hnumbered w file (List.mem_append_left _ hmem)

end Logged

def writing (w : StoreWrite) : List FileAct := [.plan w, .draft, .exchange]

/-- Nobody writes, and the file of an object that can be written says that. -/
structure Rests (s : LocalStore) (name : ObjectName) (existing : Option ObjectFile)
    (d : BusyDisk) : Prop where
  idle : d.busy = none
  isFree : (s.shelf d.disk.files).isFree name = true
  load : s.load d.disk.files name = .ok existing

/-- A write that nobody disturbs is done. -/
theorem Rests.run?_write {existing : Option ObjectFile} (h : d.Rests s name existing)
    (w : StoreWrite) (htarget : w.target = name) (file : ObjectFile)
    (hplan : w.plan existing = .ok file) (hlimit : file.version < ObjectFile.versionLimit) :
    ∃ after, FileEvent.run? (BusyDisk.act? s) d (writing w) =
        some (after, [.ended w (.ok file)]) ∧ after.Rests s name (some file) := by
  subst htarget
  obtain ⟨disk, busy⟩ := d
  obtain ⟨rfl, hfree, hload⟩ := h
  have hloads : (s.shelf disk.files).loads w.target = .ok existing := hload
  have hshelf : FileEvent.run? (Outline.act? s) (outline s ⟨disk, none⟩) (writing w) =
      some (⟨s.exchanged (s.shelf disk.files) w.target file.toBytes, none⟩,
        [.ended w (.ok file)]) := by
    simp [FileEvent.run?, writing, Outline.act?, outline, hloads, hplan, hfree, Except.bind]
  rw [← run?_outline (kept_idle s disk)] at hshelf
  obtain ⟨⟨after, log⟩, hrun, heq⟩ := Option.map_eq_some_iff.1 hshelf
  obtain ⟨houtline, rfl⟩ := Prod.mk.inj heq
  obtain ⟨hafter, hidle⟩ := Outline.mk.inj houtline
  refine ⟨after, hrun, Option.map_eq_none_iff.1 hidle, ?_, ?_⟩
  · rw [hafter]
    exact hfree
  · have hloaded := congrFun (congrArg Shelf.loads hafter) w.target
    simp only [LocalStore.exchanged, if_true, s.understood_toBytes w.target hlimit] at hloaded
    exact hloaded

end BusyDisk
end Keyring
