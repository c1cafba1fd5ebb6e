import Keyring.Proofs.LocalStore.Files
import Keyring.Proofs.Stores.Occurrences
import Mathlib.Data.Set.Function

/-!
# Files and the log of a local store

The file of an object says what the last write to the object was: its number, and the object unless
it was removed. A call that succeeds in writing puts the next number there and leaves the files of
other objects alone, and one that reads shows only what was written.
-/
namespace Keyring

open Occurrence

/-! ## Planned writes -/

/-- What the file of an object says after a write. -/
def ObjectFile.ofChange (c : Change) : ObjectFile :=
  ⟨c.version, decide (c.kind = .deleted), some c.object⟩

/-- A write that is planned on the last write is the next one. -/
theorem StoreWrite.plan_cases {w : StoreWrite} {last : Option Change} {file : ObjectFile}
    (hlast : ∀ c, last = some c → c.target = w.target)
    (h : w.plan (last.map ObjectFile.ofChange) = .ok file) :
    ∃ c, file = ObjectFile.ofChange c ∧ c.target = w.target ∧
      c.version = ObjectFile.lastVersion (last.map ObjectFile.ofChange) + 1 ∧
      c.object.resourceVersion = Decimal.ofNat c.version ∧
      (∀ object ∈ (w.reply (.ok file)).objects, c.object = object) ∧
      w.change? (ObjectFile.current? (last.map ObjectFile.ofChange)) c.version
        (w.reply (.ok file)) = some c := by
  cases w with
  | create object =>
    simp only [plan, ObjectFile.create] at h
    split at h
    next => cases h
    next =>
      obtain rfl := Except.ok.inj h
      refine ⟨⟨.added, _, _⟩, rfl, rfl, rfl, rfl, ?_, rfl⟩
      exact fun stored hstored => (List.mem_singleton.1 hstored).symm
  | update object =>
    simp only [plan, ObjectFile.update] at h
    split at h
    next => cases h
    next =>
      split at h
      next => cases h
      next =>
        obtain rfl := Except.ok.inj h
        refine ⟨⟨.modified, _, _⟩, rfl, rfl, rfl, rfl, ?_, rfl⟩
        exact fun stored hstored => (List.mem_singleton.1 hstored).symm
  | delete name =>
    simp only [plan, ObjectFile.delete] at h
    split at h
    next => cases h
    next object hcurrent =>
      obtain rfl := Except.ok.inj h
      have hname : object.objectName = name := by
        cases last with
        | none => cases hcurrent
        | some c =>
          have hobject : c.object = object := by
            simp only [Option.map_some, ObjectFile.current?, Option.bind_some, ObjectFile.live?,
              ObjectFile.ofChange] at hcurrent
            split at hcurrent
            · cases hcurrent
            · exact Option.some.inj hcurrent
          exact hobject ▸ hlast c rfl
      refine ⟨⟨.deleted, _, _⟩, rfl, hname, rfl, rfl, ?_, ?_⟩
      · exact fun stored hstored => absurd hstored List.not_mem_nil
      · rw [hcurrent]
        rfl

/-! ## Files and their log -/

namespace LocalStore

/-- What the file of an object says, if it can be read. -/
def file? (s : LocalStore) (files : FileTree) (name : ObjectName) : Option ObjectFile :=
  (s.load files name).toOption.join

/-- The change that a call made, by the file before and after. -/
def changeOf? (s : LocalStore) (disk : Disk) (call : StoreCall) : Option Change :=
  let after := s.reply disk call
  call.change? (ObjectFile.current? (s.file? disk.files call.target))
    (ObjectFile.lastVersion (s.file? after.1.files call.target)) after.2

/-- Every file says what the last write to its object was. Under names that the file system does not
take nothing was written. -/
structure Keeps (s : LocalStore) (place : FilePath) (names : Set ObjectName) (t : FileTree)
    (log : List Occurrence) : Prop where
  ready : ∀ name ∈ names, s.Ready t place name
  load : ∀ name ∈ names, s.Admits name →
    s.load t name = .ok ((lastWrite? name log).map ObjectFile.ofChange)
  refused : ∀ name ∈ names, ¬ s.Admits name →
    ∀ existing, s.load t name = .ok existing → existing = none
  addressed : ∀ c ∈ writes log, c.target ∈ names ∧ s.Admits c.target
  numbered : ∀ c ∈ writes log, c.version ≤ (writes log).length
  faithful : Faithful log

variable {s : LocalStore} {place : FilePath} {names : Set ObjectName} {t t' : FileTree}
  {log later : List Occurrence}

namespace Keeps

/-- A directory without files of the objects. -/
theorem start (h : ∀ name ∈ names, s.Ready t place name ∧ t.at? (place ++ [fileName name]) = none) :
    s.Keeps place names t [] := by
  refine ⟨fun name hname => (h name hname).1, ?_, ?_, ?_, ?_, .nil⟩
  · intro name hname hadmits
    obtain ⟨hready, hnone⟩ := h name hname
    exact (hready.load_missing hnone).resolve_right fun hfailed => hfailed.1 hadmits
  · intro name hname hnot existing hload
    obtain ⟨hready, hnone⟩ := h name hname
    rcases hready.load_missing hnone with hmissing | ⟨-, failure, hfailed⟩
    · exact (Except.ok.inj (hmissing.symm.trans hload)).symm
    · cases hfailed.symm.trans hload
  · intro c hc
    cases hc
  · intro c hc
    cases hc

/-- Nothing is written, and what is seen was written before. -/
theorem quiet (h : s.Keeps place names t log) (hwrites : writes later = [])
    (hstored : ∀ object ∈ seen later, ∃ c ∈ writes log, c.object = object) :
    s.Keeps place names t (log ++ later) := by
  have hsame : writes (log ++ later) = writes log := by
    rw [writes_append, hwrites, List.append_nil]
  have hlast : ∀ name, lastWrite? name (log ++ later) = lastWrite? name log :=
    fun name => lastWrite?_append_of_nil (by rw [writesTo, hwrites, List.filter_nil])
  refine ⟨h.ready, ?_, h.refused, ?_, ?_, ?_⟩
  · intro name hname hadmits
    rw [hlast]
    exact h.load name hname hadmits
  · rw [hsame]
    exact h.addressed
  · rw [hsame]
    exact h.numbered
  · refine h.faithful.append none hwrites ?_ ?_ ?_
    · rintro c ⟨⟩
    · rintro c ⟨⟩
    · rw [hsame]
      exact hstored

/-- The last write to an object and what its file says are the same. -/
theorem last_of_load (h : s.Keeps place names t log) {name : ObjectName} (hname : name ∈ names)
    {file : ObjectFile} (hload : s.load t name = .ok (some file)) :
    ∃ c, lastWrite? name log = some c ∧ ObjectFile.ofChange c = file := by
  by_cases hadmits : s.Admits name
  · rw [h.load name hname hadmits, Except.ok.injEq, Option.map_eq_some_iff] at hload
    exact hload
  · cases h.refused name hname hadmits _ hload

theorem current_of_load (h : s.Keeps place names t log) {name : ObjectName} (hname : name ∈ names)
    {existing : Option ObjectFile} (hload : s.load t name = .ok existing) {object : StoredObject}
    (hcurrent : ObjectFile.current? existing = some object) :
    ∃ c ∈ writes log, c.target = name ∧ c.object = object := by
  obtain ⟨file, rfl, hlive⟩ := Option.bind_eq_some_iff.1 hcurrent
  obtain ⟨c, hlast, rfl⟩ := h.last_of_load hname hload
  obtain ⟨hc, htarget⟩ := mem_of_lastWrite? hlast
  refine ⟨c, hc, htarget, ?_⟩
  unfold ObjectFile.live? at hlive
  split at hlive
  · cases hlive
  · exact Option.some.inj hlive

/-- The file of an object after the next write to it. -/
theorem wrote {name : ObjectName} {c : Change} (h : s.Keeps place names t log)
    (hname : name ∈ names) (hadmits : s.Admits name)
    (hinj : Set.InjOn fileName {name ∈ names | s.Admits name})
    (hready : s.Ready t' place name) (hload : s.load t' name = .ok (some (.ofChange c)))
    (hspares : s.Spares place name t t') (htarget : c.target = name)
    (hversion : c.version =
      ObjectFile.lastVersion ((lastWrite? name log).map ObjectFile.ofChange) + 1)
    (hstamped : c.object.resourceVersion = Decimal.ofNat c.version)
    (hwrites : writes later = [c])
    (hstored : ∀ object ∈ seen later, ∃ c ∈ writes (log ++ later), c.object = object) :
    s.Keeps place names t' (log ++ later) := by
  have hall : writes (log ++ later) = writes log ++ [c] := by rw [writes_append, hwrites]
  -- A name with the same file name is taken as well, so it is the same name.
  have hother : ∀ other ∈ names, other ≠ name →
      s.Ready t' place other ∧ s.load t' other = s.load t other := by
    intro other hmem hne
    refine hspares other (fun heq => hne ?_) (h.ready other hmem)
    have hboth : s.Admits other := by rwa [Admits, draftPath, draftName, heq]
    exact hinj ⟨hmem, hboth⟩ ⟨hname, hadmits⟩ heq
  refine ⟨?_, ?_, ?_, ?_, ?_, ?_⟩
  · intro other hmem
    by_cases hne : other = name
    · exact hne ▸ hready
    · exact (hother other hmem hne).1
  · intro other hmem hyes
    by_cases hne : other = name
    · subst hne
      have hlater : writesTo other later = [c] := by simp [writesTo, hwrites, htarget]
      rw [lastWrite?_append_of_singleton hlater]
      exact hload
    · have hlater : writesTo other later = [] := by
        simp [writesTo, hwrites, htarget, Ne.symm hne]
      rw [lastWrite?_append_of_nil hlater, (hother other hmem hne).2]
      exact h.load other hmem hyes
  · intro other hmem hnot
    have hne : other ≠ name := fun heq => hnot (heq ▸ hadmits)
    rw [(hother other hmem hne).2]
    exact h.refused other hmem hnot
  · rw [hall, List.forall_mem_append, List.forall_mem_singleton, htarget]
    exact ⟨h.addressed, hname, hadmits⟩
  · have hlast : ObjectFile.lastVersion ((lastWrite? name log).map ObjectFile.ofChange) ≤
        (writes log).length := by
      cases hlast : lastWrite? name log with
      | none => exact Nat.zero_le _
      | some d => exact h.numbered d (mem_of_lastWrite? hlast).1
    rw [hall, List.forall_mem_append, List.forall_mem_singleton, List.length_append,
      List.length_singleton, hversion]
    exact ⟨fun d hd => Nat.le_succ_of_le (h.numbered d hd), by omega⟩
  · refine h.faithful.append (some c) hwrites ?_ ?_ hstored
    · rintro _ ⟨⟩ d hd
      obtain ⟨hmem, htargets⟩ := mem_writesTo.1 hd
      cases hlast : lastWrite? name log with
      | none =>
        rw [lastWrite?, List.getLast?_eq_none_iff] at hlast
        rw [htarget, hlast] at hd
        cases hd
      | some last =>
        have hle := h.faithful.version_le_last hmem (htargets.trans htarget ▸ hlast)
        rw [hlast] at hversion
        have hnext : c.version = last.version + 1 := hversion
        omega
    · rintro _ ⟨⟩
      exact hstamped

/-- What a call shows that only reads is what the file says. -/
theorem load_of_objects_reply {disk : Disk} {read : StoreCall} {object : StoredObject}
    (hread : read.isWrite = false) (h : object ∈ (s.reply disk read).2.objects) :
    ∃ existing, s.load disk.files read.target = .ok existing ∧
      ObjectFile.current? existing = some object := by
  cases read with
  | get name =>
    rw [reply, LocalStore.get] at h
    cases hload : s.load disk.files name with
    | error failure =>
      rw [hload] at h
      cases h
    | ok existing =>
      rw [hload] at h
      exact ⟨existing, hload, Option.mem_toList.1 h⟩
  | list name =>
    rw [reply, LocalStore.list] at h
    cases hload : s.load disk.files name with
    | error failure =>
      rw [hload] at h
      cases h
    | ok existing =>
      rw [hload] at h
      exact ⟨existing, hload, Option.mem_toList.1 h⟩
  | write w => cases hread

theorem file?_of_load {name : ObjectName} {existing : Option ObjectFile}
    (h : s.load t name = .ok existing) : s.file? t name = existing := by
  rw [file?, h]
  rfl

/-- A call leaves the files as its log says, and shows its own object only. -/
theorem call {disk : Disk} {call : StoreCall} (h : s.Keeps place names disk.files log)
    (hinj : Set.InjOn fileName {name ∈ names | s.Admits name}) (htarget : call.target ∈ names)
    (hlimit : (writes log).length + 1 < ObjectFile.versionLimit) :
    s.Keeps place names (s.reply disk call).1.files
        (log ++ ofCall call (s.changeOf? disk call) (s.reply disk call).2) ∧
      ∀ object ∈ (s.reply disk call).2.objects, object.objectName = call.target := by
  -- A call that only reads shows what was written before.
  have hread : (s.reply disk call).1 = disk → s.changeOf? disk call = none →
      call.isWrite = false → s.Keeps place names (s.reply disk call).1.files
          (log ++ ofCall call (s.changeOf? disk call) (s.reply disk call).2) ∧
        ∀ object ∈ (s.reply disk call).2.objects, object.objectName = call.target := by
    intro hdisk hnone hisRead
    have hshown : ∀ object ∈ (s.reply disk call).2.objects,
        ∃ c ∈ writes log, c.target = call.target ∧ c.object = object := by
      intro object hobject
      obtain ⟨existing, hload, hcurrent⟩ := load_of_objects_reply hisRead hobject
      exact h.current_of_load htarget hload hcurrent
    rw [hdisk, hnone]
    refine ⟨h.quiet (by rw [writes_ofCall]; rfl) ?_, ?_⟩
    · rw [seen_ofCall]
      intro object hobject
      obtain ⟨c, hc, -, hco⟩ := hshown object hobject
      exact ⟨c, hc, hco⟩
    · intro object hobject
      obtain ⟨c, -, hname, rfl⟩ := hshown object hobject
      exact hname
  cases call with
  | get name => exact hread rfl rfl rfl
  | list name => exact hread rfl rfl rfl
  | write w =>
    rw [StoreCall.target] at htarget
    -- A write that fails changes no file and shows nothing.
    have hfailed : ∀ {disk' : Disk} {failure : KeyError}, disk'.files = disk.files →
        s.reply disk (.write w) = (disk', w.reply (.error failure)) →
        s.Keeps place names (s.reply disk (.write w)).1.files
            (log ++ ofCall (.write w) (s.changeOf? disk (.write w)) (s.reply disk (.write w)).2) ∧
          ∀ object ∈ (s.reply disk (.write w)).2.objects, object.objectName = w.target := by
      intro disk' failure hfiles hreply
      have hnone : s.changeOf? disk (.write w) = none := by
        rw [changeOf?, hreply]
        cases w <;> rfl
      rw [hreply, hnone, hfiles]
      refine ⟨h.quiet (by rw [writes_ofCall]; rfl) ?_, ?_⟩
      · rw [seen_ofCall, StoreWrite.objects_reply_error]
        exact fun object hobject => absurd hobject List.not_mem_nil
      · rw [StoreWrite.objects_reply_error]
        exact fun object hobject => absurd hobject List.not_mem_nil
    by_cases hadmits : s.Admits w.target
    · have hload := h.load _ htarget hadmits
      rcases change_cases hadmits (h.ready _ htarget) hload w.plan with
        ⟨failure, -, hchange⟩ | ⟨file, disk', hplan, hchange, hready, hloaded, hspares⟩
      · exact hfailed rfl (by rw [reply, write_eq, hchange])
      · have hlast : ∀ c, lastWrite? w.target log = some c → c.target = w.target :=
          fun c hc => (mem_of_lastWrite? hc).2
        obtain ⟨c, rfl, hname, hversion, hstamped, hshown, hseen⟩ :=
          StoreWrite.plan_cases hlast hplan
        have hnumber : (ObjectFile.ofChange c).version < ObjectFile.versionLimit := by
          have hbound : c.version ≤ (writes log).length + 1 := by
            rw [hversion]
            cases hd : lastWrite? w.target log with
            | none => exact Nat.le_add_left 1 _
            | some d => exact Nat.succ_le_succ (h.numbered d (mem_of_lastWrite? hd).1)
          exact Nat.lt_of_le_of_lt hbound hlimit
        have hreply : s.reply disk (.write w) = (disk', w.reply (.ok (.ofChange c))) := by
          rw [reply, write_eq, hchange]
        have hsome : s.changeOf? disk (.write w) = some c := by
          rw [changeOf?, hreply]
          simp only [StoreCall.target, StoreCall.change?]
          rw [file?_of_load hload, file?_of_load (hloaded hnumber)]
          exact hseen
        rw [hreply, hsome]
        refine ⟨h.wrote htarget hadmits hinj hready (hloaded hnumber) hspares hname hversion
          hstamped (by rw [writes_ofCall]; rfl) ?_,
          fun object hobject => hshown object hobject ▸ hname⟩
        rw [seen_ofCall, writes_append, writes_ofCall]
        exact fun object hobject => ⟨c, List.mem_append_right _ List.mem_cons_self,
          hshown object hobject⟩
    · obtain ⟨hfiles, failure, hchange⟩ := change_refused hadmits (h.ready _ htarget) w.plan
      exact hfailed hfiles (by rw [reply, write_eq, hchange])

end Keeps
end LocalStore
end Keyring
