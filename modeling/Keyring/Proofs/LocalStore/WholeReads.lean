import Keyring.Proofs.LocalStore.Readers

/-!
# Whole reads of a local store

A file says what the last write that was done has put there, at every moment of every run. So
readers never see a part of a write, and a write that was stopped might as well not have begun: what
is left of it in a draft changes no answer.
-/
namespace Keyring

namespace FileEvent

/-- What the event has put into the file of an object. -/
def puts? (name : ObjectName) : FileEvent → Option ObjectFile
  | .ended w (.ok file) =>
    if LocalStore.fileName name = LocalStore.fileName w.target then some file else none
  | _ => none

/-- What the files say after the writes of a log that were done, by what they said before. -/
def asOf (base : ObjectName → Except KeyError (Option ObjectFile)) (log : List FileEvent)
    (name : ObjectName) : Except KeyError (Option ObjectFile) :=
  match (log.filterMap (puts? name)).getLast? with
  | some file => .ok (some file)
  | none => base name

/-- The event is as it has to be where the files say that. -/
def Fits (before : ObjectName → Except KeyError (Option ObjectFile)) : FileEvent → Prop
  | .found name result => result = (before name).map ObjectFile.current?
  | .listed name result => result = (before name).map ObjectFile.list
  | .polled p after => after = p.look (before p.name)
  | .ended w outcome => outcome = .error .io ∨ outcome = (before w.target).bind w.plan

/-- All writes that were done have numbers that a file can hold. -/
def Numbered (log : List FileEvent) : Prop :=
  ∀ w file, .ended w (.ok file) ∈ log → file.version < ObjectFile.versionLimit

variable {base : ObjectName → Except KeyError (Option ObjectFile)} {log : List FileEvent}
  {e : FileEvent}

/-- Nothing but a write that is done changes what the files say. -/
theorem asOf_concat_of_none (h : ∀ name, e.puts? name = none) :
    asOf base (log ++ [e]) = asOf base log := by
  funext name
  simp [asOf, h]

theorem asOf_concat_ended (w : StoreWrite) (file : ObjectFile) (name : ObjectName) :
    asOf base (log ++ [.ended w (.ok file)]) name =
      if LocalStore.fileName name = LocalStore.fileName w.target then .ok (some file)
      else asOf base log name := by
  by_cases hsame : LocalStore.fileName name = LocalStore.fileName w.target
  · simp [asOf, puts?, hsame]
  · simp [asOf, puts?, hsame]

end FileEvent

open FileEvent

/-! ## What a shelf tells -/

namespace Outline

variable {s : LocalStore} {base : ObjectName → Except KeyError (Option ObjectFile)}
  {done log : List FileEvent} {v v' : Outline} {event : Option FileEvent}

/-- The files say what the writes of the log have put there, and the write that goes on was planned
on that. -/
structure Sound (base : ObjectName → Except KeyError (Option ObjectFile)) (done : List FileEvent)
    (v : Outline) : Prop where
  loads : v.shelf.loads = asOf base done
  planned : ∀ b, v.busy = some b → (asOf base done b.write.target).bind b.write.plan = .ok b.file

/-- What was seen fits what the files said before it, and they say what was put there after it. -/
structure Follows (base : ObjectName → Except KeyError (Option ObjectFile)) (done : List FileEvent)
    (event : Option FileEvent) (v : Outline) : Prop where
  fits : ∀ e : FileEvent, event = some e → e.Fits (asOf base done)
  sound : v.Sound base (done ++ event.toList)

namespace Sound

theorem idle (h : v.Sound base done) : Sound base done ⟨v.shelf, none⟩ :=
  ⟨h.loads, fun b hb => by cases hb⟩

/-- An event that puts nothing into a file. -/
theorem seen (h : v.Sound base done) {e : FileEvent} (he : ∀ name, e.puts? name = none) :
    v.Sound base (done ++ [e]) := by
  have hsame : asOf base (done ++ [e]) = asOf base done := asOf_concat_of_none he
  exact ⟨h.loads.trans hsame.symm, fun b hb => by rw [hsame]; exact h.planned b hb⟩

/-- A reader who asks in between gets what fits. -/
theorem read (h : v.Sound base done) {e : FileEvent} (he : ∀ name, e.puts? name = none)
    (hfits : e.Fits v.shelf.loads) : v.Follows base done (some e) := by
  refine ⟨?_, h.seen he⟩
  rintro e' ⟨⟩
  rw [← h.loads]
  exact hfits

/-- Where nothing is seen, nothing has to fit. -/
theorem unseen (h : v.Sound base done) : v.Follows base done none := by
  refine ⟨fun e he => (by cases he), ?_⟩
  rwa [Option.toList_none, List.append_nil]

theorem plan (h : v.Sound base done) {w : StoreWrite}
    (hact : v.act? s (.plan w) = some (v', event)) : v'.Follows base done event := by
  simp only [Outline.act?] at hact
  split at hact
  next => cases hact
  next hidle =>
    split at hact
    next failure hplan =>
      obtain ⟨rfl, rfl⟩ := Prod.mk.inj (Option.some.inj hact)
      exact h.read (fun name => rfl) (Or.inr hplan.symm)
    next file hplan =>
      obtain ⟨rfl, rfl⟩ := Prod.mk.inj (Option.some.inj hact)
      rw [h.loads] at hplan
      have hbusy : Sound base done ⟨v.shelf, some ⟨w, file, false⟩⟩ := by
        refine ⟨h.loads, ?_⟩
        rintro b ⟨⟩
        exact hplan
      exact hbusy.unseen

/-- Bytes in a draft are no event, unless the draft cannot be written. -/
theorem draft (h : v.Sound base done) (hact : v.act? s .draft = some (v', event)) :
    v'.Follows base done event := by
  simp only [Outline.act?] at hact
  split at hact
  next w file hbusy =>
    split at hact
    next =>
      obtain ⟨rfl, rfl⟩ := Prod.mk.inj (Option.some.inj hact)
      have hdrafted : Sound base done ⟨v.shelf, some ⟨w, file, true⟩⟩ := by
        refine ⟨h.loads, ?_⟩
        rintro b ⟨⟩
        exact h.planned ⟨w, file, false⟩ hbusy
      exact hdrafted.unseen
    next =>
      obtain ⟨rfl, rfl⟩ := Prod.mk.inj (Option.some.inj hact)
      exact h.idle.read (fun name => rfl) (Or.inl rfl)
  next => cases hact

/-- With the exchange the write is done as it was planned. -/
theorem exchange (h : v.Sound base done) (hact : v.act? s .exchange = some (v', event))
    (hnumbered : Numbered event.toList) : v'.Follows base done event := by
  simp only [Outline.act?] at hact
  split at hact
  next w file hbusy =>
    obtain ⟨rfl, rfl⟩ := Prod.mk.inj (Option.some.inj hact)
    have hplanned := h.planned _ hbusy
    have hlimit := hnumbered w file (by simp)
    refine ⟨?_, ?_, fun b hb => by cases hb⟩
    · rintro e ⟨⟩
      exact Or.inr hplanned.symm
    · funext name
      rw [Option.toList_some, asOf_concat_ended, ← h.loads]
      simp only [LocalStore.exchanged, LocalStore.understood_toBytes name hlimit]
  next => cases hact

/-- Every step is seen as what fits, if it is seen at all. -/
theorem act? (h : v.Sound base done) {act : FileAct} (hact : v.act? s act = some (v', event))
    (hnumbered : Numbered event.toList) : v'.Follows base done event := by
  cases act with
  | plan w => exact h.plan hact
  | spill content =>
    simp only [Outline.act?] at hact
    split at hact
    next =>
      split at hact
      next =>
        obtain ⟨rfl, rfl⟩ := Prod.mk.inj (Option.some.inj hact)
        exact h.unseen
      next => cases hact
    next => cases hact
  | draft => exact h.draft hact
  | exchange => exact h.exchange hact hnumbered
  | fail =>
    obtain ⟨b, -, heq⟩ := Option.map_eq_some_iff.1 hact
    obtain ⟨rfl, rfl⟩ := Prod.mk.inj heq
    exact h.idle.read (fun name => rfl) (Or.inl rfl)
  | crash =>
    obtain ⟨rfl, rfl⟩ := Prod.mk.inj (Option.some.inj hact)
    exact h.idle.unseen
  | get name =>
    obtain ⟨rfl, rfl⟩ := Prod.mk.inj (Option.some.inj hact)
    exact h.read (fun name => rfl) rfl
  | list name =>
    obtain ⟨rfl, rfl⟩ := Prod.mk.inj (Option.some.inj hact)
    exact h.read (fun name => rfl) rfl
  | poll p =>
    obtain ⟨rfl, rfl⟩ := Prod.mk.inj (Option.some.inj hact)
    exact h.read (fun name => rfl) rfl

/-- Every event of a run fits what the writes before it have put into the files. -/
theorem run? {acts : List FileAct} (h : v.Sound base done)
    (hrun : FileEvent.run? (Outline.act? s) v acts = some (v', log)) (hnumbered : Numbered log) :
    (∀ earlier e later, log = earlier ++ e :: later → e.Fits (asOf base (done ++ earlier))) ∧
      v'.Sound base (done ++ log) := by
  induction acts generalizing v done log with
  | nil =>
    obtain ⟨rfl, rfl⟩ := Prod.mk.inj (Option.some.inj hrun)
    rw [List.append_nil]
    exact ⟨fun earlier e later hsplit => by simp at hsplit, h⟩
  | cons act rest ih =>
    obtain ⟨next, event, later, hact, hrest, rfl⟩ := run?_cons_cases hrun
    obtain ⟨hfirst, hnext⟩ := h.act? hact fun w file hmem =>
      hnumbered w file (List.mem_append_left _ hmem)
    obtain ⟨hlater, hlast⟩ := ih hnext hrest fun w file hmem =>
      hnumbered w file (List.mem_append_right _ hmem)
    refine ⟨?_, by rwa [← List.append_assoc]⟩
    intro earlier e after hsplit
    cases event with
    | none =>
      rw [Option.toList_none, List.append_nil] at hlater
      exact hlater earlier e after hsplit
    | some first =>
      rcases earlier with - | ⟨head, earlier⟩
      · rw [List.append_nil]
        exact hfirst e (congrArg some (List.cons.inj hsplit).1)
      · obtain ⟨rfl, hrestSplit⟩ := List.cons.inj hsplit
        rw [List.append_cons]
        exact hlater earlier e after hrestSplit

end Sound
end Outline

/-! ## What a disk tells -/

namespace BusyDisk

variable {s : LocalStore} {d : BusyDisk}

/-- A run on a disk is one on its shelf, with the same events. -/
theorem run?_outline (h : d.Kept s) (acts : List FileAct) :
    (run? (act? s) d acts).map (Prod.map (outline s) id) =
      run? (Outline.act? s) (d.outline s) acts := by
  induction acts generalizing d with
  | nil => rfl
  | cons act rest ih =>
    rcases agrees h act with ⟨hdisk, hshelf⟩ | ⟨next, event, hdisk, hshelf, hkept⟩
    · simp only [runLogged?_cons, hdisk, hshelf, Option.map_none, Option.bind_none]
    · simp only [runLogged?_cons, hdisk, hshelf, Option.map_some, Option.bind_some, Prod.map,
        ← ih hkept, Option.map_map, Function.comp_def, id]

/-- Only the shelf of a disk decides what is seen. -/
theorem log_eq_of_shelf {disk disk' : Disk} (h : s.shelf disk'.files = s.shelf disk.files)
    (acts : List FileAct) :
    (run? (act? s) ⟨disk', none⟩ acts).map Prod.snd =
      (run? (act? s) ⟨disk, none⟩ acts).map Prod.snd := by
  have hlog : ∀ started : Disk, (run? (act? s) ⟨started, none⟩ acts).map Prod.snd =
      (run? (Outline.act? s) ⟨s.shelf started.files, none⟩ acts).map Prod.snd := by
    intro started
    have hrun := run?_outline (kept_idle s started) acts
    rw [outline, Option.map_none] at hrun
    rw [← hrun, Option.map_map]
    rfl
  rw [hlog disk', hlog disk, h]

/-- Readers take no lock, and what they read is what the last write to the file that was done by
then has put there, or what was there at first: all of it and nothing else, whatever write goes on
and wherever others were stopped. What a stopped write has left in a draft is never seen: no answer
of any later run is another with it than without it. -/
theorem reads_whole (s : LocalStore) (disk : Disk) (acts : List FileAct) :
    (∀ d log, run? (act? s) ⟨disk, none⟩ acts = some (d, log) → Numbered log →
      (∀ earlier e later, log = earlier ++ e :: later →
        e.Fits (asOf (s.load disk.files) earlier)) ∧
      ∀ name, s.load d.disk.files name = asOf (s.load disk.files) log name) ∧
    ∀ name content files pool, disk.files.write (s.draftPath name) content = .ok files →
      (run? (act? s) ⟨⟨files, pool⟩, none⟩ acts).map Prod.snd =
        (run? (act? s) ⟨disk, none⟩ acts).map Prod.snd := by
  constructor
  · intro d log hrun hnumbered
    have hshelf := run?_outline (kept_idle s disk) acts
    rw [hrun] at hshelf
    have hstart : Outline.Sound (s.load disk.files) [] (outline s ⟨disk, none⟩) :=
      ⟨rfl, fun b hb => by cases hb⟩
    obtain ⟨hfits, hsound⟩ := hstart.run? hshelf.symm hnumbered
    exact ⟨hfits, congrFun hsound.loads⟩
  · intro name content files pool hdraft
    exact log_eq_of_shelf (LocalStore.shelf_of_draft hdraft) acts

/-- The creation of an object is stopped in the middle of its draft and tried again, and others read
the object in between. -/
def retriedCreation (object : StoredObject) : List FileAct :=
  [.plan (.create object), .spill [7], .get object.objectName, .crash, .plan (.create object),
    .draft, .list object.objectName, .exchange, .list object.objectName]

/-- What is seen of that where the object is not there yet. -/
def retriedCreationLog (object : StoredObject) : List FileEvent :=
  [.found object.objectName (.ok none), .listed object.objectName (.ok ⟨[], Decimal.ofNat 0⟩),
    .ended (.create object) (.ok (.next 0 false object)),
    .listed object.objectName
      (.ok ⟨[{ object with resourceVersion := Decimal.ofNat 1 }], Decimal.ofNat 1⟩)]

theorem run?_retriedCreation (s : LocalStore) (disk : Disk) (object : StoredObject)
    (hload : s.load disk.files object.objectName = .ok none)
    (hfree : (s.shelf disk.files).isFree object.objectName = true) :
    ∃ d, run? (act? s) ⟨disk, none⟩ (retriedCreation object) =
      some (d, retriedCreationLog object) := by
  obtain ⟨file, hfile⟩ : ∃ file, file = ObjectFile.next 0 false object := ⟨_, rfl⟩
  have hplan : StoreWrite.plan (.create object) none = .ok file := hfile ▸ rfl
  have hloads : (s.shelf disk.files).loads object.objectName = .ok none := hload
  have hunderstood : s.understood object.objectName file.toBytes = .ok (some file) := by
    apply s.understood_toBytes
    rw [hfile]
    exact (by decide : 1 < ObjectFile.versionLimit)
  have hshelf : run? (Outline.act? s) (outline s ⟨disk, none⟩) (retriedCreation object) =
      some (⟨s.exchanged (s.shelf disk.files) object.objectName file.toBytes, none⟩,
        retriedCreationLog object) := by
    simp only [runLogged?_cons, runLogged?_nil, Outline.act?, retriedCreation, outline, StoreWrite.target, hloads, hfree,
      hplan, hunderstood, LocalStore.exchanged, Except.bind, Except.map, Option.map_none,
      Option.map_some, Option.bind_some, Prod.map, id, if_true]
    rw [hfile]
    rfl
  rw [← run?_outline (kept_idle s disk)] at hshelf
  obtain ⟨⟨d, log⟩, hrun, heq⟩ := Option.map_eq_some_iff.1 hshelf
  obtain rfl : log = retriedCreationLog object := (Prod.mk.inj heq).2
  exact ⟨d, hrun⟩

theorem reads_whole_retriedCreation :
    ∃ d files, run? (act? .firstStore) ⟨LocalStore.firstDisk, none⟩
        (retriedCreation (.fresh ⟨"ns", "keys"⟩)) =
          some (d, retriedCreationLog (.fresh ⟨"ns", "keys"⟩)) ∧
      Numbered (retriedCreationLog (.fresh ⟨"ns", "keys"⟩)) ∧
      LocalStore.firstStore.load d.disk.files ⟨"ns", "keys"⟩ =
        .ok (some (.next 0 false (.fresh ⟨"ns", "keys"⟩))) ∧
      LocalStore.firstDisk.files.write (LocalStore.firstStore.draftPath ⟨"ns", "keys"⟩) [7] =
        .ok files ∧
      (run? (act? .firstStore) ⟨⟨files, LocalStore.firstDisk.pool⟩, none⟩
        (retriedCreation (.fresh ⟨"ns", "keys"⟩))).map Prod.snd =
          some (retriedCreationLog (.fresh ⟨"ns", "keys"⟩)) := by
  obtain ⟨object, hobject⟩ : ∃ object, object = StoredObject.fresh ⟨"ns", "keys"⟩ := ⟨_, rfl⟩
  have hname : object.objectName = ⟨"ns", "keys"⟩ := hobject ▸ rfl
  have hload : LocalStore.firstStore.load LocalStore.firstDisk.files object.objectName =
      .ok none := by
    rw [hname]
    exact LocalStore.load_firstDisk (by decide +kernel)
  have hfree : (LocalStore.firstStore.shelf LocalStore.firstDisk.files).isFree
      object.objectName = true := by
    rw [hname]
    decide +kernel
  obtain ⟨d, hrun⟩ := run?_retriedCreation .firstStore LocalStore.firstDisk object hload hfree
  obtain ⟨files, hdraft⟩ : ∃ files, LocalStore.firstDisk.files.write
      (LocalStore.firstStore.draftPath ⟨"ns", "keys"⟩) [7] = .ok files := ⟨_, rfl⟩
  have hnumbered : Numbered (retriedCreationLog object) := by
    intro w file hmem
    simp only [retriedCreationLog, List.mem_cons, ended.injEq, Except.ok.injEq, reduceCtorEq,
      List.not_mem_nil, false_or, or_false] at hmem
    rw [hmem.2]
    exact (by decide : 1 < ObjectFile.versionLimit)
  obtain ⟨hreads, hleft⟩ :=
    reads_whole .firstStore LocalStore.firstDisk (retriedCreation object)
  obtain ⟨-, hlast⟩ := hreads d _ hrun hnumbered
  rw [← hobject]
  refine ⟨d, files, hrun, hnumbered, ?_, hdraft, ?_⟩
  · rw [hlast]
    simp only [asOf, retriedCreationLog, List.filterMap_cons, List.filterMap_nil, puts?,
      StoreWrite.target, hname, if_true, List.getLast?_singleton]
  · rw [hleft _ _ _ _ hdraft, hrun]
    rfl

end BusyDisk
end Keyring
