import Keyring.LocalStore.Poller
import Keyring.Proofs.LocalStore.Drafts
import Keyring.Proofs.Runs
import Keyring.Proofs.Stores.Calls

/-!
# Steps of a local store

A write is planned on what a file says, then all of it goes to a draft, and then the draft takes the
place of the file. Writers wait for each other, but nobody else waits for them: objects are read,
listed and polled between any two steps, and a write can stop after each of them. Whatever is left
of it then, nothing can be told of the files but what could be told before.
-/
namespace Keyring

/-- A write that has been planned. -/
structure Writing where
  write : StoreWrite
  /-- What the file is to say. -/
  file : ObjectFile
  /-- Whether all of it is in the draft. -/
  drafted : Bool

/-- A disk, and the write that goes on there with the bytes that are to be written. -/
structure BusyDisk where
  disk : Disk
  busy : Option (Writing × Bytes)

/-- What can happen next to a store in files. -/
inductive FileAct
  /-- A write begins: it is planned on what the file says. -/
  | plan (write : StoreWrite)
  /-- Some bytes come to be in the draft. -/
  | spill (content : Bytes)
  /-- All that is to be written is in the draft. -/
  | draft
  /-- The draft takes the place of the file. -/
  | exchange
  /-- The write fails where it is, and the caller is told. -/
  | fail
  /-- The process ends, and the store is opened again. -/
  | crash
  | get (name : ObjectName)
  | list (name : ObjectName)
  /-- A poller looks at its file. -/
  | poll (poller : Poller)

/-- What is seen of a store in files. -/
inductive FileEvent
  | found (name : ObjectName) (result : Except KeyError (Option StoredObject))
  | listed (name : ObjectName) (result : Except KeyError ObjectList)
  | polled (before after : Poller)
  /-- A write is done, with what the file says then, or has failed. -/
  | ended (write : StoreWrite) (outcome : Except KeyError ObjectFile)

namespace FileEvent

variable {σ : Type}

/-- Steps one after the other, with the events that are seen. -/
abbrev run? (step? : σ → FileAct → Option (σ × Option FileEvent)) (state : σ)
    (acts : List FileAct) : Option (σ × List FileEvent) :=
  runLogged? (fun state act => (step? state act).map (Prod.map id Option.toList)) state acts

theorem run?_cons_cases {step? : σ → FileAct → Option (σ × Option FileEvent)} {state last : σ}
    {act : FileAct} {rest : List FileAct} {log : List FileEvent}
    (h : run? step? state (act :: rest) = some (last, log)) :
    ∃ next event later, step? state act = some (next, event) ∧
      run? step? next rest = some (last, later) ∧ log = event.toList ++ later := by
  obtain ⟨next, _, later, hact, hrest, rfl⟩ := runLogged?_cons_eq_some_iff.1 h
  obtain ⟨⟨_, event⟩, hstep, heq⟩ := Option.map_eq_some_iff.1 hact
  obtain ⟨rfl, rfl⟩ := Prod.mk.inj heq
  exact ⟨_, event, later, hstep, hrest, rfl⟩

end FileEvent

namespace BusyDisk

/-- What a store in files does next; nothing where someone has to wait. -/
def act? (s : LocalStore) (d : BusyDisk) : FileAct → Option (BusyDisk × Option FileEvent)
  | .plan write =>
    match d.busy with
    | some _ => none
    | none =>
      match (s.load d.disk.files write.target).bind write.plan with
      | .error failure => some (d, some (.ended write (.error failure)))
      | .ok file =>
        let (encrypted, pool) := s.masterKey.encrypt file.toBytes d.disk.pool
        some (⟨⟨d.disk.files, pool⟩, some (⟨write, file, false⟩, encrypted)⟩, none)
  | .spill content =>
    match d.busy with
    | some (⟨write, file, false⟩, encrypted) =>
      match d.disk.files.write (s.draftPath write.target) content with
      | .ok files => some (⟨⟨files, d.disk.pool⟩, some (⟨write, file, false⟩, encrypted)⟩, none)
      | .error _ => none
    | _ => none
  | .draft =>
    match d.busy with
    | some (⟨write, file, false⟩, encrypted) =>
      match d.disk.files.write (s.draftPath write.target) encrypted with
      | .ok files => some (⟨⟨files, d.disk.pool⟩, some (⟨write, file, true⟩, encrypted)⟩, none)
      | .error _ => some (⟨d.disk, none⟩, some (.ended write (.error .io)))
    | _ => none
  | .exchange =>
    match d.busy with
    | some (⟨write, file, true⟩, _) =>
      match d.disk.files.rename (s.draftPath write.target) (s.path write.target) with
      | .ok files => some (⟨⟨files, d.disk.pool⟩, none⟩, some (.ended write (.ok file)))
      | .error _ => some (⟨d.disk, none⟩, some (.ended write (.error .io)))
    | _ => none
  | .fail => d.busy.map fun (b, _) => (⟨d.disk, none⟩, some (.ended b.write (.error .io)))
  | .crash => some (⟨d.disk, none⟩, none)
  | .get name => some (d, some (.found name (s.get d.disk name)))
  | .list name => some (d, some (.listed name (s.list d.disk name)))
  | .poll p => some (d, some (.polled p (p.look (s.load d.disk.files p.name))))

/-- A write that nobody disturbs is a call to the store. -/
theorem run?_write (s : LocalStore) (disk : Disk) (w : StoreWrite) :
    ∃ acts outcome, acts <+: [.plan w, .draft, .exchange] ∧
      FileEvent.run? (act? s) ⟨disk, none⟩ acts =
        some (⟨(s.write disk w).1, none⟩, [.ended w outcome]) ∧
      (s.write disk w).2 = w.reply outcome := by
  rw [s.write_eq]
  obtain ⟨files, pool⟩ := disk
  unfold LocalStore.change
  cases hplan : (s.load files w.target).bind w.plan with
  | error failure =>
    refine ⟨[.plan w], .error failure, ⟨[.draft, .exchange], rfl⟩, ?_, rfl⟩
    simp [FileEvent.run?, act?, hplan]
  | ok file =>
    obtain ⟨⟨encrypted, rest⟩, hencrypt⟩ :
        ∃ result, s.masterKey.encrypt file.toBytes pool = result := ⟨_, rfl⟩
    cases hdraft : files.write (s.draftPath w.target) encrypted with
    | error fault =>
      refine ⟨[.plan w, .draft], .error .io, ⟨[.exchange], rfl⟩, ?_, ?_⟩ <;>
        simp [FileEvent.run?, act?, hplan, hencrypt, hdraft, LocalStore.save,
          LocalStore.writeSteps, FileTree.run, FileTree.step]
    | ok drafted =>
      cases hrename : drafted.rename (s.draftPath w.target) (s.path w.target) with
      | error fault =>
        refine ⟨[.plan w, .draft, .exchange], .error .io, List.prefix_rfl, ?_, ?_⟩ <;>
          simp [FileEvent.run?, act?, hplan, hencrypt, hdraft, hrename, LocalStore.save,
            LocalStore.writeSteps, FileTree.run, FileTree.step]
      | ok exchanged =>
        refine ⟨[.plan w, .draft, .exchange], .ok file, List.prefix_rfl, ?_, ?_⟩ <;>
          simp [FileEvent.run?, act?, hplan, hencrypt, hdraft, hrename, LocalStore.save,
            LocalStore.writeSteps, FileTree.run, FileTree.step]

end BusyDisk
end Keyring
