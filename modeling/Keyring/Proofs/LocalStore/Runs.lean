import Keyring.LocalStore.Poller
import Keyring.Proofs.LocalStore.Log
import Mathlib.Logic.Function.Basic

/-!
# Runs of a local store

A store in files is called, and pollers look at its files whenever their time has come. Whatever
the order, the files say what was written last, and a poller tells of nothing that was not written.
-/
namespace Keyring

open Occurrence

/-! ## Pollers -/

namespace Poller

/-- The events that a poller has for its watcher. -/
def onTheWay (p : Poller) : List WatchEvent := p.queue ++ p.held.toList

/-- Puts the event that is held into the queue, if there is room. -/
def handOn? (p : Poller) : Option Poller :=
  p.held.bind fun event =>
    if p.queue.length < queueLimit then
      some { p with queue := p.queue ++ [event], held := none }
    else none

/-- Takes the first event, or learns that there will be none any more; nothing where the watcher has
to wait. -/
def next? (p : Poller) : Option (Poller × Option WatchEvent) :=
  match p.queue with
  | event :: rest => some ({ p with queue := rest }, some event)
  | [] => if p.ended = true ∧ p.held = none then some (p, none) else none

variable {p p' : Poller}

/-- A poller that tells of these objects only, and looks at the file of an object of these names. -/
structure Tells (p : Poller) (s : LocalStore) (names : Set ObjectName)
    (known : StoredObject → Prop) : Prop where
  store : p.store = s
  name : p.name ∈ names
  events : ∀ event ∈ p.onTheWay, ∀ object, event.object? = some object → known object

namespace Tells

variable {s : LocalStore} {names : Set ObjectName} {known known' : StoredObject → Prop}

theorem mono (h : p.Tells s names known) (hle : ∀ object, known object → known' object) :
    p.Tells s names known' :=
  ⟨h.store, h.name,
    fun event hevent object hobject => hle object (h.events event hevent object hobject)⟩

theorem emit (h : p.Tells s names known) {event : WatchEvent}
    (hheld : p.held = none) (hevent : ∀ object, event.object? = some object → known object) :
    (p.emit event).Tells s names known := by
  have hevents : ∀ e ∈ p.queue ++ [event], ∀ object, e.object? = some object → known object := by
    intro e he
    rcases List.mem_append.1 he with hold | hnew
    · exact h.events e (List.mem_append_left _ hold)
    · exact List.mem_singleton.1 hnew ▸ hevent
  unfold Poller.emit
  split
  · refine ⟨h.store, h.name, ?_⟩
    simpa [onTheWay, hheld] using hevents
  · refine ⟨h.store, h.name, ?_⟩
    simpa [onTheWay] using hevents

/-- A look tells of the object in the file at most. -/
theorem look (h : p.Tells s names known) (hheld : p.held = none)
    {result : Except KeyError (Option ObjectFile)}
    (hfile : ∀ file, result = .ok (some file) →
      ∀ object, file.object = some object → known object) :
    (p.look result).Tells s names known := by
  unfold Poller.look
  split
  next failure =>
    have hended : ({ p with ended := true } : Poller).Tells s names known :=
      ⟨h.store, h.name, h.events⟩
    refine hended.emit hheld ?_
    rintro object ⟨⟩
  next => exact h
  next file =>
    split
    · exact h
    · have hseen :
          ({ p with last := file.version, wasLive := liveAfter p.wasLive file } : Poller).Tells
            s names known := ⟨h.store, h.name, h.events⟩
      refine hseen.emit hheld ?_
      intro object hobject
      unfold eventOf at hobject
      split at hobject
      next => cases hobject
      next stored hstored =>
        have hsame : stored = object := by
          split at hobject
          · exact Option.some.inj hobject
          · split at hobject
            · exact Option.some.inj hobject
            · exact Option.some.inj hobject
        exact hfile file rfl object (hsame ▸ hstored)

theorem tick (h : p.Tells s names known) {files : FileTree} {now : ℕ}
    (hfile : ∀ file, s.load files p.name = .ok (some file) →
      ∀ object, file.object = some object → known object) :
    (p.tick files now).Tells s names known := by
  unfold Poller.tick
  split
  next => exact h
  next hdue =>
    have hticking : p.held = none := by
      simp only [isTicking, Bool.or_eq_true, Bool.not_eq_true', not_or, Bool.not_eq_false,
        Bool.and_eq_true, Option.isNone_iff_eq_none] at hdue
      exact hdue.1.2
    have hnext :
        ({ p with nextLook := p.lookAfter now, seen := some files.revision } : Poller).Tells
          s names known := ⟨h.store, h.name, h.events⟩
    dsimp only
    split
    · exact hnext
    · refine hnext.look hticking ?_
      rw [h.store]
      exact hfile

theorem handOn? (h : p.Tells s names known) (hstep : p.handOn? = some p') :
    p'.Tells s names known := by
  obtain ⟨event, hheld, hroom⟩ := Option.bind_eq_some_iff.1 hstep
  split at hroom
  · obtain rfl := Option.some.inj hroom
    refine ⟨h.store, h.name, ?_⟩
    have hevents := h.events
    simpa [onTheWay, hheld] using hevents
  · cases hroom

theorem next? (h : p.Tells s names known) {event : Option WatchEvent}
    (hstep : p.next? = some (p', event)) :
    p'.Tells s names known ∧
      ∀ e, event = some e → ∀ object, e.object? = some object → known object := by
  have hevents := h.events
  unfold Poller.next? at hstep
  split at hstep
  next first rest hqueue =>
    obtain ⟨rfl, rfl⟩ := Prod.mk.inj (Option.some.inj hstep)
    rw [onTheWay, hqueue, List.cons_append, List.forall_mem_cons] at hevents
    refine ⟨⟨h.store, h.name, hevents.2⟩, ?_⟩
    rintro e ⟨⟩
    exact hevents.1
  next =>
    split at hstep
    · obtain ⟨rfl, rfl⟩ := Prod.mk.inj (Option.some.inj hstep)
      refine ⟨h, ?_⟩
      rintro e ⟨⟩
    · cases hstep

theorem take (h : p.Tells s names known) {files : FileTree} {now : ℕ}
    (hfile : ∀ file, s.load files p.name = .ok (some file) →
      ∀ object, file.object = some object → known object) :
    (p.take files now).1.Tells s names known ∧
      ∀ e ∈ (p.take files now).2.1, ∀ object, e.object? = some object → known object := by
  have hnone : ({ p with queue := [], held := none } : Poller).Tells s names known :=
    ⟨h.store, h.name, fun event hevent => absurd hevent List.not_mem_nil⟩
  have hrest :
      (({ p with queue := [], held := none } : Poller).tick files now).Tells s names known :=
    hnone.tick hfile
  unfold Poller.take
  dsimp only
  refine ⟨⟨hrest.store, hrest.name, ?_⟩, ?_⟩
  · exact fun event hevent => hrest.events event (List.mem_append_right _ hevent)
  · intro e he
    rcases List.mem_append.1 he with hheld | hnew
    · exact h.events e hheld
    · exact hrest.events e (List.mem_append_left _ hnew)

end Tells
end Poller

/-! ## Runs -/

/-- A disk, and the watches on its files. -/
structure WatchedDisk where
  disk : Disk
  poller : ℕ → Option Poller

def WatchedDisk.setPoller (d : WatchedDisk) (watch : ℕ) (p : Poller) : WatchedDisk :=
  { d with poller := Function.update d.poller watch (some p) }

/-- What can happen to a store in files and to those who watch it. -/
inductive LocalAct
  | call (call : StoreCall)
  | watch (watch : ℕ) (name : ObjectName) (token : String) (now : ℕ)
  /-- A poller does the looks that are due. -/
  | tick (watch now : ℕ)
  /-- A poller puts the event that it holds into its queue. -/
  | handOn (watch : ℕ)
  /-- A watcher takes the next event. -/
  | next (watch : ℕ)
  /-- A watcher takes all events that are there. -/
  | take (watch now : ℕ)
  /-- A watcher goes away. -/
  | drop (watch : ℕ)
  deriving DecidableEq, Repr

/-- The objects to which an act is addressed. -/
def LocalAct.targets : LocalAct → List ObjectName
  | call c => [c.target]
  | watch _ name _ _ => [name]
  | _ => []

namespace LocalStore

/-- What a store in files and its watchers do next; nothing where someone has to wait. -/
def act? (s : LocalStore) (d : WatchedDisk) : LocalAct → Option (WatchedDisk × List Occurrence)
  | .call call =>
    let after := s.reply d.disk call
    some ({ d with disk := after.1 }, ofCall call (s.changeOf? d.disk call) after.2)
  | .watch watch name token now =>
    match d.poller watch, parseVersion token with
    | some _, _ => none
    | none, .error _ => some (d, [])
    | none, .ok version => some (d.setPoller watch (.start s name version now), [])
  | .tick watch now =>
    (d.poller watch).map fun p => (d.setPoller watch (p.tick d.disk.files now), [])
  | .handOn watch =>
    (d.poller watch).bind fun p => p.handOn?.map fun next => (d.setPoller watch next, [])
  | .next watch =>
    (d.poller watch).bind fun p =>
      p.next?.map fun after => (d.setPoller watch after.1, [.told watch after.2])
  | .take watch now =>
    (d.poller watch).map fun p =>
      let taken := p.take d.disk.files now
      (d.setPoller watch taken.1, ofTaken watch taken.2.1 taken.2.2)
  | .drop watch => some ({ d with poller := Function.update d.poller watch none }, [])

/-- Nobody but a caller writes. -/
theorem writes_of_act? {s : LocalStore} {d d' : WatchedDisk} {act : LocalAct}
    {log : List Occurrence} (h : s.act? d act = some (d', log)) : (writes log).length ≤ 1 := by
  cases act with
  | call call =>
    obtain ⟨-, rfl⟩ := Prod.mk.inj (Option.some.inj h)
    rw [writes_ofCall, Option.length_toList]
    split <;> omega
  | watch =>
    simp only [act?] at h
    split at h
    next => cases h
    next =>
      obtain ⟨-, rfl⟩ := Prod.mk.inj (Option.some.inj h)
      exact Nat.zero_le 1
    next =>
      obtain ⟨-, rfl⟩ := Prod.mk.inj (Option.some.inj h)
      exact Nat.zero_le 1
  | tick =>
    obtain ⟨p, -, heq⟩ := Option.map_eq_some_iff.1 h
    obtain ⟨-, rfl⟩ := Prod.mk.inj heq
    exact Nat.zero_le 1
  | handOn =>
    obtain ⟨p, -, hmap⟩ := Option.bind_eq_some_iff.1 h
    obtain ⟨next, -, heq⟩ := Option.map_eq_some_iff.1 hmap
    obtain ⟨-, rfl⟩ := Prod.mk.inj heq
    exact Nat.zero_le 1
  | next =>
    obtain ⟨p, -, hmap⟩ := Option.bind_eq_some_iff.1 h
    obtain ⟨after, -, heq⟩ := Option.map_eq_some_iff.1 hmap
    obtain ⟨-, rfl⟩ := Prod.mk.inj heq
    exact Nat.zero_le 1
  | take =>
    obtain ⟨p, -, heq⟩ := Option.map_eq_some_iff.1 h
    obtain ⟨-, rfl⟩ := Prod.mk.inj heq
    rw [writes_ofTaken]
    exact Nat.zero_le 1
  | drop =>
    obtain ⟨-, rfl⟩ := Prod.mk.inj (Option.some.inj h)
    exact Nat.zero_le 1

/-- There are no more writes than acts. -/
theorem length_writes_le {s : LocalStore} {d d' : WatchedDisk} {acts : List LocalAct}
    {log : List Occurrence} (h : Occurrence.run? s.act? d acts = some (d', log)) :
    (writes log).length ≤ acts.length := by
  refine runLogged?_induction (P := fun _ acts log => (writes log).length ≤ acts.length) ?_ h
    (show (writes []).length ≤ ([] : List LocalAct).length from Nat.le_refl 0)
  intro state next acts act log first hle hact
  rw [writes_append, List.length_append, List.length_append, List.length_singleton]
  exact Nat.add_le_add hle (writes_of_act? hact)

/-- A store in files and its watchers know nothing but what was written. -/
structure Watched (s : LocalStore) (place : FilePath) (names : Set ObjectName) (d : WatchedDisk)
    (log : List Occurrence) : Prop where
  keeps : s.Keeps place names d.disk.files log
  tells : ∀ watch p, d.poller watch = some p →
    p.Tells s names fun object => ∃ c ∈ writes log, c.object = object
  own : ∀ name object, shown name object ∈ log → object.objectName = name

namespace Watched

variable {s : LocalStore} {place : FilePath} {names : Set ObjectName} {d d' : WatchedDisk}
  {log later : List Occurrence}

theorem start {disk : Disk}
    (h : ∀ name ∈ names, s.Ready disk.files place name ∧
      disk.files.at? (place ++ [fileName name]) = none) :
    s.Watched place names ⟨disk, fun _ => none⟩ [] := by
  refine ⟨.start h, ?_, ?_⟩
  · intro watch p hp
    cases hp
  · intro name object hshown
    cases hshown

theorem known_append {object : StoredObject} (h : ∃ c ∈ writes log, c.object = object) :
    ∃ c ∈ writes (log ++ later), c.object = object := by
  obtain ⟨c, hc, hco⟩ := h
  exact ⟨c, by rw [writes_append]; exact List.mem_append_left _ hc, hco⟩

/-- One watch goes on, and its watcher is told of what was written. -/
theorem setPoller (h : s.Watched place names d log) {watch : ℕ} {p : Poller}
    (hp : p.Tells s names fun object => ∃ c ∈ writes log, c.object = object)
    (hwrites : writes later = []) (hnone : ∀ name object, shown name object ∉ later)
    (hstored : ∀ object ∈ seen later, ∃ c ∈ writes log, c.object = object) :
    s.Watched place names (d.setPoller watch p) (log ++ later) := by
  refine ⟨h.keeps.quiet hwrites hstored, ?_, ?_⟩
  · intro other q hq
    by_cases hother : other = watch
    · subst hother
      have hsame : p = q := by simpa [WatchedDisk.setPoller] using hq
      exact hsame ▸ hp.mono fun object => known_append
    · have hold : d.poller other = some q := by simpa [WatchedDisk.setPoller, hother] using hq
      exact (h.tells other q hold).mono fun object => known_append
  · intro name object hshown
    rcases List.mem_append.1 hshown with hearlier | hnew
    · exact h.own name object hearlier
    · exact absurd hnew (hnone name object)

/-- What a poller finds in a file was written. -/
theorem known_of_load (h : s.Watched place names d log) {name : ObjectName} (hname : name ∈ names)
    {file : ObjectFile} (hload : s.load d.disk.files name = .ok (some file)) {object : StoredObject}
    (hobject : file.object = some object) : ∃ c ∈ writes log, c.object = object := by
  obtain ⟨c, hlast, rfl⟩ := h.keeps.last_of_load hname hload
  exact ⟨c, (mem_of_lastWrite? hlast).1, Option.some.inj hobject⟩

theorem act? {act : LocalAct} (h : s.Watched place names d log)
    (hinj : Set.InjOn fileName {name ∈ names | s.Admits name})
    (htargets : ∀ name ∈ act.targets, name ∈ names)
    (hlimit : (writes log).length + 1 < ObjectFile.versionLimit)
    (hact : s.act? d act = some (d', later)) : s.Watched place names d' (log ++ later) := by
  cases act with
  | call call =>
    obtain ⟨rfl, rfl⟩ := Prod.mk.inj (Option.some.inj hact)
    obtain ⟨hkeeps, hown⟩ := h.keeps.call hinj (htargets _ (List.mem_singleton.2 rfl)) hlimit
    refine ⟨hkeeps, fun watch p hp => (h.tells watch p hp).mono fun object => known_append, ?_⟩
    intro name object hshown
    rcases List.mem_append.1 hshown with hearlier | hnew
    · exact h.own name object hearlier
    · obtain ⟨rfl, hobject⟩ := shown_mem_ofCall hnew
      exact hown object hobject
  | watch watch name token now =>
    simp only [LocalStore.act?] at hact
    split at hact
    next => cases hact
    next =>
      obtain ⟨rfl, rfl⟩ := Prod.mk.inj (Option.some.inj hact)
      rwa [List.append_nil]
    next version _ _ =>
      obtain ⟨rfl, rfl⟩ := Prod.mk.inj (Option.some.inj hact)
      refine h.setPoller ⟨rfl, htargets name (List.mem_singleton.2 rfl), ?_⟩ rfl ?_ ?_
      · exact fun event hevent => absurd hevent List.not_mem_nil
      · exact fun _ _ => List.not_mem_nil
      · exact fun object hobject => absurd hobject List.not_mem_nil
  | tick watch now =>
    obtain ⟨p, hp, heq⟩ := Option.map_eq_some_iff.1 hact
    obtain ⟨rfl, rfl⟩ := Prod.mk.inj heq
    have htells := h.tells watch p hp
    refine h.setPoller (htells.tick fun file hload object => ?_) rfl ?_ ?_
    · exact h.known_of_load htells.name hload
    · exact fun _ _ => List.not_mem_nil
    · exact fun object hobject => absurd hobject List.not_mem_nil
  | handOn watch =>
    obtain ⟨p, hp, hmap⟩ := Option.bind_eq_some_iff.1 hact
    obtain ⟨next, hnext, heq⟩ := Option.map_eq_some_iff.1 hmap
    obtain ⟨rfl, rfl⟩ := Prod.mk.inj heq
    refine h.setPoller ((h.tells watch p hp).handOn? hnext) rfl ?_ ?_
    · exact fun _ _ => List.not_mem_nil
    · exact fun object hobject => absurd hobject List.not_mem_nil
  | next watch =>
    obtain ⟨p, hp, hmap⟩ := Option.bind_eq_some_iff.1 hact
    obtain ⟨⟨next, event⟩, hnext, heq⟩ := Option.map_eq_some_iff.1 hmap
    obtain ⟨rfl, rfl⟩ := Prod.mk.inj heq
    obtain ⟨htells, hevent⟩ := (h.tells watch p hp).next? hnext
    refine h.setPoller htells rfl (by simp) ?_
    intro object hobject
    cases event with
    | none => cases hobject
    | some e =>
      refine hevent e rfl object ?_
      simpa [seen, object?] using hobject
  | take watch now =>
    obtain ⟨p, hp, heq⟩ := Option.map_eq_some_iff.1 hact
    obtain ⟨rfl, rfl⟩ := Prod.mk.inj heq
    have htells := h.tells watch p hp
    obtain ⟨hrest, htaken⟩ := htells.take fun file hload object =>
      h.known_of_load htells.name hload
    refine h.setPoller hrest (writes_ofTaken _ _ _) (fun _ _ => shown_not_mem_ofTaken _ _ _) ?_
    intro object hobject
    rw [seen_ofTaken] at hobject
    obtain ⟨event, hevent, hsame⟩ := List.mem_filterMap.1 hobject
    exact htaken event hevent object hsame
  | drop watch =>
    obtain ⟨rfl, rfl⟩ := Prod.mk.inj (Option.some.inj hact)
    rw [List.append_nil]
    refine ⟨h.keeps, fun other p hp => h.tells other p ?_, h.own⟩
    by_cases hother : other = watch
    · subst hother
      simp at hp
    · simpa [hother] using hp

end Watched
end LocalStore
end Keyring
