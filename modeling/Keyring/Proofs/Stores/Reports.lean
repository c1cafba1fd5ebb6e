import Keyring.Proofs.LocalStore.Attendance
import Keyring.Proofs.MemoryStore.Streams

/-!
# What watches of both stores tell

A watch of a store in memory and one of a store in files, opened at the same point of the same
calls, tell of the same writes with the same objects and versions. A store in memory knows of each
write what it did. A poller has to guess whether the object is there before its first event, and
takes it to be there if it was ever written. So it tells of one creation as of a change: the first
one after the opening, where the object was deleted.
-/
namespace Keyring

open Occurrence

/-! ## Events and kinds -/

namespace Poller

variable {last : Option Change} {c : Change} {live : Bool}

/-- Whether the object is there after its last write. -/
def isThere (last : Option Change) : Bool :=
  (ObjectFile.current? (last.map ObjectFile.ofChange)).isSome

theorem liveAfter_ofChange (live : Bool) (c : Change) :
    liveAfter live (.ofChange c) = isThere (some c) := by
  rw [isThere, Option.map_some, ObjectFile.current?, Option.bind_some, ObjectFile.live?, liveAfter,
    ObjectFile.ofChange, Option.isSome_some, if_pos rfl]
  cases decide (c.kind = .deleted) <;> rfl

/-- Who knows whether the object was there knows the kind of a write. -/
theorem eventOf_ofChange (h : c.kind = .added ↔ live = false) :
    eventOf live (.ofChange c) = c.event := by
  rw [eventOf, ObjectFile.ofChange, Change.event]
  cases hkind : c.kind with
  | added =>
    obtain rfl := h.1 hkind
    rfl
  | modified =>
    cases live with
    | true => rfl
    | false => cases hkind.symm.trans (h.2 rfl)
  | deleted => rfl

theorem kind_added_iff {call : StoreCall} (h : call.next? last = some c) :
    c.kind = .added ↔ isThere last = false := by
  rw [StoreCall.kind_next? h, isThere, Option.isSome_eq_false_iff, Option.isNone_iff_eq_none]

/-- Who knows at first whether the object is there tells of every write what it did. -/
theorem eventsOf_course (last : Option Change) (calls : List StoreCall) :
    eventsOf (isThere last) (StoreCall.course last calls) =
      (StoreCall.course last calls).map Change.event := by
  induction calls generalizing last with
  | nil => rfl
  | cons call rest ih =>
    cases hnext : call.next? last with
    | none =>
      rw [StoreCall.course_cons_of_none hnext]
      exact ih last
    | some c =>
      rw [StoreCall.course_cons_of_some hnext, eventsOf, List.map_cons,
        eventOf_ofChange (kind_added_iff hnext), liveAfter_ofChange, ih (some c)]

/-- Who takes a missing object for one that is there tells of its creation as of a change, and of
all other writes what they did. -/
theorem eventsOf_course_of_missing (h : isThere last = false) (calls : List StoreCall) :
    StoreCall.course last calls = [] ∨
      ∃ object more, (StoreCall.course last calls).map Change.event = .added object :: more ∧
        eventsOf true (StoreCall.course last calls) = .modified object :: more := by
  induction calls with
  | nil => exact Or.inl rfl
  | cons call rest ih =>
    cases hnext : call.next? last with
    | none =>
      rw [StoreCall.course_cons_of_none hnext]
      exact ih
    | some c =>
      right
      have hkind : c.kind = .added := (kind_added_iff hnext).2 h
      rw [StoreCall.course_cons_of_some hnext]
      refine ⟨c.object, (StoreCall.course (some c) rest).map Change.event, ?_, ?_⟩
      · rw [List.map_cons, Change.event, hkind]
      · rw [eventsOf, liveAfter_ofChange, eventsOf_course, eventOf, ObjectFile.ofChange, hkind]
        rfl

/-- Whoever takes an object that was written for one that is there tells what was done, except for a
creation where the object was deleted. -/
theorem eventsOf_guess {number : ℕ} (hthere : isThere last = true → 0 < number)
    (calls : List StoreCall) {due told : List WatchEvent}
    (hdue : due = (StoreCall.course last calls).map Change.event)
    (htold : told = eventsOf (decide (0 < number)) (StoreCall.course last calls)) :
    (told = due ↔ (0 < number → isThere last = false → due = [])) ∧
      (told ≠ due →
        ∃ object more, due = .added object :: more ∧ told = .modified object :: more) := by
  -- The guess is wrong only for an object that was written and is missing.
  by_cases hright : decide (0 < number) = isThere last
  · have hsame : told = due := by rw [htold, hdue, hright, eventsOf_course]
    refine ⟨iff_of_true hsame fun hpos hmissing => ?_, fun hne => absurd hsame hne⟩
    rw [hmissing, decide_eq_false_iff_not] at hright
    exact absurd hpos hright
  · have hpos : 0 < number := by
      by_contra hzero
      apply hright
      rw [decide_eq_false hzero]
      exact (Bool.not_eq_true _ ▸ fun hyes => hzero (hthere hyes) : isThere last = false).symm
    have hmissing : isThere last = false := by
      rw [← Bool.not_eq_true]
      exact fun hyes => hright (by rw [hyes, decide_eq_true hpos])
    rw [decide_eq_true hpos] at htold
    rcases eventsOf_course_of_missing hmissing calls with hnone | ⟨object, more, hadded, hmodified⟩
    · rw [hnone] at hdue htold
      have hsame : told = due := by rw [htold, hdue]; rfl
      exact ⟨iff_of_true hsame fun _ _ => hdue, fun hne => absurd hsame hne⟩
    · rw [← hdue] at hadded
      rw [← htold] at hmodified
      have hne : told ≠ due := by
        rw [hadded, hmodified]
        exact fun heq => by cases (List.cons.inj heq).1
      refine ⟨iff_of_false hne fun hall => ?_, fun _ => ⟨object, more, hadded, hmodified⟩⟩
      rw [hall hpos hmissing] at hadded
      cases hadded

end Poller

theorem parseVersion_ofNat {n : ℕ} (h : n < ObjectFile.versionLimit) :
    parseVersion (Decimal.ofNat n) = .ok n := by
  rw [parseVersion, if_neg (Decimal.ofNat_ne_empty n), Decimal.nat64?_ofNat,
    if_pos (show n < 18446744073709551616 from h)]

/-! ## Watches of a store in memory -/

namespace MemoryStore

variable {m t : MemoryStore} {name : ObjectName} {past log : List Occurrence}

theorem Recorded.versions (h : m.Recorded past) :
    (writes past).map Change.version = List.range' 1 m.version := by
  have hnumbered := h.consistent.numbered
  rwa [h.history, List.map_reverse, List.reverse_inj] at hnumbered

/-- The writes after the last one are those that come. -/
theorem Single.changesSince (h : m.Single name past) (h' : t.Single name (past ++ log)) :
    t.changesSince name m.version = writes log := by
  have hpast := h.recorded.versions
  have hall := h'.recorded.versions
  have hlength : (writes past).length = m.version := by
    simpa using congrArg List.length hpast
  rw [writes_append, List.map_append] at hall
  have hversions : (writes log).map Change.version =
      List.range' (1 + m.version) (t.version - m.version) := by
    have hdrop := congrArg (List.drop m.version) hall
    rwa [List.drop_left' (by rw [List.length_map, hlength]), List.drop_range', Nat.mul_one] at hdrop
  have htarget : writesTo name (past ++ log) = writes past ++ writes log := by
    rw [writesTo, List.filter_eq_self.2 fun c hc => beq_iff_eq.2 (h'.target c hc), writes_append]
  have hold : (writes past).filter (fun c => m.version < c.version) = [] := by
    rw [List.filter_eq_nil_iff]
    intro c hc
    have hmem : c.version ∈ (writes past).map Change.version := List.mem_map_of_mem hc
    rw [hpast, List.mem_range'_1] at hmem
    rw [decide_eq_true_eq]
    omega
  have hnew : (writes log).filter (fun c => m.version < c.version) = writes log := by
    rw [List.filter_eq_self]
    intro c hc
    have hmem : c.version ∈ (writes log).map Change.version := List.mem_map_of_mem hc
    rw [hversions, List.mem_range'_1] at hmem
    rw [decide_eq_true_eq]
    omega
  rw [h'.recorded.changesSince, htarget, List.filter_append, hold, hnew, List.nil_append]

/-- A watch that is opened at the last write delivers the writes of the run. -/
theorem Single.delivers (h : m.Single name past) {token : String}
    (htoken : parseVersion token = .ok m.version) {later : List StoreAct}
    (hrun : Occurrence.run? MemoryStore.act? (m.watch name token).1 later = some (t, log))
    (hsingle : t.Single name (past ++ log)) {feed : ℕ}
    (hfeed : (m.watch name token).2 = .ok feed) :
    t.Delivers feed ((writes log).map Change.event) later log := by
  rw [← h.changesSince hsingle]
  exact (Watched.run? h.recorded.consistent htoken (Nat.le_refl _) hfeed hrun).2.delivers

end MemoryStore

/-! ## Both stores -/

/-- The same calls on one object have been made to a store in memory and to a store in files, each
with watches of its own. -/
structure SameCalls (s : LocalStore) (place : FilePath) (name : ObjectName) (m : MemoryStore)
    (d : WatchedDisk) (past past' : List Occurrence) : Prop where
  memory : m.Single name past
  file : s.Holds place name d.disk.files (writes past').getLast?
  writes : writes past' = writes past

namespace SameCalls

variable {s : LocalStore} {place : FilePath} {name : ObjectName} {m t : MemoryStore}
  {d d' : WatchedDisk} {past past' log log' : List Occurrence}

theorem start {disk : Disk} (hadmits : s.Admits name) (hready : s.Ready disk.files place name)
    (hnone : disk.files.at? (place ++ [LocalStore.fileName name]) = none) :
    SameCalls s place name .empty ⟨disk, fun _ => none⟩ [] [] :=
  ⟨⟨.empty, fun _ hc => absurd hc List.not_mem_nil⟩, .start hadmits hready hnone, rfl⟩

/-- The number of the last write is the version of the store. -/
theorem lastNumber (h : SameCalls s place name m d past past') :
    lastNumber past = m.version ∧ Occurrence.lastNumber past' = m.version := by
  have hversion : Occurrence.lastNumber past = m.version := by
    rw [← lastVersion_getLast?]
    exact (h.memory.recorded.agrees h.memory.target).version
  refine ⟨hversion, ?_⟩
  rw [Occurrence.lastNumber, h.writes]
  exact hversion

/-- Both stores list the object alike. -/
theorem list (h : SameCalls s place name m d past past') :
    s.list d.disk name = .ok ⟨(m.object? name).toList, Decimal.ofNat m.version⟩ := by
  have hagrees := h.memory.recorded.agrees h.memory.target
  rw [← h.writes] at hagrees
  rw [LocalStore.list, h.file.load, Except.map, ObjectFile.list, hagrees.object, hagrees.version]

/-- After the last write the object is there if the store has it, and then it was written. -/
theorem isThere (h : SameCalls s place name m d past past') :
    Poller.isThere (Occurrence.writes past).getLast? = (m.object? name).isSome ∧
      (Poller.isThere (Occurrence.writes past).getLast? = true → 0 < m.version) := by
  have hagrees := h.memory.recorded.agrees h.memory.target
  refine ⟨by rw [Poller.isThere, hagrees.object], fun hyes => ?_⟩
  cases hlast : (Occurrence.writes past).getLast? with
  | none =>
    rw [hlast] at hyes
    cases hyes
  | some c =>
    have hversion : c.version = m.version := by
      have := hagrees.version
      rwa [hlast] at this
    have hc : c ∈ m.history := by
      rw [h.memory.recorded.history, List.mem_reverse]
      exact List.mem_of_getLast? hlast
    have := (h.memory.recorded.consistent.version_mem hc).1
    omega

/-- More of the same calls. -/
theorem run? (h : SameCalls s place name m d past past') (hadmits : s.Admits name)
    {acts : List StoreAct} {acts' : List LocalAct}
    (hrun : Occurrence.run? MemoryStore.act? m acts = some (t, log))
    (hrun' : Occurrence.run? s.act? d acts' = some (d', log'))
    (hcalls : acts'.filterMap LocalAct.call? = acts.filterMap StoreAct.call?)
    (htarget : ∀ call ∈ acts.filterMap StoreAct.call?, call.target = name)
    (hlimit : m.version + StoreCall.writes (acts.filterMap StoreAct.call?) <
      ObjectFile.versionLimit) :
    SameCalls s place name t d' (past ++ log) (past' ++ log') ∧
      Occurrence.writes log =
        StoreCall.course (Occurrence.writes past).getLast? (acts.filterMap StoreAct.call?) ∧
      Occurrence.writes log' = Occurrence.writes log := by
  obtain ⟨hnumber, hnumber'⟩ := h.lastNumber
  obtain ⟨hmemory, hwrites⟩ := h.memory.run? hrun htarget (by rwa [hnumber])
  obtain ⟨hfile, hwrites'⟩ :=
    h.file.run? hadmits hrun' (by rwa [hcalls]) (by rwa [hnumber', hcalls])
  have hsame : Occurrence.writes log' = Occurrence.writes log := by
    rw [hwrites, hwrites', hcalls, h.writes]
  exact ⟨⟨hmemory, hfile, by rw [writes_append, writes_append, h.writes, hsame]⟩, hwrites, hsame⟩

/-- A watch can be opened at the last write. -/
theorem watch (h : SameCalls s place name m d past past')
    (hlimit : m.version < ObjectFile.versionLimit) :
    (m.watch name (Decimal.ofNat m.version)).2 = .ok m.nextFeed ∧
      (m.watch name (Decimal.ofNat m.version)).1.version = m.version ∧
      SameCalls s place name (m.watch name (Decimal.ofNat m.version)).1 d past past' := by
  have hs := h.memory.recorded.consistent
  have hremembers : m.remembers m.version = true := by
    rw [MemoryStore.remembers_iff hs (Nat.le_refl _)]
    intro c hc hlater
    have := (hs.version_mem hc).2
    omega
  have hwatch : m.watch name (Decimal.ofNat m.version) = _ :=
    MemoryStore.watch_of_remembers (parseVersion_ofNat hlimit) hremembers
  have hquiet := (MemoryStore.watch_spec hs name (Decimal.ofNat m.version)).2.1
  refine ⟨by rw [hwatch], hquiet.version, ⟨⟨hquiet.consistent hs, ?_⟩, h.memory.target⟩, h.file,
    h.writes⟩
  rw [hquiet.history]
  exact h.memory.recorded.history

/-- What a watch in memory and a watch in files tell that were opened at the last write. -/
theorem tell (h : SameCalls s place name m d past past') (hadmits : s.Admits name)
    (hnumber : m.version < ObjectFile.versionLimit) {later : List StoreAct}
    {later' : List LocalAct} {watch now : ℕ}
    (hrun : Occurrence.run? MemoryStore.act? (m.watch name (Decimal.ofNat m.version)).1 later =
      some (t, log))
    (hrun' : Occurrence.run? s.act? d
      (.watch watch name (Decimal.ofNat m.version) now :: later') = some (d', log'))
    (hcalls : later'.filterMap LocalAct.call? = later.filterMap StoreAct.call?)
    (htarget : ∀ call ∈ later.filterMap StoreAct.call?, call.target = name)
    (hlimit : m.version + StoreCall.writes (later.filterMap StoreAct.call?) <
      ObjectFile.versionLimit)
    (hstays : .drop watch ∉ later')
    (hlooks : s.LooksAfterWrites watch false d
      (.watch watch name (Decimal.ofNat m.version) now :: later')) :
    Occurrence.writes log' = Occurrence.writes log ∧
      Occurrence.writes log =
        StoreCall.course (Occurrence.writes past).getLast? (later.filterMap StoreAct.call?) ∧
      t.Delivers m.nextFeed ((Occurrence.writes log).map Change.event) later log ∧
      ∃ p, d'.poller watch = some p ∧ p.ended = decide (s.pollMillis = 0) ∧
        events watch log' ++ p.onTheWay =
          Poller.eventsOf (decide (0 < m.version)) (Occurrence.writes log) := by
  obtain ⟨hopens, hversion, hopened⟩ := h.watch hnumber
  obtain ⟨-, hlast⟩ := h.lastNumber
  have hcalls' : (LocalAct.watch watch name (Decimal.ofNat m.version) now :: later').filterMap
      LocalAct.call? = later.filterMap StoreAct.call? := hcalls
  obtain ⟨hsame, hcourse, hwrites⟩ :=
    hopened.run? hadmits hrun hrun' hcalls' htarget (by rwa [hversion])
  -- The first act of the run in files opens the watch; the rest is what it attends to.
  refine ⟨hwrites, hcourse,
    h.memory.delivers (parseVersion_ofNat hnumber) hrun hsame.memory hopens, ?_⟩
  obtain ⟨next, first, rest, hact, hrest, rfl⟩ := runLogged?_cons_eq_some_iff.1 hrun'
  obtain ⟨next', first', hact', -, hlooks⟩ := hlooks
  obtain ⟨rfl, rfl⟩ := Prod.mk.inj (Option.some.inj (hact.symm.trans hact'))
  obtain ⟨rfl, rfl⟩ : next = d.setPoller watch (.start s name m.version now) ∧ first = [] := by
    simp only [LocalStore.act?, parseVersion_ofNat hnumber] at hact
    split at hact
    next => cases hact
    next hfailed => cases hfailed
    next version hparsed =>
      obtain rfl := Except.ok.inj hparsed
      obtain ⟨rfl, rfl⟩ := Prod.mk.inj (Option.some.inj hact)
      exact ⟨rfl, rfl⟩
  have hstart := LocalStore.Attends.start h.file watch now
  rw [hlast] at hstart
  have hend := hstart.run? hadmits hrest (by rwa [hcalls])
    (by rwa [List.append_nil, hlast, hcalls]) hstays hlooks
  obtain ⟨p, hp, hended, htold⟩ := hend.told
  refine ⟨p, hp, hended, ?_⟩
  rw [List.nil_append] at hwrites htold
  rw [← hwrites, ← hlast]
  exact htold

end SameCalls

open LocalStore in
/-- The same calls on one object are made to a new store in memory and to a new store in files. At
any point both stores list the object alike, and a watch of each is opened with the version of the
list. If the watch of the files then looks at its file after every write, both tell of the same
writes: as created where the object was not there, as changed where it was, or as deleted. There is
one exception: if the object was deleted when the watches were opened, its next creation is told as
a change by the watch of the files. -/
theorem watches_tell_alike {disk disk' : Disk} {directory : String} {source : MasterKeySource}
    {pollMillis : ℕ} {s : LocalStore} {name : ObjectName}
    (hopen : openDirectory disk directory source pollMillis = (disk', .ok s))
    (hfresh : s.IsFresh disk'.files name) (hadmits : s.Admits name)
    {before : List StoreAct} {before' : List LocalAct} {m : MemoryStore} {d : WatchedDisk}
    {past past' : List Occurrence}
    (hbefore : run? MemoryStore.act? .empty before = some (m, past))
    (hbefore' : run? s.act? ⟨disk', fun _ => none⟩ before' = some (d, past'))
    (hcalls : before'.filterMap LocalAct.call? = before.filterMap StoreAct.call?)
    (htarget : ∀ call ∈ before.filterMap StoreAct.call?, call.target = name)
    (hlimit : StoreCall.writes (before.filterMap StoreAct.call?) < ObjectFile.versionLimit) :
    ∃ list feed, s.list d.disk name = .ok list ∧
      (m.failingLists = 0 → (m.list name).2 = .ok list) ∧
      (m.watch name list.resourceVersion).2 = .ok feed ∧
      ∀ {later later' watch now t d' log log'},
        run? MemoryStore.act? (m.watch name list.resourceVersion).1 later = some (t, log) →
        run? s.act? d (.watch watch name list.resourceVersion now :: later') = some (d', log') →
        later'.filterMap LocalAct.call? = later.filterMap StoreAct.call? →
        (∀ call ∈ later.filterMap StoreAct.call?, call.target = name) →
        m.version + StoreCall.writes (later.filterMap StoreAct.call?) < ObjectFile.versionLimit →
        .drop watch ∉ later' →
        s.LooksAfterWrites watch false d
          (.watch watch name list.resourceVersion now :: later') →
        writes log' = writes log ∧
          ∃ p, d'.poller watch = some p ∧ p.ended = decide (s.pollMillis = 0) ∧
            let due := (writes log).map Change.event
            let told := events watch log' ++ p.onTheWay
            t.Delivers feed due later log ∧
              due = Poller.eventsOf (m.object? name).isSome (writes log) ∧
              (told = due ↔ (0 < m.version → m.object? name = none → due = [])) ∧
              (told ≠ due → ∃ object more,
                due = .added object :: more ∧ told = .modified object :: more) := by
  obtain ⟨place, hplace⟩ := exists_ready (isDirectory_of_openDirectory hopen)
  obtain ⟨hready, hnone⟩ := hplace name hfresh
  have hzero : MemoryStore.empty.version = 0 := rfl
  obtain ⟨h, hcourse, -⟩ := (SameCalls.start hadmits hready hnone).run? hadmits hbefore hbefore'
    hcalls htarget (by rwa [hzero, Nat.zero_add])
  have hnumber : m.version < ObjectFile.versionLimit := by
    have hle := lastNumber_append_le hcourse
    rw [h.lastNumber.1] at hle
    exact Nat.lt_of_le_of_lt hle (by rwa [lastNumber_nil, Nat.zero_add])
  rw [List.nil_append, List.nil_append] at h
  obtain ⟨hthere, hwritten⟩ := h.isThere
  refine ⟨_, m.nextFeed, h.list, fun hsound => ?_, (h.watch hnumber).1, ?_⟩
  · rw [MemoryStore.list, if_pos hsound]
  intro later later' watch now t d' log log' hrun hrun' hsame htarget' hlimit' hstays hlooks
  obtain ⟨hwrites, hcourse, hdelivers, p, hp, hended, htold⟩ :=
    h.tell hadmits hnumber hrun hrun' hsame htarget' hlimit' hstays hlooks
  obtain ⟨hiff, hdiffers⟩ := Poller.eventsOf_guess hwritten (later.filterMap StoreAct.call?)
    (congrArg (List.map Change.event) hcourse) (hcourse ▸ htold)
  refine ⟨hwrites, p, hp, hended, hdelivers, ?_, ?_, hdiffers⟩
  · rw [hcourse, ← hthere, Poller.eventsOf_course]
  · rw [hthere] at hiff
    simpa using hiff

/-- An object is created and deleted. -/
def deletion : List StoreCall :=
  [.write (.create (.fresh ⟨"ns", "keys"⟩)), .write (.delete ⟨"ns", "keys"⟩)]

/-- Then it is watched and created again, and the watches are read. -/
theorem exists_recreation :
    ∃ m past d past' t log d' log',
      run? MemoryStore.act? .empty (deletion.map .call) = some (m, past) ∧ m.version = 2 ∧
      m.object? ⟨"ns", "keys"⟩ = none ∧ m.failingLists = 0 ∧
      (m.list ⟨"ns", "keys"⟩).2 = .ok ⟨[], "2"⟩ ∧
      run? LocalStore.firstStore.act? ⟨LocalStore.firstDisk, fun _ => none⟩
        (deletion.map .call) = some (d, past') ∧
      run? MemoryStore.act? (m.watch ⟨"ns", "keys"⟩ "2").1
        [.call (.write (.create (.fresh ⟨"ns", "keys"⟩))), .take 0] = some (t, log) ∧
      (writes log).map Change.event = [.added ⟨"ns", "keys", "3", .empty⟩] ∧
      events 0 log = [.added ⟨"ns", "keys", "3", .empty⟩] ∧
      run? LocalStore.firstStore.act? d [.watch 0 ⟨"ns", "keys"⟩ "2" 0,
        .call (.write (.create (.fresh ⟨"ns", "keys"⟩))), .take 0 0] = some (d', log') ∧
      LocalStore.firstStore.LooksAfterWrites 0 false d [.watch 0 ⟨"ns", "keys"⟩ "2" 0,
        .call (.write (.create (.fresh ⟨"ns", "keys"⟩))), .take 0 0] := by
  refine ⟨_, _, _, _, _, _, _, _, rfl, rfl, rfl, rfl, rfl, rfl, rfl, ?_, ?_, rfl, ?_⟩
  · rfl
  · rfl
  · refine ⟨_, _, rfl, nofun, _, _, rfl, nofun, _, _, rfl, fun _ => writes_ofTaken _ _ _, ?_⟩
    exact Bool.and_eq_false_iff.2 (Or.inr rfl)

open LocalStore in
/-- The watch in memory tells of a creation, and that of the files of a change. -/
theorem watches_tell_alike_recreation :
    ∃ m past d past' t log d' log' p object more,
      run? MemoryStore.act? .empty (deletion.map .call) = some (m, past) ∧
      run? firstStore.act? ⟨firstDisk, fun _ => none⟩ (deletion.map .call) = some (d, past') ∧
      firstStore.list d.disk ⟨"ns", "keys"⟩ = .ok ⟨[], "2"⟩ ∧
      (m.list ⟨"ns", "keys"⟩).2 = .ok ⟨[], "2"⟩ ∧
      run? MemoryStore.act? (m.watch ⟨"ns", "keys"⟩ "2").1
        [.call (.write (.create (.fresh ⟨"ns", "keys"⟩))), .take 0] = some (t, log) ∧
      run? firstStore.act? d [.watch 0 ⟨"ns", "keys"⟩ "2" 0,
        .call (.write (.create (.fresh ⟨"ns", "keys"⟩))), .take 0 0] = some (d', log') ∧
      writes log' = writes log ∧ d'.poller 0 = some p ∧
      (writes log).map Change.event = .added object :: more ∧
      events 0 log' ++ p.onTheWay = .modified object :: more := by
  obtain ⟨m, past, d, past', t, log, d', log', hbefore, hversion, hmissing, hsound, hempty,
    hbefore', hrun, hdue, -, hrun', hlooks⟩ := exists_recreation
  have hadmits : firstStore.Admits ⟨"ns", "keys"⟩ := by decide +kernel
  have htarget : ∀ call ∈ (deletion.map .call).filterMap StoreAct.call?,
      call.target = ⟨"ns", "keys"⟩ := by decide
  obtain ⟨list, feed, hlist, hsame, -, htell⟩ := watches_tell_alike openDirectory_first
    (isFresh_first _) hadmits hbefore hbefore' rfl htarget (by decide)
  obtain rfl : list = ⟨[], "2"⟩ := Except.ok.inj ((hsame hsound).symm.trans hempty)
  obtain ⟨hwrites, p, hp, -, -, -, hiff, hdiffers⟩ :=
    htell hrun hrun' rfl (by decide) (by rw [hversion]; decide) (by decide) hlooks
  have hne : events 0 log' ++ p.onTheWay ≠ (writes log).map Change.event := by
    intro heq
    have hnothing := hiff.1 heq (by rw [hversion]; decide) hmissing
    rw [hdue] at hnothing
    cases hnothing
  obtain ⟨object, more, hadded, hmodified⟩ := hdiffers hne
  exact ⟨m, past, d, past', t, log, d', log', p, object, more, hbefore, hbefore', hlist, hempty,
    hrun, hrun', hwrites, hp, hadded, hmodified⟩

open LocalStore in
/-- So what the watches tell is not always the same. -/
theorem watches_tell_apart :
    ¬ ∀ (before later : List StoreCall) (looking : List LocalAct)
        {m d past past' list t d' log log' p},
      (∀ call ∈ before ++ later, call.target = ⟨"ns", "keys"⟩) →
      run? MemoryStore.act? .empty (before.map .call) = some (m, past) →
      run? firstStore.act? ⟨firstDisk, fun _ => none⟩ (before.map .call) = some (d, past') →
      (m.list ⟨"ns", "keys"⟩).2 = .ok list → firstStore.list d.disk ⟨"ns", "keys"⟩ = .ok list →
      run? MemoryStore.act? (m.watch ⟨"ns", "keys"⟩ list.resourceVersion).1
        (later.map .call ++ [.take 0]) = some (t, log) →
      run? firstStore.act? d (.watch 0 ⟨"ns", "keys"⟩ list.resourceVersion 0 :: looking) =
        some (d', log') →
      looking.filterMap LocalAct.call? = later → .drop 0 ∉ looking →
      firstStore.LooksAfterWrites 0 false d
        (.watch 0 ⟨"ns", "keys"⟩ list.resourceVersion 0 :: looking) →
      d'.poller 0 = some p →
      events 0 log' ++ p.onTheWay = events 0 log := by
  intro hall
  obtain ⟨m, past, d, past', t, log, d', log', hbefore, hversion, hmissing, -, hempty, hbefore',
    hrun, -, hevents, hrun', hlooks⟩ := exists_recreation
  have hadmits : firstStore.Admits ⟨"ns", "keys"⟩ := by decide +kernel
  obtain ⟨place, hplace⟩ := exists_ready (isDirectory_of_openDirectory openDirectory_first)
  obtain ⟨hready, hnone⟩ := hplace ⟨"ns", "keys"⟩ (isFresh_first _)
  obtain ⟨h, -⟩ := (SameCalls.start hadmits hready hnone).run? hadmits hbefore hbefore' rfl
    (by decide) (by decide)
  rw [List.nil_append, List.nil_append] at h
  have htoken : Decimal.ofNat m.version = "2" := by
    rw [hversion]
    rfl
  have hlist := h.list
  rw [hmissing, htoken] at hlist
  obtain ⟨-, hcourse, -, p, hp, -, htold⟩ := h.tell hadmits (by rw [hversion]; decide)
    (by rwa [htoken]) (by rwa [htoken]) rfl (by decide) (by rw [hversion]; decide) (by decide)
    (by rwa [htoken])
  have hsame := hall deletion [.write (.create (.fresh ⟨"ns", "keys"⟩))] _ (by decide) hbefore
    hbefore' hempty hlist hrun hrun' rfl (by decide) hlooks hp
  rw [hevents, htold, hversion, hcourse] at hsame
  have hgone : Poller.isThere (writes past).getLast? = false := by
    have hthere := h.isThere.1
    rwa [hmissing] at hthere
  rcases Poller.eventsOf_course_of_missing hgone _ with hnothing | ⟨_, _, -, hmodified⟩
  · rw [hnothing] at hsame
    cases hsame
  · cases hmodified.symm.trans hsame

end Keyring
