import Keyring.Proofs.LocalStore.Polling
import Keyring.Proofs.Stores.Courses

/-!
# Pollers that look after every write

A poller that looks at its file between one write and the next tells of every write. Whether it
tells of a creation or of a change depends on what it knows of the object: before its first event it
takes an object for one that is there if it was ever written.
-/
namespace Keyring

open Occurrence

/-! ## Events of writes -/

namespace Poller

def isLiveAfter (wasLive : Bool) (changes : List Change) : Bool :=
  changes.foldl (fun live c => liveAfter live (.ofChange c)) wasLive

/-- The events that tell of one write after the other, by whether the object was there before. -/
def eventsOf (wasLive : Bool) : List Change → List WatchEvent
  | [] => []
  | c :: rest => eventOf wasLive (.ofChange c) :: eventsOf (liveAfter wasLive (.ofChange c)) rest

theorem eventsOf_concat (wasLive : Bool) (changes : List Change) (c : Change) :
    eventsOf wasLive (changes ++ [c]) =
      eventsOf wasLive changes ++ [eventOf (isLiveAfter wasLive changes) (.ofChange c)] := by
  induction changes generalizing wasLive with
  | nil => rfl
  | cons d rest ih => exact congrArg (List.cons _) (ih _)

theorem isLiveAfter_concat (wasLive : Bool) (changes : List Change) (c : Change) :
    isLiveAfter wasLive (changes ++ [c]) =
      liveAfter (isLiveAfter wasLive changes) (.ofChange c) := by
  rw [isLiveAfter, List.foldl_append]
  rfl

/-! ## What a poller has told -/

/-- The number of the last write to an object, where that was the last one before the watch. -/
def numberAfter (before : Option Change) (changes : List Change) : ℕ :=
  ObjectFile.lastVersion ((changes.getLast?.or before).map ObjectFile.ofChange)

theorem numberAfter_concat (before : Option Change) (changes : List Change) (c : Change) :
    numberAfter before (changes ++ [c]) = c.version := by
  rw [numberAfter, List.getLast?_concat]
  rfl

variable {p p' : Poller} {s : LocalStore} {name : ObjectName} {before : Option Change}
  {told written : List Change} {taken : List WatchEvent} {t t' : FileTree} {owed : Bool}

/-- The poller after its watcher has taken all events. -/
def emptied (p : Poller) : Poller := { p with queue := [], held := none }

/-- A poller that has told of these writes, where that was the last one before the watch. -/
structure Tracks (p : Poller) (s : LocalStore) (name : ObjectName) (before : Option Change)
    (told : List Change) (taken : List WatchEvent) : Prop where
  store : p.store = s
  name : p.name = name
  ended : p.ended = decide (s.pollMillis = 0)
  last : p.last = numberAfter before told
  wasLive : p.wasLive = isLiveAfter (decide (0 < numberAfter before [])) told
  sent : taken ++ p.onTheWay = eventsOf (decide (0 < numberAfter before [])) told

@[simp] theorem wasLive_emit (p : Poller) (event : WatchEvent) :
    (p.emit event).wasLive = p.wasLive := by
  unfold emit
  split <;> rfl

namespace Tracks

theorem start (s : LocalStore) (name : ObjectName) (before : Option Change) (now : ℕ) :
    (Poller.start s name (numberAfter before []) now).Tracks s name before [] [] :=
  ⟨rfl, rfl, rfl, rfl, rfl, rfl⟩

/-- Times, and what becomes of the events, do not matter. -/
theorem congr {taken' : List WatchEvent} (h : p.Tracks s name before told taken)
    (halike : p.Alike p') (hlive : p'.wasLive = p.wasLive)
    (hsent : taken' ++ p'.onTheWay = taken ++ p.onTheWay) :
    p'.Tracks s name before told taken' :=
  ⟨halike.store.trans h.store, halike.name.trans h.name, halike.ended.trans h.ended,
    halike.last.trans h.last, hlive.trans h.wasLive, hsent.trans h.sent⟩

/-- A look at the last write that was told finds nothing new. -/
theorem look_last (h : p.Tracks s name before told taken) :
    p.look (.ok ((told.getLast?.or before).map ObjectFile.ofChange)) = p := by
  cases hlast : told.getLast?.or before with
  | none => rfl
  | some c =>
    have hold : c.version ≤ p.last := by
      rw [h.last, numberAfter, hlast]
      exact Nat.le_refl _
    exact if_pos hold

/-- A look at the next write tells of it. -/
theorem look (h : p.Tracks s name before told taken) (hheld : p.held = none) {c : Change}
    (hnew : p.last < c.version) :
    (p.look (.ok (some (.ofChange c)))).Tracks s name before (told ++ [c]) taken := by
  obtain ⟨seen, hseen⟩ : ∃ seen, seen = { p with
      last := c.version, wasLive := liveAfter p.wasLive (.ofChange c) } := ⟨_, rfl⟩
  have hlook : p.look (.ok (some (.ofChange c))) = seen.emit (eventOf p.wasLive (.ofChange c)) := by
    rw [hseen]
    exact if_neg (Nat.not_le.2 hnew)
  have hroom : seen.held = none := by rw [hseen]; exact hheld
  obtain ⟨hstore, hname, -⟩ := p.look_keeps (.ok (some (.ofChange c)))
  refine ⟨hstore.trans h.store, hname.trans h.name, ?_, ?_, ?_, ?_⟩
  · rw [hlook, ended_emit, hseen]
    exact h.ended
  · rw [hlook, last_emit, hseen, numberAfter_concat]
  · rw [hlook, wasLive_emit, hseen, isLiveAfter_concat, h.wasLive]
  · rw [hlook, onTheWay_emit hroom, ← List.append_assoc, eventsOf_concat, ← h.wasLive, ← h.sent,
      hseen]
    rfl

end Tracks

/-- A poller that has told of all that was written, except for the last write if a look at it is
owed. -/
inductive Awaits (p : Poller) (s : LocalStore) (name : ObjectName) (before : Option Change)
    (t : FileTree) (taken : List WatchEvent) : Bool → List Change → Prop
  | done {written : List Change} (h : p.Tracks s name before written taken)
    (hseen : ∀ revision, p.seen = some revision → revision ≤ t.revision) :
    Awaits p s name before t taken false written
  | owes {told : List Change} {c : Change} (h : p.Tracks s name before told taken)
    (hnew : p.last < c.version)
    (hseen : ∀ revision, p.seen = some revision → revision < t.revision) :
    Awaits p s name before t taken true (told ++ [c])

namespace Awaits

theorem start (s : LocalStore) (name : ObjectName) (before : Option Change) (now : ℕ)
    (t : FileTree) :
    (Poller.start s name (numberAfter before []) now).Awaits s name before t [] false [] :=
  .done (.start s name before now) nofun

/-- What becomes of the events does not matter. -/
theorem congr {taken' : List WatchEvent} (h : p.Awaits s name before t taken owed written)
    (halike : p.Alike p') (hlive : p'.wasLive = p.wasLive)
    (hsent : taken' ++ p'.onTheWay = taken ++ p.onTheWay) :
    p'.Awaits s name before t taken' owed written := by
  cases h with
  | done h hseen => exact .done (h.congr halike hlive hsent) (by rwa [halike.seen])
  | owes h hnew hseen =>
    exact .owes (h.congr halike hlive hsent) (by rwa [halike.last]) (by rwa [halike.seen])

/-- The next write is done. -/
theorem wrote (h : p.Awaits s name before t taken false written) {c : Change}
    (hnew : numberAfter before written < c.version) (hrevision : t.revision < t'.revision) :
    p.Awaits s name before t' taken true (written ++ [c]) := by
  cases h with
  | done h hseen =>
    refine .owes h (h.last ▸ hnew) fun revision hrev => ?_
    exact Nat.lt_of_le_of_lt (hseen revision hrev) hrevision

/-- A look that is due is no longer owed. -/
theorem tick (h : p.Awaits s name before t taken owed written)
    (hload : s.load t name = .ok ((written.getLast?.or before).map ObjectFile.ofChange))
    (now : ℕ) :
    (p.tick t now).Awaits s name before t taken (owed && !p.isDue now) written := by
  obtain ⟨hdue, hwaits⟩ | ⟨hdue, next, hnext, hcases⟩ := p.tick_cases t now
  · rw [hdue, hwaits, Bool.not_false, Bool.and_true]
    exact h
  · have hrevision : ∀ revision, (p.tick t now).seen = some revision → revision ≤ t.revision := by
      intro revision hrev
      rw [seen_tick hdue, Option.some.injEq] at hrev
      exact Nat.le_of_eq hrev.symm
    have hkeeps : ∀ {told}, p.Tracks s name before told taken →
        next.Tracks s name before told taken ∧ p.store.load t p.name = s.load t name := by
      intro told h
      rw [hnext, h.store, h.name]
      exact ⟨⟨rfl, rfl, h.ended, h.last, h.wasLive, h.sent⟩, rfl⟩
    rw [hdue, Bool.not_true, Bool.and_false]
    cases h with
    | done h =>
      obtain ⟨hgoes, hread⟩ := hkeeps h
      refine .done ?_ hrevision
      obtain ⟨-, hsame⟩ | hlook := hcases
      · rwa [hsame]
      · rwa [hlook, hread, hload, hgoes.look_last]
    | owes h hnew hseen =>
      obtain ⟨hgoes, hread⟩ := hkeeps h
      refine .done ?_ hrevision
      obtain ⟨hsame, -⟩ | hlook := hcases
      -- A look is left out only at files that were seen; after a write they are not.
      · exact absurd (hseen _ hsame) (Nat.lt_irrefl _)
      · rw [List.getLast?_concat] at hload
        rw [hlook, hread, hload]
        refine hgoes.look ?_ ?_
        · rw [hnext]
          exact (isDue_iff.1 hdue).2.1
        · rwa [hnext]

/-- Whoever takes all events makes room for a look that is due. -/
theorem take (h : p.Awaits s name before t taken owed written)
    (hload : s.load t name = .ok ((written.getLast?.or before).map ObjectFile.ofChange))
    (now : ℕ) :
    (p.take t now).1.Awaits s name before t (taken ++ (p.take t now).2.1)
      (owed && !p.emptied.isDue now) written := by
  have hemptied : p.emptied.Awaits s name before t (taken ++ p.onTheWay) owed written :=
    h.congr ⟨rfl, rfl, rfl, rfl, rfl⟩ rfl (by simp [emptied, onTheWay])
  have hlooked := hemptied.tick hload now
  refine hlooked.congr ⟨rfl, rfl, rfl, rfl, rfl⟩ rfl ?_
  simp [Poller.take, emptied, onTheWay]

/-- An event that is held gets into the queue. -/
theorem handOn? (h : p.Awaits s name before t taken owed written) (hstep : p.handOn? = some p') :
    p'.Awaits s name before t taken owed written := by
  have halike := alike_handOn? hstep
  obtain ⟨event, hheld, hroom⟩ := Option.bind_eq_some_iff.1 hstep
  split at hroom
  · obtain rfl := Option.some.inj hroom
    exact h.congr halike rfl (by simp [onTheWay, hheld])
  · cases hroom

/-- An event is taken. -/
theorem next? (h : p.Awaits s name before t taken owed written) {event : Option WatchEvent}
    (hstep : p.next? = some (p', event)) :
    p'.Awaits s name before t (taken ++ event.toList) owed written := by
  have halike := alike_next? hstep
  unfold Poller.next? at hstep
  split at hstep
  next first rest hqueue =>
    obtain ⟨rfl, rfl⟩ := Prod.mk.inj (Option.some.inj hstep)
    exact h.congr halike rfl (by simp [onTheWay, hqueue])
  next =>
    split at hstep
    · obtain ⟨rfl, rfl⟩ := Prod.mk.inj (Option.some.inj hstep)
      rwa [Option.toList_none, List.append_nil]
    · cases hstep

end Awaits
end Poller

/-! ## Runs -/

/-- Whether an act is a look of that watch at its file. -/
def WatchedDisk.looks (d : WatchedDisk) (watch : ℕ) : LocalAct → Bool
  | .tick other now => other == watch && (d.poller watch).any fun p => p.isDue now
  | .take other now => other == watch && (d.poller watch).any fun p => p.emptied.isDue now
  | _ => false

namespace LocalStore

/-- The watch looks at its file between one write and the next, and after the last one. A look is
owed if there has been a write since the last look. -/
def LooksAfterWrites (s : LocalStore) (watch : ℕ) (owed : Bool) (d : WatchedDisk) :
    List LocalAct → Prop
  | [] => owed = false
  | act :: rest => ∃ next log, s.act? d act = some (next, log) ∧ (owed = true → writes log = []) ∧
      s.LooksAfterWrites watch ((owed || !(writes log).isEmpty) && !d.looks watch act) next rest

variable {s : LocalStore} {place : FilePath} {name : ObjectName} {watch : ℕ} {owed : Bool}
  {d d' : WatchedDisk} {past log first : List Occurrence} {act : LocalAct}

/-- A disk with a watch that has told of all writes since it was opened, except for the last one if
a look is owed. -/
structure Attends (s : LocalStore) (place : FilePath) (name : ObjectName) (watch : ℕ)
    (past : List Occurrence) (owed : Bool) (d : WatchedDisk) (log : List Occurrence) : Prop where
  file : s.Holds place name d.disk.files (writes (past ++ log)).getLast?
  poller : ∃ p, d.poller watch = some p ∧
    p.Awaits s name (writes past).getLast? d.disk.files (events watch log) owed (writes log)

namespace Attends

/-- A call leaves a watch as it is. If the call does a write, then a look is owed. -/
theorem call (h : s.Attends place name watch past owed d log) (hadmits : s.Admits name)
    {call : StoreCall} (htarget : call.target = name)
    (hlimit : lastNumber (past ++ log) + StoreCall.writes [call] < ObjectFile.versionLimit)
    (howed : owed = true → s.changeOf? d.disk call = none) :
    ∃ p, d.poller watch = some p ∧
      p.Awaits s name (writes past).getLast? (s.reply d.disk call).1.files (events watch log)
        (owed || (s.changeOf? d.disk call).isSome)
        (writes log ++ (s.changeOf? d.disk call).toList) := by
  obtain ⟨p, hp, hawaits⟩ := h.poller
  refine ⟨p, hp, ?_⟩
  rw [← lastVersion_getLast?] at hlimit
  obtain ⟨hchange, ⟨hnone, hdisk⟩ | ⟨c, hsome, -, hrevision⟩⟩ := h.file.call hadmits htarget hlimit
  · rw [hchange, hnone, hdisk, Option.isSome_none, Bool.or_false, Option.toList_none,
      List.append_nil]
    exact hawaits
  · rw [hchange, hsome] at howed ⊢
    have hnot : owed = false := by
      rw [← Bool.not_eq_true]
      exact fun hyes => Option.some_ne_none c (howed hyes)
    subst hnot
    refine hawaits.wrote ?_ hrevision
    have hversion := StoreCall.version_next? hsome
    rw [getLast?_writes_append] at hversion
    rw [Poller.numberAfter, hversion]
    exact Nat.lt_succ_self _

/-- Without a call nothing is written, and only the watch matters. -/
theorem quiet (h : s.Attends place name watch past owed d log)
    (hact : s.act? d act = some (d', first)) (hcall : act.call? = none) {p : Poller}
    (hp : d'.poller watch = some p)
    (hawaits : p.Awaits s name (writes past).getLast? d.disk.files
      (events watch log ++ events watch first) (owed && !d.looks watch act) (writes log)) :
    s.Attends place name watch past ((owed || !(writes first).isEmpty) && !d.looks watch act) d'
      (log ++ first) := by
  obtain ⟨hdisk, hwrites⟩ := quiet_of_act? hact hcall
  have hall : writes (log ++ first) = writes log := by
    rw [writes_append, hwrites, List.append_nil]
  refine ⟨?_, p, hp, ?_⟩
  · rw [getLast?_writes_append, hall, hdisk, ← getLast?_writes_append]
    exact h.file
  · rw [hall, hdisk, hwrites, events_append, List.isEmpty_nil, Bool.not_true, Bool.or_false]
    exact hawaits

/-- What happens to other watches does not matter. -/
theorem others (h : s.Attends place name watch past owed d log)
    (hact : s.act? d act = some (d', first)) (hcall : act.call? = none)
    (hpoller : d'.poller watch = d.poller watch) (hevents : events watch first = [])
    (hlooks : d.looks watch act = false) :
    s.Attends place name watch past ((owed || !(writes first).isEmpty) && !d.looks watch act) d'
      (log ++ first) := by
  obtain ⟨p, hp, hawaits⟩ := h.poller
  apply h.quiet hact hcall (hpoller.trans hp)
  rwa [hevents, hlooks, List.append_nil, Bool.not_false, Bool.and_true]

/-- One act goes on with a watch. -/
theorem act? (h : s.Attends place name watch past owed d log) (hadmits : s.Admits name)
    (hact : s.act? d act = some (d', first))
    (htarget : ∀ call ∈ act.call?.toList, call.target = name)
    (hlimit : lastNumber (past ++ log) + StoreCall.writes act.call?.toList <
      ObjectFile.versionLimit)
    (hstays : act ≠ .drop watch) (howed : owed = true → writes first = []) :
    s.Attends place name watch past ((owed || !(writes first).isEmpty) && !d.looks watch act) d'
      (log ++ first) := by
  have hload := h.file.load
  rw [getLast?_writes_append] at hload
  obtain ⟨p, hp, hawaits⟩ := h.poller
  have hown : ∀ {p' : Poller}, (d.setPoller watch p').poller watch = some p' :=
    Function.update_self ..
  have hothers : ∀ {other : ℕ} {p' : Poller}, other ≠ watch →
      (d.setPoller other p').poller watch = d.poller watch :=
    fun hne => Function.update_of_ne hne.symm ..
  cases act with
  | call call =>
    have hfile := (h.file.act? hadmits hact htarget hlimit).1
    rw [List.append_assoc] at hfile
    obtain ⟨rfl, rfl⟩ := Prod.mk.inj (Option.some.inj hact)
    rw [writes_ofCall] at howed
    obtain ⟨p', hp', hnext⟩ := h.call hadmits (htarget call (List.mem_singleton.2 rfl)) hlimit
      fun hyes => by simpa using howed hyes
    have hlooks : d.looks watch (.call call) = false := rfl
    refine ⟨hfile, p', hp', ?_⟩
    rw [writes_append, events_append, writes_ofCall, events_ofCall, List.append_nil, hlooks,
      Bool.not_false, Bool.and_true]
    cases hchange : s.changeOf? d.disk call <;> rwa [hchange] at hnext
  | watch other called token now =>
    have hopened := hact
    simp only [LocalStore.act?] at hopened
    split at hopened
    next => cases hopened
    next =>
      obtain ⟨rfl, rfl⟩ := Prod.mk.inj (Option.some.inj hopened)
      exact h.others hact rfl rfl rfl rfl
    next hnone _ =>
      have hne : other ≠ watch := by
        rintro rfl
        cases hp.symm.trans hnone
      obtain ⟨rfl, rfl⟩ := Prod.mk.inj (Option.some.inj hopened)
      exact h.others hact rfl (hothers hne) rfl rfl
  | tick other now =>
    obtain ⟨q, hq, heq⟩ := Option.map_eq_some_iff.1 hact
    obtain ⟨rfl, rfl⟩ := Prod.mk.inj heq
    by_cases hne : other = watch
    · subst hne
      obtain rfl := Option.some.inj (hp.symm.trans hq)
      refine h.quiet hact rfl hown ?_
      simpa [WatchedDisk.looks, hp] using hawaits.tick hload now
    · exact h.others hact rfl (hothers hne) rfl (by simp [WatchedDisk.looks, hne])
  | handOn other =>
    obtain ⟨q, hq, hmap⟩ := Option.bind_eq_some_iff.1 hact
    obtain ⟨next, hnext, heq⟩ := Option.map_eq_some_iff.1 hmap
    obtain ⟨rfl, rfl⟩ := Prod.mk.inj heq
    by_cases hne : other = watch
    · subst hne
      obtain rfl := Option.some.inj (hp.symm.trans hq)
      refine h.quiet hact rfl hown ?_
      simpa [WatchedDisk.looks] using hawaits.handOn? hnext
    · exact h.others hact rfl (hothers hne) rfl rfl
  | next other =>
    obtain ⟨q, hq, hmap⟩ := Option.bind_eq_some_iff.1 hact
    obtain ⟨⟨next, event⟩, hnext, heq⟩ := Option.map_eq_some_iff.1 hmap
    obtain ⟨rfl, rfl⟩ := Prod.mk.inj heq
    by_cases hne : other = watch
    · subst hne
      obtain rfl := Option.some.inj (hp.symm.trans hq)
      refine h.quiet hact rfl hown ?_
      have hevents : events other [.told other event] = event.toList := by
        cases event <;> simp [events, event?]
      simpa [WatchedDisk.looks, hevents] using hawaits.next? hnext
    · exact h.others hact rfl (hothers hne) (by simp [events, event?, hne]) rfl
  | take other now =>
    obtain ⟨q, hq, heq⟩ := Option.map_eq_some_iff.1 hact
    obtain ⟨rfl, rfl⟩ := Prod.mk.inj heq
    by_cases hne : other = watch
    · subst hne
      obtain rfl := Option.some.inj (hp.symm.trans hq)
      refine h.quiet hact rfl hown ?_
      simpa [WatchedDisk.looks, hp] using hawaits.take hload now
    · exact h.others hact rfl (hothers hne) (events_ofTaken_of_ne _ _ _ hne)
        (by simp [WatchedDisk.looks, hne])
  | drop other =>
    have hne : watch ≠ other := fun heq => hstays (heq ▸ rfl)
    obtain ⟨rfl, rfl⟩ := Prod.mk.inj (Option.some.inj hact)
    exact h.others hact rfl (Function.update_of_ne hne ..) rfl rfl

/-- Whoever looks after every write has told of all of them in the end. -/
theorem run? {acts : List LocalAct} {later : List Occurrence}
    (h : s.Attends place name watch past owed d log) (hadmits : s.Admits name)
    (hrun : Occurrence.run? s.act? d acts = some (d', later))
    (htarget : ∀ call ∈ acts.filterMap LocalAct.call?, call.target = name)
    (hlimit : lastNumber (past ++ log) + StoreCall.writes (acts.filterMap LocalAct.call?) <
      ObjectFile.versionLimit)
    (hstays : .drop watch ∉ acts) (hlooks : s.LooksAfterWrites watch owed d acts) :
    s.Attends place name watch past false d' (log ++ later) := by
  induction acts generalizing owed d log later with
  | nil =>
    obtain ⟨rfl, rfl⟩ := Prod.mk.inj (Option.some.inj hrun)
    obtain rfl : owed = false := hlooks
    rwa [List.append_nil]
  | cons act rest ih =>
    obtain ⟨next, first, later, hact, hrest, rfl⟩ := runLogged?_cons_eq_some_iff.1 hrun
    obtain ⟨next', first', hact', howed, hlooks⟩ := hlooks
    obtain ⟨rfl, rfl⟩ := Prod.mk.inj (Option.some.inj (hact.symm.trans hact'))
    rw [filterMap_cons_eq, List.forall_mem_append] at htarget
    rw [filterMap_cons_eq, StoreCall.writes_append] at hlimit
    rw [List.mem_cons, not_or] at hstays
    have hwrites := (h.file.act? hadmits hact htarget.1 (by omega)).2
    have hnumber := lastNumber_append_le hwrites
    rw [← List.append_assoc]
    refine ih ?_ hrest htarget.2 ?_ hstays.2 hlooks
    · exact h.act? hadmits hact htarget.1 (by omega) (Ne.symm hstays.1) howed
    · rw [← List.append_assoc]
      omega

/-- A watch that has just been opened at the last write. -/
theorem start (h : s.Holds place name d.disk.files (writes past).getLast?) (watch now : ℕ) :
    s.Attends place name watch past false
      (d.setPoller watch (.start s name (lastNumber past) now)) [] := by
  refine ⟨by rwa [List.append_nil], _, Function.update_self .., ?_⟩
  rw [← lastVersion_getLast?]
  exact .start s name (writes past).getLast? now d.disk.files

/-- Then the events tell of all writes. -/
theorem told (h : s.Attends place name watch past false d log) :
    ∃ p, d.poller watch = some p ∧ p.ended = decide (s.pollMillis = 0) ∧
      events watch log ++ p.onTheWay =
        Poller.eventsOf (decide (0 < lastNumber past)) (writes log) := by
  obtain ⟨p, hp, ⟨htracks, -⟩⟩ := h.poller
  refine ⟨p, hp, htracks.ended, ?_⟩
  rw [← lastVersion_getLast?]
  exact htracks.sent

end Attends
end LocalStore
end Keyring
