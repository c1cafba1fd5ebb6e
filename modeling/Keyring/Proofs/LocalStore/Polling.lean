import Keyring.Proofs.LocalStore.History
import Keyring.Proofs.LocalStore.Runs

/-!
# Polls between the steps of writes

A poller looks at a file that others replace at any time, and of all that it has told it keeps one
number. It tells of a write only if the number of the write is greater, so whatever was written
between two looks, the events ascend. After a look there is nothing in the file that was not told.
-/
namespace Keyring

open FileEvent

/-! ## Events of writes -/

def WatchEvent.isDeletion : WatchEvent → Bool
  | .deleted _ => true
  | _ => false

/-- The event carries what the write has left, and says of a deletion that it is one. -/
structure WatchEvent.TellsOf (event : WatchEvent) (w : DoneWrite) : Prop where
  object : ∃ object, event.object? = some object ∧ w.file.object = some object ∧
    object.resourceVersion = Decimal.ofNat w.version
  deletion : event.isDeletion = w.write.isDeletion

theorem Consecutive.tellsOf_eventOf {history : List DoneWrite} (h : Consecutive history)
    {w : DoneWrite} (hw : w ∈ history) (wasLive : Bool) :
    (Poller.eventOf wasLive w.file).TellsOf w := by
  obtain ⟨version, object, hfile⟩ := h.file_eq_next hw
  have hversion : w.version = version + 1 := congrArg ObjectFile.version hfile
  unfold Poller.eventOf
  constructor
  · rw [hversion, hfile]
    refine ⟨{ object with resourceVersion := Decimal.ofNat (version + 1) }, ?_, rfl, rfl⟩
    cases w.write.isDeletion <;> cases wasLive <;> rfl
  · rw [hfile]
    cases w.write.isDeletion <;> cases wasLive <;> rfl

/-- The number of the last write that was told, or of the start. -/
def lastTold (since : ℕ) (picks : List DoneWrite) : ℕ := picks.getLast?.elim since DoneWrite.version

/-- The events tell of writes after a number, one after the other and in the order of the writes. -/
structure Told (since : ℕ) (history picks : List DoneWrite) (events : List WatchEvent) : Prop where
  tells : List.Forall₂ WatchEvent.TellsOf events picks
  written : ∀ w ∈ picks, w ∈ history
  above : ∀ w ∈ picks, since < w.version
  ascending : picks.Pairwise fun a b => a.version < b.version

namespace Told

variable {since : ℕ} {history later picks : List DoneWrite} {events : List WatchEvent}
  {event : WatchEvent} {w : DoneWrite}

theorem nil (since : ℕ) (history : List DoneWrite) : Told since history [] [] :=
  ⟨.nil, fun w hw => (by cases hw), fun w hw => (by cases hw), .nil⟩

theorem mono (h : Told since history picks events) (hle : ∀ w ∈ history, w ∈ later) :
    Told since later picks events :=
  ⟨h.tells, fun w hw => hle w (h.written w hw), h.above, h.ascending⟩

theorem le_lastTold (h : Told since history picks events) :
    since ≤ lastTold since picks ∧ ∀ w ∈ picks, w.version ≤ lastTold since picks := by
  cases picks using List.reverseRecOn with
  | nil => exact ⟨Nat.le_refl _, fun w hw => by cases hw⟩
  | append_singleton earlier last =>
    have hlast : lastTold since (earlier ++ [last]) = last.version := by
      rw [lastTold, List.getLast?_concat, Option.elim_some]
    rw [hlast]
    refine ⟨Nat.le_of_lt (h.above last (List.mem_append_right _ (List.mem_singleton.2 rfl))), ?_⟩
    intro w hw
    obtain hearlier | hhere := List.mem_append.1 hw
    · exact Nat.le_of_lt
        ((List.pairwise_append.1 h.ascending).2.2 w hearlier last (List.mem_singleton.2 rfl))
    · rw [List.mem_singleton.1 hhere]

/-- One more write with a greater number is told. -/
theorem concat (h : Told since history picks events) (hw : w ∈ history)
    (hlast : lastTold since picks < w.version) (htells : event.TellsOf w) :
    Told since history (picks ++ [w]) (events ++ [event]) := by
  obtain ⟨hsince, hpicks⟩ := h.le_lastTold
  refine ⟨List.rel_append h.tells (.cons htells .nil), ?_, ?_, ?_⟩
  · rw [List.forall_mem_append, List.forall_mem_singleton]
    exact ⟨h.written, hw⟩
  · rw [List.forall_mem_append, List.forall_mem_singleton]
    exact ⟨h.above, Nat.lt_of_le_of_lt hsince hlast⟩
  · rw [List.pairwise_append]
    refine ⟨h.ascending, List.pairwise_singleton _ _, fun a ha b hb => ?_⟩
    rw [List.mem_singleton.1 hb]
    exact Nat.lt_of_le_of_lt (hpicks a ha) hlast

/-- Once the last write of a history is told, its event is the last one. -/
theorem getLast? (h : Told since history picks events) (hhistory : Consecutive history)
    (hw : history.getLast? = some w) (habove : since < w.version)
    (htold : w.version ≤ lastTold since picks) :
    ∃ event, events.getLast? = some event ∧ event.TellsOf w := by
  cases picks using List.reverseRecOn with
  | nil =>
    have hstart : lastTold since [] = since := rfl
    omega
  | append_singleton earlier last =>
    have hmem : last ∈ history := h.written last (List.mem_append_right _ (List.mem_singleton.2 rfl))
    have hlast : lastTold since (earlier ++ [last]) = last.version := by
      rw [lastTold, List.getLast?_concat, Option.elim_some]
    have hle := hhistory.version_le hmem
    have hversion := hhistory.version_last hw
    have hsame : last = w :=
      hhistory.eq_of_version_eq hmem (List.mem_of_getLast? hw) (by omega)
    have hend := List.forall₂_drop_append _ _ _ h.tells
    obtain ⟨event, rest, hevent, hrest, hsplit⟩ := List.forall₂_cons_right_iff.1 hend
    rw [List.forall₂_nil_right_iff.1 hrest] at hsplit
    refine ⟨event, ?_, hsame ▸ hevent⟩
    rw [← List.take_append_drop earlier.length events, hsplit, List.getLast?_concat]

end Told

/-! ## A poller and what it has told -/

namespace Poller

variable {p p' : Poller} {since : ℕ} {history later : List DoneWrite} {told : List WatchEvent}

/-- Whether the poller looks at its file at that time. -/
def isDue (p : Poller) (now : ℕ) : Bool := p.isTicking && decide (p.nextLook ≤ now)

/-- What a poller has told, whether its watcher has taken it or not, is about writes after a number
and may end with a failure. The poller knows the number of the last one. -/
def Reports (p : Poller) (since : ℕ) (history : List DoneWrite) (told : List WatchEvent) : Prop :=
  ∃ picks events ending, told ++ p.onTheWay = events ++ ending ∧ Told since history picks events ∧
    p.last = lastTold since picks ∧
    (ending = [] ∨ p.ended = true ∧ ∃ failure : KeyError, ending = [.error failure.message])

theorem onTheWay_emit (h : p.held = none) (event : WatchEvent) :
    (p.emit event).onTheWay = p.onTheWay ++ [event] := by
  unfold emit
  split
  · simp [onTheWay, h]
  · simp [onTheWay, h]

@[simp] theorem ended_emit (p : Poller) (event : WatchEvent) : (p.emit event).ended = p.ended := by
  unfold emit
  split <;> rfl

/-- A look changes nothing of what is looked at and when. -/
theorem look_keeps (p : Poller) (result : Except KeyError (Option ObjectFile)) :
    (p.look result).store = p.store ∧ (p.look result).name = p.name ∧
      (p.look result).seen = p.seen := by
  unfold look emit
  repeat' split
  all_goals exact ⟨rfl, rfl, rfl⟩

theorem isDue_iff {now : ℕ} :
    p.isDue now = true ↔ p.ended = false ∧ p.held = none ∧ p.nextLook ≤ now := by
  simp [isDue, isTicking, and_assoc]

/-- A poller waits, or it looks at its file unless the files are those of its last look. -/
theorem tick_cases (p : Poller) (files : FileTree) (now : ℕ) :
    (p.isDue now = false ∧ p.tick files now = p) ∨
      p.isDue now = true ∧
        ∃ next, next = { p with nextLook := p.lookAfter now, seen := some files.revision } ∧
          ((p.seen = some files.revision ∧ p.tick files now = next) ∨
            p.tick files now = next.look (p.store.load files p.name)) := by
  unfold tick
  by_cases hdue : p.isDue now = true
  · right
    obtain ⟨hended, hheld, htime⟩ := isDue_iff.1 hdue
    have hlooks : ¬ (!p.isTicking || decide (now < p.nextLook)) = true := by
      simp [isTicking, hended, hheld, htime]
    rw [if_neg hlooks]
    refine ⟨hdue, _, rfl, ?_⟩
    dsimp only
    split
    next hseen => exact Or.inl ⟨hseen, rfl⟩
    next => exact Or.inr rfl
  · left
    have hwaits : (!p.isTicking || decide (now < p.nextLook)) = true := by
      rw [isDue, Bool.and_eq_true, decide_eq_true_eq, not_and, Nat.not_le] at hdue
      rw [Bool.or_eq_true, Bool.not_eq_true', decide_eq_true_eq]
      by_cases hticking : p.isTicking = true
      · exact Or.inr (hdue hticking)
      · exact Or.inl (Bool.not_eq_true _ ▸ hticking)
    rw [if_pos hwaits]
    exact ⟨Bool.not_eq_true _ ▸ hdue, rfl⟩

/-- A look that is due is one at the files as they are. -/
theorem seen_tick {files : FileTree} {now : ℕ} (h : p.isDue now = true) :
    (p.tick files now).seen = some files.revision := by
  obtain ⟨hwaits, -⟩ | ⟨-, next, rfl, ⟨-, hsame⟩ | hlook⟩ := p.tick_cases files now
  · rw [h] at hwaits
    cases hwaits
  · rw [hsame]
  · rw [hlook, (look_keeps _ _).2.2]

/-- A look that does not fail is not the last. -/
theorem ended_tick {files : FileTree} {now : ℕ} {existing : Option ObjectFile}
    (h : p.store.load files p.name = .ok existing) : (p.tick files now).ended = p.ended := by
  obtain ⟨-, hwaits⟩ | ⟨-, next, rfl, ⟨-, hsame⟩ | hlook⟩ := p.tick_cases files now
  · rw [hwaits]
  · rw [hsame]
  · rw [hlook, h]
    cases existing with
    | none => rfl
    | some file =>
      rw [look]
      split
      · rfl
      · rw [ended_emit]

theorem version_le_last_look (p : Poller) (file : ObjectFile) :
    file.version ≤ (p.look (.ok (some file))).last := by
  rw [look]
  split
  next hold => exact hold
  next => rw [last_emit]

/-- Two pollers know the same of the same file. -/
structure Alike (p p' : Poller) : Prop where
  store : p'.store = p.store
  name : p'.name = p.name
  seen : p'.seen = p.seen
  last : p'.last = p.last
  ended : p'.ended = p.ended

theorem alike_handOn? (h : p.handOn? = some p') : p.Alike p' := by
  obtain ⟨event, -, hroom⟩ := Option.bind_eq_some_iff.1 h
  split at hroom
  · obtain rfl := Option.some.inj hroom
    exact ⟨rfl, rfl, rfl, rfl, rfl⟩
  · cases hroom

theorem alike_next? {event : Option WatchEvent} (h : p.next? = some (p', event)) :
    p.Alike p' := by
  unfold next? at h
  split at h
  next =>
    obtain ⟨rfl, -⟩ := Prod.mk.inj (Option.some.inj h)
    exact ⟨rfl, rfl, rfl, rfl, rfl⟩
  next =>
    split at h
    · obtain ⟨rfl, -⟩ := Prod.mk.inj (Option.some.inj h)
      exact ⟨rfl, rfl, rfl, rfl, rfl⟩
    · cases h

namespace Reports

theorem start (store : LocalStore) (name : ObjectName) (since now : ℕ)
    (history : List DoneWrite) : (Poller.start store name since now).Reports since history [] :=
  ⟨[], [], [], rfl, .nil since history, rfl, Or.inl rfl⟩

theorem mono (h : p.Reports since history told) (hle : ∀ w ∈ history, w ∈ later) :
    p.Reports since later told := by
  obtain ⟨picks, events, ending, hsent, htold, hlast, hending⟩ := h
  exact ⟨picks, events, ending, hsent, htold.mono hle, hlast, hending⟩

/-- Only what is on its way, the number and the end matter. -/
theorem congr {told' : List WatchEvent} (h : p.Reports since history told)
    (hway : told' ++ p'.onTheWay = told ++ p.onTheWay) (hlast : p'.last = p.last)
    (hended : p'.ended = p.ended) : p'.Reports since history told' := by
  obtain ⟨picks, events, ending, hsent, htold, hnumber, hending⟩ := h
  exact ⟨picks, events, ending, hway.trans hsent, htold, hlast.trans hnumber, hended ▸ hending⟩

/-- As long as a poller goes on, it has told of writes only. -/
theorem ongoing (h : p.Reports since history told) (hended : p.ended = false) :
    ∃ picks, Told since history picks (told ++ p.onTheWay) ∧ p.last = lastTold since picks := by
  obtain ⟨picks, events, ending, hsent, htold, hlast, rfl | ⟨hover, -⟩⟩ := h
  · rw [List.append_nil] at hsent
    exact ⟨picks, hsent ▸ htold, hlast⟩
  · rw [hended] at hover
    cases hover

/-- A look that fails is told and is the last. -/
theorem failed (h : p.Reports since history told) (hended : p.ended = false)
    (hheld : p.held = none) (failure : KeyError) :
    (p.look (.error failure)).Reports since history told := by
  obtain ⟨picks, htold, hlast⟩ := h.ongoing hended
  refine ⟨picks, told ++ p.onTheWay, [.error failure.message], ?_, htold, ?_, Or.inr ⟨?_, ?_⟩⟩
  · have hemit := onTheWay_emit (p := { p with ended := true }) hheld (.error failure.message)
    rw [look, hemit, List.append_assoc]
    rfl
  · rw [look, last_emit]
    exact hlast
  · rw [look, ended_emit]
  · exact ⟨failure, rfl⟩

/-- A look tells what the last write has left, if its number is greater than what was told. -/
theorem found (h : p.Reports since history told) (hhistory : Consecutive history)
    (hended : p.ended = false) (hheld : p.held = none) {w : DoneWrite}
    (hw : history.getLast? = some w) : (p.look (.ok (some w.file))).Reports since history told := by
  obtain ⟨picks, htold, hlast⟩ := h.ongoing hended
  by_cases hnew : w.file.version ≤ p.last
  · rw [look, if_pos hnew]
    exact h
  · have hmem := List.mem_of_getLast? hw
    have hemit := onTheWay_emit
      (p := { p with last := w.file.version, wasLive := liveAfter p.wasLive w.file }) hheld
      (eventOf p.wasLive w.file)
    rw [look, if_neg hnew]
    refine ⟨picks ++ [w], told ++ p.onTheWay ++ [eventOf p.wasLive w.file], [], ?_,
      htold.concat hmem ?_ (hhistory.tellsOf_eventOf hmem _), ?_, Or.inl rfl⟩
    · rw [hemit, List.append_nil, List.append_assoc]
      rfl
    · rw [← hlast]
      exact Nat.not_le.1 hnew
    · rw [last_emit, lastTold, List.getLast?_concat]
      rfl

theorem handOn? (h : p.Reports since history told) (hstep : p.handOn? = some p') :
    p'.Reports since history told := by
  obtain ⟨event, hheld, hroom⟩ := Option.bind_eq_some_iff.1 hstep
  split at hroom
  · obtain rfl := Option.some.inj hroom
    exact h.congr (by simp [onTheWay, hheld]) rfl rfl
  · cases hroom

theorem next? (h : p.Reports since history told) {event : Option WatchEvent}
    (hstep : p.next? = some (p', event)) :
    p'.Reports since history (told ++ event.toList) := by
  unfold Poller.next? at hstep
  split at hstep
  next first rest hqueue =>
    obtain ⟨rfl, rfl⟩ := Prod.mk.inj (Option.some.inj hstep)
    exact h.congr (by simp [onTheWay, hqueue]) rfl rfl
  next =>
    split at hstep
    · obtain ⟨rfl, rfl⟩ := Prod.mk.inj (Option.some.inj hstep)
      rwa [Option.toList_none, List.append_nil]
    · cases hstep

end Reports
end Poller

/-! ## Runs -/

/-- A disk on which others write, and a poller there. -/
structure PolledDisk where
  busy : BusyDisk
  /-- What was seen of the disk. -/
  log : List FileEvent
  poller : Poller
  /-- The events that the watcher has taken. -/
  told : List WatchEvent

/-- What can happen next to a disk and a poller. -/
inductive PollAct
  /-- Someone takes a step on the disk. -/
  | file (act : FileAct)
  /-- The poller does the looks that are due. -/
  | tick (now : ℕ)
  /-- A look that is due fails. -/
  | fault (now : ℕ) (failure : KeyError)
  /-- The poller puts the event that it holds into its queue. -/
  | handOn
  /-- The watcher takes the next event. -/
  | next

namespace PolledDisk

/-- What the poller has told, whether it was taken or not. -/
def sent (d : PolledDisk) : List WatchEvent := d.told ++ d.poller.onTheWay

/-- The disk after the looks that are due. -/
def tick (d : PolledDisk) (now : ℕ) : PolledDisk :=
  { d with poller := d.poller.tick d.busy.disk.files now }

/-- What happens next; nothing where someone has to wait. -/
def act? (s : LocalStore) (d : PolledDisk) : PollAct → Option PolledDisk
  | .file act =>
    (d.busy.act? s act).map fun after =>
      { d with busy := after.1, log := d.log ++ after.2.toList }
  | .tick now => some (d.tick now)
  | .fault now failure =>
    if d.poller.isDue now then some { d with poller := d.poller.look (.error failure) } else none
  | .handOn => d.poller.handOn?.map fun poller => { d with poller }
  | .next =>
    d.poller.next?.map fun after => { d with poller := after.1, told := d.told ++ after.2.toList }

abbrev run? (s : LocalStore) (d : PolledDisk) (acts : List PollAct) : Option PolledDisk :=
  runSteps? (act? s) d acts

variable {s : LocalStore} {start : FileTree} {name : ObjectName} {since : ℕ} {d d' : PolledDisk}

/-- The log goes on. -/
theorem log_act? {act : PollAct} (h : d.act? s act = some d') : d.log <+: d'.log := by
  cases act with
  | file act =>
    obtain ⟨after, -, rfl⟩ := Option.map_eq_some_iff.1 h
    exact List.prefix_append _ _
  | tick now =>
    obtain rfl := Option.some.inj h
    exact List.prefix_rfl
  | fault now failure =>
    rw [act?] at h
    split at h
    · obtain rfl := Option.some.inj h
      exact List.prefix_rfl
    · cases h
  | handOn =>
    obtain ⟨after, -, rfl⟩ := Option.map_eq_some_iff.1 h
    exact List.prefix_rfl
  | next =>
    obtain ⟨after, -, rfl⟩ := Option.map_eq_some_iff.1 h
    exact List.prefix_rfl

theorem log_run? {acts : List PollAct} (h : d.run? s acts = some d') : d.log <+: d'.log :=
  runSteps?_induction (P := fun _ next => d.log <+: next.log) List.prefix_rfl
    (fun _ _ _ _ _ hlog hact => hlog.trans (log_act? hact)) h

/-- What is done on the disk is seen there. -/
theorem run?_file {acts : List FileAct} {busy : BusyDisk} {log : List FileEvent}
    (h : FileEvent.run? (BusyDisk.act? s) d.busy acts = some (busy, log)) :
    d.run? s (acts.map .file) = some { d with busy, log := d.log ++ log } := by
  induction acts generalizing d log with
  | nil =>
    obtain ⟨rfl, rfl⟩ := Prod.mk.inj (Option.some.inj h)
    rw [List.append_nil]
    rfl
  | cons act rest ih =>
    obtain ⟨next, event, later, hact, hrest, rfl⟩ := run?_cons_cases h
    have hlater := ih (d := { d with busy := next, log := d.log ++ event.toList }) hrest
    simp only [List.map_cons, runSteps?_cons, act?, hact, Option.map_some, Option.bind_some,
      hlater, List.append_assoc]

/-! ## Taking all events at once -/

/-- The watcher takes what is in the queue, one event after the other. -/
theorem run?_nexts (d : PolledDisk) :
    d.run? s (List.replicate d.poller.queue.length .next) =
      some { d with
        poller := { d.poller with queue := [] }, told := d.told ++ d.poller.queue } := by
  obtain ⟨busy, log, poller, told⟩ := d
  obtain ⟨queue, hqueue⟩ : ∃ queue, queue = poller.queue := ⟨_, rfl⟩
  induction queue generalizing poller told with
  | nil =>
    simp only [← hqueue, List.length_nil, List.replicate_zero, runSteps?_nil,
      List.append_nil]
    rw [hqueue]
  | cons event rest ih =>
    have hrest := ih { poller with queue := rest } (told ++ [event]) rfl
    dsimp only at hrest
    simp only [← hqueue, List.length_cons, List.replicate_succ, runSteps?_cons, act?,
      Poller.next?, Option.map_some, Option.bind_some, Option.toList_some, hrest,
      List.append_assoc, List.singleton_append]

/-- Then nothing is on its way any more. -/
theorem run?_drain (d : PolledDisk) :
    ∃ acts, (∀ act ∈ acts, act = .next ∨ act = .handOn) ∧
      d.run? s acts =
        some { d with
          poller := { d.poller with queue := [], held := none }
          told := d.told ++ d.poller.onTheWay } := by
  have hnexts : ∀ n, ∀ act ∈ List.replicate n PollAct.next, act = .next ∨ act = .handOn :=
    fun n act hact => Or.inl (List.eq_of_mem_replicate hact)
  cases hheld : d.poller.held with
  | none =>
    refine ⟨_, hnexts d.poller.queue.length, ?_⟩
    rw [run?_nexts, Poller.onTheWay, hheld, Option.toList_none, List.append_nil, ← hheld]
  | some event =>
    refine ⟨List.replicate d.poller.queue.length .next ++ [.handOn, .next], ?_, ?_⟩
    · rw [List.forall_mem_append]
      refine ⟨hnexts _, ?_⟩
      rintro act (- | ⟨-, - | ⟨-, ⟨⟩⟩⟩)
      · exact Or.inr rfl
      · exact Or.inl rfl
    · simp only [runSteps?_append, run?_nexts, Option.bind_some]
      simp [act?, Poller.handOn?, Poller.next?, Poller.onTheWay, Poller.queueLimit, hheld]

/-- Taking all events that are there is taking one after the other, with the looks that are due in
between. -/
theorem run?_take (d : PolledDisk) (now : ℕ) :
    ∃ acts, (∀ act ∈ acts, act = .next ∨ act = .handOn ∨ act = .tick now) ∧
      d.run? s acts =
        some { d with
          poller := (d.poller.take d.busy.disk.files now).1
          told := d.told ++ (d.poller.take d.busy.disk.files now).2.1 } := by
  obtain ⟨before, hbefore, hdrained⟩ := run?_drain (s := s) d
  obtain ⟨empty, hempty⟩ : ∃ empty, empty = { d with
      poller := { d.poller with queue := [], held := none }
      told := d.told ++ d.poller.onTheWay } := ⟨_, rfl⟩
  refine ⟨before ++ .tick now ::
    List.replicate (empty.tick now).poller.queue.length .next, ?_, ?_⟩
  · rw [List.forall_mem_append, List.forall_mem_cons]
    refine ⟨fun act hact => ?_, Or.inr (Or.inr rfl), fun act hact => ?_⟩
    · exact (hbefore act hact).imp_right Or.inl
    · exact Or.inl (List.eq_of_mem_replicate hact)
  · simp only [runSteps?_append, hdrained, ← hempty, runSteps?_cons, act?, Option.bind_some,
      run?_nexts]
    simp only [hempty, tick, Poller.take, Poller.onTheWay, List.append_assoc]

/-- A poller watches the file of an object on a disk with a log. If the files are those of its last
look, the file says nothing that it has not told. -/
structure Watches (s : LocalStore) (start : FileTree) (name : ObjectName) (since : ℕ)
    (d : PolledDisk) : Prop where
  logged : d.busy.Logged s start name d.log
  store_eq : d.poller.store = s
  name_eq : d.poller.name = name
  reports : d.poller.Reports since (history name d.log) d.told
  seen_le : ∀ revision, d.poller.seen = some revision → revision ≤ d.busy.disk.files.revision
  current : d.poller.seen = some d.busy.disk.files.revision → d.poller.ended = false →
    ∀ file, s.load d.busy.disk.files name = .ok (some file) → file.version ≤ d.poller.last

namespace Watches

theorem file (h : d.Watches s start name since)
    (hnone : ∀ file, s.load start name ≠ .ok (some file)) {act : FileAct} {busy : BusyDisk}
    {event : Option FileEvent} (hact : d.busy.act? s act = some (busy, event))
    (hnumbered : Numbered (d.log ++ event.toList)) :
    Watches s start name since { d with busy, log := d.log ++ event.toList } := by
  have hhistory : ∀ w ∈ history name d.log, w ∈ history name (d.log ++ event.toList) := by
    intro w hw
    rw [history_append]
    exact List.mem_append_left _ hw
  refine ⟨h.logged.act? hnone hact hnumbered, h.store_eq, h.name_eq, h.reports.mono hhistory, ?_, ?_⟩
  · intro revision hseen
    have hle := h.seen_le revision hseen
    obtain hsame | hgreater := BusyDisk.files_act? hact
    · rwa [hsame]
    · exact Nat.le_of_lt (Nat.lt_of_le_of_lt hle hgreater)
  · intro hseen hended found hload
    obtain hsame | hgreater := BusyDisk.files_act? hact
    · dsimp only at hseen hload
      rw [hsame] at hseen hload
      exact h.current hseen hended found hload
    · have hle := h.seen_le _ hseen
      dsimp only at hle
      omega

/-- A poller that knows the same goes on as before. -/
theorem alike (h : d.Watches s start name since) {poller : Poller} {told : List WatchEvent}
    (halike : d.poller.Alike poller) (hreports : poller.Reports since (history name d.log) told) :
    Watches s start name since { d with poller, told } := by
  refine ⟨h.logged, halike.store.trans h.store_eq, halike.name.trans h.name_eq, hreports, ?_, ?_⟩
  · rw [halike.seen]
    exact h.seen_le
  · rw [halike.seen, halike.ended, halike.last]
    exact h.current

theorem fault (h : d.Watches s start name since) {now : ℕ} (hdue : d.poller.isDue now = true)
    (failure : KeyError) :
    Watches s start name since { d with poller := d.poller.look (.error failure) } := by
  obtain ⟨hended, hheld, -⟩ := Poller.isDue_iff.1 hdue
  obtain ⟨hstore, hname, hseen⟩ := d.poller.look_keeps (.error failure)
  refine ⟨h.logged, hstore.trans h.store_eq, hname.trans h.name_eq,
    h.reports.failed hended hheld failure, ?_, ?_⟩
  · dsimp only
    rw [hseen]
    exact h.seen_le
  · intro _ hgoes
    rw [Poller.look, Poller.ended_emit] at hgoes
    cases hgoes

theorem tick (h : d.Watches s start name since)
    (hnone : ∀ file, s.load start name ≠ .ok (some file)) (now : ℕ) :
    (d.tick now).Watches s start name since := by
  obtain ⟨-, hwaits⟩ | ⟨hdue, next, hnext, ⟨hseen, hsame⟩ | hlook⟩ :=
    d.poller.tick_cases d.busy.disk.files now
  · rw [PolledDisk.tick, hwaits]
    exact h
  · rw [PolledDisk.tick, hsame, hnext]
    exact h.alike ⟨rfl, rfl, hseen.symm, rfl, rfl⟩ (h.reports.congr rfl rfl rfl)
  · obtain ⟨hended, hheld, -⟩ := Poller.isDue_iff.1 hdue
    have hreports : next.Reports since (history name d.log) d.told :=
      h.reports.congr (by rw [hnext]; rfl) (by rw [hnext]) (by rw [hnext])
    have hgoes : next.ended = false := by rw [hnext]; exact hended
    have hroom : next.held = none := by rw [hnext]; exact hheld
    rw [h.store_eq, h.name_eq] at hlook
    obtain ⟨result, hresult⟩ : ∃ result, s.load d.busy.disk.files name = result := ⟨_, rfl⟩
    rw [hresult] at hlook
    obtain ⟨hstore, hname, hseen⟩ := next.look_keeps result
    have hrevision : (next.look result).seen = some d.busy.disk.files.revision := by
      rw [hseen, hnext]
    rw [PolledDisk.tick, hlook]
    refine ⟨h.logged, ?_, ?_, ?_, ?_, ?_⟩
    · rw [hstore, hnext]
      exact h.store_eq
    · rw [hname, hnext]
      exact h.name_eq
    · match result, hresult with
      | .error failure, _ => exact hreports.failed hgoes hroom failure
      | .ok none, _ => exact hreports
      | .ok (some file), hload =>
        obtain ⟨w, hw, rfl⟩ := h.logged.last_of_load hnone hload
        exact hreports.found h.logged.consecutive hgoes hroom hw
    · intro revision hrev
      dsimp only at hrev ⊢
      rw [hrevision, Option.some.injEq] at hrev
      exact Nat.le_of_eq hrev.symm
    · intro _ _ file hload
      dsimp only at hload ⊢
      rw [hresult] at hload
      rw [hload]
      exact next.version_le_last_look file

/-- One step goes on with a watch. -/
theorem act? (h : d.Watches s start name since)
    (hnone : ∀ file, s.load start name ≠ .ok (some file)) {act : PollAct}
    (hact : d.act? s act = some d') (hnumbered : Numbered d'.log) :
    d'.Watches s start name since := by
  cases act with
  | file act =>
    obtain ⟨⟨busy, event⟩, hstep, rfl⟩ := Option.map_eq_some_iff.1 hact
    exact h.file hnone hstep hnumbered
  | tick now =>
    obtain rfl := Option.some.inj hact
    exact h.tick hnone now
  | fault now failure =>
    rw [PolledDisk.act?] at hact
    split at hact
    next hdue =>
      obtain rfl := Option.some.inj hact
      exact h.fault hdue failure
    next => cases hact
  | handOn =>
    obtain ⟨poller, hstep, rfl⟩ := Option.map_eq_some_iff.1 hact
    exact h.alike (Poller.alike_handOn? hstep) (h.reports.handOn? hstep)
  | next =>
    obtain ⟨⟨poller, event⟩, hstep, rfl⟩ := Option.map_eq_some_iff.1 hact
    exact h.alike (Poller.alike_next? hstep) (h.reports.next? hstep)

theorem run? {acts : List PollAct} (h : d.Watches s start name since)
    (hnone : ∀ file, s.load start name ≠ .ok (some file)) (hrun : d.run? s acts = some d')
    (hnumbered : Numbered d'.log) : d'.Watches s start name since := by
  refine runSteps?_induction
    (P := fun _ next => Numbered next.log → next.Watches s start name since) (fun _ => h) ?_ hrun
    hnumbered
  intro _ act before after _ ih hact hafter
  have hbefore : Numbered before.log := fun w file hmem =>
    hafter w file ((log_act? hact).subset hmem)
  exact (ih hbefore).act? hnone hact hafter

/-- After a look without a failure the last event tells of the last write. -/
theorem getLast?_sent (h : d.Watches s start name since)
    (hnone : ∀ file, s.load start name ≠ .ok (some file))
    (hseen : d.poller.seen = some d.busy.disk.files.revision) (hended : d.poller.ended = false)
    {file : ObjectFile} (hload : s.load d.busy.disk.files name = .ok (some file))
    (habove : since < file.version) :
    ∃ w event, (history name d.log).getLast? = some w ∧ w.file = file ∧
      d.sent.getLast? = some event ∧ event.TellsOf w := by
  obtain ⟨picks, htold, hlast⟩ := h.reports.ongoing hended
  obtain ⟨w, hw, rfl⟩ := h.logged.last_of_load hnone hload
  have hle := h.current hseen hended w.file hload
  rw [hlast] at hle
  obtain ⟨event, hevent, htells⟩ := htold.getLast? h.logged.consecutive hw habove hle
  exact ⟨w, event, hw, rfl, hevent, htells⟩

end Watches

/-- Whatever is written to an object while it is watched, by steps that come between the looks in
any order: the events ascend from the start of the watch, each tells of one write what it has left,
and the failure of a look comes last. After a look without a failure, the last event tells of the
write whose file the look has found. -/
theorem watch_ascends_to_current (s : LocalStore) (disk : Disk) (name : ObjectName)
    (since now : ℕ) (earlier : List FileAct) (acts : List PollAct) (busy : BusyDisk)
    (log : List FileEvent) (d : PolledDisk)
    (hnone : ∀ file, s.load disk.files name ≠ .ok (some file))
    (hearlier : FileEvent.run? (BusyDisk.act? s) ⟨disk, none⟩ earlier = some (busy, log))
    (hrun : run? s ⟨busy, log, .start s name since now, []⟩ acts = some d)
    (hnumbered : Numbered d.log) :
    Consecutive (history name d.log) ∧
      (∃ picks events ending, d.sent = events ++ ending ∧
        Told since (history name d.log) picks events ∧
        (ending = [] ∨ d.poller.ended = true ∧
          ∃ failure : KeyError, ending = [.error failure.message])) ∧
      ∀ time file, d.poller.isDue time = true →
        s.load d.busy.disk.files name = .ok (some file) → since < file.version →
        ∃ w event, (history name d.log).getLast? = some w ∧ w.file = file ∧
          (d.tick time).sent.getLast? = some event ∧ event.TellsOf w := by
  have hlogged : busy.Logged s disk.files name log := by
    have hbefore : Numbered log := fun w file hmem =>
      hnumbered w file ((log_run? hrun).subset hmem)
    exact (BusyDisk.Logged.idle s disk name).run? hnone hearlier hbefore
  have hstart : Watches s disk.files name since ⟨busy, log, .start s name since now, []⟩ := by
    refine ⟨hlogged, rfl, rfl, .start s name since now _, ?_, ?_⟩
    · rintro revision ⟨⟩
    · rintro ⟨⟩
  have hwatches := hstart.run? hnone hrun hnumbered
  refine ⟨hwatches.logged.consecutive, ?_, ?_⟩
  · obtain ⟨picks, events, ending, hsent, htold, -, hending⟩ := hwatches.reports
    exact ⟨picks, events, ending, hsent, htold, hending⟩
  · intro time file hdue hload habove
    have hgoes : (d.tick time).poller.ended = false := by
      rw [tick, Poller.ended_tick (by rw [hwatches.store_eq, hwatches.name_eq]; exact hload)]
      exact (Poller.isDue_iff.1 hdue).1
    exact (hwatches.tick hnone time).getLast?_sent hnone (Poller.seen_tick hdue) hgoes hload habove

/-- A deletion and a new creation. -/
def recreation (name : ObjectName) : List FileAct :=
  BusyDisk.writing (.delete name) ++ BusyDisk.writing (.create (.fresh name))

/-- What is seen of that where the object has been created. -/
def recreationLog (name : ObjectName) : List FileEvent :=
  [.ended (.delete name)
      (.ok (.next 1 true { StoredObject.fresh name with resourceVersion := Decimal.ofNat 1 })),
    .ended (.create (.fresh name)) (.ok (.next 2 false (.fresh name)))]

theorem run?_recreation {busy : BusyDisk}
    (h : busy.Rests s name (some (.next 0 false (.fresh name)))) (log : List FileEvent)
    (poller : Poller) :
    ∃ again, run? s ⟨busy, log, poller, []⟩ ((recreation name).map .file) =
        some ⟨again, log ++ recreationLog name, poller, []⟩ ∧
      again.Rests s name (some (.next 2 false (.fresh name))) := by
  obtain ⟨deleted, hdelete, hdeleted⟩ := h.run?_write (.delete name) rfl
    (.next 1 true { StoredObject.fresh name with resourceVersion := Decimal.ofNat 1 }) rfl
    (show 2 < ObjectFile.versionLimit by decide)
  obtain ⟨again, hcreate, hagain⟩ := hdeleted.run?_write (.create (.fresh name)) rfl
    (.next 2 false (.fresh name)) rfl (show 3 < ObjectFile.versionLimit by decide)
  refine ⟨again, ?_, hagain⟩
  simp only [recreation, List.map_append, runSteps?_append,
    run?_file (d := ⟨busy, log, poller, []⟩) hdelete, Option.bind_some,
    run?_file (d := ⟨deleted, _, poller, []⟩) hcreate, List.append_assoc]
  rfl

/-- An object is created; it is watched from its first version on, and until the first look it is
deleted and created again. That look tells of the second creation. -/
theorem watch_ascends_to_current_recreated :
    ∃ busy log d event object,
      (∀ file, LocalStore.firstStore.load LocalStore.firstDisk.files ⟨"ns", "keys"⟩ ≠
        .ok (some file)) ∧
      FileEvent.run? (BusyDisk.act? .firstStore) ⟨LocalStore.firstDisk, none⟩
        (BusyDisk.writing (.create (.fresh ⟨"ns", "keys"⟩))) = some (busy, log) ∧
      run? .firstStore ⟨busy, log, .start .firstStore ⟨"ns", "keys"⟩ 1 0, []⟩
        ((recreation ⟨"ns", "keys"⟩).map .file) = some d ∧
      Numbered d.log ∧ (d.tick 0).sent.getLast? = some event ∧ event.isDeletion = false ∧
      event.object? = some object ∧ object.resourceVersion = Decimal.ofNat 3 := by
  obtain ⟨name, hname⟩ : ∃ name : ObjectName, name = ⟨"ns", "keys"⟩ := ⟨_, rfl⟩
  rw [← hname]
  have hfirst : BusyDisk.Rests .firstStore name none ⟨LocalStore.firstDisk, none⟩ := by
    rw [hname]
    exact ⟨rfl, by decide +kernel, LocalStore.load_firstDisk (by decide +kernel)⟩
  have hnone : ∀ file, LocalStore.firstStore.load LocalStore.firstDisk.files name ≠
      .ok (some file) := by
    intro file hload
    rw [hfirst.load] at hload
    cases hload
  obtain ⟨created, hcreate, hcreated⟩ := hfirst.run?_write (.create (.fresh name)) rfl
    (.next 0 false (.fresh name)) rfl (show 1 < ObjectFile.versionLimit by decide)
  obtain ⟨again, hrun, hagain⟩ := run?_recreation hcreated _ (.start .firstStore name 1 0)
  have hnumbered : Numbered ([.ended (.create (.fresh name)) (.ok (.next 0 false (.fresh name)))] ++
      recreationLog name) := by
    intro w file hmem
    simp only [recreationLog, List.singleton_append, List.mem_cons, ended.injEq, Except.ok.injEq,
      List.not_mem_nil, or_false] at hmem
    obtain ⟨-, rfl⟩ | ⟨-, rfl⟩ | ⟨-, rfl⟩ := hmem
    · exact (by decide : 1 < ObjectFile.versionLimit)
    · exact (by decide : 2 < ObjectFile.versionLimit)
    · exact (by decide : 3 < ObjectFile.versionLimit)
  obtain ⟨hhistory, -, hcurrent⟩ := watch_ascends_to_current .firstStore LocalStore.firstDisk name
    1 0 _ _ created _ _ hnone hcreate hrun hnumbered
  obtain ⟨w, event, hw, hfile, hsent, htells⟩ :=
    hcurrent 0 _ rfl hagain.load (show 1 < 3 by decide)
  obtain ⟨object, hobject, -, hversion⟩ := htells.object
  obtain ⟨version, stored, hnext⟩ := hhistory.file_eq_next (List.mem_of_getLast? hw)
  have hdeletion : w.write.isDeletion = false := by
    rw [hfile] at hnext
    exact (congrArg ObjectFile.deleted hnext).symm
  refine ⟨created, _, _, event, object, hnone, hcreate, hrun, hnumbered, hsent, ?_, hobject, ?_⟩
  · rw [htells.deletion, hdeletion]
  · rw [hversion, DoneWrite.version, hfile]
    rfl

end PolledDisk
end Keyring
