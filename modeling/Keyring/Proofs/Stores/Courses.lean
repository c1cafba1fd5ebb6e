import Keyring.Proofs.LocalStore.History
import Keyring.Proofs.LocalStore.Runs
import Keyring.Proofs.MemoryStore.Runs
import Keyring.Proofs.Outcomes
import Keyring.Proofs.Stores.Interchange

/-!
# Courses of calls

What the calls on one object write depends on nothing but the last write before them. A store in
memory and a store in files plan their writes alike, so the same calls lead to the same writes in
both, whatever their watchers do in between.
-/
namespace Keyring

open Occurrence

/-! ## The writes of calls -/

/-- The write that is done where that was the last one, unless it fails. -/
def StoreWrite.next? (w : StoreWrite) (last : Option Change) : Option Change :=
  (w.plan (last.map ObjectFile.ofChange)).toOption.bind fun file =>
    w.change? (ObjectFile.current? (last.map ObjectFile.ofChange)) file.version (w.reply (.ok file))

namespace StoreCall

/-- The write that a call does where that was the last one. -/
def next? (call : StoreCall) (last : Option Change) : Option Change :=
  match call with
  | get _ | list _ => none
  | write w => w.next? last

/-- The writes that calls do one after the other, where that was the last one before them. -/
def course (last : Option Change) : List StoreCall → List Change
  | [] => []
  | call :: rest => (call.next? last).toList ++ course ((call.next? last).or last) rest

end StoreCall

def StoreAct.call? : StoreAct → Option StoreCall
  | call c => some c
  | _ => none

def LocalAct.call? : LocalAct → Option StoreCall
  | call c => some c
  | _ => none

section Planned

variable {w : StoreWrite} {call : StoreCall} {last : Option Change} {c : Change}

theorem StoreWrite.next?_of_error {failure : KeyError}
    (h : w.plan (last.map ObjectFile.ofChange) = .error failure) : w.next? last = none := by
  rw [next?, h]
  rfl

/-- What is planned is the next write. -/
theorem StoreWrite.next?_of_plan {file : ObjectFile}
    (hlast : ∀ c, last = some c → c.target = w.target)
    (h : w.plan (last.map ObjectFile.ofChange) = .ok file) :
    ∃ c, w.next? last = some c ∧ file = ObjectFile.ofChange c ∧ c.target = w.target := by
  obtain ⟨c, rfl, htarget, -, -, -, hchange⟩ := StoreWrite.plan_cases hlast h
  refine ⟨c, ?_, rfl, htarget⟩
  rw [next?, h]
  exact hchange

/-- Every write that is next was planned. -/
theorem StoreWrite.exists_plan (h : w.next? last = some c) :
    ∃ file, w.plan (last.map ObjectFile.ofChange) = .ok file ∧
      w.change? (ObjectFile.current? (last.map ObjectFile.ofChange)) file.version
        (w.reply (.ok file)) = some c := by
  obtain ⟨file, hplan, hchange⟩ := Option.bind_eq_some_iff.1 h
  exact ⟨file, eq_ok_of_toOption hplan, hchange⟩

theorem StoreWrite.target_next? (hlast : ∀ c, last = some c → c.target = w.target)
    (h : w.next? last = some c) : c.target = w.target := by
  obtain ⟨file, hplan, -⟩ := exists_plan h
  obtain ⟨d, hnext, -, htarget⟩ := next?_of_plan hlast hplan
  rwa [Option.some.inj (h.symm.trans hnext)]

/-- A write that brings an object into existence is a creation, and no other one is. -/
theorem StoreWrite.kind_next? (h : w.next? last = some c) :
    c.kind = .added ↔ ObjectFile.current? (last.map ObjectFile.ofChange) = none := by
  obtain ⟨file, hplan, hchange⟩ := exists_plan h
  cases w with
  | create object =>
    rw [plan, ObjectFile.create] at hplan
    split at hplan
    next => cases hplan
    next hnone =>
      obtain rfl := Except.ok.inj hplan
      rw [hnone]
      obtain rfl := Option.some.inj hchange
      exact iff_of_true rfl rfl
  | update object =>
    rw [plan, ObjectFile.update] at hplan
    split at hplan
    next => cases hplan
    next current hsome =>
      dsimp only at hplan
      split at hplan
      next => cases hplan
      next =>
        obtain rfl := Except.ok.inj hplan
        obtain rfl := Option.some.inj hchange
        rw [hsome]
        exact iff_of_false (fun hadded => by cases hadded) (Option.some_ne_none current)
  | delete name =>
    rw [plan, ObjectFile.delete] at hplan
    split at hplan
    next => cases hplan
    next current hsome =>
      obtain rfl := Except.ok.inj hplan
      obtain rfl := Option.some.inj hchange
      rw [hsome]
      exact iff_of_false (fun hadded => by cases hadded) (Option.some_ne_none current)

/-- A write that is done has the next number. -/
theorem StoreWrite.version_next? (h : w.next? last = some c) :
    c.version = ObjectFile.lastVersion (last.map ObjectFile.ofChange) + 1 := by
  obtain ⟨file, hplan, hchange⟩ := exists_plan h
  have hfile : file.version = ObjectFile.lastVersion (last.map ObjectFile.ofChange) + 1 := by
    cases w with
    | create object => exact ObjectFile.version_create hplan
    | update object => exact ObjectFile.version_update hplan
    | delete name => exact ObjectFile.version_delete hplan
  rw [← hfile]
  cases w <;> exact (Option.some.inj hchange) ▸ rfl

theorem StoreCall.version_next? (h : call.next? last = some c) :
    c.version = ObjectFile.lastVersion (last.map ObjectFile.ofChange) + 1 := by
  cases call with
  | get | list => cases h
  | write w => exact StoreWrite.version_next? h

theorem StoreCall.kind_next? (h : call.next? last = some c) :
    c.kind = .added ↔ ObjectFile.current? (last.map ObjectFile.ofChange) = none := by
  cases call with
  | get | list => cases h
  | write w => exact StoreWrite.kind_next? h

namespace StoreCall

theorem course_cons_of_some (h : call.next? last = some c) (rest : List StoreCall) :
    course last (call :: rest) = c :: course (some c) rest := by
  rw [course, h]
  rfl

theorem course_cons_of_none (h : call.next? last = none) (rest : List StoreCall) :
    course last (call :: rest) = course last rest := by
  rw [course, h]
  rfl

theorem course_singleton (last : Option Change) (call : StoreCall) :
    course last [call] = (call.next? last).toList := List.append_nil _

theorem writes_append (calls rest : List StoreCall) :
    writes (calls ++ rest) = writes calls + writes rest := List.countP_append

theorem getLast?_course_cons (last : Option Change) (call : StoreCall) (rest : List StoreCall) :
    (course last (call :: rest)).getLast?.or last =
      (course ((call.next? last).or last) rest).getLast?.or ((call.next? last).or last) := by
  rw [course, List.getLast?_append, Option.or_assoc]
  cases call.next? last <;> rfl

theorem course_append (last : Option Change) (calls rest : List StoreCall) :
    course last (calls ++ rest) =
      course last calls ++ course ((course last calls).getLast?.or last) rest := by
  induction calls generalizing last with
  | nil => rfl
  | cons call calls ih =>
    rw [List.cons_append, getLast?_course_cons, course, ih, course, List.append_assoc]

/-- Calls on one object write to it. -/
theorem target_course {last : Option Change} {calls : List StoreCall} {name : ObjectName}
    (hlast : ∀ c, last = some c → c.target = name) (htarget : ∀ call ∈ calls, call.target = name) :
    ∀ c ∈ course last calls, c.target = name := by
  induction calls generalizing last with
  | nil => exact fun c hc => absurd hc List.not_mem_nil
  | cons call rest ih =>
    obtain ⟨hcall, hrest⟩ := List.forall_mem_cons.1 htarget
    have hnext : ∀ c, call.next? last = some c → c.target = name := by
      intro c hc
      cases call with
      | get | list => cases hc
      | write w =>
        have htarget : c.target = w.target :=
          StoreWrite.target_next? (fun d hd => (hlast d hd).trans hcall.symm) hc
        exact htarget.trans hcall
    have hor : ∀ c, (call.next? last).or last = some c → c.target = name := by
      intro c hc
      rcases Option.or_eq_some_iff.1 hc with hnew | ⟨-, hold⟩
      · exact hnext c hnew
      · exact hlast c hold
    rw [course, List.forall_mem_append]
    exact ⟨fun c hc => hnext c (Option.mem_toList.1 hc), ih hor hrest⟩

/-- Calls count the writes on. -/
theorem lastVersion_course_le (last : Option Change) (calls : List StoreCall) :
    ObjectFile.lastVersion (((course last calls).getLast?.or last).map ObjectFile.ofChange) ≤
      ObjectFile.lastVersion (last.map ObjectFile.ofChange) + writes calls := by
  induction calls generalizing last with
  | nil => exact Nat.le_refl _
  | cons call rest ih =>
    have hfirst : ObjectFile.lastVersion (((call.next? last).or last).map ObjectFile.ofChange) ≤
        ObjectFile.lastVersion (last.map ObjectFile.ofChange) + writes [call] := by
      cases call with
      | get | list => exact Nat.le_refl _
      | write w =>
        cases hnext : w.next? last with
        | none =>
          rw [next?, hnext]
          exact Nat.le_succ _
        | some c =>
          rw [next?, hnext]
          exact Nat.le_of_eq (StoreWrite.version_next? hnext)
    have hrest := ih ((call.next? last).or last)
    rw [getLast?_course_cons, writes_cons]
    omega

end StoreCall

end Planned

/-! ## The writes of runs -/

namespace Occurrence

/-- The number of the last write of a log, and zero before the first. -/
def lastNumber (log : List Occurrence) : ℕ := (writes log).getLast?.elim 0 Change.version

@[simp] theorem lastNumber_nil : lastNumber [] = 0 := rfl

theorem lastVersion_getLast? (log : List Occurrence) :
    ObjectFile.lastVersion ((writes log).getLast?.map ObjectFile.ofChange) = lastNumber log := by
  rw [lastNumber]
  cases (writes log).getLast? <;> rfl

theorem getLast?_writes_append (log later : List Occurrence) :
    (writes (log ++ later)).getLast? = (writes later).getLast?.or (writes log).getLast? := by
  rw [writes_append, List.getLast?_append]

variable {σ α : Type} {step? : σ → α → Option (σ × List Occurrence)}
  {P : σ → List Occurrence → Prop} {name : ObjectName}

theorem filterMap_cons_eq (call? : α → Option StoreCall) (act : α) (rest : List α) :
    (act :: rest).filterMap call? = (call? act).toList ++ rest.filterMap call? := by
  rw [List.filterMap_cons]
  cases call? act <;> rfl

/-- Calls count the writes of a log on. -/
theorem lastNumber_append_le {log later : List Occurrence} {calls : List StoreCall}
    (h : writes later = StoreCall.course (writes log).getLast? calls) :
    lastNumber (log ++ later) ≤ lastNumber log + StoreCall.writes calls := by
  have hnumber := StoreCall.lastVersion_course_le (writes log).getLast? calls
  rwa [← h, ← getLast?_writes_append, lastVersion_getLast?, lastVersion_getLast?] at hnumber

/-- Where every act writes what is next, a run writes the course of its calls. -/
theorem run?_course (call? : α → Option StoreCall) {state last : σ} {acts : List α}
    {past log : List Occurrence}
    (hstep : ∀ {state next act past log}, P state past → step? state act = some (next, log) →
      (∀ call ∈ (call? act).toList, call.target = name) →
      lastNumber past + StoreCall.writes (call? act).toList < ObjectFile.versionLimit →
      P next (past ++ log) ∧
        writes log = StoreCall.course (writes past).getLast? (call? act).toList)
    (h : P state past) (hrun : run? step? state acts = some (last, log))
    (htarget : ∀ call ∈ acts.filterMap call?, call.target = name)
    (hlimit : lastNumber past + StoreCall.writes (acts.filterMap call?) <
      ObjectFile.versionLimit) :
    P last (past ++ log) ∧
      writes log = StoreCall.course (writes past).getLast? (acts.filterMap call?) := by
  induction acts generalizing state past log with
  | nil =>
    obtain ⟨rfl, rfl⟩ := Prod.mk.inj (Option.some.inj hrun)
    rw [List.append_nil]
    exact ⟨h, rfl⟩
  | cons act rest ih =>
    obtain ⟨next, first, later, hact, hrest, rfl⟩ := runLogged?_cons_eq_some_iff.1 hrun
    rw [filterMap_cons_eq, List.forall_mem_append] at htarget
    rw [filterMap_cons_eq, StoreCall.writes_append] at hlimit
    obtain ⟨hnext, hfirst⟩ := hstep h hact htarget.1 (by omega)
    have hnumber := lastNumber_append_le hfirst
    obtain ⟨hend, hlater⟩ := ih hnext hrest htarget.2 (by omega)
    rw [← List.append_assoc, filterMap_cons_eq, writes_append, StoreCall.course_append, hlater,
      hfirst, getLast?_writes_append, hfirst]
    exact ⟨hend, rfl⟩

end Occurrence

/-! ## Stores in memory -/

namespace MemoryStore

variable {m t : MemoryStore} {name : ObjectName} {past log : List Occurrence}
  {acts : List StoreAct} {act : StoreAct}

/-- A store to whose one object all writes went knows the last of them. -/
theorem Recorded.agrees (h : m.Recorded past) (htarget : ∀ c ∈ writes past, c.target = name) :
    ObjectFile.Agrees ((writes past).getLast?.map ObjectFile.ofChange) m name := by
  have hs := h.consistent
  have hnumbered := hs.numbered
  have hpresent := hs.present name
  have hhistory := h.history
  rw [← List.head?_reverse, ← hhistory]
  cases hlist : m.history with
  | nil =>
    rw [hlist] at hnumbered hpresent
    have hversion : m.version = 0 := by
      simpa using (congrArg List.length hnumbered).symm
    refine ⟨hversion.symm, hpresent.symm, fun object hobject => ?_⟩
    cases hpresent.symm.trans hobject
  | cons c rest =>
    have hc : c ∈ m.history := by
      rw [hlist]
      exact List.mem_cons_self
    have hname : c.target = name := htarget c (by rwa [hhistory, List.mem_reverse] at hc)
    have hversion : c.version = m.version := by
      have hhead := congrArg List.head? hnumbered
      rw [List.head?_reverse, hlist, List.map_cons, List.head?_cons, List.getLast?_range'] at hhead
      split at hhead
      · cases hhead
      · have := Option.some.inj hhead
        omega
    have hleft : m.object? name = c.left? := by
      rw [hpresent, hlist, Change.lastLeft?_cons, if_pos hname]
    have hcurrent : ObjectFile.current? (some (ObjectFile.ofChange c)) = c.left? := by
      unfold Change.left?
      cases hkind : c.kind <;>
        simp [ObjectFile.current?, ObjectFile.live?, ObjectFile.ofChange, hkind]
    refine ⟨hversion, hcurrent.trans hleft.symm, fun object hobject => ?_⟩
    have hstored : object = c.object := by
      rw [hleft] at hobject
      unfold Change.left? at hobject
      split at hobject
      case h_1 | h_2 => exact (Option.some.inj hobject).symm
      case h_3 => cases hobject
    rw [hstored, hs.stamped c hc, hversion]

/-- What is seen of a write is the write that was next. -/
theorem change?_eq_next? {w : StoreWrite} {last : Option Change}
    (h : ObjectFile.Agrees (last.map ObjectFile.ofChange) m w.target) :
    w.change? (m.object? w.target) (m.write w).1.version (m.write w).2 = w.next? last := by
  rcases h.write with ⟨failure, hplan, hwrite⟩ | ⟨file, hplan, hreply, -, hafter⟩
  · rw [StoreWrite.next?_of_error hplan, hwrite]
    cases w <;> rfl
  · have hversion : file.version = (m.write w).1.version := hafter.version
    rw [StoreWrite.next?, hplan, hreply, ← hversion, h.object]
    rfl

/-- Nobody but a caller writes. -/
theorem writes_eq_nil_of_act? (h : m.act? act = some (t, log)) (hcall : act.call? = none) :
    writes log = [] := by
  cases act with
  | call call => cases hcall
  | failGets | failLists | bookmark | closeWatches | watch | forwardAll | drop =>
    obtain ⟨-, rfl⟩ := Prod.mk.inj (Option.some.inj h)
    rfl
  | forward =>
    obtain ⟨after, -, heq⟩ := Option.map_eq_some_iff.1 h
    obtain ⟨-, rfl⟩ := Prod.mk.inj heq
    rfl
  | next =>
    obtain ⟨after, -, heq⟩ := Option.map_eq_some_iff.1 h
    obtain ⟨-, rfl⟩ := Prod.mk.inj heq
    rfl
  | take =>
    obtain ⟨-, rfl⟩ := Prod.mk.inj (Option.some.inj h)
    exact writes_ofTaken _ _ _

/-- A store to whose one object all writes went. -/
structure Single (m : MemoryStore) (name : ObjectName) (past : List Occurrence) : Prop where
  recorded : m.Recorded past
  target : ∀ c ∈ writes past, c.target = name

/-- An act does the write that is next, if it is a call that does one. -/
theorem Single.writes_of_act? (h : m.Single name past) (hact : m.act? act = some (t, log))
    (htarget : ∀ call ∈ act.call?.toList, call.target = name) :
    writes log = StoreCall.course (writes past).getLast? act.call?.toList := by
  cases hcall : act.call? with
  | none => exact writes_eq_nil_of_act? hact hcall
  | some call =>
    rw [hcall, Option.toList_some, List.forall_mem_singleton] at htarget
    rw [Option.toList_some, StoreCall.course_singleton]
    cases act with
    | call other =>
      obtain rfl := Option.some.inj hcall
      obtain ⟨-, rfl⟩ := Prod.mk.inj (Option.some.inj hact)
      rw [writes_ofCall]
      cases other with
      | get | list => rfl
      | write w =>
        have hagrees := h.recorded.agrees h.target
        rw [← htarget] at hagrees
        exact congrArg Option.toList (change?_eq_next? hagrees)
    | _ => cases hcall

theorem Single.act? (h : m.Single name past) (hact : m.act? act = some (t, log))
    (htarget : ∀ call ∈ act.call?.toList, call.target = name) : t.Single name (past ++ log) := by
  refine ⟨h.recorded.act? hact, ?_⟩
  rw [writes_append, List.forall_mem_append, h.writes_of_act? hact htarget]
  exact ⟨h.target,
    StoreCall.target_course (fun c hc => h.target c (List.mem_of_getLast? hc)) htarget⟩

/-- The writes of a run are the course of its calls. -/
theorem Single.run? {acts : List StoreAct} (h : m.Single name past)
    (hrun : Occurrence.run? MemoryStore.act? m acts = some (t, log))
    (htarget : ∀ call ∈ acts.filterMap StoreAct.call?, call.target = name)
    (hlimit : lastNumber past + StoreCall.writes (acts.filterMap StoreAct.call?) <
      ObjectFile.versionLimit) :
    t.Single name (past ++ log) ∧
      writes log = StoreCall.course (writes past).getLast? (acts.filterMap StoreAct.call?) :=
  run?_course StoreAct.call? (P := fun m past => m.Single name past)
    (fun h hact htarget _ => ⟨h.act? hact htarget, h.writes_of_act? hact htarget⟩)
    h hrun htarget hlimit

end MemoryStore

/-! ## Stores in files -/

namespace LocalStore

variable {s : LocalStore} {place : FilePath} {name : ObjectName} {last : Option Change}
  {d d' : WatchedDisk} {past log : List Occurrence} {act : LocalAct}

/-- A write that is done changes the files. -/
theorem revision_change {disk disk' : Disk} {plan : Option ObjectFile → Except KeyError ObjectFile}
    {file : ObjectFile} (h : s.change disk name plan = (disk', .ok file)) :
    disk.files.revision < disk'.files.revision := by
  have hrun : ∀ {encrypted : Bytes} {files : FileTree},
      disk.files.run (s.writeSteps name encrypted) = (files, true) →
        disk.files.revision < files.revision := by
    intro encrypted files hsteps
    simp only [writeSteps, FileTree.run, FileTree.step] at hsteps
    split at hsteps
    next drafted hdraft =>
      split at hsteps
      next moved hmove =>
        obtain ⟨rfl, -⟩ := Prod.mk.inj hsteps
        exact Nat.lt_trans (FileTree.revision_write hdraft) (FileTree.revision_rename hmove)
      next => cases (Prod.mk.inj hsteps).2
    next => cases (Prod.mk.inj hsteps).2
  unfold change at h
  split at h
  next => cases (Prod.mk.inj h).2
  next planned _ =>
    unfold save at h
    dsimp only at h
    split at h
    next saved hsaved =>
      obtain ⟨rfl, -⟩ := Prod.mk.inj h
      split at hsaved
      next files hsteps =>
        obtain ⟨rfl, -⟩ := Prod.mk.inj hsaved
        exact hrun hsteps
      next => cases (Prod.mk.inj hsaved).2
    next => cases (Prod.mk.inj h).2

/-- Nobody but a caller writes. -/
theorem quiet_of_act? (h : s.act? d act = some (d', log)) (hcall : act.call? = none) :
    d'.disk = d.disk ∧ writes log = [] := by
  cases act with
  | call => cases hcall
  | watch =>
    simp only [act?] at h
    split at h
    case h_1 => cases h
    case h_2 | h_3 =>
      obtain ⟨rfl, rfl⟩ := Prod.mk.inj (Option.some.inj h)
      exact ⟨rfl, rfl⟩
  | tick =>
    obtain ⟨p, -, heq⟩ := Option.map_eq_some_iff.1 h
    obtain ⟨rfl, rfl⟩ := Prod.mk.inj heq
    exact ⟨rfl, rfl⟩
  | handOn =>
    obtain ⟨p, -, hmap⟩ := Option.bind_eq_some_iff.1 h
    obtain ⟨next, -, heq⟩ := Option.map_eq_some_iff.1 hmap
    obtain ⟨rfl, rfl⟩ := Prod.mk.inj heq
    exact ⟨rfl, rfl⟩
  | next =>
    obtain ⟨p, -, hmap⟩ := Option.bind_eq_some_iff.1 h
    obtain ⟨after, -, heq⟩ := Option.map_eq_some_iff.1 hmap
    obtain ⟨rfl, rfl⟩ := Prod.mk.inj heq
    exact ⟨rfl, rfl⟩
  | take =>
    obtain ⟨p, -, heq⟩ := Option.map_eq_some_iff.1 h
    obtain ⟨rfl, rfl⟩ := Prod.mk.inj heq
    exact ⟨rfl, writes_ofTaken _ _ _⟩
  | drop =>
    obtain ⟨rfl, rfl⟩ := Prod.mk.inj (Option.some.inj h)
    exact ⟨rfl, rfl⟩

/-- The file of an object says what the last write to it was. -/
structure Holds (s : LocalStore) (place : FilePath) (name : ObjectName) (t : FileTree)
    (last : Option Change) : Prop where
  ready : s.Ready t place name
  load : s.load t name = .ok (last.map ObjectFile.ofChange)
  target : ∀ c, last = some c → c.target = name

namespace Holds

theorem start {t : FileTree} (hadmits : s.Admits name) (hready : s.Ready t place name)
    (hnone : t.at? (place ++ [fileName name]) = none) : s.Holds place name t none :=
  ⟨hready, (hready.load_missing hnone).resolve_right fun hfailed => hfailed.1 hadmits, nofun⟩

/-- A call does the write that is next, and changes the files if it does one. -/
theorem call {disk : Disk} (h : s.Holds place name disk.files last) (hadmits : s.Admits name)
    {call : StoreCall} (htarget : call.target = name)
    (hlimit : ObjectFile.lastVersion (last.map ObjectFile.ofChange) + StoreCall.writes [call] <
      ObjectFile.versionLimit) :
    s.changeOf? disk call = call.next? last ∧
      ((call.next? last = none ∧ (s.reply disk call).1 = disk) ∨
        ∃ c, call.next? last = some c ∧
          s.Holds place name (s.reply disk call).1.files (some c) ∧
          disk.files.revision < (s.reply disk call).1.files.revision) := by
  cases call with
  | get | list => exact ⟨rfl, Or.inl ⟨rfl, rfl⟩⟩
  | write w =>
    obtain rfl : w.target = name := htarget
    rcases change_cases hadmits h.ready h.load w.plan with
      ⟨failure, hplan, hchange⟩ | ⟨file, disk', hplan, hchange, hready, hloaded, -⟩
    · have hreply : s.reply disk (.write w) = (disk, w.reply (.error failure)) := by
        rw [reply, write_eq, hchange]
      have hnext : StoreCall.next? (.write w) last = none := StoreWrite.next?_of_error hplan
      rw [hnext, changeOf?, hreply]
      refine ⟨?_, Or.inl ⟨rfl, rfl⟩⟩
      cases w <;> rfl
    · obtain ⟨c, hnext, rfl, hname⟩ := StoreWrite.next?_of_plan h.target hplan
      have hload : s.load disk'.files w.target = .ok (some (.ofChange c)) := by
        apply hloaded
        rw [ObjectFile.ofChange, StoreWrite.version_next? hnext]
        exact hlimit
      have hreply : s.reply disk (.write w) = (disk', w.reply (.ok (.ofChange c))) := by
        rw [reply, write_eq, hchange]
      rw [changeOf?, hreply]
      refine ⟨?_, Or.inr ⟨c, hnext, ⟨hready, hload, ?_⟩, revision_change hchange⟩⟩
      · simp only [StoreCall.target, StoreCall.change?, StoreCall.next?]
        rw [Keeps.file?_of_load h.load, Keeps.file?_of_load hload, StoreWrite.next?, hplan]
        rfl
      · rintro _ ⟨⟩
        exact hname

/-- An act does the write that is next, if it is a call that does one. -/
theorem act? (h : s.Holds place name d.disk.files (writes past).getLast?) (hadmits : s.Admits name)
    (hact : s.act? d act = some (d', log))
    (htarget : ∀ call ∈ act.call?.toList, call.target = name)
    (hlimit : lastNumber past + StoreCall.writes act.call?.toList < ObjectFile.versionLimit) :
    s.Holds place name d'.disk.files (writes (past ++ log)).getLast? ∧
      writes log = StoreCall.course (writes past).getLast? act.call?.toList := by
  cases hcall : act.call? with
  | none =>
    obtain ⟨hdisk, hwrites⟩ := quiet_of_act? hact hcall
    rw [writes_append, hdisk, hwrites, List.append_nil]
    exact ⟨h, rfl⟩
  | some call =>
    rw [hcall, Option.toList_some] at htarget hlimit
    rw [← lastVersion_getLast?] at hlimit
    rw [List.forall_mem_singleton] at htarget
    rw [Option.toList_some, StoreCall.course_singleton, writes_append, List.getLast?_append]
    cases act with
    | call other =>
      obtain rfl := Option.some.inj hcall
      obtain ⟨rfl, rfl⟩ := Prod.mk.inj (Option.some.inj hact)
      obtain ⟨hchange, hcases⟩ := h.call hadmits htarget hlimit
      rw [writes_ofCall, hchange]
      refine ⟨?_, rfl⟩
      rcases hcases with ⟨hnone, hdisk⟩ | ⟨c, hsome, hholds, -⟩
      · rw [hnone, hdisk]
        exact h
      · rw [hsome]
        exact hholds
    | _ => cases hcall

/-- The writes of a run are the course of its calls. -/
theorem run? {acts : List LocalAct} (h : s.Holds place name d.disk.files (writes past).getLast?)
    (hadmits : s.Admits name) (hrun : Occurrence.run? s.act? d acts = some (d', log))
    (htarget : ∀ call ∈ acts.filterMap LocalAct.call?, call.target = name)
    (hlimit : lastNumber past + StoreCall.writes (acts.filterMap LocalAct.call?) <
      ObjectFile.versionLimit) :
    s.Holds place name d'.disk.files (writes (past ++ log)).getLast? ∧
      writes log = StoreCall.course (writes past).getLast? (acts.filterMap LocalAct.call?) :=
  run?_course LocalAct.call?
    (P := fun d past => s.Holds place name d.disk.files (writes past).getLast?)
    (fun h hact htarget hlimit => h.act? hadmits hact htarget hlimit) h hrun htarget hlimit

end Holds
end LocalStore
end Keyring
