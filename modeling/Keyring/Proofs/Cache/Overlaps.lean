import Keyring.Proofs.Cache.Slots
import Mathlib.Data.Fin.VecNotation
import Mathlib.Data.Fintype.Basic
import Mathlib.Data.List.Induction
import Mathlib.Tactic.FinCases

/-!
# Overlapping writes to a cache

An update looks at its version, loads the key sets of its object while others may write to the
cache, and looks at its version again before it writes. A deletion looks and writes at once. Each
write takes what is newer than all that was taken before, so the cache ends with the newest write
whatever the order of the steps.
-/
namespace Keyring

/-- A write to a cache. -/
inductive CacheCall
  | update (object : StoredObject)
  | delete (token : String)

/-- How far a write to a cache has come. -/
inductive CachePhase
  | waiting
  /-- The version was newer, and the key sets are loaded. -/
  | loaded (version : ℤ) (keySets : KeySets)
  /-- The write is over; whether the cache has taken it. -/
  | returned (taken : Bool)

namespace CacheCall

/-- The text that names the version. -/
def token : CacheCall → String
  | .update object => object.resourceVersion
  | .delete token => token

def version? (call : CacheCall) : Option ℤ := Decimal.int64? call.token

/-- The key sets that the write has for the cache. -/
def keySets : CacheCall → KeySets
  | .update object => .ofObject object
  | .delete _ => .empty

/-- The write with nothing in between, and what it returns. -/
def apply : CacheCall → Cache → Cache × Bool
  | .update object, cache => cache.update object
  | .delete token, cache => cache.delete token

def step (call : CacheCall) (c : SlotCache) : CachePhase → SlotCache × CachePhase
  | .waiting =>
    match c.view.newer? call.token with
    | none => (c, .returned false)
    | some version =>
      match call with
      | .update object => (c, .loaded version (.ofObject object))
      | .delete _ => (c.delete version, .returned true)
  | .loaded version keySets =>
    if c.resourceVersion < version then (c.update version keySets, .returned true)
    else (c, .returned false)
  | .returned taken => (c, .returned taken)

/-- What was loaded belongs to the write. -/
def Fits (call : CacheCall) : CachePhase → Prop
  | .loaded version keySets => call.version? = some version ∧ keySets = call.keySets
  | _ => True

variable {call : CacheCall} {c c' : SlotCache} {phase phase' : CachePhase}

theorem newer?_eq_some_iff {version : ℤ} :
    c.view.newer? call.token = some version ↔
      call.version? = some version ∧ c.resourceVersion < version := by
  rw [Cache.newer?, Option.filter_eq_some_iff, decide_eq_true_eq]
  rfl

theorem newer?_eq_none_iff :
    c.view.newer? call.token = none ↔
      ∀ version, call.version? = some version → version ≤ c.resourceVersion := by
  rw [Option.eq_none_iff_forall_ne_some]
  constructor
  · intro hnone version hversion
    by_contra hlt
    exact hnone version (newer?_eq_some_iff.2 ⟨hversion, by omega⟩)
  · intro hle version hnewer
    obtain ⟨hversion, hlt⟩ := newer?_eq_some_iff.1 hnewer
    have := hle version hversion
    omega

/-- What a step of a write that is not over does: it goes on without a trace, gives up because the
version is not newer, or puts its key sets into the cache because it is. -/
theorem step_cases (hfits : call.Fits phase) (hopen : ∀ taken, phase ≠ .returned taken)
    (h : call.step c phase = (c', phase')) :
    (∃ version, call.version? = some version ∧ phase = .waiting ∧ c' = c ∧
        phase' = .loaded version call.keySets) ∨
      ((∀ version, call.version? = some version → version ≤ c.resourceVersion) ∧ c' = c ∧
        phase' = .returned false) ∨
      ∃ version, call.version? = some version ∧ c.resourceVersion < version ∧
        c'.view = ⟨version, call.keySets⟩ ∧ phase' = .returned true := by
  cases phase with
  | waiting =>
    rw [step] at h
    split at h
    next hnewer =>
      obtain ⟨rfl, rfl⟩ := Prod.mk.inj h
      exact Or.inr (Or.inl ⟨newer?_eq_none_iff.1 hnewer, rfl, rfl⟩)
    next version hnewer =>
      obtain ⟨hversion, hlt⟩ := newer?_eq_some_iff.1 hnewer
      cases call with
      | update object =>
        obtain ⟨rfl, rfl⟩ := Prod.mk.inj h
        exact Or.inl ⟨version, hversion, rfl, rfl, rfl⟩
      | delete token =>
        obtain ⟨rfl, rfl⟩ := Prod.mk.inj h
        exact Or.inr (Or.inr ⟨version, hversion, hlt, c.view_delete version, rfl⟩)
  | loaded version keySets =>
    obtain ⟨hversion, rfl⟩ := hfits
    rw [step] at h
    split_ifs at h with hlt
    · obtain ⟨rfl, rfl⟩ := Prod.mk.inj h
      exact Or.inr (Or.inr ⟨version, hversion, hlt, c.view_update version _, rfl⟩)
    · obtain ⟨rfl, rfl⟩ := Prod.mk.inj h
      refine Or.inr (Or.inl ⟨fun v hv => ?_, rfl, rfl⟩)
      rw [hversion, Option.some.injEq] at hv
      omega
  | returned taken => exact absurd rfl (hopen taken)

/-- A write with nothing in between takes two steps at most. -/
theorem step_step (call : CacheCall) (c : SlotCache) :
    let first := call.step c .waiting
    let second := call.step first.1 first.2
    second.1.view = (call.apply c.view).1 ∧ second.2 = .returned (call.apply c.view).2 := by
  cases hnewer : c.view.newer? call.token with
  | none => cases call <;> simp_all [step, apply, token, Cache.update, Cache.delete]
  | some version =>
    obtain ⟨-, hlt⟩ := newer?_eq_some_iff.1 hnewer
    cases call <;> simp_all [step, apply, token, Cache.update, Cache.delete]

end CacheCall

/-! ## Runs -/

/-- A cache and how far the writes to it have come. -/
structure CacheRun (n : ℕ) where
  cache : SlotCache
  phase : Fin n → CachePhase

namespace CacheRun

variable {n : ℕ}

def start : CacheRun n := ⟨.empty, fun _ => .waiting⟩

/-- The run after a step of a write. -/
def move (calls : Fin n → CacheCall) (s : CacheRun n) (i : Fin n) : CacheRun n :=
  let next := (calls i).step s.cache (s.phase i)
  ⟨next.1, Function.update s.phase i next.2⟩

/-- The run in which the writes take their steps in that order. -/
def run (calls : Fin n → CacheCall) (schedule : List (Fin n)) : CacheRun n :=
  schedule.foldl (move calls) start

/-- All writes are over. -/
def Finished (s : CacheRun n) : Prop := ∀ i, ∃ taken, s.phase i = .returned taken

variable {calls : Fin n → CacheCall} {s : CacheRun n}

theorem run_concat (schedule : List (Fin n)) (i : Fin n) :
    run calls (schedule ++ [i]) = (run calls schedule).move calls i := by
  rw [run, List.foldl_append]
  rfl

@[simp] theorem phase_move (i : Fin n) :
    (s.move calls i).phase i = ((calls i).step s.cache (s.phase i)).2 :=
  Function.update_self ..

theorem phase_move_of_ne {i j : Fin n} (h : j ≠ i) : (s.move calls i).phase j = s.phase j :=
  Function.update_of_ne h ..

/-- A write that is over changes nothing any more. -/
theorem move_of_returned {i : Fin n} {taken : Bool} (h : s.phase i = .returned taken) :
    s.move calls i = s := by
  rw [move, h]
  have hphase : Function.update s.phase i (.returned taken) = s.phase := by
    rw [← h, Function.update_eq_self]
  simp only [CacheCall.step, hphase]

/-- The cache is empty, or shows a write that was taken; nothing that is over was newer. -/
structure Newest (calls : Fin n → CacheCall) (s : CacheRun n) : Prop where
  fits : ∀ i, (calls i).Fits (s.phase i)
  shown : s.cache.view = .empty ∨ ∃ i version, (calls i).version? = some version ∧ 0 < version ∧
    s.phase i = .returned true ∧ s.cache.view = ⟨version, (calls i).keySets⟩
  seen : ∀ i taken version, s.phase i = .returned taken → (calls i).version? = some version →
    version ≤ s.cache.resourceVersion

theorem newest_start (calls : Fin n → CacheCall) : Newest calls start where
  fits _ := trivial
  shown := Or.inl SlotCache.view_empty
  seen _ _ _ h := by cases h

theorem Newest.resourceVersion_nonneg (h : Newest calls s) : 0 ≤ s.cache.resourceVersion := by
  have hview : s.cache.resourceVersion = s.cache.view.resourceVersion := rfl
  rcases h.shown with hempty | ⟨i, version, -, hpos, -, hshown⟩
  · rw [hview, hempty]
    exact Int.le_refl 0
  · rw [hview, hshown]
    exact hpos.le

/-- A write that is not over may go on if the cache shows the same as before or what the write has
for it, and if the write is not over while it is newer than the cache. -/
theorem Newest.proceed (h : Newest calls s) {i : Fin n}
    (hopen : ∀ taken, s.phase i ≠ .returned taken)
    {c : SlotCache} {phase : CachePhase} (hfits : (calls i).Fits phase)
    (hmono : s.cache.resourceVersion ≤ c.resourceVersion)
    (hshown : c.view = s.cache.view ∨ ∃ version, (calls i).version? = some version ∧ 0 < version ∧
      phase = .returned true ∧ c.view = ⟨version, (calls i).keySets⟩)
    (hseen : ∀ taken version, phase = .returned taken → (calls i).version? = some version →
      version ≤ c.resourceVersion) :
    Newest calls ⟨c, Function.update s.phase i phase⟩ where
  fits j := by
    dsimp only
    by_cases hj : j = i
    · subst hj
      rwa [Function.update_self]
    · rw [Function.update_of_ne hj]
      exact h.fits j
  shown := by
    rcases hshown with hsame | ⟨version, hversion, hpos, hphase, hview⟩
    · rw [hsame]
      refine h.shown.imp_right ?_
      rintro ⟨j, version, hversion, hpos, hphase, hview⟩
      have hne : j ≠ i := by
        rintro rfl
        exact hopen true hphase
      exact ⟨j, version, hversion, hpos, (Function.update_of_ne hne ..).trans hphase, hview⟩
    · exact Or.inr ⟨i, version, hversion, hpos, (Function.update_self ..).trans hphase, hview⟩
  seen j taken version hphase hversion := by
    by_cases hj : j = i
    · subst hj
      exact hseen taken version ((Function.update_self ..).symm.trans hphase) hversion
    · have hphase' := (Function.update_of_ne hj ..).symm.trans hphase
      exact (h.seen j taken version hphase' hversion).trans hmono

theorem Newest.move (h : Newest calls s) (i : Fin n) : Newest calls (s.move calls i) := by
  by_cases hopen : ∀ taken, s.phase i ≠ .returned taken
  · obtain ⟨c, phase, hstep⟩ : ∃ c phase, (calls i).step s.cache (s.phase i) = (c, phase) :=
      ⟨_, _, rfl⟩
    rw [CacheRun.move, hstep]
    rcases CacheCall.step_cases (h.fits i) hopen hstep with
      ⟨version, hversion, -, rfl, rfl⟩ | ⟨hle, rfl, rfl⟩ | ⟨version, hversion, hlt, hview, rfl⟩
    · exact h.proceed hopen ⟨hversion, rfl⟩ le_rfl (Or.inl rfl) fun _ _ heq => by cases heq
    · exact h.proceed hopen trivial le_rfl (Or.inl rfl) fun _ v _ hv => hle v hv
    · have hnow : c.resourceVersion = version := congrArg Cache.resourceVersion hview
      have hpos : 0 < version := lt_of_le_of_lt h.resourceVersion_nonneg hlt
      refine h.proceed hopen trivial (hnow ▸ hlt.le)
        (Or.inr ⟨version, hversion, hpos, rfl, hview⟩) ?_
      intro _ v _ hv
      rw [hversion, Option.some.injEq] at hv
      exact hv ▸ hnow.ge
  · obtain ⟨taken, htaken⟩ := not_forall_not.1 hopen
    rwa [move_of_returned htaken]

theorem newest_run (calls : Fin n → CacheCall) (schedule : List (Fin n)) :
    Newest calls (run calls schedule) := by
  induction schedule using List.reverseRecOn with
  | nil => exact newest_start calls
  | append_singleton rest i ih =>
    rw [run_concat]
    exact ih.move i

/-- The step with which a write is over tells whether its version was newer than the cache. -/
theorem Newest.taken_iff (h : Newest calls s) {i : Fin n}
    (hopen : ∀ taken, s.phase i ≠ .returned taken) {taken : Bool}
    (hover : (s.move calls i).phase i = .returned taken) :
    taken = true ↔
      ∃ version, (calls i).version? = some version ∧ s.cache.resourceVersion < version := by
  rw [phase_move] at hover
  obtain ⟨c, phase, hstep⟩ : ∃ c phase, (calls i).step s.cache (s.phase i) = (c, phase) :=
    ⟨_, _, rfl⟩
  rw [hstep] at hover
  rcases CacheCall.step_cases (h.fits i) hopen hstep with
    ⟨version, -, -, -, rfl⟩ | ⟨hle, -, rfl⟩ | ⟨version, hversion, hlt, -, rfl⟩
  · cases hover
  · cases hover
    refine iff_of_false Bool.false_ne_true ?_
    rintro ⟨version, hversion, hlt⟩
    have := hle version hversion
    omega
  · cases hover
    exact iff_of_true rfl ⟨version, hversion, hlt⟩

/-- A write whose version has no meaning is over with its first step and leaves the cache alone. -/
theorem Newest.move_of_version?_none (h : Newest calls s) {i : Fin n}
    (hnone : (calls i).version? = none) (hopen : ∀ taken, s.phase i ≠ .returned taken) :
    (s.move calls i).cache = s.cache ∧ (s.move calls i).phase i = .returned false := by
  obtain ⟨c, phase, hstep⟩ : ∃ c phase, (calls i).step s.cache (s.phase i) = (c, phase) :=
    ⟨_, _, rfl⟩
  rw [phase_move, CacheRun.move, hstep]
  rcases CacheCall.step_cases (h.fits i) hopen hstep with
    ⟨version, hversion, -⟩ | ⟨-, rfl, rfl⟩ | ⟨version, hversion, -⟩
  · rw [hnone] at hversion
    cases hversion
  · exact ⟨rfl, rfl⟩
  · rw [hnone] at hversion
    cases hversion

/-- Two steps of a write with nothing in between are the write as a whole. -/
theorem move_move_of_waiting {i : Fin n} (h : s.phase i = .waiting) :
    ((s.move calls i).move calls i).cache.view = ((calls i).apply s.cache.view).1 ∧
      ((s.move calls i).move calls i).phase i = .returned ((calls i).apply s.cache.view).2 := by
  obtain ⟨hview, hphase⟩ := (calls i).step_step s.cache
  rw [← h] at hview hphase
  rw [phase_move, phase_move]
  refine ⟨?_, hphase⟩
  rw [CacheRun.move, phase_move]
  exact hview

/-- A write is over after two of its steps. -/
theorem exists_returned_move_move (s : CacheRun n) (i : Fin n) :
    ∃ taken, ((s.move calls i).move calls i).phase i = .returned taken := by
  have hloaded : ∀ (c : SlotCache) version keySets,
      ∃ taken, ((calls i).step c (.loaded version keySets)).2 = .returned taken := by
    intro c version keySets
    rw [CacheCall.step]
    split_ifs <;> exact ⟨_, rfl⟩
  cases hphase : s.phase i with
  | waiting => exact ⟨_, (move_move_of_waiting hphase).2⟩
  | loaded version keySets =>
    obtain ⟨taken, htaken⟩ := hloaded s.cache version keySets
    have hfirst : (s.move calls i).phase i = .returned taken := by
      rw [phase_move, hphase, htaken]
    exact ⟨taken, by rw [move_of_returned hfirst, hfirst]⟩
  | returned taken =>
    rw [move_of_returned hphase, move_of_returned hphase]
    exact ⟨taken, hphase⟩

theorem returned_move {i j : Fin n} {taken : Bool} (h : s.phase j = .returned taken) :
    (s.move calls i).phase j = .returned taken := by
  by_cases hj : j = i
  · subst hj
    rwa [move_of_returned h]
  · rwa [phase_move_of_ne hj]

theorem returned_foldl_move {schedule : List (Fin n)} {j : Fin n} {taken : Bool}
    (h : s.phase j = .returned taken) :
    (schedule.foldl (move calls) s).phase j = .returned taken := by
  induction schedule generalizing s with
  | nil => exact h
  | cons i rest ih => exact ih (returned_move h)

/-- All writes are over after two steps of each. -/
theorem exists_returned_foldl_move {order : List (Fin n)} {i : Fin n} (hi : i ∈ order)
    (s : CacheRun n) :
    ∃ taken, ((order.flatMap fun i => [i, i]).foldl (move calls) s).phase i = .returned taken := by
  induction order generalizing s with
  | nil => cases hi
  | cons first rest ih =>
    rw [List.flatMap_cons, List.foldl_append]
    rcases List.mem_cons.1 hi with rfl | hi
    · obtain ⟨taken, htaken⟩ := exists_returned_move_move s i
      exact ⟨taken, returned_foldl_move htaken⟩
    · exact ih hi _

theorem finished_append (schedule : List (Fin n)) :
    (run calls (schedule ++ (List.finRange n).flatMap fun i => [i, i])).Finished := by
  intro i
  rw [run, List.foldl_append]
  exact exists_returned_foldl_move (List.mem_finRange i) _

/-! ## The end of a run -/

/-- The newest of the writes that are over is what the cache shows. -/
theorem Newest.view_eq (h : Newest calls s) (hover : s.Finished)
    (hdistinct : ∀ i j version, (calls i).version? = some version →
      (calls j).version? = some version → i = j) {i : Fin n} {version : ℤ}
    (hversion : (calls i).version? = some version) (hpos : 0 < version)
    (hgreatest : ∀ j other, (calls j).version? = some other → other ≤ version) :
    s.cache.view = ⟨version, (calls i).keySets⟩ := by
  obtain ⟨taken, htaken⟩ := hover i
  have hseen := h.seen i taken version htaken hversion
  rcases h.shown with hempty | ⟨j, shown, hshown, -, -, hview⟩
  · have hzero : s.cache.resourceVersion = 0 := congrArg Cache.resourceVersion hempty
    omega
  · have hnow : s.cache.resourceVersion = shown := congrArg Cache.resourceVersion hview
    have hle := hgreatest j shown hshown
    obtain rfl : shown = version := by omega
    rw [hview, hdistinct i j shown hversion hshown]

/-- Without a positive version the cache stays empty. -/
theorem Newest.view_eq_empty (h : Newest calls s)
    (hnone : ∀ i version, (calls i).version? = some version → version ≤ 0) :
    s.cache.view = .empty := by
  rcases h.shown with hempty | ⟨i, version, hversion, hpos, -, -⟩
  · exact hempty
  · have := hnone i version hversion
    omega

/-- Two runs of the same writes end with the same cache. -/
theorem Newest.view_unique {t : CacheRun n} (h : Newest calls s) (ht : Newest calls t)
    (hover : s.Finished) (htover : t.Finished)
    (hdistinct : ∀ i j version, (calls i).version? = some version →
      (calls j).version? = some version → i = j) : s.cache.view = t.cache.view := by
  rcases ht.shown with hempty | ⟨i, version, hversion, hpos, -, hview⟩
  · rw [hempty]
    apply h.view_eq_empty
    intro i version hversion
    obtain ⟨taken, htaken⟩ := htover i
    have hseen := ht.seen i taken version htaken hversion
    have hzero : t.cache.resourceVersion = 0 := congrArg Cache.resourceVersion hempty
    omega
  · rw [hview]
    apply h.view_eq hover hdistinct hversion hpos
    intro j other hother
    obtain ⟨taken, htaken⟩ := htover j
    have hseen := ht.seen j taken other htaken hother
    have hnow : t.cache.resourceVersion = version := congrArg Cache.resourceVersion hview
    omega

/-- Writes to a cache commute. Whatever the order of their steps, in the end the cache shows the
newest of them, or nothing if no version is positive; a write returns whether its version was newer
than the cache at that step; one whose version has no meaning changes nothing; a write with nothing
in between is the update or the deletion as a whole; and every run can be brought to its end. -/
theorem writes_commute (calls : Fin n → CacheCall)
    (hdistinct : ∀ i j version, (calls i).version? = some version →
      (calls j).version? = some version → i = j) :
    (∀ schedule, (run calls schedule).Finished →
        (∀ i version, (calls i).version? = some version → 0 < version →
          (∀ j other, (calls j).version? = some other → other ≤ version) →
          (run calls schedule).cache.view = ⟨version, (calls i).keySets⟩) ∧
        ((∀ i version, (calls i).version? = some version → version ≤ 0) →
          (run calls schedule).cache.view = .empty)) ∧
      (∀ schedule other, (run calls schedule).Finished → (run calls other).Finished →
        (run calls schedule).cache.view = (run calls other).cache.view) ∧
      (∀ schedule i, (∀ taken, (run calls schedule).phase i ≠ .returned taken) →
        (∀ taken, (run calls (schedule ++ [i])).phase i = .returned taken →
          (taken = true ↔ ∃ version, (calls i).version? = some version ∧
            (run calls schedule).cache.view.resourceVersion < version)) ∧
        ((calls i).version? = none →
          (run calls (schedule ++ [i])).cache = (run calls schedule).cache ∧
            (run calls (schedule ++ [i])).phase i = .returned false)) ∧
      (∀ schedule i, (run calls schedule).phase i = .waiting →
        (run calls (schedule ++ [i, i])).cache.view =
            ((calls i).apply (run calls schedule).cache.view).1 ∧
          (run calls (schedule ++ [i, i])).phase i =
            .returned ((calls i).apply (run calls schedule).cache.view).2) ∧
      ∀ schedule, ∃ more, (run calls (schedule ++ more)).Finished := by
  have hnewest := newest_run calls
  refine ⟨fun schedule hover => ⟨fun i version => (hnewest schedule).view_eq hover hdistinct,
      (hnewest schedule).view_eq_empty⟩,
    fun schedule other hover hother =>
      (hnewest schedule).view_unique (hnewest other) hover hother hdistinct, ?_, ?_,
    fun schedule => ⟨_, finished_append schedule⟩⟩
  · intro schedule i hopen
    rw [run_concat]
    exact ⟨fun taken => (hnewest schedule).taken_iff hopen,
      fun hnone => (hnewest schedule).move_of_version?_none hnone hopen⟩
  · intro schedule i hwaiting
    have hrun : run calls (schedule ++ [i, i]) =
        ((run calls schedule).move calls i).move calls i := by
      rw [run, List.foldl_append]
      rfl
    rw [hrun]
    exact move_move_of_waiting hwaiting

/-- An object with an empty key set. -/
def offered (token : String) : StoredObject :=
  ⟨"n", "o", token, SortedMap.empty.insert "keyset.s" (Bytes.ofAscii "\x7b\x7d")⟩

/-- Two updates, a deletion, and an update whose version has no meaning. -/
def overlapping : Fin 4 → CacheCall :=
  ![.update (offered "3"), .update (offered "1"), .delete "2", .update (offered "?")]

/-- While the first write loads its key sets, the second one comes too late for the deletion. -/
theorem writes_commute_overlapping :
    (run overlapping [0, 1, 2, 1, 0, 3]).Finished ∧
      (run overlapping [0, 1, 2, 1, 0, 3]).cache.view = ⟨3, .ofObject (offered "3")⟩ ∧
      (run overlapping [0, 1, 2, 1, 0, 3]).cache.view =
        (run overlapping [3, 2, 1, 0, 0]).cache.view := by
  have hversion : ∀ i, (overlapping i).version? = ![some 3, some 1, some 2, none] i := by decide
  have hdistinct : ∀ i j version, (overlapping i).version? = some version →
      (overlapping j).version? = some version → i = j := by
    intro i j version hi hj
    rw [hversion] at hi hj
    fin_cases i <;> fin_cases j <;> simp_all <;> omega
  have hgreatest : ∀ j other, (overlapping j).version? = some other → other ≤ 3 := by
    intro j other hj
    rw [hversion] at hj
    fin_cases j <;> simp_all <;> omega
  have hover : (run overlapping [0, 1, 2, 1, 0, 3]).Finished := by
    intro i
    fin_cases i <;> exact ⟨_, rfl⟩
  have hother : (run overlapping [3, 2, 1, 0, 0]).Finished := by
    intro i
    fin_cases i <;> exact ⟨_, rfl⟩
  obtain ⟨hend, hsame, -⟩ := writes_commute overlapping hdistinct
  exact ⟨hover, (hend _ hover).1 0 3 (hversion 0) (by decide) hgreatest, hsame _ _ hover hother⟩

end CacheRun
end Keyring
