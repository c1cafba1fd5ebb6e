import Keyring.Proofs.Retry.Fixed
import Keyring.Proofs.Settings.Numbers
import Keyring.Proofs.WatchLoop.Course
import Keyring.SyncOptions

/-!
# Pauses that settings ask for

The store that is built from accepted settings makes one and the same pause after every interruption
of its watch, however many failures went before. The pause is the one that was asked for if its
seconds fit into 53 bits. For the greatest number of seconds there is no pause: the watch breaks off
and does nothing more.
-/
namespace Keyring

namespace WatchLoop

variable {l : WatchLoop}

/-- Whether an input interrupts what a loop is at: a failure, an event that breaks the watch off, or
its end. -/
def Interrupts (l : WatchLoop) : LoopInput → Prop
  | .listed (.error _) => l.phase = .listing
  | .opened (.error _) => ∃ token, l.phase = .opening token
  | .event event => l.phase = .watching ∧ BreaksOff l.target event
  | .ended => l.phase = .watching
  | .listed (.ok _) | .opened (.ok _) | .wake | .cancel => False

/-- A loop hears what interrupts it, and fails. -/
theorem step_of_interrupts {input : LoopInput} (h : l.Interrupts input) (cache : Cache) :
    l.hears input = true ∧ (⟨l, cache⟩ : WatchedCache).step input = ⟨l.fail, cache⟩ := by
  cases input with
  | listed result =>
    cases result with
    | ok list => exact h.elim
    | error failure =>
      refine ⟨decide_eq_true h, ?_⟩
      rw [WatchedCache.step, if_pos (by exact h)]
      rfl
  | opened result =>
    cases result with
    | ok => exact h.elim
    | error failure =>
      obtain ⟨token, hphase⟩ := h
      simp [hears, WatchedCache.step, hphase, opened]
  | event event =>
    obtain ⟨hphase, hbreaks⟩ := h
    refine ⟨decide_eq_true hphase, ?_⟩
    rw [WatchedCache.step, if_pos hphase, receive_of_breaksOff hbreaks]
  | ended =>
    refine ⟨decide_eq_true h, ?_⟩
    rw [WatchedCache.step, if_pos (by exact h)]
  | wake | cancel => exact h.elim

end WatchLoop

namespace WatchCall

variable {c : WatchCall} {l : WatchLoop}

/-- The loop of a watch, if there is one, has the policy of the watch. -/
def Keeps (c : WatchCall) : Prop := ∀ l, c.loop = some l → l.backoff = c.backoff

theorem Keeps.step (hc : c.Keeps) (h : Happening) : (c.step h).1.Keeps := by
  have hsame : ∀ {loop}, loop = c.loop → ∀ l, loop = some l → l.backoff = c.backoff := by
    rintro loop rfl l hl
    exact hc l hl
  rw [Keeps, backoff_step]
  cases h with
  | begins =>
    rw [WatchCall.step]
    split
    next =>
      intro l hl
      rw [← Option.some.inj hl]
      rfl
    next => exact hsame rfl
  | told input hinput =>
    rw [WatchCall.step]
    split
    next => exact hsame rfl
    next l hl =>
      split
      · intro l' hl'
        rw [← Option.some.inj hl']
        exact (WatchedCache.fixed_step _ _).2.trans (hc l hl)
      · exact hsame rfl
  | cached | sent | dropped => exact hsame rfl
  | looks =>
    rw [WatchCall.step]
    split
    · intro l hl
      rw [← Option.some.inj hl]
      cases hloop : c.loop with
      | none => rfl
      | some l' => exact hc l' hloop
    · exact hsame rfl

theorem Keeps.run (hc : c.Keeps) (happenings : List Happening) :
    (c.run happenings).Keeps ∧ (c.run happenings).backoff = c.backoff := by
  induction happenings generalizing c with
  | nil => exact ⟨hc, rfl⟩
  | cons h rest ih =>
    obtain ⟨hkeeps, hbackoff⟩ := ih (hc.step h)
    exact ⟨hkeeps, hbackoff.trans (c.backoff_step h)⟩

/-- A watch that is over does nothing more. -/
theorem acts_of_isOver (hl : c.loop = some l) (hover : l.isOver = true) (later : List Happening) :
    c.acts later = [] ∧ (c.run later).loop = some l := by
  induction later generalizing c with
  | nil => exact ⟨rfl, hl⟩
  | cons h rest ih =>
    have hstep : (c.step h).2 = [] ∧ (c.step h).1.loop = some l := by
      cases h with
      | begins => simp [step, hl]
      | told input hinput => simp [step, hl, not_hears_of_isOver hover hinput]
      | cached | sent | dropped => exact ⟨rfl, hl⟩
      | looks =>
        have hcall : c.isOver = true := by simp [isOver, hl, hover]
        simp [step, hcall, hl]
    obtain ⟨hacts, hrun⟩ := ih hstep.2
    exact ⟨by rw [acts, hstep.1, hacts]; rfl, hrun⟩

/-- A watch that is interrupted backs off if its policy has a pause, and breaks off otherwise. -/
theorem step_of_interrupts (hl : c.loop = some l) {input : LoopInput} (hinput : input ≠ .cancel)
    (hinterrupts : l.Interrupts input) :
    match l.backoff.delay? l.nextFailures with
    | some delay => (c.step (.told input hinput)).2 = [.shows .backoff, .pauses delay] ∧
        (c.step (.told input hinput)).1.loop.map WatchLoop.phase = some (.backoff delay)
    | none => (c.step (.told input hinput)).2 = [] ∧
        (c.step (.told input hinput)).1.loop.map WatchLoop.phase = some (.broken l.state) := by
  obtain ⟨hhears, hstep⟩ := WatchLoop.step_of_interrupts hinterrupts c.cache
  have htold : c.step (.told input hinput) =
      ({ c with loop := some l.fail }, l.acts l.fail.phase) := by
    simp [step, hl, hhears, hstep]
  rw [htold]
  split
  next delay hdelay => simp [WatchLoop.fail, hdelay, WatchLoop.acts, LoopAct.entering]
  next hnone => simp [WatchLoop.fail, hnone, WatchLoop.acts, LoopAct.entering]

end WatchCall

/-! ## Watches of accepted settings -/

namespace Settings

variable {vars : Variables} {s : Settings}

/-- The pauses of a watch for which settings ask. -/
theorem delay?_watchBackoff (h : ofVariables vars = .ok s) {attempt : ℕ} (hattempt : 1 ≤ attempt) :
    (SyncOptions.ofSettings s).watchBackoff.delay? attempt =
      RetryPolicy.fixedPause s.watchBackoffSeconds :=
  RetryPolicy.delay?_fixed (NumberSetting.field_coarse h .watchBackoffSeconds).1 hattempt

/-- Of all numbers of seconds that are accepted, only the greatest one has no pause. -/
theorem fixedPause_eq_none_iff (h : ofVariables vars = .ok s) :
    RetryPolicy.fixedPause s.watchBackoffSeconds = none ↔ s.watchBackoffSeconds = 2 ^ 64 - 1 := by
  have hcoarse : s.watchBackoffSeconds < 2 ^ 64 ∧ (s.watchBackoffSeconds < 2 ^ 63 ∨
      2048 ∣ s.watchBackoffSeconds ∨ s.watchBackoffSeconds = 2 ^ 64 - 1) :=
    NumberSetting.field_coarse h .watchBackoffSeconds
  rw [RetryPolicy.fixedPause_eq_none_iff hcoarse.1]
  omega

/-- Whatever has happened to the watch of a store with accepted settings, and however often it has
failed, an interruption is followed by one and the same pause. Its seconds are the accepted ones,
rounded to 53 bits, so it is the pause that was asked for exactly if they fit. There is no pause
exactly for the greatest number of seconds; then the watch breaks off for good and goes on to show
what it did before. -/
theorem interruption_pauses (h : ofVariables vars = .ok s) (target : ObjectName) (cache : Cache)
    (happenings : List Happening) {l : WatchLoop} {input : LoopInput} (hinput : input ≠ .cancel)
    (hl : ((WatchCall.start target (SyncOptions.ofSettings s).watchBackoff cache).run
      happenings).loop = some l) (hinterrupts : l.Interrupts input) :
    let policy := (SyncOptions.ofSettings s).watchBackoff
    let told := ((WatchCall.start target policy cache).run happenings).step (.told input hinput)
    ∃ pause : Option Duration, (∀ attempt, 1 ≤ attempt → policy.delay? attempt = pause) ∧
      (pause = some s.watchBackoff ↔ 2 ^ Binary64.excess s.watchBackoffSeconds ∣
        s.watchBackoffSeconds) ∧
      (pause = none ↔ s.watchBackoffSeconds = 2 ^ 64 - 1) ∧
      (∀ delay, pause = some delay →
        delay.nanos = Binary64.rounded s.watchBackoffSeconds * nanosPerSecond ∧
        told.2 = [.shows .backoff, .pauses delay] ∧
        told.1.loop.map WatchLoop.phase = some (.backoff delay)) ∧
      (pause = none → told.2 = [] ∧ ∀ later, told.1.acts later = [] ∧
        (told.1.run later).loop.map WatchLoop.phase = some (.broken l.state)) := by
  intro policy told
  have hlimit : s.watchBackoffSeconds < 2 ^ 64 :=
    (NumberSetting.field_coarse h .watchBackoffSeconds).1
  have hstart : (WatchCall.start target policy cache).Keeps := fun _ hnone => by cases hnone
  obtain ⟨hkeeps, hbackoff⟩ := hstart.run happenings
  have hpolicy : l.backoff = policy := (hkeeps l hl).trans hbackoff
  have hstep := WatchCall.step_of_interrupts hl hinput hinterrupts
  rw [hpolicy, delay?_watchBackoff h l.nextFailures_pos] at hstep
  refine ⟨RetryPolicy.fixedPause s.watchBackoffSeconds, fun _ => delay?_watchBackoff h,
    RetryPolicy.fixedPause_eq_some_iff hlimit, fixedPause_eq_none_iff h, fun delay hdelay => ?_,
    fun hnone => ?_⟩
  · rw [hdelay] at hstep
    exact ⟨RetryPolicy.nanos_fixedPause hdelay, hstep⟩
  · rw [hnone] at hstep
    refine ⟨hstep.1, fun later => ?_⟩
    obtain ⟨broken, hbroken, hphase⟩ := Option.map_eq_some_iff.1 hstep.2
    have hover : broken.isOver = true := by rw [WatchLoop.isOver, hphase]
    obtain ⟨hacts, hrun⟩ := WatchCall.acts_of_isOver hbroken hover later
    exact ⟨hacts, by rw [hrun, Option.map_some, hphase]⟩

/-- A watch of the standard settings that ends pauses for ten seconds. -/
theorem interruption_pauses_ended :
    let before := (WatchCall.start ⟨"n", "o"⟩ (SyncOptions.ofSettings standard).watchBackoff
      .empty).run [.begins, .told (.listed (.ok ⟨[], "1"⟩)) (by simp),
        .told (.opened (.ok ())) (by simp)]
    (before.step (.told .ended (by simp))).2 =
      [.shows .backoff, .pauses (Duration.ofSeconds 10)] := by
  intro before
  have haccepted : ofVariables .empty = .ok standard := eq_ok_of_toOption (by decide +kernel)
  obtain ⟨l, hl, hphase⟩ : ∃ l, before.loop = some l ∧ l.phase = .watching :=
    Option.map_eq_some_iff.1 (by decide +kernel)
  obtain ⟨pause, -, hpause, -, hsome, -⟩ := interruption_pauses haccepted ⟨"n", "o"⟩ .empty
    [.begins, .told (.listed (.ok ⟨[], "1"⟩)) (by simp), .told (.opened (.ok ())) (by simp)]
    (show LoopInput.ended ≠ .cancel by simp) hl hphase
  exact (hsome _ (hpause.2 (by decide +kernel))).2.1

/-- For the greatest number of seconds there is no pause at all. -/
theorem pause_not_kept :
    ¬ ∀ (vars : Variables) (s : Settings) (attempt : ℕ), ofVariables vars = .ok s → 1 ≤ attempt →
      (SyncOptions.ofSettings s).watchBackoff.delay? attempt = some s.watchBackoff := by
  intro hkept
  have haccepted : ofVariables (alone "KEYWARD_WATCH_BACKOFF_SECS" "18446744073709551615") =
      .ok { standard with watchBackoffSeconds := 18446744073709551615 } :=
    eq_ok_of_toOption (by decide +kernel)
  have hpause := hkept _ _ 1 haccepted le_rfl
  rw [delay?_watchBackoff haccepted le_rfl, (fixedPause_eq_none_iff haccepted).2 rfl] at hpause
  cases hpause

end Settings
end Keyring
