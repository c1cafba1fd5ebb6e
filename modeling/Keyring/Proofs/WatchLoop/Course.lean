import Keyring.Proofs.Retry
import Keyring.Proofs.WatchLoop

/-!
# The course of a watch

A watch is one call that lists, watches and backs off until it is asked to stop. What it shows of
its state, what it asks the backend for and how long it pauses follow a fixed order, whatever the
backend tells it and whenever it is asked to stop. Once it has returned it does nothing more.
-/
namespace Keyring

/-- What a watch does that can be seen from outside. -/
inductive LoopAct
  | shows (state : WatchState)
  /-- The backend is asked for a list. -/
  | lists
  /-- The backend is asked for a watch from that version on. -/
  | opens (token : String)
  /-- The watch that is open is asked for the next event. -/
  | asks
  | pauses (delay : Duration)
  | returns (result : Except KeyError Unit)

namespace LoopAct

def state? : LoopAct → Option WatchState
  | shows state => some state
  | _ => none

def pause? : LoopAct → Option Duration
  | pauses delay => some delay
  | _ => none

/-- What a loop does when it enters a phase. -/
def entering : LoopPhase → List LoopAct
  | .listing => [shows .listing, lists]
  | .opening token => [opens token]
  | .watching => [shows .watching, asks]
  | .backoff delay => [shows .backoff, pauses delay]
  | .stopped => [shows .stopped, returns (.ok ())]
  | .broken _ => []

end LoopAct

/-! ## Watches with their channel -/

/-- A watch, with the channel on which it can be asked to stop. It has no loop before its first
turn. -/
structure WatchCall where
  target : ObjectName
  backoff : RetryPolicy
  loop : Option WatchLoop
  cache : Cache
  /-- The last thing that was sent: whether to stop. -/
  asked : Bool
  /-- The sender is still there. -/
  held : Bool

/-- What happens to a watch. -/
inductive Happening
  /-- The watch gets its first turn. -/
  | begins
  /-- The backend tells something, or a pause is over. -/
  | told (input : LoopInput) (hinput : input ≠ .cancel)
  /-- Others write to the cache. -/
  | cached (cache : Cache)
  | sent (stop : Bool)
  | dropped
  /-- The watch looks at the channel. -/
  | looks

/-- Whether a loop waits for an input of that kind. -/
def WatchLoop.hears (l : WatchLoop) : LoopInput → Bool
  | .listed _ => l.phase = .listing
  | .opened _ => match l.phase with
    | .opening _ => true
    | _ => false
  | .event _ | .ended => l.phase = .watching
  | .wake => match l.phase with
    | .backoff _ => true
    | _ => false
  | .cancel => !l.isOver

/-- What a loop does as it goes on to a phase. A watch that goes on is asked for the next event. -/
def WatchLoop.acts (l : WatchLoop) (next : LoopPhase) : List LoopAct :=
  if l.phase = .watching ∧ next = .watching then [.asks] else LoopAct.entering next

namespace WatchCall

def start (target : ObjectName) (backoff : RetryPolicy) (cache : Cache) : WatchCall :=
  ⟨target, backoff, none, cache, false, true⟩

/-- Whether a look at the channel ends the watch: it was asked to stop, or nobody can ask any
more. -/
def isCalledOff (c : WatchCall) : Bool := c.asked || !c.held

def isOver (c : WatchCall) : Bool := c.loop.any WatchLoop.isOver

/-- What a happening leaves behind, and what the watch does. -/
def step (c : WatchCall) : Happening → WatchCall × List LoopAct
  | .begins =>
    match c.loop with
    | none => ({ c with loop := some (.start c.target c.backoff) }, LoopAct.entering .listing)
    | some _ => (c, [])
  | .told input _ =>
    match c.loop with
    | none => (c, [])
    | some l =>
      if l.hears input then
        let next := (⟨l, c.cache⟩ : WatchedCache).step input
        ({ c with loop := some next.loop, cache := next.cache }, l.acts next.loop.phase)
      else (c, [])
  | .cached cache => ({ c with cache }, [])
  | .sent stop => ({ c with asked := stop }, [])
  | .dropped => ({ c with held := false }, [])
  | .looks =>
    if c.isCalledOff ∧ ¬ c.isOver then
      ({ c with loop := some ((c.loop.getD (.start c.target c.backoff)).cancel) },
        LoopAct.entering .stopped)
    else (c, [])

def run (c : WatchCall) : List Happening → WatchCall
  | [] => c
  | h :: rest => (c.step h).1.run rest

/-- What a watch does while things happen. -/
def acts (c : WatchCall) : List Happening → List LoopAct
  | [] => []
  | h :: rest => (c.step h).2 ++ (c.step h).1.acts rest

end WatchCall

/-! ## Turns -/

/-- Whether a loop is in an attempt to watch. -/
def LoopPhase.IsAttempt (phase : LoopPhase) : Prop :=
  phase = .listing ∨ (∃ token, phase = .opening token) ∨ phase = .watching

/-- A turn in which a watch goes on: what it does and what becomes of its loop. -/
inductive Move (first : WatchLoop) : Option WatchLoop → List LoopAct → Option WatchLoop → Prop
  | idle (loop : Option WatchLoop) : Move first loop [] loop
  | begins : Move first none [.shows .listing, .lists] (some first)
  | opens {l : WatchLoop} (h : l.phase = .listing) (token : String) :
    Move first (some l) [.opens token] (some { l with phase := .opening token })
  | watches {l : WatchLoop} {token : String} (h : l.phase = .opening token) :
    Move first (some l) [.shows .watching, .asks] (some { l with phase := .watching })
  | goesOn {l : WatchLoop} (h : l.phase = .watching) : Move first (some l) [.asks] (some l)
  | backsOff {l : WatchLoop} (h : l.phase.IsAttempt) {delay : Duration}
    (hdelay : l.backoff.delay? l.nextFailures = some delay) :
    Move first (some l) [.shows .backoff, .pauses delay]
      (some { l with phase := .backoff delay, failures := l.nextFailures })
  | resumes {l : WatchLoop} {delay : Duration} (h : l.phase = .backoff delay) :
    Move first (some l) [.shows .listing, .lists] (some l.resume)

/-- A turn of a watch that is not over. -/
inductive Turn (first : WatchLoop) : Option WatchLoop → List LoopAct → Option WatchLoop → Prop
  | move {loop next : Option WatchLoop} {acts : List LoopAct} (h : Move first loop acts next) :
    Turn first loop acts next
  | stops {loop : Option WatchLoop} (h : loop.any WatchLoop.isOver = false) :
    Turn first loop [.shows .stopped, .returns (.ok ())] (some (loop.getD first).cancel)

namespace WatchLoop

variable {first l : WatchLoop} {cache : Cache}

theorem nextFailures_le (l : WatchLoop) : l.nextFailures ≤ maxFailures := by
  unfold nextFailures
  split
  · decide
  · exact Nat.min_le_right _ _

/-- An attempt that fails is followed by a pause, if all pauses can be computed. -/
theorem move_fail (hdelays : l.backoff.DefinedTo maxFailures) (hattempt : l.phase.IsAttempt) :
    Move first (some l) (l.acts l.fail.phase) (some l.fail) := by
  obtain ⟨delay, hdelay⟩ := Option.isSome_iff_exists.1
    (hdelays l.nextFailures l.nextFailures_pos l.nextFailures_le)
  have hfail : l.fail = { l with phase := .backoff delay, failures := l.nextFailures } := by
    rw [fail, hdelay]
  rw [hfail]
  simp only [acts, reduceCtorEq, and_false, if_false, LoopAct.entering]
  exact .backsOff hattempt hdelay

/-- A loop that takes an event goes on to watch or fails. -/
theorem move_receive (hdelays : l.backoff.DefinedTo maxFailures) (hphase : l.phase = .watching)
    (event : WatchEvent) :
    Move first (some l) (l.acts (l.receive cache event).1.phase)
      (some (l.receive cache event).1) := by
  have hfail : Move first (some l) (l.acts l.fail.phase) (some l.fail) :=
    move_fail hdelays (Or.inr (Or.inr hphase))
  have hgoesOn : Move first (some l) (l.acts l.phase) (some l) := by
    rw [acts, if_pos ⟨hphase, hphase⟩]
    exact .goesOn hphase
  unfold receive
  split
  case h_1 | h_2 | h_3 =>
    split
    · exact hgoesOn
    · exact hfail
  case h_4 => exact hgoesOn
  case h_5 => exact hfail

/-- What a loop hears leads to one of its moves. -/
theorem move_of_hears (hdelays : l.backoff.DefinedTo maxFailures) {input : LoopInput}
    (hinput : input ≠ .cancel) (hhears : l.hears input = true) :
    Move first (some l) (l.acts ((⟨l, cache⟩ : WatchedCache).step input).loop.phase)
      (some ((⟨l, cache⟩ : WatchedCache).step input).loop) := by
  cases input with
  | listed result =>
    have hphase : l.phase = .listing := of_decide_eq_true hhears
    rw [WatchedCache.step, if_pos hphase]
    cases result with
    | error failure => exact move_fail hdelays (Or.inl hphase)
    | ok list =>
      have hacts : l.acts (.opening list.resourceVersion) = [.opens list.resourceVersion] := by
        simp [acts, LoopAct.entering]
      rw [listed]
      dsimp only
      rw [hacts]
      exact .opens hphase list.resourceVersion
  | opened result =>
    cases hphase : l.phase with
    | opening token =>
      simp only [WatchedCache.step, hphase]
      cases result with
      | error failure => exact move_fail hdelays (Or.inr (Or.inl ⟨token, hphase⟩))
      | ok =>
        have hacts : l.acts .watching = [.shows .watching, .asks] := by
          simp [acts, LoopAct.entering, hphase]
        rw [opened, hacts]
        exact .watches hphase
    | listing | watching | backoff | stopped | broken => simp [hears, hphase] at hhears
  | event event =>
    have hphase : l.phase = .watching := of_decide_eq_true hhears
    rw [WatchedCache.step, if_pos hphase]
    exact move_receive hdelays hphase event
  | ended =>
    have hphase : l.phase = .watching := of_decide_eq_true hhears
    rw [WatchedCache.step, if_pos hphase]
    exact move_fail hdelays (Or.inr (Or.inr hphase))
  | wake =>
    cases hphase : l.phase with
    | backoff delay =>
      have hacts : l.acts .listing = [.shows .listing, .lists] := by
        simp [acts, LoopAct.entering]
      simp only [WatchedCache.step, hphase]
      rw [resume, hacts]
      exact .resumes hphase
    | listing | opening | watching | stopped | broken => simp [hears, hphase] at hhears
  | cancel => exact absurd rfl hinput

end WatchLoop

/-- Turns one after the other. -/
inductive Turns (first : WatchLoop) : Option WatchLoop → List LoopAct → Option WatchLoop → Prop
  | nil (loop : Option WatchLoop) : Turns first loop [] loop
  | cons {loop next last : Option WatchLoop} {acts later : List LoopAct}
    (h : Turn first loop acts next) (hrest : Turns first next later last) :
    Turns first loop (acts ++ later) last

/-- A loop with that policy that has not broken off, if there is a loop. -/
def Obeys (backoff : RetryPolicy) (loop : Option WatchLoop) : Prop :=
  ∀ l, loop = some l → l.backoff = backoff ∧ ∀ last, l.phase ≠ .broken last

theorem obeys_some {backoff : RetryPolicy} {l : WatchLoop} :
    Obeys backoff (some l) ↔ l.backoff = backoff ∧ ∀ last, l.phase ≠ .broken last := by
  constructor
  · exact fun h => h l rfl
  · rintro h other hother
    rwa [← Option.some.inj hother]

section Turn

variable {first : WatchLoop} {loop next last : Option WatchLoop} {acts : List LoopAct}
  {backoff : RetryPolicy}

theorem Turn.obeys (h : Turn first loop acts next) (hfirst : Obeys backoff (some first))
    (hloop : Obeys backoff loop) : Obeys backoff next := by
  cases h with
  | move h =>
    cases h with
    | idle => exact hloop
    | begins => exact hfirst
    | goesOn => exact hloop
    | opens | watches | backsOff | resumes =>
      exact obeys_some.2 ⟨(obeys_some.1 hloop).1, fun last hlast => by cases hlast⟩
  | stops =>
    refine obeys_some.2 ⟨?_, fun last hlast => by cases hlast⟩
    cases loop with
    | none => exact (obeys_some.1 hfirst).1
    | some l => exact (obeys_some.1 hloop).1

end Turn

namespace WatchCall

variable {c : WatchCall} {h : Happening}

/-- A watch whose pauses can all be computed, and whose loop has not broken off. -/
structure Regular (c : WatchCall) : Prop where
  delays : c.backoff.DefinedTo WatchLoop.maxFailures
  loop : Obeys c.backoff c.loop

def first (c : WatchCall) : WatchLoop := .start c.target c.backoff

theorem obeys_first (c : WatchCall) : Obeys c.backoff (some c.first) :=
  obeys_some.2 ⟨rfl, fun last hlast => by cases hlast⟩

@[simp] theorem backoff_step (c : WatchCall) (h : Happening) : (c.step h).1.backoff = c.backoff := by
  unfold step
  split <;> (try split) <;> (try split) <;> rfl

@[simp] theorem first_step (c : WatchCall) (h : Happening) : (c.step h).1.first = c.first := by
  unfold step
  split <;> (try split) <;> (try split) <;> rfl

/-- Unless it looks at the channel, the watch goes on. -/
theorem Regular.move (hc : c.Regular) (hlooks : h ≠ .looks) :
    Move c.first c.loop (c.step h).2 (c.step h).1.loop := by
  cases h with
  | begins =>
    rw [step]
    split
    next hnone =>
      rw [hnone]
      exact .begins
    next => exact .idle _
  | told input hinput =>
    rw [step]
    split
    next hnone => exact .idle _
    next l hl =>
      split
      next hhears =>
        rw [hl]
        have hdelays : l.backoff.DefinedTo WatchLoop.maxFailures := (hc.loop l hl).1 ▸ hc.delays
        exact WatchLoop.move_of_hears hdelays hinput hhears
      next => exact .idle _
  | cached | sent | dropped => exact .idle _
  | looks => exact absurd rfl hlooks

/-- Whatever happens, the watch takes one of its turns. -/
theorem Regular.turn (hc : c.Regular) (h : Happening) :
    Turn c.first c.loop (c.step h).2 (c.step h).1.loop := by
  cases h with
  | looks =>
    rw [step]
    split
    next hstop => exact .stops (Bool.not_eq_true _ ▸ hstop.2)
    next => exact .move (.idle _)
  | begins | told | cached | sent | dropped => exact .move (hc.move (by simp))

theorem Regular.step (hc : c.Regular) (h : Happening) : (c.step h).1.Regular := by
  refine ⟨by rw [backoff_step]; exact hc.delays, ?_⟩
  rw [backoff_step]
  exact (hc.turn h).obeys c.obeys_first hc.loop

/-- A run of a watch is made of turns. -/
theorem Regular.turns (hc : c.Regular) (happenings : List Happening) :
    Turns c.first c.loop (c.acts happenings) (c.run happenings).loop := by
  induction happenings generalizing c with
  | nil => exact .nil _
  | cons h rest ih =>
    have hrest := ih (hc.step h)
    rw [first_step] at hrest
    exact .cons (hc.turn h) hrest

end WatchCall

/-! ## States -/

/-- What a watch shows; before its first turn it shows nothing of its own. -/
def shown (loop : Option WatchLoop) : WatchState := loop.elim .idle WatchLoop.state

/-- The states that may be shown after a state. -/
def WatchState.Leads : WatchState → WatchState → Prop
  | idle, next => next = listing ∨ next = stopped
  | listing, next => next = watching ∨ next = backoff ∨ next = stopped
  | watching, next => next = backoff ∨ next = stopped
  | backoff, next => next = listing ∨ next = stopped
  | stopped, _ => False

def LoopAct.states (acts : List LoopAct) : List WatchState := acts.filterMap LoopAct.state?

section Turns

variable {first : WatchLoop} {loop next last : Option WatchLoop} {acts : List LoopAct}

/-- A move shows nothing new, or a state that may follow. -/
theorem Move.states (h : Move first loop acts next) (hfirst : first.phase = .listing) :
    (LoopAct.states acts = [] ∧ shown next = shown loop) ∨
      (LoopAct.states acts = [shown next] ∧ (shown loop).Leads (shown next)) := by
  cases h with
  | idle => exact Or.inl ⟨rfl, rfl⟩
  | begins =>
    have hshown : shown (some first) = .listing := by simp [shown, WatchLoop.state, hfirst]
    rw [hshown]
    exact Or.inr ⟨rfl, Or.inl rfl⟩
  | @opens l h token =>
    have hshown : shown (some l) = .listing := by simp [shown, WatchLoop.state, h]
    exact Or.inl ⟨rfl, hshown.symm⟩
  | @watches l token h =>
    have hshown : shown (some l) = .listing := by simp [shown, WatchLoop.state, h]
    rw [hshown]
    exact Or.inr ⟨rfl, Or.inl rfl⟩
  | goesOn => exact Or.inl ⟨rfl, rfl⟩
  | @backsOff l h delay _ =>
    have hleads : (shown (some l)).Leads .backoff := by
      rcases h with h | ⟨token, h⟩ | h <;> simp [shown, WatchLoop.state, h, WatchState.Leads]
    exact Or.inr ⟨rfl, hleads⟩
  | @resumes l delay h =>
    have hshown : shown (some l) = .backoff := by simp [shown, WatchLoop.state, h]
    rw [hshown]
    exact Or.inr ⟨rfl, Or.inl rfl⟩

/-- A turn shows nothing new, or a state that may follow. -/
theorem Turn.states (h : Turn first loop acts next) (hfirst : first.phase = .listing) :
    (LoopAct.states acts = [] ∧ shown next = shown loop) ∨
      (LoopAct.states acts = [shown next] ∧ (shown loop).Leads (shown next)) := by
  cases h with
  | move h => exact h.states hfirst
  | stops h =>
    have hleads : (shown loop).Leads .stopped := by
      cases loop with
      | none => exact Or.inr rfl
      | some l =>
        cases hphase : l.phase with
        | listing | opening | watching | backoff =>
          simp [shown, WatchLoop.state, hphase, WatchState.Leads]
        | stopped | broken => simp [WatchLoop.isOver, hphase] at h
    exact Or.inr ⟨rfl, hleads⟩

/-- The states that are shown follow one another as they may. -/
theorem Turns.chain (h : Turns first loop acts last) (hfirst : first.phase = .listing) :
    (shown loop :: LoopAct.states acts).IsChain WatchState.Leads := by
  induction h with
  | nil => exact .singleton _
  | cons h _ ih =>
    rw [LoopAct.states, List.filterMap_append]
    rcases h.states hfirst with ⟨hnone, hsame⟩ | ⟨hone, hleads⟩
    · rw [LoopAct.states] at hnone
      rw [hnone, List.nil_append, ← hsame]
      exact ih
    · rw [LoopAct.states] at hone
      rw [hone]
      exact .cons_cons hleads ih

/-! ## The end -/

/-- Acts before the end: the watch does not show that it has stopped, and does not return. -/
def Unended (acts : List LoopAct) : Prop :=
  .stopped ∉ LoopAct.states acts ∧ ∀ result, .returns result ∉ acts

theorem unended_append {first second : List LoopAct} :
    Unended (first ++ second) ↔ Unended first ∧ Unended second := by
  simp only [Unended, LoopAct.states, List.filterMap_append, List.mem_append, not_or]
  constructor
  · rintro ⟨⟨hfirst, hsecond⟩, hreturns⟩
    exact ⟨⟨hfirst, fun r => (hreturns r).1⟩, hsecond, fun r => (hreturns r).2⟩
  · rintro ⟨⟨hfirst, hreturns⟩, hsecond, hreturns'⟩
    exact ⟨⟨hfirst, hsecond⟩, fun r => ⟨hreturns r, hreturns' r⟩⟩

/-- A watch that goes on does not end. -/
theorem Move.unended (h : Move first loop acts next) (hfirst : first.phase = .listing)
    (hloop : loop.any WatchLoop.isOver = false) :
    next.any WatchLoop.isOver = false ∧ Unended acts := by
  cases h with
  | idle => exact ⟨hloop, by simp [Unended, LoopAct.states]⟩
  | begins =>
    refine ⟨?_, by simp [Unended, LoopAct.states, LoopAct.state?]⟩
    simp [WatchLoop.isOver, hfirst]
  | opens | watches | backsOff | resumes =>
    exact ⟨rfl, by simp [Unended, LoopAct.states, LoopAct.state?]⟩
  | goesOn => exact ⟨hloop, by simp [Unended, LoopAct.states, LoopAct.state?]⟩

/-- A turn goes on or ends the watch. -/
theorem Turn.ends (h : Turn first loop acts next) (hfirst : first.phase = .listing)
    (hloop : loop.any WatchLoop.isOver = false) :
    (next.any WatchLoop.isOver = false ∧ Unended acts) ∨
      (next.any WatchLoop.isOver = true ∧ acts = LoopAct.entering .stopped) := by
  cases h with
  | move h => exact Or.inl (h.unended hfirst hloop)
  | stops => exact Or.inr ⟨rfl, rfl⟩

/-- A watch that is over takes no turn. -/
theorem Turn.of_over (h : Turn first loop acts next) (hloop : loop.any WatchLoop.isOver = true) :
    acts = [] ∧ next = loop := by
  cases h with
  | move h =>
    cases h with
    | idle => exact ⟨rfl, rfl⟩
    | begins => cases hloop
    | opens h | watches h | goesOn h | resumes h => simp [WatchLoop.isOver, h] at hloop
    | backsOff h => rcases h with h | ⟨token, h⟩ | h <;> simp [WatchLoop.isOver, h] at hloop
  | stops h => exact absurd (h.symm.trans hloop) Bool.false_ne_true

theorem Turns.of_over (h : Turns first loop acts last)
    (hloop : loop.any WatchLoop.isOver = true) : acts = [] ∧ last = loop := by
  induction h with
  | nil => exact ⟨rfl, rfl⟩
  | cons h _ ih =>
    obtain ⟨rfl, rfl⟩ := h.of_over hloop
    exact ih hloop

/-- A watch goes on, or the last that it does is to show that it has stopped and to return. -/
theorem Turns.ends (h : Turns first loop acts last) (hfirst : first.phase = .listing)
    (hloop : loop.any WatchLoop.isOver = false) :
    (last.any WatchLoop.isOver = false ∧ Unended acts) ∨
      (last.any WatchLoop.isOver = true ∧
        ∃ before, acts = before ++ LoopAct.entering .stopped ∧ Unended before) := by
  induction h with
  | nil => exact Or.inl ⟨hloop, by simp [Unended, LoopAct.states]⟩
  | cons h hrest ih =>
    rcases h.ends hfirst hloop with ⟨hnext, hunended⟩ | ⟨hnext, rfl⟩
    · rcases ih hnext with ⟨hlast, hlater⟩ | ⟨hlast, before, rfl, hbefore⟩
      · exact Or.inl ⟨hlast, unended_append.2 ⟨hunended, hlater⟩⟩
      · refine Or.inr ⟨hlast, _ ++ before, ?_, unended_append.2 ⟨hunended, hbefore⟩⟩
        rw [List.append_assoc]
    · obtain ⟨rfl, rfl⟩ := hrest.of_over hnext
      exact Or.inr ⟨hnext, [], rfl, by simp [Unended, LoopAct.states]⟩

end Turns

/-! ## Pauses -/

/-- For each pause, whether the attempt before it had got to watch. -/
def LoopAct.interruptions : (reached : Bool) → List LoopAct → List Bool
  | _, [] => []
  | _, shows .listing :: rest => interruptions false rest
  | _, shows .watching :: rest => interruptions true rest
  | reached, pauses _ :: rest => reached :: interruptions false rest
  | reached, _ :: rest => interruptions reached rest

/-- The counts of failures in a row: an attempt that got to watch starts the count afresh. -/
def failureCounts : (failures : ℕ) → List Bool → List ℕ
  | _, [] => []
  | failures, reached :: rest =>
    let next := if reached then 1 else min (failures + 1) WatchLoop.maxFailures
    next :: failureCounts next rest

section Turns

variable {first : WatchLoop} {loop next last : Option WatchLoop} {acts : List LoopAct}
  {backoff : RetryPolicy}

def watches (loop : Option WatchLoop) : Bool := loop.any fun l => l.phase = .watching

/-- Each pause is the one that the policy gives for its count of failures. -/
theorem Turns.pauses {target : ObjectName} (h : Turns (.start target backoff) loop acts last)
    (hloop : Obeys backoff loop) :
    (acts.filterMap LoopAct.pause?).map some =
      (failureCounts (loop.elim 0 WatchLoop.failures)
        (LoopAct.interruptions (watches loop) acts)).map backoff.delay? := by
  induction h with
  | nil => rfl
  | @cons _ _ _ _ later h hrest ih =>
    have hobeys := h.obeys (obeys_some.2 ⟨rfl, fun _ hlast => by cases hlast⟩) hloop
    have hlater := ih hobeys
    cases h with
    | move h =>
      cases h with
      | idle => exact hlater
      | begins => exact hlater
      | @opens l h token =>
        have hwatches : watches (some l) = false := by simp [watches, h]
        rw [hwatches]
        exact hlater
      | @watches l token h => exact hlater
      | @goesOn l h =>
        have hwatches : watches (some l) = true := by simp [watches, h]
        rw [hwatches] at hlater ⊢
        exact hlater
      | @backsOff l h delay hdelay =>
        have hcount : l.nextFailures =
            if watches (some l) then 1 else min (l.failures + 1) WatchLoop.maxFailures := by
          simp [WatchLoop.nextFailures, watches]
        rw [(obeys_some.1 hloop).1] at hdelay
        have hacts : LoopAct.interruptions (watches (some l))
            ([.shows .backoff, .pauses delay] ++ later) =
              watches (some l) :: LoopAct.interruptions false later := rfl
        rw [hacts, failureCounts, Option.elim_some, ← hcount, List.map_cons, hdelay]
        exact congrArg _ hlater
      | @resumes l delay h =>
        have hwatches : watches (some l) = false := by simp [watches, h]
        rw [hwatches]
        exact hlater
    | stops =>
      -- a watch that has stopped pauses no more
      obtain ⟨rfl, -⟩ := hrest.of_over rfl
      rfl

end Turns

/-! ## Courses -/

namespace WatchCall

variable {c : WatchCall}

theorem not_hears_of_isOver {l : WatchLoop} (h : l.isOver = true) {input : LoopInput}
    (hinput : input ≠ .cancel) : l.hears input = false := by
  unfold WatchLoop.isOver at h
  split at h
  next hphase => cases input <;> simp_all [WatchLoop.hears]
  next hphase => cases input <;> simp_all [WatchLoop.hears]
  next => cases h

/-- After the end nothing is done, and only others write to the cache. -/
theorem step_of_isOver (hc : c.Regular) (hover : c.isOver = true) (h : Happening) :
    (c.step h).2 = [] ∧ (c.step h).1.isOver = true ∧
      ((∀ cache, h ≠ .cached cache) → (c.step h).1.cache = c.cache) := by
  obtain ⟨hacts, hloop⟩ := (hc.turn h).of_over hover
  refine ⟨hacts, by rw [isOver, hloop]; exact hover, fun hothers => ?_⟩
  cases h with
  | begins =>
    rw [step]
    split <;> rfl
  | told input hinput =>
    rw [step]
    split
    next => rfl
    next l hl =>
      have hl' : l.isOver = true := by rwa [isOver, hl] at hover
      rw [if_neg (by rw [not_hears_of_isOver hl' hinput]; exact Bool.false_ne_true)]
  | cached cache => exact absurd rfl (hothers cache)
  | sent | dropped => rfl
  | looks => rw [step, if_neg fun hstop => hstop.2 hover]

theorem regular_start {target : ObjectName} {backoff : RetryPolicy} {cache : Cache}
    (hdelays : backoff.DefinedTo WatchLoop.maxFailures) : (start target backoff cache).Regular :=
  ⟨hdelays, fun _ hloop => by cases hloop⟩

theorem Regular.run (hc : c.Regular) (happenings : List Happening) : (c.run happenings).Regular := by
  induction happenings generalizing c with
  | nil => exact hc
  | cons h rest ih => exact ih (hc.step h)

/-- A step ends the watch exactly if it is a look at a channel that calls the watch off. -/
theorem isOver_step_iff (hc : c.Regular) (hnot : c.isOver = false) (h : Happening) :
    (c.step h).1.isOver = true ↔ h = .looks ∧ c.isCalledOff = true := by
  by_cases hlooks : h = .looks
  · subst hlooks
    rw [step]
    by_cases hoff : c.isCalledOff = true
    · rw [if_pos ⟨hoff, by rw [hnot]; exact Bool.false_ne_true⟩]
      exact ⟨fun _ => ⟨rfl, hoff⟩, fun _ => rfl⟩
    · rw [if_neg fun hstop => hoff hstop.1, hnot]
      exact ⟨fun hfalse => absurd hfalse Bool.false_ne_true, fun hstop => absurd hstop.2 hoff⟩
  · obtain ⟨hgoesOn, -⟩ := (hc.move hlooks).unended rfl hnot
    rw [isOver, hgoesOn]
    exact ⟨fun hfalse => absurd hfalse Bool.false_ne_true, fun hstop => absurd hstop.1 hlooks⟩

theorem isOver_run (hc : c.Regular) (hover : c.isOver = true) (happenings : List Happening) :
    (c.run happenings).isOver = true := by
  induction happenings generalizing c with
  | nil => exact hover
  | cons h rest ih => exact ih (hc.step h) (step_of_isOver hc hover h).2.1

/-- A watch is over once it has looked at a channel that calls it off. -/
theorem isOver_run_iff (hc : c.Regular) (hnot : c.isOver = false) (happenings : List Happening) :
    (c.run happenings).isOver = true ↔ ∃ earlier later, happenings = earlier ++ .looks :: later ∧
      (c.run earlier).isCalledOff = true := by
  induction happenings generalizing c with
  | nil =>
    constructor
    · exact fun hover => absurd (hnot.symm.trans hover) Bool.false_ne_true
    · rintro ⟨earlier, later, hnil, -⟩
      simp at hnil
  | cons h rest ih =>
    by_cases hstep : (c.step h).1.isOver = true
    · obtain ⟨rfl, hoff⟩ := (isOver_step_iff hc hnot h).1 hstep
      exact ⟨fun _ => ⟨[], rest, rfl, hoff⟩, fun _ => isOver_run (hc.step _) hstep rest⟩
    · have hlater := ih (hc.step h) (Bool.not_eq_true _ ▸ hstep)
      rw [run, hlater]
      constructor
      · rintro ⟨earlier, later, rfl, hoff⟩
        exact ⟨h :: earlier, later, rfl, hoff⟩
      · rintro ⟨earlier, later, hsplit, hoff⟩
        cases earlier with
        | nil =>
          obtain ⟨rfl, rfl⟩ := List.cons.inj hsplit
          exact absurd ((isOver_step_iff hc hnot _).2 ⟨rfl, hoff⟩) hstep
        | cons first earlier =>
          obtain ⟨rfl, rfl⟩ := List.cons.inj hsplit
          exact ⟨earlier, later, rfl, hoff⟩

/-- Whatever the backend tells and whenever the watch is called off, the states that it shows follow
one another as they may, beginning where nothing is shown. The watch ends exactly if it looks at a
channel on which it was told to stop or which nobody holds any more. Then it shows that it has
stopped and returns without a failure. It has done neither before, and after that it does nothing
and leaves the cache alone. Each pause is the one that the policy gives for the failures in a row,
counted afresh after an attempt that got to watch. -/
theorem course_ordered {target : ObjectName} {backoff : RetryPolicy} (cache : Cache)
    (hdelays : backoff.DefinedTo WatchLoop.maxFailures) (happenings : List Happening) :
    let before := start target backoff cache
    let after := before.run happenings
    let acts := before.acts happenings
    (WatchState.idle :: LoopAct.states acts).IsChain WatchState.Leads ∧
      (after.isOver = true ↔ ∃ earlier later, happenings = earlier ++ .looks :: later ∧
        (before.run earlier).isCalledOff = true) ∧
      (after.isOver = false → Unended acts ∧ (after.isCalledOff = true →
        (after.step .looks).2 = [.shows .stopped, .returns (.ok ())])) ∧
      (after.isOver = true →
        (∃ earlier, acts = earlier ++ [.shows .stopped, .returns (.ok ())] ∧ Unended earlier) ∧
        after.loop.map WatchLoop.phase = some .stopped ∧
        ∀ h, (after.step h).2 = [] ∧ (after.step h).1.isOver = true ∧
          ((∀ other, h ≠ .cached other) → (after.step h).1.cache = after.cache)) ∧
      (acts.filterMap LoopAct.pause?).map some =
        (failureCounts 0 (LoopAct.interruptions false acts)).map backoff.delay? := by
  intro before after acts
  have hbefore : before.Regular := regular_start hdelays
  have hafter : after.Regular := hbefore.run happenings
  have hturns : Turns before.first before.loop acts after.loop := hbefore.turns happenings
  refine ⟨hturns.chain rfl, isOver_run_iff hbefore rfl happenings, fun hnot => ?_, fun hover => ?_,
    hturns.pauses hbefore.loop⟩
  · rcases hturns.ends rfl rfl with ⟨-, hunended⟩ | ⟨hover, -⟩
    · refine ⟨hunended, fun hoff => ?_⟩
      rw [step, if_pos ⟨hoff, by rw [hnot]; exact Bool.false_ne_true⟩]
      rfl
    · exact absurd (hnot.symm.trans hover) Bool.false_ne_true
  · refine ⟨?_, ?_, step_of_isOver hafter hover⟩
    · rcases hturns.ends rfl rfl with ⟨hnot, -⟩ | ⟨-, hends⟩
      · exact absurd (hnot.symm.trans hover) Bool.false_ne_true
      · exact hends
    · obtain ⟨l, hl, hl'⟩ := (Option.any_eq_true _ _).1 hover
      obtain ⟨-, hbroken⟩ := hafter.loop l hl
      rw [hl, Option.map_some]
      cases hphase : l.phase with
      | stopped => rfl
      | broken last => exact absurd hphase (hbroken last)
      | listing | opening | watching | backoff => simp [WatchLoop.isOver, hphase] at hl'

/-- Two lists that fail, and a watch that ends; then the sender is gone. -/
def interrupted : List Happening :=
  [.begins, .told (.listed (.error (.crypto ""))) (by simp), .told .wake (by simp),
    .told (.listed (.error (.crypto ""))) (by simp), .told .wake (by simp),
    .told (.listed (.ok ⟨[], "1"⟩)) (by simp), .told (.opened (.ok ())) (by simp),
    .told .ended (by simp), .dropped, .looks]

/-- A watch with three interruptions, of which the last one starts the count afresh. -/
theorem course_ordered_interrupted :
    let acts := (start ⟨"n", "o"⟩ .standard .empty).acts interrupted
    LoopAct.states acts = [.listing, .backoff, .listing, .backoff, .listing, .watching, .backoff,
        .stopped] ∧
      (WatchState.idle :: LoopAct.states acts).IsChain WatchState.Leads ∧
      (acts.filterMap LoopAct.pause?).map some = [1, 2, 1].map RetryPolicy.standard.delay? := by
  intro acts
  have hstates : LoopAct.states acts = [.listing, .backoff, .listing, .backoff, .listing,
      .watching, .backoff, .stopped] := by decide +kernel
  have hcounts : failureCounts 0 (LoopAct.interruptions false acts) = [1, 2, 1] := by
    decide +kernel
  obtain ⟨hchain, -, -, -, hpauses⟩ :=
    @course_ordered ⟨"n", "o"⟩ .standard .empty (RetryPolicy.definedTo_standard _) interrupted
  exact ⟨hstates, hchain, hpauses.trans (congrArg _ hcounts)⟩

end WatchCall
end Keyring
