import Keyring.Proofs.Stores.Calls
import Keyring.WatchLoop

/-!
# Watch loops on any backend

A backend may list and tell what it likes, in any order and over any number of attempts. The cache
of a watch loop never goes back to an earlier version all the same, and its key sets are none or
those of an object of the right name that the backend showed at the version of the cache. A watch
that fails is over: what it still tells does not get to the cache.
-/
namespace Keyring

/-- What a backend tells a watch loop, or what else happens to the loop. -/
inductive LoopInput
  | listed (result : Except KeyError ObjectList)
  | opened (result : Except KeyError Unit)
  | event (event : WatchEvent)
  /-- The watch tells no more events. -/
  | ended
  /-- A pause is over. -/
  | wake
  | cancel

namespace LoopInput

/-- The objects that an input has for the cache. -/
def offers : LoopInput → List StoredObject
  | listed (.ok list) => list.items
  | event (.added object) | event (.modified object) => [object]
  | _ => []

/-- Whether an input is an event of a watch. -/
def isEvent : LoopInput → Bool
  | event _ => true
  | _ => false

theorem object?_of_mem_offers {e : WatchEvent} {object : StoredObject}
    (h : object ∈ (event e).offers) : e.object? = some object := by
  cases e with
  | added other | modified other => exact congrArg some (List.mem_singleton.1 h).symm
  | deleted other | bookmark token | error message => cases h

end LoopInput

/-! ## Lists and events -/

/-- The caches while objects are taken in one after the other. -/
def Cache.updates (c : Cache) (objects : List StoredObject) : List Cache :=
  objects.scanl (fun c object => (c.update object).1) c

namespace WatchLoop

variable {l : WatchLoop} {cache : Cache} {P : Cache → Prop}

/-- The caches at all moments while a list is taken in. -/
def listCaches (l : WatchLoop) (cache : Cache) (list : ObjectList) : List Cache :=
  let own := list.items.filter l.isOwn
  if own.isEmpty then [(cache.delete list.resourceVersion).1] else cache.updates own

theorem forall_mem_updates {objects : List StoredObject} (h : P cache)
    (hupdate : ∀ c, ∀ object ∈ objects, P c → P (c.update object).1) :
    ∀ c ∈ cache.updates objects, P c := by
  induction objects generalizing cache with
  | nil =>
    intro c hc
    exact List.mem_singleton.1 hc ▸ h
  | cons object rest ih =>
    rw [Cache.updates, List.scanl_cons, List.forall_mem_cons]
    refine ⟨h, ih (hupdate cache object List.mem_cons_self h) fun c other hother => ?_⟩
    exact hupdate c other (List.mem_cons_of_mem object hother)

/-- What deletions and updates with the own objects of a list keep is kept at all moments. -/
theorem forall_mem_listCaches {list : ObjectList} (h : P cache)
    (hupdate : ∀ c, ∀ object ∈ list.items, object.objectName = l.target → P c →
      P (c.update object).1)
    (hdelete : ∀ c token, P c → P (c.delete token).1) :
    ∀ c ∈ l.listCaches cache list, P c := by
  unfold listCaches
  dsimp only
  split
  · rw [List.forall_mem_singleton]
    exact hdelete cache list.resourceVersion h
  · apply forall_mem_updates h
    intro c object hobject
    obtain ⟨hmem, hown⟩ := List.mem_filter.1 hobject
    exact hupdate c object hmem (eq_of_beq hown)

/-- The last of these caches is what the list leaves behind. -/
theorem getLast?_listCaches (l : WatchLoop) (cache : Cache) (list : ObjectList) :
    (l.listCaches cache list).getLast? = some (l.listed cache (.ok list)).2 := by
  rw [listCaches, listed]
  dsimp only
  split
  · rfl
  · simp [Cache.updates, List.getLast?_scanl]

theorem listed_induction {list : ObjectList} (h : P cache)
    (hupdate : ∀ c, ∀ object ∈ list.items, object.objectName = l.target → P c →
      P (c.update object).1)
    (hdelete : ∀ c token, P c → P (c.delete token).1) :
    P (l.listed cache (.ok list)).2 :=
  forall_mem_listCaches h hupdate hdelete _
    (List.mem_of_getLast? (l.getLast?_listCaches cache list))

theorem receive_induction {event : WatchEvent} (h : P cache)
    (hupdate : ∀ c, ∀ object ∈ (LoopInput.event event).offers, object.objectName = l.target → P c →
      P (c.update object).1)
    (hdelete : ∀ c token, P c → P (c.delete token).1) :
    P (l.receive cache event).2 := by
  unfold receive
  split
  case h_1 object | h_2 object =>
    split
    next hown => exact hupdate cache object (List.mem_singleton.2 rfl) (eq_of_beq hown) h
    next => exact h
  case h_3 object =>
    split
    next => exact hdelete cache object.resourceVersion h
    next => exact h
  all_goals exact h

/-- What breaks a watch off: a failure, or an event about another object. -/
def BreaksOff (target : ObjectName) (event : WatchEvent) : Prop :=
  (∃ message, event = .error message) ∨
    ∃ object, event.object? = some object ∧ object.objectName ≠ target

theorem receive_of_breaksOff {event : WatchEvent} (h : BreaksOff l.target event) :
    l.receive cache event = (l.fail, cache) := by
  rcases h with ⟨message, rfl⟩ | ⟨object, hobject, hother⟩
  · rfl
  · have hnot : ¬ l.isOwn object = true := fun hown => hother (eq_of_beq hown)
    cases event with
    | added other | modified other | deleted other =>
      obtain rfl := Option.some.inj hobject
      rw [receive, if_neg hnot]
    | bookmark | error => cases hobject

end WatchLoop

/-! ## Loops with their caches -/

/-- A cache and the loop that keeps it. -/
structure WatchedCache where
  loop : WatchLoop
  cache : Cache

namespace WatchedCache

/-- A loop that has done nothing yet, with an empty cache. -/
def start (target : ObjectName) (backoff : RetryPolicy) : WatchedCache :=
  ⟨.start target backoff, .empty⟩

/-- What an input leaves behind. The loop does not hear what it does not wait for. -/
def step (w : WatchedCache) : LoopInput → WatchedCache
  | .listed result =>
    if w.loop.phase = .listing then
      ⟨(w.loop.listed w.cache result).1, (w.loop.listed w.cache result).2⟩
    else w
  | .opened result =>
    match w.loop.phase with
    | .opening _ => { w with loop := w.loop.opened result }
    | _ => w
  | .event event =>
    if w.loop.phase = .watching then
      ⟨(w.loop.receive w.cache event).1, (w.loop.receive w.cache event).2⟩
    else w
  | .ended => if w.loop.phase = .watching then { w with loop := w.loop.fail } else w
  | .wake =>
    match w.loop.phase with
    | .backoff _ => { w with loop := w.loop.resume }
    | _ => w
  | .cancel => if w.loop.isOver then w else { w with loop := w.loop.cancel }

/-- The caches at all moments while a loop takes an input. -/
def moments (w : WatchedCache) : LoopInput → List Cache
  | .listed (.ok list) =>
    if w.loop.phase = .listing then w.loop.listCaches w.cache list else [w.cache]
  | input => [(w.step input).cache]

def run (w : WatchedCache) (inputs : List LoopInput) : WatchedCache := inputs.foldl step w

/-- The caches at all moments of a run. -/
def history (w : WatchedCache) : List LoopInput → List Cache
  | [] => [w.cache]
  | input :: rest => w.cache :: (w.moments input ++ (w.step input).history rest)

variable {w : WatchedCache} {input : LoopInput} {inputs later : List LoopInput} {P : Cache → Prop}

theorem run_cons (w : WatchedCache) (input : LoopInput) (rest : List LoopInput) :
    w.run (input :: rest) = (w.step input).run rest := rfl

/-- No input changes the object or the policy of a loop. -/
theorem fixed_step (w : WatchedCache) (input : LoopInput) :
    (w.step input).loop.target = w.loop.target ∧
      (w.step input).loop.backoff = w.loop.backoff := by
  cases input with
  | listed | event | ended | cancel =>
    unfold step
    dsimp only
    split <;> simp [WatchLoop.cancel]
  | opened | wake =>
    unfold step
    dsimp only
    split <;> simp [WatchLoop.resume]

/-- The last of these caches is what the input leaves behind. -/
theorem getLast?_moments (w : WatchedCache) (input : LoopInput) :
    (w.moments input).getLast? = some (w.step input).cache := by
  unfold moments
  split
  next list =>
    rw [step]
    split
    · exact w.loop.getLast?_listCaches w.cache list
    · rfl
  next => rfl

/-- What deletions and updates with offered objects of the right name keep is kept by an input. -/
theorem forall_mem_moments (h : P w.cache)
    (hupdate : ∀ c, ∀ object ∈ input.offers, object.objectName = w.loop.target → P c →
      P (c.update object).1)
    (hdelete : ∀ c token, P c → P (c.delete token).1) : ∀ c ∈ w.moments input, P c := by
  have hnone : ∀ c ∈ [w.cache], P c := List.forall_mem_singleton.2 h
  cases input with
  | listed result =>
    cases result with
    | error failure =>
      rw [moments, step]
      · split <;> exact hnone
      · intro list
        simp
    | ok list =>
      rw [moments]
      split
      · exact WatchLoop.forall_mem_listCaches h hupdate hdelete
      · exact hnone
  | event event =>
    rw [moments, step]
    · split
      · rw [List.forall_mem_singleton]
        exact WatchLoop.receive_induction h hupdate hdelete
      · exact hnone
    · intro list
      simp
  | opened | ended | wake | cancel =>
    rw [moments, step]
    · split <;> exact hnone
    · intro list
      simp

/-- What deletions and updates with offered objects of the right name keep holds at all moments. -/
theorem forall_mem_history (h : P w.cache)
    (hupdate : ∀ c object, (∃ input ∈ inputs, object ∈ input.offers) →
      object.objectName = w.loop.target → P c → P (c.update object).1)
    (hdelete : ∀ c token, P c → P (c.delete token).1) : ∀ c ∈ w.history inputs, P c := by
  induction inputs generalizing w with
  | nil => exact List.forall_mem_singleton.2 h
  | cons input rest ih =>
    have hmoments : ∀ c ∈ w.moments input, P c := by
      refine forall_mem_moments h (fun c object hoffered => ?_) hdelete
      exact hupdate c object ⟨input, List.mem_cons_self, hoffered⟩
    rw [history, List.forall_mem_cons, List.forall_mem_append]
    refine ⟨h, hmoments, ih (hmoments _ (List.mem_of_getLast? (w.getLast?_moments input))) ?_⟩
    rintro c object ⟨other, hother, hoffered⟩ hname
    rw [(w.fixed_step input).1] at hname
    exact hupdate c object ⟨other, List.mem_cons_of_mem input hother, hoffered⟩ hname

/-! ## Versions -/

theorem pairwise_updates (c : Cache) (objects : List StoredObject) :
    (c.updates objects).Pairwise fun a b => a.resourceVersion ≤ b.resourceVersion := by
  induction objects generalizing c with
  | nil => exact List.pairwise_singleton _ c
  | cons object rest ih =>
    rw [Cache.updates, List.scanl_cons, List.pairwise_cons]
    refine ⟨?_, ih (c.update object).1⟩
    apply WatchLoop.forall_mem_updates (P := fun d => c.resourceVersion ≤ d.resourceVersion)
      (c.resourceVersion_le_update object)
    intro d other _ hle
    exact Int.le_trans hle (d.resourceVersion_le_update other)

theorem pairwise_moments (w : WatchedCache) (input : LoopInput) :
    (w.moments input).Pairwise fun a b => a.resourceVersion ≤ b.resourceVersion := by
  unfold moments
  split
  next list =>
    unfold WatchLoop.listCaches
    dsimp only
    split
    · split
      · exact List.pairwise_singleton _ _
      · exact pairwise_updates _ _
    · exact List.pairwise_singleton _ _
  next => exact List.pairwise_singleton _ _

theorem le_of_mem_history (w : WatchedCache) (inputs : List LoopInput) :
    ∀ c ∈ w.history inputs, w.cache.resourceVersion ≤ c.resourceVersion :=
  forall_mem_history (P := fun c => w.cache.resourceVersion ≤ c.resourceVersion) (Int.le_refl _)
    (fun c object _ _ hle => Int.le_trans hle (c.resourceVersion_le_update object))
    fun c token hle => Int.le_trans hle (c.resourceVersion_le_delete token)

/-- The cache never goes back to an earlier version. -/
theorem pairwise_history (w : WatchedCache) (inputs : List LoopInput) :
    (w.history inputs).Pairwise fun a b => a.resourceVersion ≤ b.resourceVersion := by
  induction inputs generalizing w with
  | nil => exact List.pairwise_singleton _ _
  | cons input rest ih =>
    have hall := w.le_of_mem_history (input :: rest)
    rw [history, List.forall_mem_cons] at hall
    rw [history, List.pairwise_cons, List.pairwise_append]
    refine ⟨hall.2, w.pairwise_moments input, ih (w.step input), ?_⟩
    intro c hc d hd
    obtain ⟨earlier, hsplit⟩ := List.getLast?_eq_some_iff.1 (w.getLast?_moments input)
    have hpairwise := w.pairwise_moments input
    rw [hsplit, List.pairwise_append] at hpairwise
    have hlast : c.resourceVersion ≤ (w.step input).cache.resourceVersion := by
      rw [hsplit] at hc
      rcases List.mem_append.1 hc with hearlier | hhere
      · exact hpairwise.2.2 c hearlier _ (List.mem_singleton.2 rfl)
      · exact Int.le_of_eq (congrArg Cache.resourceVersion (List.mem_singleton.1 hhere))
    exact Int.le_trans hlast ((w.step input).le_of_mem_history rest d hd)

end WatchedCache

/-! ## Contents -/

/-- The key sets of a cache are none, or those of an object of that name that was shown at the
version of the cache. -/
def Cache.Derived (target : ObjectName) (shown : StoredObject → Prop) (c : Cache) : Prop :=
  c.keySets = .empty ∨ ∃ object, shown object ∧ object.objectName = target ∧
    Decimal.int64? object.resourceVersion = some c.resourceVersion ∧
    c.keySets = KeySets.ofObject object

namespace Cache.Derived

variable {target : ObjectName} {shown : StoredObject → Prop} {c : Cache}

theorem update (h : c.Derived target shown) {object : StoredObject} (hshown : shown object)
    (hname : object.objectName = target) : (c.update object).1.Derived target shown := by
  unfold Cache.update
  split
  next version hnewer =>
    exact Or.inr ⟨object, hshown, hname, (Option.filter_eq_some_iff.1 hnewer).1, rfl⟩
  next => exact h

theorem delete (h : c.Derived target shown) (token : String) :
    (c.delete token).1.Derived target shown := by
  unfold Cache.delete
  split
  · exact Or.inl rfl
  · exact h

end Cache.Derived

namespace WatchedCache

variable {w : WatchedCache} {input : LoopInput} {inputs later : List LoopInput}

/-! ## Watches that are over -/

/-- A loop watches no more until a watch is opened. -/
theorem phase_step_ne (h : w.loop.phase ≠ .watching) (hinput : input ≠ .opened (.ok ())) :
    (w.step input).loop.phase ≠ .watching := by
  cases input with
  | listed result =>
    rw [step]
    split
    · cases result with
      | error failure => exact w.loop.phase_fail_ne
      | ok list => simp [WatchLoop.listed]
    · exact h
  | opened result =>
    cases result with
    | error failure =>
      unfold step
      dsimp only
      split
      · exact w.loop.phase_fail_ne
      · exact h
    | ok => exact absurd rfl hinput
  | event event => rwa [step, if_neg h]
  | ended => rwa [step, if_neg h]
  | wake =>
    unfold step
    dsimp only
    split
    · simp [WatchLoop.resume]
    · exact h
  | cancel =>
    rw [step]
    split
    · exact h
    · simp [WatchLoop.cancel]

/-- Events do not matter to a loop that does not watch. -/
theorem run_filter (h : w.loop.phase ≠ .watching) (hlater : .opened (.ok ()) ∉ later) :
    w.run later = w.run (later.filter fun input => !input.isEvent) := by
  induction later generalizing w with
  | nil => rfl
  | cons input rest ih =>
    rw [List.mem_cons, not_or] at hlater
    have hrest := ih (phase_step_ne h (Ne.symm hlater.1)) hlater.2
    rw [run_cons, hrest]
    cases input with
    | event event =>
      rw [List.filter_cons_of_neg (by simp [LoopInput.isEvent]), step, if_neg h]
    | listed | opened | ended | wake | cancel =>
      rw [List.filter_cons_of_pos (by simp [LoopInput.isEvent]), run_cons]

/-- A loop that is told of a failure or of another object watches no more. -/
theorem step_of_breaksOff {event : WatchEvent} (h : WatchLoop.BreaksOff w.loop.target event) :
    (w.step (.event event)).cache = w.cache ∧
      (w.step (.event event)).loop.phase ≠ .watching := by
  rw [step]
  split
  next =>
    rw [WatchLoop.receive_of_breaksOff h]
    exact ⟨rfl, w.loop.phase_fail_ne⟩
  next hphase => exact ⟨rfl, hphase⟩

theorem target_run (w : WatchedCache) (inputs : List LoopInput) :
    (w.run inputs).loop.target = w.loop.target := by
  induction inputs generalizing w with
  | nil => rfl
  | cons input rest ih => rw [run_cons, ih, (w.fixed_step input).1]

/-- A loop that is told the events of a watch one by one takes them as it takes them at once. -/
theorem run_events (w : WatchedCache) (events : List WatchEvent) :
    w.run (events.map .event) =
      ⟨(w.loop.receiveAll w.cache events).1, (w.loop.receiveAll w.cache events).2⟩ := by
  induction events generalizing w with
  | nil => rfl
  | cons event rest ih =>
    rw [List.map_cons, run_cons, ih, step, WatchLoop.receiveAll]
    split
    next => rfl
    next hphase => rw [w.loop.receiveAll_of_not_watching w.cache rest hphase]

/-- Whatever a backend does, the cache never goes back to an earlier version, and at all moments its
key sets are none or those of an object of the right name that was offered at that version. A
failure or an event about another object changes nothing and ends the watch, so later events do not
matter until a watch is opened. Bookmarks change nothing. -/
theorem safe_on_any_backend (target : ObjectName) (backoff : RetryPolicy)
    (inputs : List LoopInput) :
    (((start target backoff).history inputs).Pairwise fun a b =>
        a.resourceVersion ≤ b.resourceVersion) ∧
      (∀ c ∈ (start target backoff).history inputs,
        c.Derived target fun object => ∃ input ∈ inputs, object ∈ input.offers) ∧
      (∀ event, WatchLoop.BreaksOff target event →
        let before := (start target backoff).run inputs
        let after := before.step (.event event)
        after.cache = before.cache ∧ after.loop.phase ≠ .watching ∧
          ∀ later, .opened (.ok ()) ∉ later →
            after.run later = after.run (later.filter fun input => !input.isEvent)) ∧
      ∀ token, ((start target backoff).run inputs).step (.event (.bookmark token)) =
        (start target backoff).run inputs := by
  refine ⟨pairwise_history _ inputs, ?_, ?_, ?_⟩
  · refine forall_mem_history (P := Cache.Derived target fun object =>
      ∃ input ∈ inputs, object ∈ input.offers) (Or.inl rfl) ?_ ?_
    · exact fun c object hoffered hname h => h.update hoffered hname
    · exact fun c token h => h.delete token
  · intro event hbreaks before after
    have htarget : before.loop.target = target := target_run _ inputs
    obtain ⟨hcache, hphase⟩ := step_of_breaksOff (htarget.symm ▸ hbreaks)
    exact ⟨hcache, hphase, fun later hlater => run_filter hphase hlater⟩
  · intro token
    rw [step]
    split <;> rfl

end WatchedCache
end Keyring
