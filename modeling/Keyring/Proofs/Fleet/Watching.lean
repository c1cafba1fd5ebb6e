import Keyring.Proofs.Fleet.Knowledge
import Keyring.Proofs.Outcomes

/-!
# What watch loops know of the store

A loop that has listed the object knows a version of the store up to which the cache misses no write
to the object, and opens its feed there. From then on every write is told by the feed, and the cache
is not older than any event that the loop has taken.
-/
namespace Keyring

/-- Whether a loop builds on a list. -/
def LoopPhase.followsList : LoopPhase → Bool
  | .opening _ | .watching => true
  | _ => false

/-- The version token of the write that an event tells of. -/
def WatchEvent.token? : WatchEvent → Option String
  | .added object | .modified object | .deleted object => some object.resourceVersion
  | .bookmark _ | .error _ => none

theorem Change.token?_event (c : Change) : c.event.token? = some c.object.resourceVersion := by
  unfold event
  cases c.kind <;> rfl

/-- A list of the object as it was at an earlier version. -/
def MemoryStore.Lists (s : MemoryStore) (name : ObjectName) (list : ObjectList) : Prop :=
  ∃ version ≤ s.version, list.resourceVersion = Decimal.ofNat version ∧
    list.items = (s.objectAt version name).toList

/-- No write to the object up to a version is newer than another one. -/
def MemoryStore.Covers (s : MemoryStore) (name : ObjectName) (since : ℕ) (version : ℤ) : Prop :=
  ∀ c ∈ s.history, c.target = name → c.version ≤ since → (c.version : ℤ) ≤ version

namespace MemoryStore

variable {s s' : MemoryStore} {name : ObjectName}

theorem Lists.later {list : ObjectList} (h : s.Lists name list) (hleads : s.Leads s') :
    s'.Lists name list := by
  obtain ⟨version, hle, htoken, hitems⟩ := h
  refine ⟨version, Nat.le_trans hle hleads.version_le, htoken, ?_⟩
  rw [hleads.objectAt hle, hitems]

theorem Covers.later {since : ℕ} {version version' : ℤ} (h : s.Covers name since version)
    (hleads : s.Leads s') (hsince : since ≤ s.version) (hle : version ≤ version') :
    s'.Covers name since version' := by
  obtain ⟨later, hhistory, hnew⟩ := hleads.history
  intro c hc htarget hversion
  rw [hhistory, List.mem_append] at hc
  rcases hc with hc | hc
  · have := hnew c hc
    omega
  · exact Int.le_trans (h c hc htarget hversion) hle

end MemoryStore

namespace WatchLoop

@[simp] theorem followsList_fail (l : WatchLoop) : l.fail.phase.followsList = false := by
  unfold fail
  split <;> rfl

variable {l : WatchLoop} {s : MemoryStore} {cache : Cache} {target : ObjectName}

/-- After a list the cache has the object, or has lost it, and misses no write up to the list. -/
theorem listed_spec (hs : s.Consistent) (htarget : l.target = target)
    (hcache : cache.Reflects s target) {list : ObjectList} (hlist : s.Lists target list) :
    (l.listed cache (.ok list)).2.Reflects s target ∧
      ∃ since ≤ s.version, list.resourceVersion = Decimal.ofNat since ∧
        (since < Cache.versionLimit →
          s.Covers target since (l.listed cache (.ok list)).2.resourceVersion) := by
  obtain ⟨since, hle, htoken, hitems⟩ := hlist
  cases hobject : s.objectAt since target with
  | none =>
    have hlisted : (l.listed cache (.ok list)).2 = (cache.delete list.resourceVersion).1 := by
      rw [listed, hitems, hobject]
      rfl
    rw [hlisted]
    refine ⟨hcache.delete ⟨since, hle, htoken, hobject⟩, since, hle, htoken, ?_⟩
    intro hlimit c hc hctarget hversion
    have hcovered := Cache.le_resourceVersion_delete cache hlimit
    rw [htoken]
    omega
  | some object =>
    obtain ⟨c, hc, hversion, hctarget, hleft, hstamp, hlast⟩ := hs.objectAt_of_stamp hobject
    have hname : object.objectName = l.target := by
      rw [htarget]
      exact Change.objectName_of_lastLeft? hobject
    have hlisted : (l.listed cache (.ok list)).2 = (cache.update object).1 := by
      have hown : list.items.filter l.isOwn = [object] := by
        rw [hitems, hobject]
        simp [isOwn, hname]
      rw [listed, hown]
      rfl
    rw [hlisted]
    refine ⟨hcache.update ⟨c.version, ?_, hstamp, ?_⟩, since, hle, htoken, ?_⟩
    · omega
    · rw [← hctarget, hs.objectAt_of_mem hc, hleft]
    · intro hlimit d hd hdtarget hdversion
      have hnewest := hlast d hd hdtarget hdversion
      have hcovered := Cache.le_resourceVersion_update cache hstamp
        (Nat.lt_of_le_of_lt hversion hlimit)
      omega

/-- A loop takes what a write to its object tells, and then its cache is not older than the write.
-/
theorem receive_change (hs : s.Consistent) (htarget : l.target = target)
    (hcache : cache.Reflects s target) {c : Change} (hc : c ∈ s.history)
    (hctarget : c.target = target) :
    (l.receive cache c.event).1 = l ∧ (l.receive cache c.event).2.Reflects s target ∧
      (c.version < Cache.versionLimit →
        (c.version : ℤ) ≤ (l.receive cache c.event).2.resourceVersion) := by
  have hown : l.isOwn c.object = true := by
    rw [isOwn, htarget, ← hctarget]
    exact beq_self_eq_true _
  have hstamp := hs.stamped c hc
  have hattests := hs.attests_of_mem hc
  rw [hctarget] at hattests
  cases hkind : c.kind with
  | added =>
    have hleft : c.left? = some c.object := by rw [Change.left?, hkind]
    have hevent : l.receive cache c.event = (l, (cache.update c.object).1) := by
      rw [Change.event, hkind]
      exact if_pos hown
    rw [hevent]
    exact ⟨rfl, hcache.update (hleft ▸ hattests), Cache.le_resourceVersion_update cache hstamp⟩
  | modified =>
    have hleft : c.left? = some c.object := by rw [Change.left?, hkind]
    have hevent : l.receive cache c.event = (l, (cache.update c.object).1) := by
      rw [Change.event, hkind]
      exact if_pos hown
    rw [hevent]
    exact ⟨rfl, hcache.update (hleft ▸ hattests), Cache.le_resourceVersion_update cache hstamp⟩
  | deleted =>
    have hleft : c.left? = none := by rw [Change.left?, hkind]
    have hevent : l.receive cache c.event = (l, (cache.delete c.object.resourceVersion).1) := by
      rw [Change.event, hkind]
      exact if_pos hown
    rw [hevent]
    refine ⟨rfl, hcache.delete (hleft ▸ hattests), ?_⟩
    rw [hstamp]
    exact Cache.le_resourceVersion_delete cache

/-- Other events do not change the cache. -/
theorem receive_other (l : WatchLoop) (cache : Cache) {event : WatchEvent}
    (h : event.tellsChange = false) :
    ((l.receive cache event).1 = l ∨ (l.receive cache event).1 = l.fail) ∧
      (l.receive cache event).2 = cache := by
  cases event with
  | bookmark token => exact ⟨Or.inl rfl, rfl⟩
  | error message => exact ⟨Or.inr rfl, rfl⟩
  | added object | modified object | deleted object => cases h

end WatchLoop

namespace Watcher

/-- The events that the loop has asked for and not seen. -/
def inHand (w : Watcher) : List WatchEvent :=
  match w.answer with
  | some (.event event) => [event]
  | _ => []

/-- A loop whose cache misses no write up to its list and none that it has been told of. -/
structure Current (w : Watcher) (s : MemoryStore) (cache : Cache) (target : ObjectName) : Prop where
  own : w.loop.target = target
  opening : ∀ token, w.loop.phase = .opening token → token = w.listVersion ∧ w.consumed = []
  listed : w.loop.phase.followsList = true → ∃ since ≤ s.version,
    w.listVersion = Decimal.ofNat since ∧
      (since < Cache.versionLimit → s.Covers target since cache.resourceVersion)
  consumed : ∀ event ∈ w.consumed, ∀ version < Cache.versionLimit,
    event.token? = some (Decimal.ofNat version) → (version : ℤ) ≤ cache.resourceVersion

/-- A watcher who is served from his list on and knows only true things of the object. -/
structure Sound (w : Watcher) (s : MemoryStore) (cache : Cache) (target : ObjectName) : Prop where
  current : w.Current s cache target
  answer : ∀ list, w.answer = some (.listed (.ok list)) → s.Lists target list
  attached : w.loop.phase = .watching ∨ w.answer = some (.opened (.ok ())) → w.feed.isSome = true
  served : ∀ feed, w.feed = some feed → ∃ since ≤ s.version,
    w.listVersion = Decimal.ofNat since ∧ s.Serves feed target since (w.consumed ++ w.inHand)

variable {s s' : MemoryStore} {cache cache' : Cache} {target : ObjectName} {w w' : Watcher}

theorem Current.later (h : w.Current s cache target) (hleads : s.Leads s')
    (hle : cache.resourceVersion ≤ cache'.resourceVersion) : w.Current s' cache' target := by
  refine ⟨h.own, h.opening, ?_, ?_⟩
  · intro hfollows
    obtain ⟨since, hsince, htoken, hcovers⟩ := h.listed hfollows
    refine ⟨since, Nat.le_trans hsince hleads.version_le, htoken, ?_⟩
    intro hlimit
    exact (hcovers hlimit).later hleads hsince hle
  · intro event hevent version hlimit htoken
    exact Int.le_trans (h.consumed event hevent version hlimit htoken) hle

theorem Sound.later (h : w.Sound s cache target) {touched : Option ℕ}
    (hevolves : s.Evolves s' touched) (hfeed : ∀ feed, w.feed = some feed → some feed ≠ touched)
    (hle : cache.resourceVersion ≤ cache'.resourceVersion) : w.Sound s' cache' target := by
  refine ⟨h.current.later hevolves.leads hle, ?_, h.attached, ?_⟩
  · intro list hlist
    exact (h.answer list hlist).later hevolves.leads
  · intro feed hf
    obtain ⟨since, hsince, htoken, hserves⟩ := h.served feed hf
    exact ⟨since, Nat.le_trans hsince hevolves.leads.version_le, htoken,
      hevolves.serves (hfeed feed hf) hserves⟩

/-- A loop that does not build on a list any more has only its cache to answer for. -/
theorem Current.leave (h : w.Current s cache target) {loop : WatchLoop} {listVersion : String}
    {consumed : List WatchEvent} (htarget : loop.target = target)
    (hphase : loop.phase.followsList = false) (hconsumed : consumed ⊆ w.consumed) :
    ({ w with loop, listVersion, consumed } : Watcher).Current s cache target := by
  refine ⟨htarget, ?_, ?_, fun event hevent => h.consumed event (hconsumed hevent)⟩
  · intro token htoken
    simp only at htoken
    rw [htoken] at hphase
    cases hphase
  · intro hfollows
    simp only at hfollows
    rw [hfollows] at hphase
    cases hphase

/-- An event that tells of no write can be added to what the loop has taken. -/
theorem Current.skip (h : w.Current s cache target) (hphase : w.loop.phase = .watching)
    {event : WatchEvent} (hevent : event.tellsChange = false) :
    ({ w with consumed := w.consumed ++ [event] } : Watcher).Current s cache target := by
  refine ⟨h.own, ?_, h.listed, ?_⟩
  · intro token htoken
    simp only at htoken
    rw [hphase] at htoken
    cases htoken
  · intro other hother version hlimit htoken
    rcases List.mem_append.1 hother with hold | hnew
    · exact h.consumed other hold version hlimit htoken
    · rw [List.mem_singleton.1 hnew] at htoken
      cases event with
      | added object | modified object | deleted object => cases hevent
      | bookmark token => cases htoken
      | error message => cases htoken

/-- A loop that does not watch needs no feed. -/
theorem Current.unserved {loop : WatchLoop} {listVersion : String} {consumed : List WatchEvent}
    (h : ({ w with loop, listVersion, consumed } : Watcher).Current s cache target)
    (hphase : loop.phase ≠ .watching) :
    ({ w with loop, answer := none, feed := none, listVersion, consumed } : Watcher).Sound s cache
      target := by
  refine ⟨⟨h.own, h.opening, h.listed, h.consumed⟩, ?_, ?_, ?_⟩
  · intro list hlist
    cases hlist
  · rintro (hwatching | hopened)
    · exact absurd hwatching hphase
    · cases hopened
  · intro feed hfeed
    cases hfeed

/-- What a step of a watcher leaves behind. -/
structure Step (w w' : Watcher) (s s' : MemoryStore) (cache cache' : Cache) (target : ObjectName) :
    Prop where
  evolves : s.Evolves s' w.feed
  quiet : s.Quiet s'
  reflects : cache'.Reflects s' target
  le : cache.resourceVersion ≤ cache'.resourceVersion
  sound : w'.Sound s' cache' target
  owner : w'.owner = w.owner
  feed : ∀ feed, w'.feed = some feed → w.feed = some feed ∨ s.nextFeed ≤ feed

/-- A loop that goes on keeps its feed just if it watches. -/
theorem step_proceed (hs : s.Consistent) (hcache : cache'.Reflects s target)
    (hle : cache.resourceVersion ≤ cache'.resourceVersion) {loop : WatchLoop}
    {listVersion : String} {consumed : List WatchEvent}
    (hcurrent : ({ w with loop, listVersion, consumed } : Watcher).Current s cache' target)
    (hserved : loop.phase = .watching → w.feed.isSome = true ∧
      ∀ feed, w.feed = some feed → ∃ since ≤ s.version,
        listVersion = Decimal.ofNat since ∧ s.Serves feed target since consumed) :
    let left := ({ w with listVersion, consumed } : Watcher).proceed s loop
    w.Step left.2 s left.1 cache cache' target := by
  intro left
  have hleft : left = ({ w with listVersion, consumed } : Watcher).proceed s loop := rfl
  unfold proceed at hleft
  by_cases hphase : loop.phase = .watching
  · simp only [hphase, if_true] at hleft
    rw [hleft]
    obtain ⟨hattached, hserves⟩ := hserved hphase
    refine ⟨(MemoryStore.Quiet.refl s).evolves_same hs rfl rfl _, .refl s, hcache, hle,
      ⟨?_, ?_, fun _ => hattached, ?_⟩, rfl, fun _ hfeed => Or.inl hfeed⟩
    · exact ⟨hcurrent.own, hcurrent.opening, hcurrent.listed, hcurrent.consumed⟩
    · intro list hlist
      cases hlist
    · intro feed hfeed
      simpa [inHand] using hserves feed hfeed
  · simp only [hphase, if_false] at hleft
    cases hfeed : w.feed with
    | none =>
      simp only [hfeed] at hleft
      rw [hleft]
      refine ⟨(MemoryStore.Quiet.refl s).evolves_same hs rfl rfl _, .refl s, hcache, hle,
        hfeed ▸ hcurrent.unserved hphase, rfl, ?_⟩
      intro feed hsome
      cases hsome
    | some old =>
      simp only [hfeed] at hleft
      rw [hleft]
      have hevolves := MemoryStore.Evolves.drop hs old
      refine ⟨hfeed ▸ hevolves, .withFeeds s _ _, hcache.later hevolves.leads, hle,
        (hcurrent.later hevolves.leads (Int.le_refl _)).unserved hphase, rfl, ?_⟩
      intro feed hnone
      cases hnone

/-! ## Requests -/

/-- A list is true. -/
theorem step_list (hs : s.Consistent) (hcache : cache.Reflects s target)
    (hw : w.Sound s cache target) (hanswer : w.answer = none) :
    w.Step { w with answer := some (.listed (s.list w.loop.target).2) } s
      (s.list w.loop.target).1 cache cache target := by
  obtain ⟨⟨hquiet, hfeeds, hnext⟩, hresult⟩ := s.list_spec w.loop.target
  have hevolves := hquiet.evolves_same hs hfeeds hnext w.feed
  have hsame := hquiet.evolves_same hs hfeeds hnext none
  have hkept := hw.later hsame (fun _ _ => Option.some_ne_none _) (Int.le_refl _)
  refine ⟨hevolves, hquiet, hcache.later hevolves.leads, Int.le_refl _, ⟨?_, ?_, ?_, ?_⟩, rfl,
    fun _ hfeed => Or.inl hfeed⟩
  · exact ⟨hkept.current.own, hkept.current.opening, hkept.current.listed,
      hkept.current.consumed⟩
  · intro list hlist
    simp only [Option.some.injEq, WatchAnswer.listed.injEq] at hlist
    rcases hresult with hok | ⟨failure, hfailed⟩
    · rw [hok, Except.ok.injEq] at hlist
      rw [← hlist, hw.current.own]
      refine MemoryStore.Lists.later ⟨s.version, Nat.le_refl _, rfl, ?_⟩
        (hw.current.own ▸ hquiet.leads)
      rw [hs.object?_eq]
    · rw [hfailed] at hlist
      cases hlist
  · rintro (hwatching | hopened)
    · exact hw.attached (Or.inl hwatching)
    · cases hopened
  · intro feed hfeed
    have hserved := hkept.served feed hfeed
    simpa [inHand, hanswer] using hserved

/-- A feed that is opened serves from the list on. -/
theorem step_watch (hs : s.Consistent) (hcache : cache.Reflects s target)
    (hw : w.Sound s cache target) {token : String} (hphase : w.loop.phase = .opening token) :
    w.Step { w with
        answer := some (.opened ((s.watch w.loop.target token).2.map fun _ => ()))
        feed := (s.watch w.loop.target token).2.toOption } s
      (s.watch w.loop.target token).1 cache cache target := by
  obtain ⟨hevolves, hquiet, hopened⟩ := MemoryStore.watch_spec hs w.loop.target token
  have hkept := hw.current.later hquiet.leads (Int.le_refl cache.resourceVersion)
  refine ⟨?_, hquiet, hcache.later hquiet.leads, Int.le_refl _, ⟨?_, ?_, ?_, ?_⟩, rfl, ?_⟩
  · exact ⟨hevolves.leads, hevolves.consistent, hevolves.version_le_succ,
      fun _ hserves => hevolves.serves (Option.some_ne_none _) hserves⟩
  · exact ⟨hkept.own, hkept.opening, hkept.listed, hkept.consumed⟩
  · intro list hlist
    cases hlist
  · rintro (hwatching | hopen)
    · simp only at hwatching
      rw [hphase] at hwatching
      cases hwatching
    · cases hresult : (s.watch w.loop.target token).2 with
      | error failure =>
        simp only [hresult] at hopen
        cases hopen
      | ok feed => rfl
  · intro feed hfeed
    obtain ⟨since, hsince, htoken, -⟩ := hw.current.listed (by rw [hphase]; rfl)
    obtain ⟨hlist, hconsumed⟩ := hw.current.opening token hphase
    obtain ⟨-, -, version, hversion, hserves⟩ := hopened feed (eq_ok_of_toOption hfeed)
    rw [hlist, htoken] at hversion
    obtain rfl := eq_of_parseVersion hversion
    refine ⟨version, Nat.le_trans hsince hquiet.leads.version_le, htoken, ?_⟩
    rw [← hw.current.own]
    simpa [hconsumed, inHand] using hserves hsince
  · intro feed hfeed
    exact Or.inr (Nat.le_of_eq (hopened feed (eq_ok_of_toOption hfeed)).1.symm)

/-- What comes out of the feed is in the hand of the loop. -/
theorem step_next (hcache : cache.Reflects s target) (hs : s.Consistent)
    (hw : w.Sound s cache target) (hanswer : w.answer = none) (hphase : w.loop.phase = .watching)
    {feed : ℕ} (hfeed : w.feed = some feed) {event : Option WatchEvent}
    (hnext : s.next? feed = some (s', event)) :
    w.Step { w with answer := some (event.elim .ended .event) } s s' cache cache target := by
  obtain ⟨hevolves, hquiet, -, hserves⟩ := MemoryStore.next?_spec hs hnext
  have hkept := hw.current.later hquiet.leads (Int.le_refl cache.resourceVersion)
  refine ⟨hfeed ▸ hevolves, hquiet, hcache.later hquiet.leads, Int.le_refl _,
    ⟨?_, ?_, fun _ => hw.attached (Or.inl hphase), ?_⟩, rfl, fun _ hsame => Or.inl hsame⟩
  · exact ⟨hkept.own, hkept.opening, hkept.listed, hkept.consumed⟩
  · intro list hlist
    cases event with
    | none => cases hlist
    | some event => cases hlist
  · intro own hown
    obtain ⟨since, hsince, htoken, hserved⟩ := hw.served own hown
    obtain rfl : own = feed := Option.some.inj (hown.symm.trans hfeed)
    have hnone : w.inHand = [] := by rw [inHand, hanswer]
    rw [hnone, List.append_nil] at hserved
    refine ⟨since, Nat.le_trans hsince hquiet.leads.version_le, htoken, ?_⟩
    have htaken := hserves hserved
    cases event with
    | none => simpa [inHand] using htaken
    | some event => simpa [inHand] using htaken

/-- What the store answers to a loop is true. -/
theorem step_ask (hs : s.Consistent) (hcache : cache.Reflects s target)
    (hw : w.Sound s cache target) (hanswer : w.answer = none) (h : w.ask? s = some (s', w')) :
    w.Step w' s s' cache cache target := by
  unfold ask? at h
  split at h
  next =>
    obtain ⟨rfl, rfl⟩ := Prod.mk.inj (Option.some.inj h)
    exact step_list hs hcache hw hanswer
  next token hphase =>
    obtain ⟨rfl, rfl⟩ := Prod.mk.inj (Option.some.inj h)
    exact step_watch hs hcache hw hphase
  next hphase =>
    obtain ⟨feed, hfeed, htaken⟩ := Option.bind_eq_some_iff.1 h
    obtain ⟨⟨after, event⟩, hnext, heq⟩ := Option.map_eq_some_iff.1 htaken
    obtain ⟨rfl, rfl⟩ := Prod.mk.inj heq
    exact step_next hcache hs hw hanswer hphase hfeed hnext
  next => cases h

/-! ## Answers -/

/-- A loop that has failed has only its cache to answer for. -/
theorem step_fail (hs : s.Consistent) (hcache : cache.Reflects s target)
    (hw : w.Current s cache target) {listVersion : String} {consumed : List WatchEvent}
    (hconsumed : consumed ⊆ w.consumed) :
    let left := ({ w with listVersion, consumed } : Watcher).proceed s w.loop.fail
    w.Step left.2 s left.1 cache cache target := by
  apply step_proceed hs hcache (Int.le_refl _)
  · exact hw.leave (w.loop.fixed_fail.1.trans hw.own) w.loop.followsList_fail hconsumed
  · intro hphase
    exact absurd hphase w.loop.phase_fail_ne

/-- A loop that lists builds on its list. -/
theorem step_listed (hs : s.Consistent) (hcache : cache.Reflects s target)
    (hw : w.Sound s cache target) {list : ObjectList}
    (hanswer : w.answer = some (.listed (.ok list))) :
    let next := w.loop.listed cache (.ok list)
    let left := ({ w with listVersion := list.resourceVersion, consumed := [] } : Watcher).proceed s
      next.1
    w.Step left.2 s left.1 cache next.2 target := by
  obtain ⟨hreflects, hcovers⟩ :=
    WatchLoop.listed_spec hs hw.current.own hcache (hw.answer list hanswer)
  apply step_proceed hs hreflects (w.loop.resourceVersion_le_listed cache (.ok list))
  · refine ⟨hw.current.own, ?_, fun _ => hcovers, by simp⟩
    intro token htoken
    exact ⟨(LoopPhase.opening.inj htoken).symm, rfl⟩
  · intro hwatching
    cases hwatching

/-- A loop that is told of a write knows it afterwards. -/
theorem step_change (hs : s.Consistent) (hcache : cache.Reflects s target)
    (hw : w.Sound s cache target) (hphase : w.loop.phase = .watching) {event : WatchEvent}
    (hanswer : w.answer = some (.event event)) (htells : event.tellsChange = true) :
    let next := w.loop.receive cache event
    let left := ({ w with consumed := w.consumed ++ [event] } : Watcher).proceed s next.1
    w.Step left.2 s left.1 cache next.2 target := by
  have hserved := hw.served
  rw [inHand, hanswer] at hserved
  have hattached := hw.attached (Or.inl hphase)
  obtain ⟨feed, hfeed⟩ := Option.isSome_iff_exists.1 hattached
  obtain ⟨since, -, -, -, f, -, hname, hfollows⟩ := hserved feed hfeed
  have hmem : event ∈ (w.consumed ++ [event]) ++ f.held := by simp
  obtain ⟨c, hc, -, hctarget, rfl⟩ := hfollows.event_mem hmem htells
  obtain ⟨hloop, hreflects, hnewest⟩ :=
    WatchLoop.receive_change hs hw.current.own hcache hc (hctarget.trans hname)
  have hle := w.loop.resourceVersion_le_receive cache c.event
  have hkept := hw.current.later (.refl s) hle
  intro next
  have hstays : next.1 = w.loop := hloop
  rw [hstays]
  apply step_proceed hs hreflects hle
  · refine ⟨hkept.own, ?_, hkept.listed, ?_⟩
    · intro token htoken
      simp only at htoken
      rw [hphase] at htoken
      cases htoken
    · intro other hother version hlimit htoken
      rcases List.mem_append.1 hother with hold | hnew
      · exact hkept.consumed other hold version hlimit htoken
      · rw [List.mem_singleton.1 hnew, c.token?_event, hs.stamped c hc, Option.some.injEq]
          at htoken
        obtain rfl := Decimal.ofNat_injective htoken
        exact hnewest hlimit
  · exact fun _ => ⟨hattached, hserved⟩

/-- Other events leave the cache alone, and a failure ends the watch. -/
theorem step_other (hs : s.Consistent) (hcache : cache.Reflects s target)
    (hw : w.Sound s cache target) (hphase : w.loop.phase = .watching) {event : WatchEvent}
    (hanswer : w.answer = some (.event event)) (htells : event.tellsChange = false) :
    let next := w.loop.receive cache event
    let left := ({ w with consumed := w.consumed ++ [event] } : Watcher).proceed s next.1
    w.Step left.2 s left.1 cache next.2 target := by
  have hserved := hw.served
  rw [inHand, hanswer] at hserved
  have hattached := hw.attached (Or.inl hphase)
  obtain ⟨hloop, hsame⟩ := w.loop.receive_other cache htells
  have hskipped := hw.current.skip hphase htells
  intro next
  have hcached : next.2 = cache := hsame
  have hgoesOn : next.1 = w.loop ∨ next.1 = w.loop.fail := hloop
  rw [hcached]
  rcases hgoesOn with hstays | hfails
  · rw [hstays]
    exact step_proceed hs hcache (Int.le_refl _) hskipped fun _ => ⟨hattached, hserved⟩
  · rw [hfails]
    apply step_proceed hs hcache (Int.le_refl _)
    · exact hskipped.leave (w.loop.fixed_fail.1.trans hw.current.own) w.loop.followsList_fail
        (List.Subset.refl _)
    · intro hwatching
      exact absurd hwatching w.loop.phase_fail_ne

/-- What a loop makes of a true answer. -/
theorem step_look (hs : s.Consistent) (hcache : cache.Reflects s target)
    (hw : w.Sound s cache target) {answer : WatchAnswer} (hanswer : w.answer = some answer)
    (h : w.look? s cache answer = some (s', cache', w')) : w.Step w' s s' cache cache' target := by
  unfold look? at h
  split at h
  next result hphase =>
    simp only [Option.some.injEq, Prod.mk.injEq] at h
    obtain ⟨rfl, rfl, rfl⟩ := h
    cases result with
    | error failure => exact step_fail hs hcache hw.current (List.nil_subset _)
    | ok list => exact step_listed hs hcache hw hanswer
  next token result hphase =>
    simp only [Option.some.injEq, Prod.mk.injEq] at h
    obtain ⟨rfl, rfl, rfl⟩ := h
    cases result with
    | error failure => exact step_fail hs hcache hw.current (List.Subset.refl _)
    | ok opened =>
      have hlisted := hw.current.listed (by rw [hphase]; rfl)
      apply step_proceed hs hcache (Int.le_refl _)
      · refine ⟨hw.current.own, ?_, fun _ => hlisted, hw.current.consumed⟩
        intro token htoken
        cases htoken
      · intro _
        refine ⟨hw.attached (Or.inr hanswer), ?_⟩
        intro feed hfeed
        have hserved := hw.served feed hfeed
        rwa [inHand, hanswer, List.append_nil] at hserved
  next event hphase =>
    simp only [Option.some.injEq, Prod.mk.injEq] at h
    obtain ⟨rfl, rfl, rfl⟩ := h
    cases htells : event.tellsChange with
    | true => exact step_change hs hcache hw hphase hanswer htells
    | false => exact step_other hs hcache hw hphase hanswer htells
  next hphase =>
    simp only [Option.some.injEq, Prod.mk.injEq] at h
    obtain ⟨rfl, rfl, rfl⟩ := h
    exact step_fail hs hcache hw.current (List.Subset.refl _)
  next => cases h

/-- A step of a watcher keeps what it and its cache know true. -/
theorem step?_spec {step : WatchStep} (hs : s.Consistent) (hcache : cache.Reflects s target)
    (hw : w.Sound s cache target) (h : w.step? s cache step = some (s', cache', w')) :
    w.Step w' s s' cache cache' target := by
  cases step with
  | ask =>
    simp only [step?] at h
    split at h
    next hanswer =>
      obtain ⟨⟨after, next⟩, hask, heq⟩ := Option.map_eq_some_iff.1 h
      simp only [Prod.mk.injEq] at heq
      obtain ⟨rfl, rfl, rfl⟩ := heq
      exact step_ask hs hcache hw hanswer hask
    next => cases h
  | look =>
    simp only [step?] at h
    obtain ⟨answer, hanswer, hlook⟩ := Option.bind_eq_some_iff.1 h
    exact step_look hs hcache hw hanswer hlook
  | resume =>
    simp only [step?] at h
    split at h
    next delay hphase =>
      simp only [Option.some.injEq, Prod.mk.injEq] at h
      obtain ⟨rfl, rfl, rfl⟩ := h
      have hleft : ({ w with loop := w.loop.resume } : Watcher).Current s cache target :=
        hw.current.leave hw.current.own rfl (List.Subset.refl _)
      refine ⟨(MemoryStore.Quiet.refl s).evolves_same hs rfl rfl _, .refl s, hcache, Int.le_refl _,
        ⟨hleft, hw.answer, ?_, hw.served⟩, rfl, fun _ hfeed => Or.inl hfeed⟩
      rintro (hwatching | hopened)
      · cases hwatching
      · exact hw.attached (Or.inr hopened)
    next => cases h
  | cancel =>
    simp only [step?] at h
    split at h
    next => cases h
    next =>
      simp only [Option.some.injEq, Prod.mk.injEq] at h
      obtain ⟨rfl, rfl, rfl⟩ := h
      apply step_proceed hs hcache (Int.le_refl _)
      · exact hw.current.leave hw.current.own rfl (List.Subset.refl _)
      · intro hwatching
        cases hwatching

theorem sound_start (s : MemoryStore) (owner : ℕ) (member : Member) (cache : Cache) :
    (start owner member).Sound s cache member.target := by
  constructor
  · constructor
    · rfl
    · intro token htoken
      cases htoken
    · intro hfollows
      cases hfollows
    · intro event hevent
      cases hevent
  · intro list hlist
    cases hlist
  · rintro (hwatching | hopened)
    · cases hwatching
    · cases hopened
  · intro feed hfeed
    cases hfeed

end Watcher
end Keyring
