import Keyring.Proofs.Fleet.Rotations
import Keyring.Proofs.Fleet.Versions
import Keyring.Proofs.WatchLoop

/-!
# Processes that begin late

Processes that begin while an object does not exist never learn of its earlier life. The store
answers with the object of now and lists it at the version of now, and a watch from there on tells
later writes only.
-/
namespace Keyring

/-- The token of that version or of a later one. -/
def Recent (floor : ℕ) (token : String) : Prop :=
  ∃ version ≥ floor, token = Decimal.ofNat version

variable {floor : ℕ}

namespace MemoryStore

variable {s s' : MemoryStore} {name : ObjectName}

/-- A store in which the object did not exist at that version. -/
structure Lacked (s : MemoryStore) (name : ObjectName) (floor : ℕ) : Prop where
  floor_le : floor ≤ s.version
  absent : s.objectAt floor name = none

theorem Lacked.later (h : s.Lacked name floor) (hleads : s.Leads s') : s'.Lacked name floor :=
  ⟨Nat.le_trans h.floor_le hleads.version_le, (hleads.objectAt h.floor_le name).trans h.absent⟩

/-- An object that exists again was written since. -/
theorem Lacked.recent (h : s.Lacked name floor) (hs : s.Consistent) {object : StoredObject}
    (hobject : s.object? name = some object) : Recent floor object.resourceVersion := by
  rw [hs.object?_eq] at hobject
  obtain ⟨c, -, -, -, -, htoken, hlast⟩ := hs.objectAt_of_stamp hobject
  refine ⟨c.version, ?_, htoken⟩
  by_contra hold
  have hquiet := objectAt_eq_of_quiet h.floor_le fun d hd htarget hle =>
    Nat.le_trans (hlast d hd htarget hle) (Nat.le_of_not_le hold)
  rw [hobject, h.absent] at hquiet
  cases hquiet

end MemoryStore

namespace Cache.Since

variable {cache : Cache}

theorem update (h : cache.Since floor) {object : StoredObject}
    (hobject : Recent floor object.resourceVersion) : (cache.update object).1.Since floor := by
  obtain ⟨version, hversion, htoken⟩ := hobject
  rw [Cache.update, htoken, newer?_ofNat]
  split
  next newer hnewer =>
    split at hnewer
    next =>
      right
      rw [← Option.some.inj hnewer]
      exact Int.ofNat_le.2 hversion
    next => cases hnewer
  next => exact h

theorem delete (h : cache.Since floor) (token : String) : (cache.delete token).1.Since floor := by
  unfold Cache.delete
  split
  next => exact Or.inl rfl
  next => exact h

end Cache.Since

/-! ## Calls -/

/-- An answer that does not tell of a time before that version. -/
def StoreAnswer.Since (floor : ℕ) : StoreAnswer → Prop
  | .found (.ok (some object)) | .written (.ok object) => Recent floor object.resourceVersion
  | _ => True

namespace Call

variable {s s' : MemoryStore} {target : ObjectName} {w w' : KeySetWrite} {cache cache' : Cache}

theorem ask?_since (hs : s.Consistent) (hw : w.Sound target) (hlacked : s.Lacked target floor)
    {answer : StoreAnswer} (h : ask? w s = some (s', answer)) : answer.Since floor := by
  have hnext : ∀ object, Recent floor (s.stamp object).resourceVersion := fun object =>
    ⟨s.version + 1, Nat.le_succ_of_le hlacked.floor_le, rfl⟩
  unfold ask? at h
  split at h
  next =>
    obtain ⟨-, rfl⟩ := Prod.mk.inj (Option.some.inj h)
    obtain ⟨-, hresult | ⟨failure, hresult⟩⟩ := s.get_spec w.request.target
    · rw [hresult, hw.request]
      cases hobject : s.object? target with
      | none => trivial
      | some object => exact hlacked.recent hs hobject
    · rw [hresult]
      trivial
  next object id _ =>
    obtain ⟨-, rfl⟩ := Prod.mk.inj (Option.some.inj h)
    by_cases hcreation : KeySetWrite.isCreation object = true
    · rw [if_pos hcreation]
      rcases s.create_cases object with ⟨current, -, hfailed⟩ | ⟨-, -, hresult⟩
      · rw [hfailed]
        trivial
      · rw [hresult]
        exact hnext object
    · rw [if_neg hcreation]
      rcases s.update_cases object with ⟨failure, hfailed⟩ | ⟨current, -, -, -, hresult⟩
      · rw [hfailed]
        trivial
      · rw [hresult]
        exact hnext object
  next => cases h

theorem look?_since (hcache : cache.Since floor) {answer : StoreAnswer}
    (hanswer : answer.Since floor) (h : look? w cache answer = some (w', cache')) :
    cache'.Since floor := by
  rcases look?_cases h with ⟨failure, -, rfl⟩ |
    ⟨found, object, plan, rfl, rfl, -, ⟨id, -, -, rfl⟩ | ⟨pending, -, rfl, -⟩⟩ |
    ⟨object, id, written, -, rfl, -, rfl⟩
  · exact hcache
  · cases found with
    | none => exact hcache
    | some object => exact hcache.update hanswer
  · exact hcache
  · exact hcache.update hanswer

/-- A step of a call tells its process nothing older. -/
theorem step?_since {c c' : Call} {rsaBits : ℕ} {step : CallStep} (hs : s.Consistent)
    (hc : c.Sound s target) (hlacked : s.Lacked target floor) (hcache : cache.Since floor)
    (hanswer : ∀ answer, c.answer = some answer → answer.Since floor)
    (h : c.step? rsaBits s cache step = some (s', cache', c')) :
    cache'.Since floor ∧ ∀ answer, c'.answer = some answer → answer.Since floor := by
  rcases step?_cases h with ⟨w, answer, -, hw, -, hask, rfl, rfl⟩ |
    ⟨w, answer, next, -, hw, htold, hlook, -, rfl⟩ | ⟨w, next, -, -, -, rfl, rfl⟩ |
    ⟨w, result, -, -, -, -, rfl, rfl⟩
  · refine ⟨hcache, ?_⟩
    intro told htold
    exact Option.some.inj htold ▸ ask?_since hs (hc.write w hw) hlacked hask
  · refine ⟨look?_since hcache (hanswer answer htold) hlook, ?_⟩
    intro told hnone
    cases hnone
  · exact ⟨hcache, hanswer⟩
  · exact ⟨hcache, hanswer⟩

theorem answer_start (owner : ℕ) (member : Member) (cache : Cache) (errand : Errand) (name : String)
    (keyType : KeyType) : (start owner member cache errand name keyType).answer = none := by
  unfold start
  split
  next => rfl
  next => split <;> rfl

end Call

/-! ## Watchers -/

namespace WatchLoop

theorem listed_since {l : WatchLoop} {cache : Cache} (hcache : cache.Since floor)
    {list : ObjectList} (hitems : ∀ object ∈ list.items, Recent floor object.resourceVersion) :
    (l.listed cache (.ok list)).2.Since floor := by
  apply listed_induction (P := fun c => c.Since floor) hcache
  · intro c object hobject _ hc
    exact hc.update (hitems object hobject)
  · exact fun c token hc => hc.delete token

theorem receive_since {l : WatchLoop} {cache : Cache} (hcache : cache.Since floor)
    {event : WatchEvent} (hevent : ∀ token, event.token? = some token → Recent floor token) :
    (l.receive cache event).2.Since floor := by
  apply receive_induction (P := fun c => c.Since floor) hcache
  · intro c object hobject _ hc
    apply hc.update (hevent object.resourceVersion _)
    cases event with
    | added other | modified other => rw [List.mem_singleton.1 hobject]; rfl
    | deleted other | bookmark token | error message => cases hobject
  · exact fun c token hc => hc.delete token

end WatchLoop

namespace Watcher

variable {s s' : MemoryStore} {target : ObjectName} {w w' : Watcher} {cache cache' : Cache}

/-- A watcher whose lists are not older than that version. -/
structure Since (w : Watcher) (floor : ℕ) : Prop where
  answer : ∀ list, w.answer = some (.listed (.ok list)) → Recent floor list.resourceVersion ∧
    ∀ object ∈ list.items, Recent floor object.resourceVersion
  listed : w.listVersion = "" ∨ Recent floor w.listVersion

/-- A watcher that waits for no list. -/
theorem Since.of_listed (h : w.listVersion = "" ∨ Recent floor w.listVersion)
    (hanswer : ∀ result, w.answer ≠ some (.listed result)) : w.Since floor :=
  ⟨fun list hlist => absurd hlist (hanswer (.ok list)), h⟩

theorem proceed_since (w : Watcher) (s : MemoryStore) (loop : WatchLoop)
    (h : w.listVersion = "" ∨ Recent floor w.listVersion) : (w.proceed s loop).2.Since floor := by
  unfold proceed
  dsimp only
  split
  next => exact .of_listed h (by simp)
  next =>
    split
    next => exact .of_listed h (by simp)
    next => exact .of_listed h (by simp)

theorem ask?_since (hs : s.Consistent) (hw : w.Sound s cache target)
    (hlacked : s.Lacked target floor) (hsince : w.Since floor) (h : w.ask? s = some (s', w')) :
    w'.Since floor := by
  unfold ask? at h
  split at h
  next =>
    obtain ⟨-, rfl⟩ := Prod.mk.inj (Option.some.inj h)
    refine ⟨?_, hsince.listed⟩
    intro list hlist
    obtain ⟨-, hresult | ⟨failure, hresult⟩⟩ := s.list_spec w.loop.target
    · rw [hresult] at hlist
      obtain rfl := Except.ok.inj (WatchAnswer.listed.inj (Option.some.inj hlist))
      refine ⟨⟨s.version, hlacked.floor_le, rfl⟩, ?_⟩
      intro object hobject
      rw [hw.current.own] at hobject
      exact hlacked.recent hs (Option.mem_toList.1 hobject)
    · rw [hresult] at hlist
      cases hlist
  next token _ =>
    obtain ⟨-, rfl⟩ := Prod.mk.inj (Option.some.inj h)
    exact .of_listed hsince.listed (by simp)
  next =>
    obtain ⟨feed, -, htaken⟩ := Option.bind_eq_some_iff.1 h
    obtain ⟨⟨after, event⟩, -, heq⟩ := Option.map_eq_some_iff.1 htaken
    obtain ⟨-, rfl⟩ := Prod.mk.inj heq
    refine .of_listed hsince.listed ?_
    intro result
    cases event <;> simp
  next => cases h

/-- What a watch tells was written after its list. -/
theorem event_since (hs : s.Consistent) (hw : w.Sound s cache target) (hsince : w.Since floor)
    (hphase : w.loop.phase = .watching) {event : WatchEvent}
    (hanswer : w.answer = some (.event event)) {token : String}
    (htoken : event.token? = some token) : Recent floor token := by
  obtain ⟨feed, hfeed⟩ := Option.isSome_iff_exists.1 (hw.attached (Or.inl hphase))
  obtain ⟨since, -, hlisted, -, f, -, -, hfollows⟩ := hw.served feed hfeed
  have hfloor : floor ≤ since := by
    rcases hsince.listed with hempty | ⟨version, hversion, hlist⟩
    · exact absurd (hlisted.symm.trans hempty) (Decimal.ofNat_ne_empty since)
    · rw [hlisted] at hlist
      rw [Decimal.ofNat_injective hlist]
      exact hversion
  have hmem : event ∈ w.consumed ++ w.inHand ++ f.held := by simp [inHand, hanswer]
  have htells : event.tellsChange = true := by
    cases event with
    | added object | modified object | deleted object => rfl
    | bookmark token | error message => cases htoken
  obtain ⟨c, hc, hlater, -, rfl⟩ := hfollows.event_mem hmem htells
  rw [c.token?_event, hs.stamped c hc, Option.some.injEq] at htoken
  exact ⟨c.version, by omega, htoken.symm⟩

theorem look?_since (hs : s.Consistent) (hw : w.Sound s cache target) (hsince : w.Since floor)
    (hcache : cache.Since floor) {answer : WatchAnswer} (hanswer : w.answer = some answer)
    (h : w.look? s cache answer = some (s', cache', w')) :
    cache'.Since floor ∧ w'.Since floor := by
  unfold look? at h
  split at h
  next result _ =>
    simp only [Option.some.injEq, Prod.mk.injEq] at h
    obtain ⟨-, rfl, rfl⟩ := h
    cases result with
    | error failure => exact ⟨hcache, proceed_since _ _ _ hsince.listed⟩
    | ok list =>
      obtain ⟨hlist, hitems⟩ := hsince.answer list hanswer
      exact ⟨WatchLoop.listed_since hcache hitems, proceed_since _ _ _ (Or.inr hlist)⟩
  next result _ =>
    simp only [Option.some.injEq, Prod.mk.injEq] at h
    obtain ⟨-, rfl, rfl⟩ := h
    exact ⟨hcache, proceed_since _ _ _ hsince.listed⟩
  next event hphase =>
    simp only [Option.some.injEq, Prod.mk.injEq] at h
    obtain ⟨-, rfl, rfl⟩ := h
    refine ⟨WatchLoop.receive_since hcache ?_, proceed_since _ _ _ hsince.listed⟩
    exact fun _ htoken => event_since hs hw hsince hphase hanswer htoken
  next =>
    simp only [Option.some.injEq, Prod.mk.injEq] at h
    obtain ⟨-, rfl, rfl⟩ := h
    exact ⟨hcache, proceed_since _ _ _ hsince.listed⟩
  next => cases h

/-- A step of a watcher tells its process nothing older. -/
theorem step?_since {step : WatchStep} (hs : s.Consistent) (hw : w.Sound s cache target)
    (hlacked : s.Lacked target floor) (hsince : w.Since floor) (hcache : cache.Since floor)
    (h : w.step? s cache step = some (s', cache', w')) :
    cache'.Since floor ∧ w'.Since floor := by
  cases step with
  | ask =>
    simp only [step?] at h
    split at h
    next =>
      obtain ⟨⟨after, next⟩, hask, heq⟩ := Option.map_eq_some_iff.1 h
      simp only [Prod.mk.injEq] at heq
      obtain ⟨-, rfl, rfl⟩ := heq
      exact ⟨hcache, ask?_since hs hw hlacked hsince hask⟩
    next => cases h
  | look =>
    simp only [step?] at h
    obtain ⟨answer, hanswer, hlook⟩ := Option.bind_eq_some_iff.1 h
    exact look?_since hs hw hsince hcache hanswer hlook
  | resume =>
    simp only [step?] at h
    split at h
    next =>
      simp only [Option.some.injEq, Prod.mk.injEq] at h
      obtain ⟨-, rfl, rfl⟩ := h
      exact ⟨hcache, hsince.answer, hsince.listed⟩
    next => cases h
  | cancel =>
    simp only [step?] at h
    split at h
    next => cases h
    next =>
      simp only [Option.some.injEq, Prod.mk.injEq] at h
      obtain ⟨-, rfl, rfl⟩ := h
      exact ⟨hcache, proceed_since _ _ _ hsince.listed⟩

end Watcher

namespace Fleet

variable {members : ℕ → Member} {target : ObjectName} {first fleet next last : Fleet}
  {actions : List Action}

/-- A fleet in which nobody knows of a time of the object before that version. -/
structure Since (fleet : Fleet) (members : ℕ → Member) (target : ObjectName) (floor : ℕ) :
    Prop where
  lacked : fleet.store.Lacked target floor
  caches : ∀ i, (members i).target = target → (fleet.cache i).Since floor
  calls : ∀ i c, fleet.call i = some c → (members c.owner).target = target →
    ∀ answer, c.answer = some answer → answer.Since floor
  watchers : ∀ k w, fleet.watcher k = some w → (members w.owner).target = target → w.Since floor

namespace Since

/-- A process may change the store and its cache, if its cache stays without older times. -/
theorem advance (h : fleet.Since members target floor) {store : MemoryStore}
    (hleads : fleet.store.Leads store) {owner : ℕ} {cache : Cache}
    (hcache : (members owner).target = target → cache.Since floor) :
    (fleet.advance store owner cache).Since members target floor := by
  refine ⟨h.lacked.later hleads, ?_, h.calls, h.watchers⟩
  intro i hi
  by_cases howner : i = owner
  · subst howner
    simpa [Fleet.advance] using hcache hi
  · simpa [Fleet.advance, howner] using h.caches i hi

theorem setCall (h : fleet.Since members target floor) {i : ℕ} {c : Call}
    (hc : (members c.owner).target = target →
      ∀ answer, c.answer = some answer → answer.Since floor) :
    (fleet.setCall i c).Since members target floor := by
  refine ⟨h.lacked, h.caches, ?_, h.watchers⟩
  intro j d hd
  rcases call_setCall hd with ⟨-, rfl⟩ | ⟨-, hold⟩
  · exact hc
  · exact h.calls j d hold

theorem setWatcher (h : fleet.Since members target floor) {k : ℕ} {w : Watcher}
    (hw : (members w.owner).target = target → w.Since floor) :
    (fleet.setWatcher k w).Since members target floor := by
  refine ⟨h.lacked, h.caches, h.calls, ?_⟩
  intro l v hv
  rcases watcher_setWatcher hv with ⟨-, rfl⟩ | ⟨-, hold⟩
  · exact hw
  · exact h.watchers l v hold

theorem step? (h : fleet.Since members target floor) (hsound : fleet.Sound members)
    {action : Action} (hstep : fleet.step? members action = some next) :
    next.Since members target floor := by
  have hleads := (step?_spec hsound hstep).2.leads
  rcases step?_cases hstep with ⟨step, store, -, -, rfl⟩ |
    ⟨i, owner, errand, name, keyType, -, -, rfl⟩ |
    ⟨i, step, c, store, cache, c', -, hc, hcall, rfl⟩ | ⟨k, owner, -, -, rfl⟩ |
    ⟨k, step, w, store, cache, w', -, hw, hwatcher, rfl⟩
  · exact ⟨h.lacked.later hleads, h.caches, h.calls, h.watchers⟩
  · apply h.setCall
    intro _ answer hanswer
    rw [Call.answer_start] at hanswer
    cases hanswer
  · have hsame := (Call.step?_same hcall).1
    have htold : (members c.owner).target = target → cache.Since floor ∧
        ∀ answer, c'.answer = some answer → answer.Since floor := by
      intro htarget
      exact Call.step?_since hsound.store (htarget ▸ hsound.calls i c hc) h.lacked
        (h.caches c.owner htarget) (h.calls i c hc htarget) hcall
    apply (h.advance hleads fun htarget => (htold htarget).1).setCall
    rw [hsame]
    exact fun htarget => (htold htarget).2
  · apply h.setWatcher
    intro _
    exact .of_listed (Or.inl rfl) (by simp [Watcher.start])
  · have hsame := (Watcher.step?_spec hsound.store (hsound.caches w.owner)
      (hsound.watchers k w hw) hwatcher).owner
    have htold : (members w.owner).target = target → cache.Since floor ∧ w'.Since floor := by
      intro htarget
      exact Watcher.step?_since hsound.store (htarget ▸ hsound.watchers k w hw) h.lacked
        (h.watchers k w hw htarget) (h.caches w.owner htarget) hwatcher
    apply (h.advance hleads fun htarget => (htold htarget).1).setWatcher
    rw [hsame]
    exact fun htarget => (htold htarget).2

theorem run? (h : first.Since members target floor) (hsound : first.Sound members)
    (hrun : first.run? members actions = some last) : last.Since members target floor := by
  refine runSteps?_induction (P := fun _ last => last.Since members target floor) h ?_ hrun
  intro actions action before after hbefore ih hstep
  exact ih.step? (run?_spec hsound hbefore).1 hstep

end Since

/-- While a store is used by other programs alone, processes have done nothing yet. -/
theorem unused_of_store {steps : List StoreStep}
    (h : start.run? members (steps.map .store) = some first) :
    first.cache = start.cache ∧ first.call = start.call ∧ first.watcher = start.watcher := by
  induction steps using List.reverseRecOn generalizing first with
  | nil => exact Option.some.inj h ▸ ⟨rfl, rfl, rfl⟩
  | append_singleton steps step ih =>
    simp only [List.map_append, List.map_singleton, runSteps?_concat] at h
    obtain ⟨before, hbefore, hstep⟩ := Option.bind_eq_some_iff.1 h
    obtain ⟨store, -, rfl⟩ := Option.map_eq_some_iff.1 hstep
    have hunused := ih hbefore
    exact hunused

/-- Processes that begin at a used store without the object know nothing of it. -/
theorem since_of_unused {steps : List StoreStep}
    (h : start.run? members (steps.map .store) = some first)
    (habsent : first.store.object? target = none) :
    first.Since members target first.store.version := by
  obtain ⟨hcache, hcall, hwatcher⟩ := unused_of_store h
  have hs := (run?_spec (.start members) h).1.store
  refine ⟨⟨Nat.le_refl _, by rw [← hs.object?_eq, habsent]⟩, ?_, ?_, ?_⟩
  · intro i _
    rw [hcache]
    exact Or.inl rfl
  · intro i c hc
    rw [hcall] at hc
    cases hc
  · intro k w hw
    rw [hwatcher] at hw
    cases hw

end Fleet
end Keyring
