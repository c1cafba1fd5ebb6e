import Keyring.Proofs.Fleet.Watching

/-!
# Caches are snapshots

In every state that a fleet can reach, whatever its processes and the other writers have done in
whatever order, each cache holds the key sets of the object as it was right after the write of the
cache's version. A loop that watches misses nothing: what it has taken and what is on its way to it
is every write since its list, and once it has taken all of them its cache is the object of now.
-/
namespace Keyring.Fleet

/-- A fleet in which everybody knows only true things of the store, and no two loops share a feed.
-/
structure Sound (fleet : Fleet) (members : ℕ → Member) : Prop where
  store : fleet.store.Consistent
  caches : ∀ i, (fleet.cache i).Reflects fleet.store (members i).target
  calls : ∀ i c, fleet.call i = some c → c.Sound fleet.store (members c.owner).target
  watchers : ∀ k w, fleet.watcher k = some w →
    w.Sound fleet.store (fleet.cache w.owner) (members w.owner).target
  apart : ∀ k l v w feed, k ≠ l → fleet.watcher k = some v → fleet.watcher l = some w →
    v.feed = some feed → w.feed ≠ some feed

/-- What every step of a fleet leaves behind. -/
structure Step (before after : Fleet) : Prop where
  leads : before.store.Leads after.store
  version_le_succ : after.store.version ≤ before.store.version + 1
  cache_le : ∀ i, (before.cache i).resourceVersion ≤ (after.cache i).resourceVersion

variable {members : ℕ → Member} {fleet next : Fleet}

def without (fleet : Fleet) (k : ℕ) : Fleet :=
  { fleet with watcher := Function.update fleet.watcher k none }

theorem watcher_without {k l : ℕ} {w : Watcher} (h : (fleet.without k).watcher l = some w) :
    l ≠ k ∧ fleet.watcher l = some w := by
  by_cases hl : l = k
  · subst hl
    simp [without] at h
  · refine ⟨hl, ?_⟩
    simpa [without, hl] using h

theorem setWatcher_without (fleet : Fleet) (k : ℕ) (store : MemoryStore) (owner : ℕ) (cache : Cache)
    (w : Watcher) : ((fleet.without k).advance store owner cache).setWatcher k w =
      (fleet.advance store owner cache).setWatcher k w := by
  simp [without, advance, setWatcher]

theorem advance_self (fleet : Fleet) (store : MemoryStore) :
    fleet.advance store 0 (fleet.cache 0) = { fleet with store } := by
  simp [advance]

namespace Sound

theorem start (members : ℕ → Member) : Fleet.start.Sound members := by
  constructor
  · exact MemoryStore.consistent_empty
  · intro i
    exact Cache.reflects_empty MemoryStore.consistent_empty
  · intro i c hc
    cases hc
  · intro k w hw
    cases hw
  · intro k l v w feed _ hv
    cases hv

theorem without (h : fleet.Sound members) (k : ℕ) : (fleet.without k).Sound members := by
  refine ⟨h.store, h.caches, h.calls, ?_, ?_⟩
  · intro l w hw
    exact h.watchers l w (watcher_without hw).2
  · intro l m v w feed hne hv hw
    exact h.apart l m v w feed hne (watcher_without hv).2 (watcher_without hw).2

/-- A process may change the store and its cache, if it leaves the feeds of the loops alone. -/
theorem advance (h : fleet.Sound members) {store : MemoryStore} {owner : ℕ} {cache : Cache}
    {touched : Option ℕ} (hevolves : fleet.store.Evolves store touched)
    (hcache : cache.Reflects store (members owner).target)
    (hle : (fleet.cache owner).resourceVersion ≤ cache.resourceVersion)
    (hfree : ∀ k w feed, fleet.watcher k = some w → w.feed = some feed → some feed ≠ touched) :
    (fleet.advance store owner cache).Sound members ∧
      fleet.Step (fleet.advance store owner cache) := by
  have hgrows : ∀ i, (fleet.cache i).resourceVersion ≤
      ((fleet.advance store owner cache).cache i).resourceVersion := by
    intro i
    by_cases hi : i = owner
    · subst hi
      simpa [Fleet.advance] using hle
    · simp [Fleet.advance, hi]
  refine ⟨⟨hevolves.consistent, ?_, ?_, ?_, h.apart⟩, hevolves.leads, hevolves.version_le_succ,
    hgrows⟩
  · intro i
    by_cases hi : i = owner
    · subst hi
      simpa [Fleet.advance] using hcache
    · simpa [Fleet.advance, hi] using (h.caches i).later hevolves.leads
  · intro i c hc
    exact (h.calls i c hc).later hevolves.leads
  · intro k w hw
    exact (h.watchers k w hw).later hevolves (fun feed hfeed => hfree k w feed hw hfeed)
      (hgrows w.owner)

theorem setCall (h : fleet.Sound members) {i : ℕ} {c : Call}
    (hc : c.Sound fleet.store (members c.owner).target) : (fleet.setCall i c).Sound members := by
  refine ⟨h.store, h.caches, ?_, h.watchers, h.apart⟩
  intro j d hd
  rcases call_setCall hd with ⟨-, rfl⟩ | ⟨-, hold⟩
  · exact hc
  · exact h.calls j d hold

theorem setWatcher (h : fleet.Sound members) {k : ℕ} {w : Watcher}
    (hw : w.Sound fleet.store (fleet.cache w.owner) (members w.owner).target)
    (hapart : ∀ l v feed, l ≠ k → fleet.watcher l = some v → w.feed = some feed →
      v.feed ≠ some feed) : (fleet.setWatcher k w).Sound members := by
  refine ⟨h.store, h.caches, h.calls, ?_, ?_⟩
  · intro l v hv
    rcases watcher_setWatcher hv with ⟨-, rfl⟩ | ⟨-, hold⟩
    · exact hw
    · exact h.watchers l v hold
  · intro l m u v feed hne hu hv hfeed
    rcases watcher_setWatcher hu with ⟨hl, rfl⟩ | ⟨hl, hold⟩
    · rcases watcher_setWatcher hv with ⟨hm, -⟩ | ⟨hm, hold⟩
      · exact absurd (hl.trans hm.symm) hne
      · exact hapart m v feed hm hold hfeed
    · rcases watcher_setWatcher hv with ⟨-, rfl⟩ | ⟨-, hold'⟩
      · intro hsame
        exact hapart l u feed hl hold hsame hfeed
      · exact h.apart l m u v feed hne hold hold' hfeed

end Sound

theorem store_step?_spec {s s' : MemoryStore} {step : StoreStep} (hs : s.Consistent)
    (h : s.step? step = some s') : s.Evolves s' none := by
  cases step with
  | create object => exact Option.some.inj h ▸ .create hs object
  | update object => exact Option.some.inj h ▸ .update hs object
  | delete name => exact Option.some.inj h ▸ .delete hs name
  | failGets count =>
    have hquiet : s.Quiet { s with failingGets := count } := ⟨rfl, rfl, rfl⟩
    exact Option.some.inj h ▸ hquiet.evolves_same hs rfl rfl none
  | failLists count =>
    have hquiet : s.Quiet { s with failingLists := count } := ⟨rfl, rfl, rfl⟩
    exact Option.some.inj h ▸ hquiet.evolves_same hs rfl rfl none
  | bookmark => exact Option.some.inj h ▸ .bookmark hs
  | closeWatches => exact Option.some.inj h ▸ .closeWatches hs
  | forward feed step => exact .forwardStep? hs h

/-- A step that leaves the store and the caches alone. -/
theorem Step.of_same (hstore : next.store = fleet.store) (hcache : next.cache = fleet.cache) :
    fleet.Step next := by
  refine ⟨?_, ?_, ?_⟩
  · rw [hstore]
    exact .refl _
  · rw [hstore]
    omega
  · intro i
    exact Int.le_of_eq (by rw [hcache])

/-- Every step keeps what everybody knows true. -/
theorem step?_spec {action : Action} (hfleet : fleet.Sound members)
    (h : fleet.step? members action = some next) : next.Sound members ∧ fleet.Step next := by
  rcases step?_cases h with ⟨step, store, -, hstep, rfl⟩ |
    ⟨i, owner, errand, name, keyType, -, -, rfl⟩ |
    ⟨i, step, c, store, cache, c', -, hc, hstep, rfl⟩ | ⟨k, owner, -, -, rfl⟩ |
    ⟨k, step, w, store, cache, w', -, hw, hstep, rfl⟩
  · have hevolves := store_step?_spec hfleet.store hstep
    rw [← advance_self]
    exact hfleet.advance hevolves ((hfleet.caches 0).later hevolves.leads) (Int.le_refl _)
      fun _ _ feed _ _ => Option.some_ne_none feed
  · refine ⟨hfleet.setCall ?_, .of_same rfl rfl⟩
    rw [Call.owner_start]
    exact Call.sound_start fleet.store owner (members owner) _ errand name keyType
  · obtain ⟨hevolves, hcache, hle, hsound, howner⟩ := Call.step?_spec hfleet.store
      (hfleet.caches c.owner) (hfleet.calls i c hc) hstep
    obtain ⟨hadvanced, hstepped⟩ := hfleet.advance hevolves hcache hle
      fun _ _ feed _ _ => Option.some_ne_none feed
    refine ⟨hadvanced.setCall ?_, hstepped.leads, hstepped.version_le_succ, hstepped.cache_le⟩
    rw [howner]
    exact hsound
  · refine ⟨hfleet.setWatcher (Watcher.sound_start _ owner (members owner) _) ?_, .of_same rfl rfl⟩
    intro l v feed _ _ hfeed
    cases hfeed
  · have hstepped := Watcher.step?_spec hfleet.store (hfleet.caches w.owner)
      (hfleet.watchers k w hw) hstep
    obtain ⟨hadvanced, hleft⟩ := (hfleet.without k).advance hstepped.evolves
      hstepped.reflects hstepped.le (by
        intro l v feed hv hfeed hsame
        obtain ⟨hl, hold⟩ := watcher_without hv
        exact hfleet.apart l k v w feed hl hold hw hfeed hsame.symm)
    refine ⟨?_, hleft.leads, hleft.version_le_succ, hleft.cache_le⟩
    rw [← setWatcher_without]
    apply hadvanced.setWatcher
    · have hsound := hstepped.sound
      rw [hstepped.owner]
      simpa [Fleet.advance, Fleet.without] using hsound
    · intro l v feed _ hv hfeed hsame
      obtain ⟨hl, hold⟩ := watcher_without hv
      rcases hstepped.feed feed hfeed with hmine | hnew
      · exact hfleet.apart l k v w feed hl hold hw hsame hmine
      · obtain ⟨since, -, -, hserves⟩ := (hfleet.watchers l v hold).served feed hsame
        have := hserves.feed_lt
        omega

/-- Everybody knows only true things in every state that can be reached. -/
theorem run?_spec {actions : List Action} {last : Fleet} (hfleet : fleet.Sound members)
    (h : fleet.run? members actions = some last) :
    last.Sound members ∧ fleet.store.Leads last.store ∧
      ∀ i, (fleet.cache i).resourceVersion ≤ (last.cache i).resourceVersion := by
  refine runSteps?_induction (P := fun _ last => last.Sound members ∧ fleet.store.Leads last.store ∧
    ∀ i, (fleet.cache i).resourceVersion ≤ (last.cache i).resourceVersion) ?_ ?_ h
  · exact ⟨hfleet, .refl _, fun _ => Int.le_refl _⟩
  · rintro actions action before after - ⟨hsound, hleads, hle⟩ hstep
    obtain ⟨hafter, hstepped⟩ := step?_spec hsound hstep
    exact ⟨hafter, hleads.trans hstepped.leads, fun i => Int.le_trans (hle i) (hstepped.cache_le i)⟩

/-- A run passes through every version from the first to the last. -/
theorem Sound.exists_version (hfleet : fleet.Sound members) {actions : List Action} {last : Fleet}
    (h : fleet.run? members actions = some last) :
    ∀ version, fleet.store.version ≤ version → version ≤ last.store.version →
      ∃ before after between, actions = before ++ after ∧
        fleet.run? members before = some between ∧ between.store.version = version := by
  refine runSteps?_induction (P := fun actions last => ∀ version, fleet.store.version ≤ version →
    version ≤ last.store.version → ∃ before after between, actions = before ++ after ∧
      fleet.run? members before = some between ∧ between.store.version = version) ?_ ?_ h
  · intro version hle hversion
    exact ⟨[], [], fleet, rfl, rfl, Nat.le_antisymm hle hversion⟩
  · intro actions action before after hrun ih hstep version hle hversion
    obtain ⟨-, hstepped⟩ := step?_spec (run?_spec hfleet hrun).1 hstep
    by_cases hold : version ≤ before.store.version
    · obtain ⟨first, rest, between, rfl, hbetween, hat⟩ := ih version hle hold
      exact ⟨first, rest ++ [action], between, by rw [List.append_assoc], hbetween, hat⟩
    · refine ⟨actions ++ [action], [], after, (List.append_nil _).symm,
        (runSteps?_concat_of_run hrun action).trans hstep, ?_⟩
      have := hstepped.version_le_succ
      omega

/-- A run of a new fleet passes through every version up to the last. -/
theorem exists_version {actions : List Action} {last : Fleet}
    (h : start.run? members actions = some last) :
    ∀ version ≤ last.store.version, ∃ before after between, actions = before ++ after ∧
      start.run? members before = some between ∧ between.store.version = version :=
  fun version hversion =>
    (Sound.start members).exists_version h version (Nat.zero_le _) hversion

/-- In every state that a fleet can reach, the cache of a process holds the key sets of its object
as it was right after the write of the cache's version, and the version was never higher before. -/
theorem cache_snapshot {actions : List Action} {last : Fleet}
    (h : start.run? members actions = some last) (i : ℕ) :
    (∃ before after between, actions = before ++ after ∧
        start.run? members before = some between ∧
        (between.store.version : ℤ) = (last.cache i).resourceVersion) ∧
      ∀ before after between, actions = before ++ after →
        start.run? members before = some between →
        (between.cache i).resourceVersion ≤ (last.cache i).resourceVersion ∧
          ((between.store.version : ℤ) = (last.cache i).resourceVersion →
            (last.cache i).keySets =
              KeySets.ofObject? (between.store.object? (members i).target)) := by
  obtain ⟨hsound, -, -⟩ := run?_spec (.start members) h
  obtain ⟨version, hversion, hcached, hkeySets⟩ := hsound.caches i
  constructor
  · obtain ⟨before, after, between, hsplit, hbetween, hat⟩ := exists_version h version hversion
    exact ⟨before, after, between, hsplit, hbetween, by rw [hat, hcached]⟩
  · rintro before after between rfl hbetween
    obtain ⟨hsoundBetween, -, -⟩ := run?_spec (.start members) hbetween
    have hafter : between.run? members after = some last :=
      (runSteps?_append_of_run hbetween after).symm.trans h
    obtain ⟨-, hleads, hle⟩ := run?_spec hsoundBetween hafter
    refine ⟨hle i, ?_⟩
    intro hat
    have hsame : between.store.version = version := by omega
    rw [hkeySets, hsoundBetween.store.object?_eq, hsame,
      hleads.objectAt (Nat.le_of_eq hsame.symm)]

/-- A time at which keys can be made. -/
def epoch : Timestamp := ⟨0, by decide, by decide⟩

/-- A rotation of a set in an object that does not exist yet. -/
def firstRotation : List Action :=
  [.begin 0 0 .rotate "signing" .symmetricAead, .call 0 .ask, .call 0 .look,
    .call 0 (.generate epoch (.ofSeed [])), .call 0 .ask, .call 0 .look, .call 0 .reply]

/-- A rotation of the same set by another process. -/
def secondRotation : List Action :=
  [.begin 1 1 .rotate "signing" .symmetricAead, .call 1 .ask, .call 1 .look,
    .call 1 (.generate epoch (.ofSeed [1])), .call 1 .ask, .call 1 .look,
    .call 1 .reply]

/-- A loop of a third process lists the object after the first rotation. -/
def listedRotation : List Action :=
  firstRotation ++ [.spawn 0 2, .watcher 0 .ask, .watcher 0 .look]

/-- After the second rotation the third process has the key sets of the first one still. -/
theorem cache_snapshot_listed :
    ∃ between last,
      start.run? (Member.sharing ⟨"ns", "keys"⟩) listedRotation = some between ∧
      between.run? (Member.sharing ⟨"ns", "keys"⟩) secondRotation = some last ∧
      last.store.version = 2 ∧ (last.cache 2).resourceVersion = 1 ∧
      (last.cache 2).keySets.contains "signing" = true ∧
      (last.cache 2).keySets = KeySets.ofObject? (between.store.object? ⟨"ns", "keys"⟩) := by
  have hruns : ((start.run? (Member.sharing ⟨"ns", "keys"⟩) listedRotation).bind fun between =>
      (between.run? (Member.sharing ⟨"ns", "keys"⟩) secondRotation).map fun last =>
        (between.store.version, last.store.version, (last.cache 2).resourceVersion,
          (last.cache 2).keySets.contains "signing")) = some (1, 2, 1, true) := by
    decide +kernel
  obtain ⟨between, hbetween, hrest⟩ := Option.bind_eq_some_iff.1 hruns
  obtain ⟨last, hlast, hfacts⟩ := Option.map_eq_some_iff.1 hrest
  simp only [Prod.mk.injEq] at hfacts
  obtain ⟨hlisted, hrotated, hcached, hholds⟩ := hfacts
  have hrun : start.run? (Member.sharing ⟨"ns", "keys"⟩) (listedRotation ++ secondRotation) =
      some last := (runSteps?_append_of_run hbetween _).trans hlast
  obtain ⟨-, hsnapshot⟩ := cache_snapshot hrun 2
  refine ⟨between, last, hbetween, hlast, hrotated, hcached, hholds, ?_⟩
  refine (hsnapshot _ _ between rfl hbetween).2 ?_
  rw [hlisted, hcached]
  rfl

/-- A loop that watches is served by a feed from its list on: as long as the feed has not ended,
what the loop has taken and what is on its way to it is every write to the object since the list, in
order. Once the loop has taken all of them, its process has the key sets of the object of now. -/
theorem watching_current {actions : List Action} {last : Fleet}
    (h : start.run? members actions = some last) {k : ℕ} {w : Watcher}
    (hw : last.watcher k = some w) (hphase : w.loop.phase = .watching)
    (hlimit : last.store.version < Cache.versionLimit) :
    ∃ since ≤ last.store.version, w.listVersion = Decimal.ofNat since ∧
      (∃ feed f, w.feed = some feed ∧ last.store.feeds.get? feed = some f ∧
        (f.ended = false →
          (w.consumed ++ w.inHand ++ f.onTheWay).filter WatchEvent.tellsChange =
            (last.store.changesSince (members w.owner).target since).map Change.event)) ∧
      ((∀ c ∈ last.store.changesSince (members w.owner).target since, c.event ∈ w.consumed) →
        (last.cache w.owner).keySets =
          KeySets.ofObject? (last.store.object? (members w.owner).target)) := by
  obtain ⟨hsound, -, -⟩ := run?_spec (.start members) h
  have hwatcher := hsound.watchers k w hw
  have hs := hsound.store
  obtain ⟨since, hsince, htoken, hcovers⟩ := hwatcher.current.listed (by rw [hphase]; rfl)
  refine ⟨since, hsince, htoken, ?_, ?_⟩
  · obtain ⟨feed, hfeed⟩ := Option.isSome_iff_exists.1 (hwatcher.attached (Or.inl hphase))
    obtain ⟨since', -, htoken', -, f, hf, hname, hfollows⟩ := hwatcher.served feed hfeed
    have hsame : since' = since := Decimal.ofNat_injective (htoken'.symm.trans htoken)
    subst hsame
    refine ⟨feed, f, hfeed, hf, ?_⟩
    intro hopen
    rw [← hname]
    exact hfollows.complete hopen
  · intro hconsumed
    obtain ⟨version, hversion, hcached, hkeySets⟩ := hsound.caches w.owner
    have hquiet : ∀ c ∈ last.store.history, c.target = (members w.owner).target →
        c.version ≤ last.store.version → c.version ≤ version := by
      intro c hc htarget hle
      have hnewest : (c.version : ℤ) ≤ (last.cache w.owner).resourceVersion := by
        by_cases hlisted : c.version ≤ since
        · exact hcovers (Nat.lt_of_le_of_lt hsince hlimit) c hc htarget hlisted
        · have hmem : c ∈ last.store.changesSince (members w.owner).target since :=
            MemoryStore.mem_changesSince.2 ⟨hc, Nat.lt_of_not_le hlisted, htarget⟩
          apply hwatcher.current.consumed c.event (hconsumed c hmem) c.version
            (Nat.lt_of_le_of_lt hle hlimit)
          rw [c.token?_event, hs.stamped c hc]
      omega
    rw [hkeySets, hs.object?_eq, MemoryStore.objectAt_eq_of_quiet hversion hquiet]

/-- A loop of another process watches when a set is rotated, and takes the news. -/
def watchedRotation : List Action :=
  [.spawn 0 1, .watcher 0 .ask, .watcher 0 .look, .watcher 0 .ask, .watcher 0 .look] ++
    firstRotation ++
    [.store (.forward 0 .read), .store (.forward 0 .handOn), .watcher 0 .ask, .watcher 0 .look]

/-- The news bring the cache of the other process to the new key sets. -/
theorem watching_current_delivered :
    ∃ last w, start.run? (Member.sharing ⟨"ns", "keys"⟩) watchedRotation = some last ∧
      last.watcher 0 = some w ∧ w.loop.phase = .watching ∧ last.store.version = 1 ∧
      (last.cache 1).keySets.contains "signing" = true ∧
      (last.cache 1).keySets = KeySets.ofObject? (last.store.object? ⟨"ns", "keys"⟩) := by
  have hruns : ((start.run? (Member.sharing ⟨"ns", "keys"⟩) watchedRotation).bind fun last =>
      (last.watcher 0).map fun w =>
        (decide (w.loop.phase = .watching), w.owner, last.store.version,
          (last.cache 1).keySets.contains "signing",
          last.store.history.all fun c => decide (c.event ∈ w.consumed))) =
      some (true, 1, 1, true, true) := by
    decide +kernel
  obtain ⟨last, hrun, hrest⟩ := Option.bind_eq_some_iff.1 hruns
  obtain ⟨w, hw, hfacts⟩ := Option.map_eq_some_iff.1 hrest
  simp only [Prod.mk.injEq, decide_eq_true_eq, List.all_eq_true] at hfacts
  obtain ⟨hphase, howner, hversion, hholds, htaken⟩ := hfacts
  have hlimit : last.store.version < Cache.versionLimit := by
    rw [hversion]
    decide
  obtain ⟨since, -, -, -, hcurrent⟩ := watching_current hrun hw hphase hlimit
  rw [howner] at hcurrent
  refine ⟨last, w, hrun, hw, hphase, hversion, hholds, hcurrent ?_⟩
  intro c hc
  exact htaken c (MemoryStore.mem_changesSince.1 hc).1

end Keyring.Fleet
