import Keyring.Proofs.MemoryStore.Delivery

/-!
# Evolution of a memory store

Each operation of a store is either one write or leaves the history as it is, and it serves the
feeds of all watchers as before, except that a watcher who takes an event or goes away does so with
his own feed.
-/
namespace Keyring.MemoryStore

/-- One step of the forwarder of a feed. -/
def forwardStep? (s : MemoryStore) (feed : ℕ) (step : FeedStep) : Option MemoryStore :=
  (s.feeds.get? feed).bind fun f =>
    (f.step? step).map fun f => { s with feeds := s.feeds.insert feed f }

/-- Takes the first event of a feed, or learns that the feed has ended and holds none; nothing where
the watcher has to wait. -/
def next? (s : MemoryStore) (feed : ℕ) : Option (MemoryStore × Option WatchEvent) :=
  match s.feeds.get? feed with
  | none => some (s, none)
  | some f =>
    match f.queue with
    | event :: rest =>
      some ({ s with feeds := s.feeds.insert feed { f with queue := rest } }, some event)
    | [] => if f.ended = true ∧ f.outgoing = [] then some (s, none) else none

/-- A watcher of an object, from a version on, who has taken these events. -/
structure Serves (s : MemoryStore) (feed : ℕ) (name : ObjectName) (since : ℕ)
    (taken : List WatchEvent) : Prop where
  feed_lt : feed < s.nextFeed
  follows : ∃ f, s.feeds.get? feed = some f ∧ f.name = name ∧ f.Follows s since taken

/-- A store in which nothing was written. -/
structure Quiet (s s' : MemoryStore) : Prop where
  version : s'.version = s.version
  history : s'.history = s.history
  objects : s'.objects = s.objects

/-- A store after a step that may have touched one feed. -/
structure Evolves (s s' : MemoryStore) (touched : Option ℕ) : Prop where
  leads : s.Leads s'
  consistent : s'.Consistent
  version_le_succ : s'.version ≤ s.version + 1
  serves : ∀ {feed name since taken}, some feed ≠ touched →
    s.Serves feed name since taken → s'.Serves feed name since taken

variable {s s' : MemoryStore}

namespace Quiet

theorem refl (s : MemoryStore) : s.Quiet s := ⟨rfl, rfl, rfl⟩

theorem object? (h : s.Quiet s') (name : ObjectName) : s'.object? name = s.object? name := by
  rw [MemoryStore.object?, h.objects, MemoryStore.object?]

theorem leads (h : s.Quiet s') : s.Leads s' := by
  refine ⟨Nat.le_of_eq h.version.symm, [], h.history, ?_⟩
  intro c hc
  cases hc

theorem consistent (h : s.Quiet s') (hs : s.Consistent) : s'.Consistent := by
  constructor
  · rw [h.history, h.version]
    exact hs.numbered
  · rw [h.history]
    exact hs.stamped
  · intro name
    rw [h.object?, h.history]
    exact hs.present name

/-- A step without a write serves whom it leaves a feed that follows. -/
theorem evolves (h : s.Quiet s') (hs : s.Consistent) {touched : Option ℕ}
    (hnext : s.nextFeed ≤ s'.nextFeed)
    (hfeeds : ∀ feed f, feed < s.nextFeed → some feed ≠ touched → s.feeds.get? feed = some f →
      ∃ f', s'.feeds.get? feed = some f' ∧ f'.name = f.name ∧
        ∀ since taken, f.Follows s since taken → f'.Follows s since taken) :
    s.Evolves s' touched := by
  refine ⟨h.leads, h.consistent hs, by rw [h.version]; omega, ?_⟩
  intro feed name since taken hne hserves
  obtain ⟨hlt, f, hf, hname, hfollows⟩ := hserves
  obtain ⟨f', hf', hname', hkeeps⟩ := hfeeds feed f hlt hne hf
  refine ⟨by omega, f', hf', hname'.trans hname, ?_⟩
  exact (hkeeps since taken hfollows).congr h.version h.history

/-- A step that does not even look at the feeds. -/
theorem evolves_same (h : s.Quiet s') (hs : s.Consistent) (hfeeds : s'.feeds = s.feeds)
    (hnext : s'.nextFeed = s.nextFeed) (touched : Option ℕ) : s.Evolves s' touched := by
  apply h.evolves hs (Nat.le_of_eq hnext.symm)
  intro feed f _ _ hf
  exact ⟨f, hfeeds ▸ hf, rfl, fun _ _ hfollows => hfollows⟩

end Quiet

theorem Quiet.withFeeds (s : MemoryStore) (feeds : SortedMap Nat Feed) (nextFeed : ℕ) :
    s.Quiet { s with feeds := feeds, nextFeed := nextFeed } := ⟨rfl, rfl, rfl⟩

theorem Wrote.evolves {c : Change} (h : s.Wrote s' c) (hs : s.Consistent) :
    s.Evolves s' none := by
  refine ⟨.of_wrote h, h.consistent hs, Nat.le_of_eq h.version, ?_⟩
  intro feed name since taken _ hserves
  obtain ⟨hlt, f, hf, hname, hfollows⟩ := hserves
  have hpush : (f.push (.change c)).name = f.name := by
    unfold Feed.push
    split <;> rfl
  refine ⟨by rw [h.nextFeed]; exact hlt, f.push (.change c), ?_, hpush.trans hname,
    hfollows.wrote h⟩
  rw [h.feeds, SortedMap.get?_map, hf, Option.map_some]

namespace Evolves

theorem refl (hs : s.Consistent) : s.Evolves s none :=
  (Quiet.refl s).evolves_same hs rfl rfl none

/-! ## Writes -/

theorem create (hs : s.Consistent) (object : StoredObject) :
    s.Evolves (s.create object).1 none := by
  rcases s.create_cases object with ⟨current, -, hfailed⟩ | ⟨-, hwrote, -⟩
  · rw [hfailed]
    exact refl hs
  · exact hwrote.evolves hs

theorem update (hs : s.Consistent) (object : StoredObject) :
    s.Evolves (s.update object).1 none := by
  rcases s.update_cases object with ⟨failure, hfailed⟩ | ⟨current, -, -, hwrote, -⟩
  · rw [hfailed]
    exact refl hs
  · exact hwrote.evolves hs

theorem delete (hs : s.Consistent) (name : ObjectName) : s.Evolves (s.delete name).1 none := by
  rcases s.delete_cases hs name with ⟨failure, hfailed⟩ | ⟨object, -, -, hwrote⟩
  · rw [hfailed]
    exact refl hs
  · exact hwrote.evolves hs

end Evolves

/-! ## Reads -/

theorem get_spec (s : MemoryStore) (name : ObjectName) :
    (s.Quiet (s.get name).1 ∧ (s.get name).1.feeds = s.feeds ∧
        (s.get name).1.nextFeed = s.nextFeed) ∧
      ((s.get name).2 = .ok (s.object? name) ∨ ∃ failure, (s.get name).2 = .error failure) := by
  unfold get
  split
  · exact ⟨⟨Quiet.refl s, rfl, rfl⟩, Or.inl rfl⟩
  · exact ⟨⟨⟨rfl, rfl, rfl⟩, rfl, rfl⟩, Or.inr ⟨_, rfl⟩⟩

theorem list_spec (s : MemoryStore) (name : ObjectName) :
    (s.Quiet (s.list name).1 ∧ (s.list name).1.feeds = s.feeds ∧
        (s.list name).1.nextFeed = s.nextFeed) ∧
      ((s.list name).2 = .ok ⟨(s.object? name).toList, Decimal.ofNat s.version⟩ ∨
        ∃ failure, (s.list name).2 = .error failure) := by
  unfold list
  split
  · exact ⟨⟨Quiet.refl s, rfl, rfl⟩, Or.inl rfl⟩
  · exact ⟨⟨⟨rfl, rfl, rfl⟩, rfl, rfl⟩, Or.inr ⟨_, rfl⟩⟩

theorem Evolves.get (hs : s.Consistent) (name : ObjectName) : s.Evolves (s.get name).1 none :=
  have h := (s.get_spec name).1
  h.1.evolves_same hs h.2.1 h.2.2 none

/-! ## Feeds -/

/-- A change of all feeds that every follower survives. -/
theorem Evolves.map (hs : s.Consistent) {g : Feed → Feed} (hname : ∀ f, (g f).name = f.name)
    (hkeeps : ∀ f since taken, f.Follows s since taken → (g f).Follows s since taken) :
    s.Evolves { s with feeds := s.feeds.map fun _ f => g f } none := by
  apply (Quiet.withFeeds s (s.feeds.map fun _ f => g f) s.nextFeed).evolves hs (Nat.le_refl _)
  intro feed f _ _ hf
  refine ⟨g f, ?_, hname f, hkeeps f⟩
  rw [SortedMap.get?_map, hf, Option.map_some]

theorem Evolves.bookmark (hs : s.Consistent) : s.Evolves s.bookmark none := by
  apply Evolves.map hs
  · intro f
    unfold Feed.push
    split <;> rfl
  · intro f since taken hfollows
    exact hfollows.bookmark

theorem Evolves.closeWatches (hs : s.Consistent) : s.Evolves s.closeWatches none :=
  Evolves.map hs (fun _ => rfl) fun _ _ _ hfollows => hfollows.close

/-- A change of one feed. -/
theorem Evolves.insert (hs : s.Consistent) {feed : ℕ} {f' : Feed} {touched : Option ℕ}
    (h : ∀ f, some feed ≠ touched → s.feeds.get? feed = some f → f'.name = f.name ∧
      ∀ since taken, f.Follows s since taken → f'.Follows s since taken) :
    s.Evolves { s with feeds := s.feeds.insert feed f' } touched := by
  apply (Quiet.withFeeds s (s.feeds.insert feed f') s.nextFeed).evolves hs (Nat.le_refl _)
  intro other f _ hne hf
  by_cases hfeed : other = feed
  · subst hfeed
    obtain ⟨hname, hkeeps⟩ := h f hne hf
    exact ⟨f', SortedMap.get?_insert_self s.feeds other f', hname, hkeeps⟩
  · refine ⟨f, ?_, rfl, fun _ _ hfollows => hfollows⟩
    rw [SortedMap.get?_insert_of_ne s.feeds hfeed, hf]

theorem Evolves.forwardStep? (hs : s.Consistent) {feed : ℕ} {step : FeedStep}
    (h : s.forwardStep? feed step = some s') : s.Evolves s' none := by
  obtain ⟨f, hf, hstep⟩ := Option.bind_eq_some_iff.1 h
  obtain ⟨f', hf', rfl⟩ := Option.map_eq_some_iff.1 hstep
  apply Evolves.insert hs
  intro g _ hg
  rw [hf, Option.some.injEq] at hg
  subst hg
  exact ⟨Feed.name_of_step? hf', fun _ _ hfollows => hfollows.step hf'⟩

theorem Evolves.drop (hs : s.Consistent) (feed : ℕ) : s.Evolves (s.drop feed) (some feed) := by
  apply (Quiet.withFeeds s (s.feeds.erase feed) s.nextFeed).evolves hs (Nat.le_refl _)
  intro other f _ hne hf
  have hother : other ≠ feed := fun heq => hne (congrArg some heq)
  refine ⟨f, ?_, rfl, fun _ _ hfollows => hfollows⟩
  rw [SortedMap.get?_erase, if_neg (by simpa using hother), hf]

/-- What a watcher takes is told of his feed. -/
theorem next?_spec (hs : s.Consistent) {feed : ℕ} {event : Option WatchEvent}
    (h : s.next? feed = some (s', event)) :
    s.Evolves s' (some feed) ∧ s.Quiet s' ∧ s'.nextFeed = s.nextFeed ∧
      ∀ {name since taken}, s.Serves feed name since taken →
        s'.Serves feed name since (taken ++ event.toList) := by
  unfold next? at h
  split at h
  next hnone =>
    obtain ⟨rfl, rfl⟩ := Prod.mk.inj (Option.some.inj h)
    refine ⟨(Quiet.refl s).evolves_same hs rfl rfl _, Quiet.refl s, rfl, ?_⟩
    intro name since taken hserves
    simpa using hserves
  next f hf =>
    split at h
    next first rest hqueue =>
      obtain ⟨rfl, rfl⟩ := Prod.mk.inj (Option.some.inj h)
      refine ⟨Evolves.insert hs fun _ hne _ => absurd rfl hne, ⟨rfl, rfl, rfl⟩, rfl, ?_⟩
      intro name since taken hserves
      obtain ⟨hlt, g, hg, hname, hfollows⟩ := hserves
      rw [hf, Option.some.injEq] at hg
      subst hg
      refine ⟨hlt, _, SortedMap.get?_insert_self s.feeds feed _, hname, ?_⟩
      exact (hfollows.take hqueue).congr rfl rfl
    next hqueue =>
      split at h
      next =>
        obtain ⟨rfl, rfl⟩ := Prod.mk.inj (Option.some.inj h)
        refine ⟨(Quiet.refl s).evolves_same hs rfl rfl _, Quiet.refl s, rfl, ?_⟩
        intro name since taken hserves
        simpa using hserves
      next => cases h

/-! ## Watches -/

/-- A store has nothing on record only if nothing was written. -/
theorem history_eq_nil (h : s.onRecord.getLast? = none) : s.history = [] := by
  rw [List.getLast?_eq_none_iff, onRecord, List.take_eq_nil_iff] at h
  exact h.resolve_left (by decide)

/-- A record that reaches back far enough holds all later writes. -/
theorem recordedSince_eq (hs : s.Consistent) {name : ObjectName} {version : ℕ}
    (h : s.remembers version = true) :
    s.recordedSince name version = s.changesSince name version := by
  have hsplit : s.history = s.onRecord ++ s.history.drop historyLimit :=
    (List.take_append_drop historyLimit s.history).symm
  have hforgotten : (s.history.drop historyLimit).filter
      (fun c => version < c.version && c.target == name) = [] := by
    rw [List.filter_eq_nil_iff]
    intro c hc
    cases hlast : s.onRecord.getLast? with
    | none =>
      rw [history_eq_nil hlast, List.drop_nil] at hc
      cases hc
    | some oldest =>
      rw [remembers, hlast] at h
      have hold : oldest.version ≤ version + 1 :=
        Nat.le_trans (of_decide_eq_true h) (s.following_le version)
      have hdescending := hs.descending
      rw [hsplit, List.pairwise_append] at hdescending
      have := hdescending.2.2 oldest (List.mem_of_getLast? hlast) c hc
      simp only [Bool.and_eq_true, decide_eq_true_eq]
      omega
  rw [changesSince, hsplit, List.filter_append, hforgotten, List.append_nil, recordedSince]

theorem follows_start (hs : s.Consistent) {name : ObjectName} {version : ℕ}
    (hversion : version ≤ s.version) (h : s.remembers version = true) :
    (Feed.start name version (s.recordedSince name version)).Follows s version [] := by
  have hlast : ∀ (changes : List Change) (last : ℕ), last ≤ s.version →
      (∀ c ∈ changes, c.version ≤ s.version) →
      changes.foldl (fun _ c => c.version) last ≤ s.version := by
    intro changes
    induction changes with
    | nil => exact fun _ hle _ => hle
    | cons c rest ih =>
      intro last _ hall
      obtain ⟨hc, hrest⟩ := List.forall_mem_cons.1 hall
      exact ih c.version hc hrest
  have hchanges : s.recordedSince name version = s.changesSince name version :=
    recordedSince_eq hs h
  have htold : ((s.changesSince name version).map Change.event).filter WatchEvent.tellsChange =
      (s.changesSince name version).map Change.event := by
    rw [List.filter_eq_self]
    intro event hevent
    obtain ⟨c, -, rfl⟩ := List.mem_map.1 hevent
    exact c.tellsChange_event
  refine ⟨hversion, ?_, ?_, ?_, ?_⟩
  · apply hlast _ _ hversion
    intro c hc
    rw [hchanges] at hc
    exact (hs.version_mem (mem_changesSince.1 hc).1).2
  · intro n hn
    cases hn
  · rw [hchanges]
    simp only [Feed.start, Feed.held, List.nil_append]
    exact ⟨[], by rw [htold, List.append_nil]⟩
  · intro _
    rw [hchanges]
    simp only [Feed.start, Feed.onTheWay, Feed.held, Feed.pending, Feed.read, List.nil_append,
      List.reverse_nil, List.append_nil]
    exact htold

/-- A watch that is opened at a version of the store is served from there. -/
theorem watch_spec (hs : s.Consistent) (name : ObjectName) (token : String) :
    s.Evolves (s.watch name token).1 none ∧ s.Quiet (s.watch name token).1 ∧
      ∀ feed, (s.watch name token).2 = .ok feed → feed = s.nextFeed ∧
        (s.watch name token).1.nextFeed = s.nextFeed + 1 ∧
        ∃ version, parseVersion token = .ok version ∧ (version ≤ s.version →
          (s.watch name token).1.Serves feed name version []) := by
  unfold watch
  split
  next => exact ⟨Evolves.refl hs, Quiet.refl s, by simp⟩
  next version hversion =>
    split
    next hremembers =>
      refine ⟨?_, ⟨rfl, rfl, rfl⟩, ?_⟩
      · apply (Quiet.withFeeds s (s.feeds.insert s.nextFeed _) (s.nextFeed + 1)).evolves hs
          (Nat.le_succ _)
        intro feed f hlt _ hf
        refine ⟨f, ?_, rfl, fun _ _ hfollows => hfollows⟩
        rw [SortedMap.get?_insert_of_ne s.feeds (Nat.ne_of_lt hlt), hf]
      · intro feed hfeed
        obtain rfl := Except.ok.inj hfeed
        refine ⟨rfl, rfl, version, hversion, ?_⟩
        intro hle
        refine ⟨Nat.lt_succ_self _, _, SortedMap.get?_insert_self s.feeds s.nextFeed _, rfl, ?_⟩
        exact (follows_start hs hle hremembers).congr rfl rfl
    next => exact ⟨Evolves.refl hs, Quiet.refl s, by simp⟩

end Keyring.MemoryStore
