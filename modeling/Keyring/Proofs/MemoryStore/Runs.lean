import Keyring.Proofs.MemoryStore.Feeds
import Keyring.Proofs.Stores.Occurrences

/-!
# Runs of a memory store

A store is called, reads are made to fail, bookmarks are sent, watches are opened and ended, and
forwarders and watchers work at their own pace. Whatever the order, the writes in the log are the
history of the store, and each feed goes on as a forwarder and a watcher leave it.
-/
namespace Keyring

/-- What can happen to a store in memory and to those who watch it. -/
inductive StoreAct
  | call (call : StoreCall)
  /-- That many of the next reads fail. -/
  | failGets (count : ℕ)
  /-- That many of the next lists fail. -/
  | failLists (count : ℕ)
  | bookmark
  | closeWatches
  | watch (name : ObjectName) (token : String)
  /-- The forwarder of a feed takes a step. -/
  | forward (feed : ℕ) (step : FeedStep)
  /-- All forwarders run until they have to wait. -/
  | forwardAll
  /-- The watcher of a feed takes the next event. -/
  | next (feed : ℕ)
  /-- The watcher of a feed takes all events, while the forwarder keeps up with him. -/
  | take (feed : ℕ)
  /-- The watcher of a feed goes away. -/
  | drop (feed : ℕ)
  deriving DecidableEq, Repr

namespace MemoryStore

/-- What a store and its watchers do next; nothing where someone has to wait. -/
def act? (s : MemoryStore) : StoreAct → Option (MemoryStore × List Occurrence)
  | .call call =>
    let after := s.reply call
    let change := call.change? (s.object? call.target) after.1.version after.2
    some (after.1, Occurrence.ofCall call change after.2)
  | .failGets count => some ({ s with failingGets := count }, [])
  | .failLists count => some ({ s with failingLists := count }, [])
  | .bookmark => some (s.bookmark, [])
  | .closeWatches => some (s.closeWatches, [])
  | .watch name token => some ((s.watch name token).1, [])
  | .forward feed step => (s.forwardStep? feed step).map fun after => (after, [])
  | .forwardAll => some (s.forwardAll, [])
  | .next feed => (s.next? feed).map fun after => (after.1, [.told feed after.2])
  | .take feed =>
    let taken := s.take feed
    some (taken.1, Occurrence.ofTaken feed taken.2.1 taken.2.2)
  | .drop feed => some (s.drop feed, [])

variable {s s' : MemoryStore} {act : StoreAct} {log : List Occurrence}

/-! ## Calls -/

/-- The change that is seen of a write is the write. -/
theorem change?_cases (hs : s.Consistent) (w : StoreWrite) :
    ((s.write w).1 = s ∧ (s.write w).2.objects = [] ∧
        w.change? (s.object? w.target) (s.write w).1.version (s.write w).2 = none) ∨
      ∃ c, c.target = w.target ∧ s.Wrote (s.write w).1 c ∧
        (∀ object ∈ (s.write w).2.objects, c.object = object) ∧
        w.change? (s.object? w.target) (s.write w).1.version (s.write w).2 = some c := by
  cases w with
  | create object =>
    rcases s.create_cases object with ⟨current, -, hfailed⟩ | ⟨-, hwrote, hreply⟩
    · left
      rw [write, hfailed]
      exact ⟨rfl, rfl, rfl⟩
    · right
      refine ⟨_, rfl, hwrote, ?_, ?_⟩
      · rw [write, hreply]
        exact fun stored hstored => (List.mem_singleton.1 hstored).symm
      · simp only [write, hreply, StoreWrite.change?, StoreWrite.kind, hwrote.version]
  | update object =>
    rcases s.update_cases object with ⟨failure, hfailed⟩ | ⟨current, -, -, hwrote, hreply⟩
    · left
      rw [write, hfailed]
      exact ⟨rfl, rfl, rfl⟩
    · right
      refine ⟨_, rfl, hwrote, ?_, ?_⟩
      · rw [write, hreply]
        exact fun stored hstored => (List.mem_singleton.1 hstored).symm
      · simp only [write, hreply, StoreWrite.change?, StoreWrite.kind, hwrote.version]
  | delete name =>
    rcases s.delete_cases hs name with ⟨failure, hfailed⟩ | ⟨object, hobject, hname, hwrote⟩
    · left
      rw [write, hfailed]
      exact ⟨rfl, rfl, rfl⟩
    · right
      have hreply : (s.delete name).2 = .ok () := by rw [delete, hobject]
      refine ⟨⟨.deleted, s.stamp object, s.version + 1⟩, hname, hwrote, ?_, ?_⟩
      · rw [write]
        exact fun stored hstored => absurd hstored List.not_mem_nil
      · simp only [write, hreply, StoreWrite.change?, StoreWrite.kind, hwrote.version,
          StoreWrite.target, hobject, Option.getD_some, stamp]

/-- A call shows the object as it is and writes nothing, or it does one write and shows no object
but the one it wrote. -/
theorem reply_cases (hs : s.Consistent) (call : StoreCall) :
    (s.Quiet (s.reply call).1 ∧ (s.reply call).1.feeds = s.feeds ∧
        (s.reply call).1.nextFeed = s.nextFeed ∧
        (∀ object ∈ (s.reply call).2.objects, s.object? call.target = some object) ∧
        call.change? (s.object? call.target) (s.reply call).1.version (s.reply call).2 = none) ∨
      ∃ c, c.target = call.target ∧ s.Wrote (s.reply call).1 c ∧
        (∀ object ∈ (s.reply call).2.objects, c.object = object) ∧
        call.change? (s.object? call.target) (s.reply call).1.version (s.reply call).2 =
          some c := by
  cases call with
  | get name =>
    left
    obtain ⟨⟨hquiet, hfeeds, hnext⟩, hreply⟩ := s.get_spec name
    refine ⟨hquiet, hfeeds, hnext, ?_, rfl⟩
    intro object hobject
    rw [reply] at hobject
    rcases hreply with hfound | ⟨failure, hfailed⟩
    · rw [hfound] at hobject
      exact Option.mem_toList.1 hobject
    · rw [hfailed] at hobject
      cases hobject
  | list name =>
    left
    obtain ⟨⟨hquiet, hfeeds, hnext⟩, hreply⟩ := s.list_spec name
    refine ⟨hquiet, hfeeds, hnext, ?_, rfl⟩
    intro object hobject
    rw [reply] at hobject
    rcases hreply with hlisted | ⟨failure, hfailed⟩
    · rw [hlisted] at hobject
      exact Option.mem_toList.1 hobject
    · rw [hfailed] at hobject
      cases hobject
  | write w =>
    rcases change?_cases hs w with ⟨hsame, hobjects, hchange⟩ | hwrote
    · left
      rw [reply, hsame, hobjects]
      rw [hsame] at hchange
      exact ⟨.refl s, rfl, rfl, fun object hobject => absurd hobject List.not_mem_nil, hchange⟩
    · exact Or.inr hwrote

/-! ## Histories -/

/-- A store that has done the writes of a log and no others. -/
structure Recorded (s : MemoryStore) (log : List Occurrence) : Prop where
  consistent : s.Consistent
  history : s.history = (Occurrence.writes log).reverse

/-- What a step does to the history. -/
structure Continues (s s' : MemoryStore) (log : List Occurrence) : Prop where
  consistent : s'.Consistent
  leads : s.Leads s'
  history : s'.history = (Occurrence.writes log).reverse ++ s.history
  nextFeed_le : s.nextFeed ≤ s'.nextFeed

theorem Quiet.continues (h : s.Quiet s') (hs : s.Consistent) (hlog : Occurrence.writes log = [])
    (hnext : s.nextFeed ≤ s'.nextFeed) : s.Continues s' log :=
  ⟨h.consistent hs, h.leads, by rw [hlog]; exact h.history, hnext⟩

theorem Consistent.continues (hs : s.Consistent) (h : s.act? act = some (s', log)) :
    s.Continues s' log := by
  have hfeeds : ∀ feeds nextFeed log', Occurrence.writes log' = [] → s.nextFeed ≤ nextFeed →
      s.Continues { s with feeds := feeds, nextFeed := nextFeed } log' :=
    fun feeds nextFeed log' hlog hle => (Quiet.withFeeds s feeds nextFeed).continues hs hlog hle
  cases act with
  | call call =>
    obtain ⟨rfl, rfl⟩ := Prod.mk.inj (Option.some.inj h)
    rcases reply_cases hs call with ⟨hquiet, -, hnext, -, hchange⟩ | ⟨c, -, hwrote, -, hchange⟩
    · exact hquiet.continues hs (by rw [Occurrence.writes_ofCall, hchange]; rfl) (by omega)
    · refine ⟨hwrote.consistent hs, .of_wrote hwrote, ?_, Nat.le_of_eq hwrote.nextFeed.symm⟩
      rw [Occurrence.writes_ofCall, hchange]
      exact hwrote.history
  | failGets count | failLists count =>
    obtain ⟨rfl, rfl⟩ := Prod.mk.inj (Option.some.inj h)
    exact Quiet.continues ⟨rfl, rfl, rfl⟩ hs rfl (Nat.le_refl _)
  | bookmark | closeWatches | forwardAll | drop feed =>
    obtain ⟨rfl, rfl⟩ := Prod.mk.inj (Option.some.inj h)
    exact hfeeds _ s.nextFeed [] rfl (Nat.le_refl _)
  | watch name token =>
    obtain ⟨rfl, rfl⟩ := Prod.mk.inj (Option.some.inj h)
    obtain ⟨-, hquiet, -⟩ := watch_spec hs name token
    refine hquiet.continues hs rfl ?_
    unfold watch
    split
    · exact Nat.le_refl _
    · split
      · exact Nat.le_succ _
      · exact Nat.le_refl _
  | forward feed step =>
    obtain ⟨after, hstep, heq⟩ := Option.map_eq_some_iff.1 h
    obtain ⟨rfl, rfl⟩ := Prod.mk.inj heq
    obtain ⟨f, -, hmap⟩ := Option.bind_eq_some_iff.1 hstep
    obtain ⟨f', -, rfl⟩ := Option.map_eq_some_iff.1 hmap
    exact hfeeds _ s.nextFeed [] rfl (Nat.le_refl _)
  | next feed =>
    obtain ⟨⟨after, event⟩, hnext, heq⟩ := Option.map_eq_some_iff.1 h
    obtain ⟨rfl, rfl⟩ := Prod.mk.inj heq
    obtain ⟨-, hquiet, hsame, -⟩ := next?_spec hs hnext
    exact hquiet.continues hs rfl (Nat.le_of_eq hsame.symm)
  | take feed =>
    obtain ⟨rfl, rfl⟩ := Prod.mk.inj (Option.some.inj h)
    unfold take
    split
    · exact (Quiet.refl s).continues hs (Occurrence.writes_ofTaken _ _ _) (Nat.le_refl _)
    · exact hfeeds _ s.nextFeed _ (Occurrence.writes_ofTaken _ _ _) (Nat.le_refl _)

theorem Recorded.empty : empty.Recorded [] := ⟨consistent_empty, rfl⟩

theorem Recorded.act? {past : List Occurrence} (h : s.Recorded past)
    (hact : s.act? act = some (s', log)) : s'.Recorded (past ++ log) := by
  have hcontinues := h.consistent.continues hact
  refine ⟨hcontinues.consistent, ?_⟩
  rw [hcontinues.history, h.history, Occurrence.writes_append, List.reverse_append]

/-- The writes in the log of a run are the history of the store. -/
theorem Recorded.run? {acts : List StoreAct} {past : List Occurrence} (h : s.Recorded past)
    (hrun : Occurrence.run? MemoryStore.act? s acts = some (s', log)) :
    s'.Recorded (past ++ log) :=
  runLogged?_preserves (fun h hact => h.act? hact) hrun h

/-! ## Feeds -/

/-- What a step does at the place of a feed, with the events that the watcher of the feed gets. -/
inductive Turns (s : MemoryStore) (act : StoreAct) (news : List Change) (feed : ℕ) :
    Option Feed → Option Feed → List WatchEvent → Prop
  | absent : Turns s act news feed none none []
  | moved {f f' : Feed} {events : List WatchEvent} (h : Feed.Moves news f f' events)
    (hclosing : f'.closing = true → f.closing = true ∨ act = .closeWatches) :
    Turns s act news feed (some f) (some f') events
  | opened {before : Option Feed} (name : ObjectName) (version : ℕ) (h : feed = s.nextFeed) :
    Turns s act news feed before (some (.start name version (s.recordedSince name version))) []
  | dropped {f : Feed} (h : act = .drop feed) : Turns s act news feed (some f) none []

namespace Turns

variable {news : List Change} {feed : ℕ}

theorem same (before : Option Feed) : Turns s act news feed before before [] := by
  cases before with
  | none => exact .absent
  | some f => exact .moved (.stay f) Or.inl

/-- Most steps do the same to all feeds. -/
theorem map (before : Option Feed) {g : Feed → Feed} (h : ∀ f : Feed, Feed.Moves news f (g f) [])
    (hclosing : ∀ f : Feed, (g f).closing = true → f.closing = true ∨ act = .closeWatches) :
    Turns s act news feed before (before.map g) [] := by
  cases before with
  | none => exact .absent
  | some f => exact .moved (h f) (hclosing f)

/-- The other steps do something to one feed. -/
theorem insert {moved : ℕ} {f f' : Feed} {events : List WatchEvent}
    (hf : s.feeds.get? moved = some f) (h : Feed.Moves news f f' events)
    (hclosing : f'.closing = f.closing)
    (hlog : Occurrence.events feed log = if feed = moved then events else []) :
    Turns s act news feed (s.feeds.get? feed) ((s.feeds.insert moved f').get? feed)
      (Occurrence.events feed log) := by
  by_cases hfeed : feed = moved
  · subst hfeed
    rw [hlog, if_pos rfl, hf, SortedMap.get?_insert_self]
    exact .moved h fun hyes => Or.inl (hclosing ▸ hyes)
  · rw [hlog, if_neg hfeed, SortedMap.get?_insert_of_ne s.feeds hfeed]
    exact same _

end Turns

theorem turns_of_act? (hs : s.Consistent) (h : s.act? act = some (s', log)) (feed : ℕ) :
    Turns s act (Occurrence.writes log) feed (s.feeds.get? feed) (s'.feeds.get? feed)
      (Occurrence.events feed log) := by
  cases act with
  | call call =>
    obtain ⟨rfl, rfl⟩ := Prod.mk.inj (Option.some.inj h)
    rw [Occurrence.events_ofCall, Occurrence.writes_ofCall]
    rcases reply_cases hs call with ⟨-, hfeeds, -⟩ | ⟨c, -, hwrote, -, hchange⟩
    · rw [hfeeds]
      exact .same _
    · rw [hwrote.feeds, SortedMap.get?_map, hchange]
      refine .map _ (fun f => .push f _ ?_) fun f hclosing => Or.inl (f.closing_push _ ▸ hclosing)
      exact fun d hd => List.mem_singleton.2 (Notice.change.inj hd).symm
  | failGets count | failLists count =>
    obtain ⟨rfl, rfl⟩ := Prod.mk.inj (Option.some.inj h)
    exact .same _
  | bookmark =>
    obtain ⟨rfl, rfl⟩ := Prod.mk.inj (Option.some.inj h)
    rw [bookmark, publish, SortedMap.get?_map]
    refine .map _ (fun f => .push f _ ?_) fun f hclosing => Or.inl (f.closing_push _ ▸ hclosing)
    rintro c ⟨⟩
  | closeWatches =>
    obtain ⟨rfl, rfl⟩ := Prod.mk.inj (Option.some.inj h)
    rw [closeWatches, SortedMap.get?_map]
    exact .map _ Feed.Moves.close fun _ _ => Or.inr rfl
  | watch name token =>
    obtain ⟨rfl, rfl⟩ := Prod.mk.inj (Option.some.inj h)
    unfold watch
    split
    next => exact .same _
    next version _ =>
      split
      next =>
        by_cases hfeed : feed = s.nextFeed
        · subst hfeed
          rw [SortedMap.get?_insert_self]
          exact .opened name version rfl
        · rw [SortedMap.get?_insert_of_ne s.feeds hfeed]
          exact .same _
      next => exact .same _
  | forward moved step =>
    obtain ⟨after, hstep, heq⟩ := Option.map_eq_some_iff.1 h
    obtain ⟨rfl, rfl⟩ := Prod.mk.inj heq
    obtain ⟨f, hf, hmap⟩ := Option.bind_eq_some_iff.1 hstep
    obtain ⟨f', hf', rfl⟩ := Option.map_eq_some_iff.1 hmap
    exact .insert hf (.work (Feed.Runs.step step hf' .refl)) (Feed.closing_of_step? hf') (by simp)
  | forwardAll =>
    obtain ⟨rfl, rfl⟩ := Prod.mk.inj (Option.some.inj h)
    rw [forwardAll, SortedMap.get?_map]
    refine .map _ (fun f => .work f.runs_forward.1) fun f hclosing => Or.inl ?_
    rwa [f.runs_forward.1.closing] at hclosing
  | next taken =>
    obtain ⟨⟨after, event⟩, hnext, heq⟩ := Option.map_eq_some_iff.1 h
    obtain ⟨rfl, rfl⟩ := Prod.mk.inj heq
    have hnone : Occurrence.events feed [.told taken none] = [] := by
      simp [Occurrence.events, Occurrence.event?]
    unfold next? at hnext
    split at hnext
    next =>
      obtain ⟨rfl, rfl⟩ := Prod.mk.inj (Option.some.inj hnext)
      rw [hnone]
      exact .same _
    next f hf =>
      split at hnext
      next event rest hqueue =>
        obtain ⟨rfl, rfl⟩ := Prod.mk.inj (Option.some.inj hnext)
        refine .insert hf (.take hqueue) rfl ?_
        by_cases hfeed : feed = taken
        · simp [Occurrence.events, Occurrence.event?, hfeed]
        · simp [Occurrence.events, Occurrence.event?, hfeed, Ne.symm hfeed]
      next =>
        split at hnext
        next =>
          obtain ⟨rfl, rfl⟩ := Prod.mk.inj (Option.some.inj hnext)
          rw [hnone]
          exact .same _
        next => cases hnext
  | take taken =>
    obtain ⟨rfl, rfl⟩ := Prod.mk.inj (Option.some.inj h)
    unfold take
    split
    next =>
      have hnone : Occurrence.events feed (Occurrence.ofTaken taken [] true) = [] := by
        simp [Occurrence.events, Occurrence.ofTaken, Occurrence.event?]
      rw [hnone]
      exact .same _
    next f hf =>
      refine .insert hf (.drain f) rfl ?_
      by_cases hfeed : feed = taken
      · rw [if_pos hfeed, hfeed, Occurrence.events_ofTaken_self]
      · rw [if_neg hfeed, Occurrence.events_ofTaken_of_ne _ _ _ (Ne.symm hfeed)]
  | drop gone =>
    obtain ⟨rfl, rfl⟩ := Prod.mk.inj (Option.some.inj h)
    rw [drop, SortedMap.get?_erase]
    by_cases hfeed : feed = gone
    · subst hfeed
      rw [if_pos (BEq.refl feed)]
      cases s.feeds.get? feed with
      | none => exact .absent
      | some f => exact .dropped rfl
    · rw [if_neg (by simpa using hfeed)]
      exact .same _

end MemoryStore
end Keyring
