import Keyring.Proofs.MemoryStore.Runs

/-!
# Streams of a memory store

A watch can be opened at a version if and only if every write since then is on record. From then on
its watcher gets the writes to his object in order, each once. If he gets no more, the store has
closed the watch, he was told of a failure or he went away himself; whoever has nothing left to wait
for has got all of them.
-/
namespace Keyring

open Occurrence

namespace MemoryStore

variable {s s' : MemoryStore} {act : StoreAct} {acts later : List StoreAct}
  {log past : List Occurrence} {feed since : ℕ} {name : ObjectName} {taken : List WatchEvent}

/-! ## Opening a watch -/

/-- A store remembers all writes after a version as long as they are on record. -/
theorem remembers_iff (hs : s.Consistent) {version : ℕ} (hversion : version ≤ s.version) :
    s.remembers version = true ↔ ∀ c ∈ s.history, version < c.version → c ∈ s.onRecord := by
  have hsplit : s.history = s.onRecord ++ s.history.drop historyLimit :=
    (List.take_append_drop historyLimit s.history).symm
  have hdescending := hs.descending
  rw [hsplit, List.pairwise_append] at hdescending
  rw [remembers]
  cases hlast : s.onRecord.getLast? with
  | none => simp [history_eq_nil hlast]
  | some oldest =>
    have holdest : oldest ∈ s.onRecord := List.mem_of_getLast? hlast
    rw [decide_eq_true_eq, following, if_pos hversion]
    constructor
    · intro hold c hc hlater
      rw [hsplit, List.mem_append] at hc
      refine hc.resolve_right fun hforgotten => ?_
      have := hdescending.2.2 oldest holdest c hforgotten
      omega
    · intro hall
      by_contra hyoung
      -- The write after that version is older than the oldest on record.
      have hnumber : version + 1 ∈ s.history.map Change.version := by
        have hle := (hs.version_mem (hsplit ▸ List.mem_append_left _ holdest)).2
        rw [hs.numbered, List.mem_reverse, List.mem_range'_1]
        omega
      obtain ⟨c, hc, hversion⟩ := List.mem_map.1 hnumber
      obtain ⟨earlier, hearlier⟩ := List.getLast?_eq_some_iff.1 hlast
      have hrecord := hall c hc (by omega)
      have hrest := hdescending.1
      rw [hearlier, List.pairwise_append] at hrest
      rw [hearlier, List.mem_append, List.mem_singleton] at hrecord
      rcases hrecord with hrecord | rfl
      · have := hrest.2.2 c hrecord oldest (List.mem_singleton.2 rfl)
        omega
      · omega

/-- Beyond the counter, a store with writes remembers nothing after the greatest word alone. -/
theorem remembers_beyond_iff (hs : s.Consistent) {version : ℕ} (hbeyond : s.version < version)
    (hword : version < 18446744073709551616) :
    s.remembers version = true ↔ s.history = [] ∨ version ≠ 18446744073709551615 := by
  rw [remembers]
  cases hlast : s.onRecord.getLast? with
  | none => simp [history_eq_nil hlast]
  | some oldest =>
    have holdest : oldest ∈ s.history := List.mem_of_mem_take (List.mem_of_getLast? hlast)
    have hnumber := hs.version_mem holdest
    have hne := List.ne_nil_of_mem holdest
    simp only [decide_eq_true_eq, following, if_neg (Nat.not_le.2 hbeyond), hne, false_or]
    constructor
    · rintro hold rfl
      omega
    · intro hlt
      rw [Nat.mod_eq_of_lt (by omega)]
      omega

example : (empty.put .added (.fresh ⟨"ns", "keys"⟩)).1.remembers 18446744073709551615 = false := by
  decide

/-- The failure of a watch that starts too early. -/
def tooOld (version : ℕ) : KeyError :=
  .backendUnavailable ("resource version " ++ Decimal.ofNat version ++ " is too old")

theorem watch_of_not_remembers {token : String} (htoken : parseVersion token = .ok since)
    (h : ¬ s.remembers since = true) : s.watch name token = (s, .error (tooOld since)) := by
  simp only [watch, htoken]
  exact if_neg h

theorem watch_of_remembers {token : String} (htoken : parseVersion token = .ok since)
    (h : s.remembers since = true) :
    s.watch name token =
      ({ s with
          feeds := s.feeds.insert s.nextFeed (.start name since (s.recordedSince name since))
          nextFeed := s.nextFeed + 1 },
        .ok s.nextFeed) := by
  simp only [watch, htoken]
  exact if_pos h

/-! ## Watchers of a running store -/

theorem Leads.changesSince (h : s.Leads s') (name : ObjectName) (version : ℕ) :
    s.changesSince name version <+: s'.changesSince name version := by
  obtain ⟨later, hlater, -⟩ := h.history
  rw [MemoryStore.changesSince, MemoryStore.changesSince, hlater, List.filter_append,
    List.reverse_append]
  exact List.prefix_append _ _

/-- A watcher is served on until he goes away. -/
theorem Serves.act? (hs : s.Consistent) (h : s.act? act = some (s', log))
    (hstays : act ≠ .drop feed) (hserves : s.Serves feed name since taken) :
    s'.Serves feed name since (taken ++ events feed log) := by
  have hother : ∀ {after : MemoryStore} {touched : Option ℕ}, s.Evolves after touched →
      some feed ≠ touched → events feed log = [] →
      after.Serves feed name since (taken ++ events feed log) := by
    intro after touched hevolves hne hnone
    rw [hnone, List.append_nil]
    exact hevolves.serves hne hserves
  have hnone : some feed ≠ none := Option.some_ne_none feed
  cases act with
  | call call =>
    obtain ⟨rfl, rfl⟩ := Prod.mk.inj (Option.some.inj h)
    have hevents := events_ofCall call
      (call.change? (s.object? call.target) (s.reply call).1.version (s.reply call).2)
      (s.reply call).2 feed
    rcases reply_cases hs call with ⟨hquiet, hfeeds, hnext, -⟩ | ⟨c, -, hwrote, -⟩
    · exact hother (hquiet.evolves_same hs hfeeds hnext none) hnone hevents
    · exact hother (hwrote.evolves hs) hnone hevents
  | failGets count =>
    obtain ⟨rfl, rfl⟩ := Prod.mk.inj (Option.some.inj h)
    have hquiet : s.Quiet { s with failingGets := count } := ⟨rfl, rfl, rfl⟩
    exact hother (hquiet.evolves_same hs rfl rfl none) hnone rfl
  | failLists count =>
    obtain ⟨rfl, rfl⟩ := Prod.mk.inj (Option.some.inj h)
    have hquiet : s.Quiet { s with failingLists := count } := ⟨rfl, rfl, rfl⟩
    exact hother (hquiet.evolves_same hs rfl rfl none) hnone rfl
  | bookmark =>
    obtain ⟨rfl, rfl⟩ := Prod.mk.inj (Option.some.inj h)
    exact hother (.bookmark hs) hnone rfl
  | closeWatches =>
    obtain ⟨rfl, rfl⟩ := Prod.mk.inj (Option.some.inj h)
    exact hother (.closeWatches hs) hnone rfl
  | watch watched token =>
    obtain ⟨rfl, rfl⟩ := Prod.mk.inj (Option.some.inj h)
    exact hother (watch_spec hs watched token).1 hnone rfl
  | forward moved step =>
    obtain ⟨after, hstep, heq⟩ := Option.map_eq_some_iff.1 h
    obtain ⟨rfl, rfl⟩ := Prod.mk.inj heq
    exact hother (.forwardStep? hs hstep) hnone rfl
  | forwardAll =>
    obtain ⟨rfl, rfl⟩ := Prod.mk.inj (Option.some.inj h)
    exact hother (.forwardAll hs) hnone rfl
  | next moved =>
    obtain ⟨⟨after, event⟩, hnext, heq⟩ := Option.map_eq_some_iff.1 h
    obtain ⟨rfl, rfl⟩ := Prod.mk.inj heq
    obtain ⟨hevolves, -, -, hown⟩ := next?_spec hs hnext
    by_cases hfeed : moved = feed
    · subst hfeed
      have hevents : events moved [.told moved event] = event.toList := by
        cases event <;> simp [events, event?]
      rw [hevents]
      exact hown hserves
    · exact hother hevolves (by simpa using Ne.symm hfeed) (by simp [events, event?, hfeed])
  | take moved =>
    obtain ⟨rfl, rfl⟩ := Prod.mk.inj (Option.some.inj h)
    by_cases hfeed : moved = feed
    · subst hfeed
      rw [events_ofTaken_self]
      exact hserves.take
    · have hevolves : s.Evolves (s.take moved).1 (some moved) := by
        unfold MemoryStore.take
        split
        next => exact (Quiet.refl s).evolves_same hs rfl rfl _
        next => exact Evolves.insert hs fun _ hne _ => absurd rfl hne
      exact hother hevolves (by simpa using Ne.symm hfeed) (events_ofTaken_of_ne _ _ _ hfeed)
  | drop gone =>
    obtain ⟨rfl, rfl⟩ := Prod.mk.inj (Option.some.inj h)
    have hne : feed ≠ gone := fun heq => hstays (heq ▸ rfl)
    exact hother (.drop hs gone) (by simpa using hne) rfl

/-- A watcher learns that there will be no more events when his feed has ended or is gone. -/
theorem over_of_act? (h : s.act? act = some (s', log)) (hover : told feed none ∈ log) :
    s'.feeds.get? feed = none ∨
      ∃ f, s'.feeds.get? feed = some f ∧ f.ended = true ∧ f.held = [] := by
  cases act with
  | call call =>
    obtain ⟨-, rfl⟩ := Prod.mk.inj (Option.some.inj h)
    simp [ofCall] at hover
  | failGets | failLists | bookmark | closeWatches | watch | forwardAll | drop =>
    obtain ⟨-, rfl⟩ := Prod.mk.inj (Option.some.inj h)
    cases hover
  | forward moved step =>
    obtain ⟨after, -, heq⟩ := Option.map_eq_some_iff.1 h
    obtain ⟨-, rfl⟩ := Prod.mk.inj heq
    cases hover
  | next moved =>
    obtain ⟨⟨after, event⟩, hnext, heq⟩ := Option.map_eq_some_iff.1 h
    obtain ⟨rfl, rfl⟩ := Prod.mk.inj heq
    obtain ⟨rfl, rfl⟩ := told.inj (List.mem_singleton.1 hover)
    unfold next? at hnext
    split at hnext
    next hnone =>
      obtain ⟨rfl, -⟩ := Prod.mk.inj (Option.some.inj hnext)
      exact Or.inl hnone
    next f hf =>
      split at hnext
      next => cases (Prod.mk.inj (Option.some.inj hnext)).2
      next hqueue =>
        split at hnext
        next hended =>
          obtain ⟨rfl, -⟩ := Prod.mk.inj (Option.some.inj hnext)
          exact Or.inr ⟨f, hf, hended.1, by rw [Feed.held, hqueue, hended.2, List.append_nil]⟩
        next => cases hnext
  | take moved =>
    obtain ⟨rfl, rfl⟩ := Prod.mk.inj (Option.some.inj h)
    obtain ⟨rfl, hended⟩ := told_none_mem_ofTaken _ _ _ hover
    unfold take at hended ⊢
    split
    next hnone => exact Or.inl hnone
    next f hf =>
      rw [hf] at hended
      exact Or.inr ⟨f.exhausted, SortedMap.get?_insert_self _ _ _, hended, rfl⟩

/-- A watch that was opened at a version, by what happened since. -/
structure Watched (s : MemoryStore) (feed : ℕ) (name : ObjectName) (since : ℕ)
    (acts : List StoreAct) (log : List Occurrence) : Prop where
  known : feed < s.nextFeed
  ordered : (events feed log).filter WatchEvent.tellsChange <+:
    (s.changesSince name since).map Change.event
  served : .drop feed ∉ acts → s.Serves feed name since (events feed log)
  gone : .drop feed ∈ acts → s.feeds.get? feed = none
  excused : ∀ f, s.feeds.get? feed = some f →
    f.Excused (.closeWatches ∈ acts) (events feed log)
  ended : told feed none ∈ log → (∃ message, WatchEvent.error message ∈ events feed log) ∨
    .closeWatches ∈ acts ∨ .drop feed ∈ acts

namespace Watched

/-- A watch that has just been opened. -/
theorem start {token : String} (hs : s.Consistent) (htoken : parseVersion token = .ok since)
    (hsince : since ≤ s.version) (hfeed : (s.watch name token).2 = .ok feed) :
    (s.watch name token).1.Watched feed name since [] [] := by
  obtain ⟨-, -, hopened⟩ := watch_spec hs name token
  obtain ⟨rfl, hnext, version, hversion, hserves⟩ := hopened feed hfeed
  obtain rfl : version = since := Except.ok.inj (hversion.symm.trans htoken)
  have hserved := hserves hsince
  obtain ⟨f, hf, hname, hfollows⟩ := hserved.follows
  have hremembers : s.remembers version = true := by
    by_contra hnot
    rw [watch_of_not_remembers htoken hnot] at hfeed
    cases hfeed
  refine ⟨by omega, List.nil_prefix, fun _ => hserved, fun h => (List.not_mem_nil h).elim, ?_,
    fun h => (List.not_mem_nil h).elim⟩
  intro g hg
  rw [watch_of_remembers htoken hremembers, SortedMap.get?_insert_self, Option.some.injEq] at hg
  subst hg
  constructor
  · intro hclosing
    cases hclosing
  · intro hended
    cases hended

/-- A watch goes on with the store. -/
theorem act? (h : s.Watched feed name since acts past) (hs : s.Consistent)
    (hact : s.act? act = some (s', log)) :
    s'.Watched feed name since (acts ++ [act]) (past ++ log) := by
  have hcontinues := hs.continues hact
  have hturns := turns_of_act? hs hact feed
  have hknown : feed < s'.nextFeed := Nat.lt_of_lt_of_le h.known hcontinues.nextFeed_le
  have hserved : .drop feed ∉ acts ++ [act] →
      s'.Serves feed name since (events feed (past ++ log)) := by
    intro hstays
    rw [List.mem_append, List.mem_singleton, not_or] at hstays
    rw [events_append]
    exact Serves.act? hs hact (Ne.symm hstays.2) (h.served hstays.1)
  have hgone : .drop feed ∈ acts ++ [act] →
      s'.feeds.get? feed = none ∧ events feed log = [] := by
    intro hdrop
    rw [List.mem_append, List.mem_singleton] at hdrop
    rcases hdrop with hearlier | rfl
    · rw [h.gone hearlier] at hturns
      generalize s'.feeds.get? feed = after at hturns
      generalize events feed log = taken at hturns
      cases hturns with
      | absent => exact ⟨rfl, rfl⟩
      | opened _ _ hnew => exact absurd h.known (by omega)
    · obtain ⟨rfl, rfl⟩ := Prod.mk.inj (Option.some.inj hact)
      exact ⟨(SortedMap.get?_erase s.feeds feed feed).trans (if_pos (BEq.refl feed)), rfl⟩
  have hexcused : ∀ f, s'.feeds.get? feed = some f →
      f.Excused (.closeWatches ∈ acts ++ [act]) (events feed (past ++ log)) := by
    intro f hf
    rw [hf] at hturns
    rw [events_append]
    generalize hbefore : s.feeds.get? feed = before at hturns
    generalize events feed log = taken at hturns
    cases hturns with
    | moved hmoves hclosing =>
      refine (h.excused _ hbefore).moves hmoves (fun hearlier => List.mem_append_left _ hearlier) ?_
      intro hyes
      exact (hclosing hyes).imp_right fun heq => by simp [heq]
    | opened _ _ hnew => exact absurd h.known (by omega)
  refine ⟨hknown, ?_, hserved, fun hdrop => (hgone hdrop).1, hexcused, ?_⟩
  · by_cases hdrop : .drop feed ∈ acts ++ [act]
    · rw [events_append, (hgone hdrop).2, List.append_nil]
      exact h.ordered.trans ((hcontinues.leads.changesSince name since).map Change.event)
    · obtain ⟨f, -, rfl, hfollows⟩ := (hserved hdrop).follows
      refine List.IsPrefix.trans ?_ hfollows.told
      rw [List.filter_append]
      exact List.prefix_append _ _
  · intro hover
    rcases List.mem_append.1 hover with hearlier | hnew
    · rcases h.ended hearlier with ⟨message, herror⟩ | hclosed | hdropped
      · exact Or.inl ⟨message, by rw [events_append]; exact List.mem_append_left _ herror⟩
      · exact Or.inr (Or.inl (List.mem_append_left _ hclosed))
      · exact Or.inr (Or.inr (List.mem_append_left _ hdropped))
    · rcases over_of_act? hact hnew with hnone | ⟨f, hf, hended, hheld⟩
      · right; right
        by_contra hstays
        obtain ⟨f, hf, -⟩ := (hserved hstays).follows
        cases hnone.symm.trans hf
      · have hreason := (hexcused f hf).ended hended
        rw [hheld, List.append_nil] at hreason
        rcases hreason with hclosed | herror
        · exact Or.inr (Or.inl hclosed)
        · exact Or.inl herror

theorem run? {token : String} (hs : s.Consistent) (htoken : parseVersion token = .ok since)
    (hsince : since ≤ s.version) (hfeed : (s.watch name token).2 = .ok feed)
    (hrun : Occurrence.run? MemoryStore.act? (s.watch name token).1 later = some (s', log)) :
    s'.Consistent ∧ s'.Watched feed name since later log := by
  have hconsistent := (watch_spec hs name token).2.1.consistent hs
  refine runLogged?_induction
    (P := fun s acts log => s.Consistent ∧ s.Watched feed name since acts log) ?_ hrun ⟨hconsistent, start hs htoken hsince hfeed⟩
  rintro state next acts act past log ⟨hstate, hwatched⟩ hact
  exact ⟨(hstate.continues hact).consistent, hwatched.act? hstate hact⟩

end Watched

/-- A watcher and his forwarder at work, nobody else. -/
def Consumes (feed : ℕ) (acts : List StoreAct) : Prop :=
  ∀ act ∈ acts, act = .next feed ∨ ∃ step, act = .forward feed step

/-- What a feed can give is what a store gives to the watcher of the feed. -/
theorem exists_run?_of_drains {f last : Feed} {events : List WatchEvent}
    (h : f.Drains events last) (hf : s.feeds.get? feed = some f) :
    ∃ acts t log, Consumes feed acts ∧ Occurrence.run? act? s acts = some (t, log) ∧
      Occurrence.events feed log = events ∧ writes log = [] := by
  induction h generalizing s with
  | done f => exact ⟨[], s, [], fun _ hact => absurd hact List.not_mem_nil, rfl, rfl, rfl⟩
  | @work f f' last events step hstep _ ih =>
    obtain ⟨acts, t, log, hacts, hrun, hevents, hwrites⟩ :=
      @ih { s with feeds := s.feeds.insert feed f' } (SortedMap.get?_insert_self _ _ _)
    have hact : s.act? (.forward feed step) =
        some ({ s with feeds := s.feeds.insert feed f' }, []) := by
      simp [act?, forwardStep?, hf, hstep]
    refine ⟨.forward feed step :: acts, t, [] ++ log, ?_,
      runLogged?_cons_eq_some_iff.2 ⟨_, _, _, hact, hrun, rfl⟩, hevents, hwrites⟩
    rintro act (_ | ⟨_, hact⟩)
    · exact Or.inr ⟨step, rfl⟩
    · exact hacts act hact
  | @take f last event queue events hqueue _ ih =>
    obtain ⟨acts, t, log, hacts, hrun, hevents, hwrites⟩ :=
      @ih { s with feeds := s.feeds.insert feed { f with queue := queue } }
        (SortedMap.get?_insert_self _ _ _)
    have hact : s.act? (.next feed) =
        some ({ s with feeds := s.feeds.insert feed { f with queue := queue } },
          [.told feed (some event)]) := by
      simp [act?, next?, hf, hqueue]
    refine ⟨.next feed :: acts, t, [.told feed (some event)] ++ log, ?_,
      runLogged?_cons_eq_some_iff.2 ⟨_, _, _, hact, hrun, rfl⟩, ?_, ?_⟩
    · rintro act (_ | ⟨_, hact⟩)
      · exact Or.inl rfl
      · exact hacts act hact
    · rw [events_append, hevents]
      simp [Occurrence.events, event?]
    · rw [writes_append, hwrites]
      rfl

/-- What the watcher of a feed can rely on after a run, of the events that are due to him. -/
structure Delivers (t : MemoryStore) (feed : ℕ) (due : List WatchEvent) (acts : List StoreAct)
    (log : List Occurrence) : Prop where
  /-- What he gets is a beginning of what is due. -/
  ordered : (events feed log).filter WatchEvent.tellsChange <+: due
  /-- He does not learn of an end without a reason. -/
  excused : told feed none ∈ log → (∃ message, WatchEvent.error message ∈ events feed log) ∨
    .closeWatches ∈ acts ∨ .drop feed ∈ acts
  /-- When he and his forwarder can only wait, nothing is missing. -/
  caughtUp : t.act? (.next feed) = none → (∀ step, t.act? (.forward feed step) = none) →
    (events feed log).filter WatchEvent.tellsChange = due
  /-- As long as the watch is not ended, he can get what is missing or be told of a failure. -/
  reaches : .closeWatches ∉ acts → .drop feed ∉ acts →
    ∃ rest u further, Consumes feed rest ∧ Occurrence.run? act? t rest = some (u, further) ∧
      ((∃ message, WatchEvent.error message ∈ events feed (log ++ further)) ∨
        (events feed (log ++ further)).filter WatchEvent.tellsChange = due)

/-- A feed from which nothing can be taken and whose forwarder has nothing to do. -/
theorem idle_of_act? {f : Feed} (hf : s.feeds.get? feed = some f)
    (hnext : s.act? (.next feed) = none) (hforward : ∀ step, s.act? (.forward feed step) = none) :
    f.ended = false ∧ f.held = [] ∧ f.pending = [] := by
  have hsteps : ∀ step, f.step? step = none := by
    intro step
    have hstep := hforward step
    simpa [act?, forwardStep?, hf] using hstep
  have hqueue : f.queue = [] := by
    rw [act?, Option.map_eq_none_iff, next?, hf] at hnext
    cases hqueue : f.queue with
    | nil => rfl
    | cons event rest => simp [hqueue] at hnext
  have hout : f.outgoing = [] := by
    have hstep := hsteps .handOn
    cases hout : f.outgoing with
    | nil => rfl
    | cons event rest => simp [Feed.step?, hout, hqueue, Feed.queueLimit] at hstep
  have hopen : f.ended = false := by
    rw [act?, Option.map_eq_none_iff, next?, hf] at hnext
    simpa [hqueue, hout] using hnext
  have hlost : f.lost = 0 := by
    have hstep := hsteps .lag
    simpa [Feed.step?, hout, hopen] using hstep
  refine ⟨hopen, by rw [Feed.held, hqueue, hout, List.append_nil], ?_⟩
  have hstep := hsteps .read
  cases hpending : f.pending with
  | nil => rfl
  | cons n rest =>
    simp only [Feed.step?, hpending] at hstep
    rw [if_pos ⟨hout, hopen, hlost⟩] at hstep
    split at hstep <;> cases hstep

/-- A watch delivers the writes that the store has done since. -/
theorem Watched.delivers (h : s.Watched feed name since acts log) :
    s.Delivers feed ((s.changesSince name since).map Change.event) acts log := by
  refine ⟨h.ordered, h.ended, ?_, ?_⟩
  · intro hnext hforward
    have hstays : .drop feed ∉ acts := by
      intro hdrop
      simp [MemoryStore.act?, next?, h.gone hdrop] at hnext
    obtain ⟨f, hf, rfl, hfollows⟩ := (h.served hstays).follows
    obtain ⟨hopen, hheld, hpending⟩ := idle_of_act? hf hnext hforward
    have hcomplete := hfollows.complete hopen
    rwa [Feed.onTheWay, hheld, hpending, Feed.read_nil, List.append_nil, List.append_nil]
      at hcomplete
  · intro hunclosed hstays
    obtain ⟨f, hf, rfl, hfollows⟩ := (h.served hstays).follows
    obtain ⟨last, hdrains⟩ := f.drains_available
    obtain ⟨rest, u, further, hrest, hrun, hevents, -⟩ := exists_run?_of_drains hdrains hf
    refine ⟨rest, u, further, hrest, hrun, ?_⟩
    rw [events_append, hevents]
    have hexcused := h.excused f hf
    have hclosing : f.closing = false := by
      rw [← Bool.not_eq_true]
      exact fun hyes => hunclosed (hexcused.closing hyes)
    by_cases hended : f.ended = true
    · left
      rw [Feed.available, if_pos (Or.inl hended), ← Feed.held]
      exact (hexcused.ended hended).resolve_left hunclosed
    · rw [Bool.not_eq_true] at hended
      rw [Feed.available, if_neg (by simp [hended, hclosing]), ← Feed.held]
      by_cases hlost : f.lost = 0
      · right
        rw [if_pos hlost]
        exact hfollows.complete hended
      · left
        rw [if_neg hlost]
        exact Feed.exists_error_mem f.lost (by simp)

theorem Recorded.changesSince (h : s.Recorded log) (name : ObjectName) (version : ℕ) :
    s.changesSince name version = (writesTo name log).filter fun c => version < c.version := by
  rw [MemoryStore.changesSince, h.history, List.filter_reverse, List.reverse_reverse, writesTo,
    List.filter_filter]

/-- The events of the writes to an object after a version. -/
def due (name : ObjectName) (version : ℕ) (log : List Occurrence) : List WatchEvent :=
  ((writesTo name log).filter fun c => version < c.version).map Change.event

/-- A store numbers its writes from one on. A watch from a version that the store has reached can be
opened if and only if all writes after that version are among the last that are on record, and is
refused as too old if not. It delivers the writes to its object after that version. -/
theorem watch_delivers {token : String} (hrun : Occurrence.run? act? empty acts = some (s, past))
    (htoken : parseVersion token = .ok since) (hsince : since ≤ s.version) (name : ObjectName) :
    (writes past).map Change.version = List.range' 1 s.version ∧
      ((∃ feed, (s.watch name token).2 = .ok feed) ↔
        ∀ c ∈ writes past, since < c.version → c ∈ (writes past).reverse.take historyLimit) ∧
      ((∀ feed, (s.watch name token).2 ≠ .ok feed) →
        s.watch name token = (s, .error (tooOld since))) ∧
      ∀ feed, (s.watch name token).2 = .ok feed → ∀ later t log,
        Occurrence.run? act? (s.watch name token).1 later = some (t, log) →
          t.Delivers feed (due name since (past ++ log)) later log := by
  have hrecorded : s.Recorded past := Recorded.empty.run? hrun
  have hs := hrecorded.consistent
  refine ⟨?_, ?_, ?_, ?_⟩
  · have hnumbered := hs.numbered
    rwa [hrecorded.history, List.map_reverse, List.reverse_inj] at hnumbered
  · have hremembers := remembers_iff hs hsince
    rw [onRecord, hrecorded.history] at hremembers
    simp only [List.mem_reverse] at hremembers
    rw [← hremembers]
    constructor
    · rintro ⟨feed, hfeed⟩
      by_contra hnot
      rw [watch_of_not_remembers htoken hnot] at hfeed
      cases hfeed
    · intro hremembers
      rw [watch_of_remembers htoken hremembers]
      exact ⟨s.nextFeed, rfl⟩
  · intro hfailed
    apply watch_of_not_remembers htoken
    intro hremembers
    apply hfailed s.nextFeed
    rw [watch_of_remembers htoken hremembers]
  · intro feed hfeed later t log hlater
    obtain ⟨-, hwatched⟩ := Watched.run? hs htoken hsince hfeed hlater
    have hopened : (s.watch name token).1.Recorded past := by
      have hquiet := (watch_spec hs name token).2.1
      exact ⟨hquiet.consistent hs, hquiet.history.trans hrecorded.history⟩
    have hlast : t.Recorded (past ++ log) := hopened.run? hlater
    rw [due, ← hlast.changesSince]
    exact hwatched.delivers

/-- An object is created, replaced and removed, with a write to another object in between. -/
def lifetime : List StoreAct :=
  let object : StoredObject := ⟨"ns", "keys", "", .ofList [("a", [1, 2])]⟩
  [.call (.write (.create object)), .call (.write (.create (.fresh ⟨"ns", "other"⟩))), .bookmark,
    .call (.write (.update { object with resourceVersion := "1" })),
    .call (.write (.delete object.objectName))]

/-- A watch from the creation on delivers the replacement and the removal. -/
theorem watch_delivers_lifetime :
    ∃ s past, Occurrence.run? act? empty lifetime = some (s, past) ∧
      parseVersion "1" = .ok 1 ∧ 1 ≤ s.version ∧
      due ⟨"ns", "keys"⟩ 1 past =
        [.modified ⟨"ns", "keys", "3", .ofList [("a", [1, 2])]⟩,
          .deleted ⟨"ns", "keys", "4", .ofList [("a", [1, 2])]⟩] ∧
      ∃ feed, (s.watch ⟨"ns", "keys"⟩ "1").2 = .ok feed ∧ ∀ later t log,
        Occurrence.run? act? (s.watch ⟨"ns", "keys"⟩ "1").1 later = some (t, log) →
          t.Delivers feed (due ⟨"ns", "keys"⟩ 1 (past ++ log)) later log := by
  obtain ⟨s, past, hrun, hversion, hopen, hdue⟩ : ∃ s past,
      Occurrence.run? act? empty lifetime = some (s, past) ∧ 1 ≤ s.version ∧
        (∀ c ∈ writes past, 1 < c.version → c ∈ (writes past).reverse.take historyLimit) ∧
        due ⟨"ns", "keys"⟩ 1 past =
          [.modified ⟨"ns", "keys", "3", .ofList [("a", [1, 2])]⟩,
            .deleted ⟨"ns", "keys", "4", .ofList [("a", [1, 2])]⟩] :=
    ⟨_, _, rfl, by decide +kernel, by decide +kernel, by decide +kernel⟩
  have htoken : parseVersion "1" = .ok 1 := by decide +kernel
  obtain ⟨-, hopens, -, hdelivers⟩ := watch_delivers hrun htoken hversion ⟨"ns", "keys"⟩
  obtain ⟨feed, hfeed⟩ := hopens.2 hopen
  exact ⟨s, past, hrun, htoken, hversion, hdue, feed, hfeed, hdelivers feed hfeed⟩

end MemoryStore
end Keyring
