import Keyring.Proofs.MemoryStore.Runs

/-!
# What is seen of a memory store

A store and its watchers know nothing but what was written: whatever a reply shows or an event
tells is an object as some write stored it, under its own name.
-/
namespace Keyring

open Occurrence

namespace Feed

variable {f f' : Feed} {known known' : StoredObject → Prop}

/-- A feed that tells of these objects only. -/
structure Tells (f : Feed) (known : StoredObject → Prop) : Prop where
  held : ∀ event ∈ f.held, ∀ object, event.object? = some object → known object
  unread : ∀ n ∈ f.unread, ∀ object, n.event.object? = some object → known object

namespace Tells

theorem mono (h : f.Tells known) (hle : ∀ object, known object → known' object) :
    f.Tells known' :=
  ⟨fun event hevent object hobject => hle object (h.held event hevent object hobject),
    fun n hn object hobject => hle object (h.unread n hn object hobject)⟩

/-- An event that is read comes from a notice. -/
theorem mem_read {name : ObjectName} {last : ℕ} {notices : List Notice} {event : WatchEvent}
    (h : event ∈ (read name last notices).1) : ∃ n ∈ notices, n.event = event := by
  induction notices generalizing last with
  | nil => cases h
  | cons n rest ih =>
    rw [read_cons] at h
    split at h
    · rcases List.mem_cons.1 h with rfl | hrest
      · exact ⟨n, List.mem_cons_self, rfl⟩
      · obtain ⟨m, hm, hevent⟩ := ih hrest
        exact ⟨m, List.mem_cons_of_mem n hm, hevent⟩
    · obtain ⟨m, hm, hevent⟩ := ih h
      exact ⟨m, List.mem_cons_of_mem n hm, hevent⟩

theorem step? {step : FeedStep} (h : f.Tells known) (hstep : f.step? step = some f') :
    f'.Tells known := by
  have hheld := h.held
  have hunread := h.unread
  cases step with
  | handOn =>
    simp only [Feed.step?] at hstep
    split at hstep
    next => cases hstep
    next event rest hout =>
      split at hstep
      next =>
        obtain rfl := Option.some.inj hstep
        refine ⟨?_, hunread⟩
        simpa [Feed.held, hout] using hheld
      next => cases hstep
  | read =>
    simp only [Feed.step?] at hstep
    split at hstep
    next => cases hstep
    next n rest hpending =>
      have hall : ∀ m ∈ n :: rest, ∀ object, m.event.object? = some object → known object := by
        intro m hm
        rw [← hpending, Feed.pending, List.mem_reverse] at hm
        exact hunread m hm
      obtain ⟨hn, hrest⟩ := List.forall_mem_cons.1 hall
      have hreversed : ∀ m ∈ rest.reverse, ∀ object,
          m.event.object? = some object → known object :=
        fun m hm => hrest m (List.mem_reverse.1 hm)
      split at hstep
      next hguard =>
        have hqueue : ∀ event ∈ f.queue, ∀ object, event.object? = some object → known object :=
          fun event hevent => hheld event (List.mem_append_left _ hevent)
        split at hstep
        · obtain rfl := Option.some.inj hstep
          refine ⟨?_, hreversed⟩
          rw [Feed.held, List.forall_mem_append, List.forall_mem_singleton]
          exact ⟨hqueue, hn⟩
        · obtain rfl := Option.some.inj hstep
          exact ⟨hheld, hreversed⟩
      next => cases hstep
  | lag =>
    simp only [Feed.step?] at hstep
    split at hstep
    next =>
      obtain rfl := Option.some.inj hstep
      refine ⟨?_, fun n hn => absurd hn List.not_mem_nil⟩
      rw [Feed.held, List.forall_mem_append, List.forall_mem_singleton]
      refine ⟨fun event hevent => hheld event (List.mem_append_left _ hevent), ?_⟩
      rintro object ⟨⟩
    next => cases hstep
  | finish =>
    simp only [Feed.step?] at hstep
    split at hstep
    next =>
      obtain rfl := Option.some.inj hstep
      exact ⟨hheld, fun n hn => absurd hn List.not_mem_nil⟩
    next => cases hstep

theorem runs (h : f.Tells known) (hruns : f.Runs f') : f'.Tells known := by
  induction hruns with
  | refl => exact h
  | tail _ hstep ih =>
    obtain ⟨step, hstep⟩ := hstep
    exact ih.step? hstep

/-- Nothing but what was written becomes of a feed or gets to its watcher. -/
theorem moves {news : List Change} {events : List WatchEvent} (h : f.Tells known)
    (hmoves : Moves news f f' events) (hnews : ∀ c ∈ news, known c.object) :
    f'.Tells known ∧ ∀ event ∈ events, ∀ object, event.object? = some object → known object := by
  have hnone : ∀ event ∈ ([] : List WatchEvent), ∀ object,
      event.object? = some object → known object :=
    fun event hevent => absurd hevent List.not_mem_nil
  cases hmoves with
  | stay => exact ⟨h, hnone⟩
  | push n hn =>
    refine ⟨⟨by rw [held_push]; exact h.held, ?_⟩, hnone⟩
    have hnotice : ∀ object, n.event.object? = some object → known object := by
      intro object hobject
      cases n with
      | change c =>
        rw [Notice.event, Change.object?_event, Option.some.injEq] at hobject
        exact hobject ▸ hnews c (hn c rfl)
      | bookmark version => cases hobject
    unfold push
    split
    · exact h.unread
    · exact List.forall_mem_cons.2 ⟨hnotice, h.unread⟩
  | close => exact ⟨⟨h.held, h.unread⟩, hnone⟩
  | work hruns => exact ⟨h.runs hruns, hnone⟩
  | take hqueue =>
    have hheld := h.held
    rw [Feed.held, hqueue, List.cons_append, List.forall_mem_cons] at hheld
    refine ⟨⟨hheld.2, h.unread⟩, ?_⟩
    rw [List.forall_mem_singleton]
    exact hheld.1
  | drain =>
    refine ⟨⟨hnone, fun n hn => absurd hn List.not_mem_nil⟩, ?_⟩
    rw [available, ← Feed.held]
    split
    · exact h.held
    · split
      · rw [List.forall_mem_append]
        refine ⟨h.held, fun event hevent => ?_⟩
        obtain ⟨n, hn, rfl⟩ := mem_read hevent
        exact h.unread n (List.mem_reverse.1 hn)
      · rw [List.forall_mem_append, List.forall_mem_singleton]
        refine ⟨h.held, ?_⟩
        rintro object ⟨⟩

end Tells
end Feed

namespace MemoryStore

variable {s s' : MemoryStore} {act : StoreAct} {log : List Occurrence}

/-! ## What is seen of a store -/

/-- A store and its watchers know nothing but what was written. -/
structure Told (s : MemoryStore) (log : List Occurrence) : Prop where
  recorded : s.Recorded log
  tells : ∀ feed f, s.feeds.get? feed = some f →
    f.Tells fun object => ∃ c ∈ writes log, c.object = object
  stored : ∀ object ∈ seen log, ∃ c ∈ writes log, c.object = object
  own : ∀ name object, .shown name object ∈ log → object.objectName = name

theorem shown_of_act? {name : ObjectName} {object : StoredObject} (h : s.act? act = some (s', log))
    (hshown : .shown name object ∈ log) :
    ∃ call, act = .call call ∧ name = call.target ∧ object ∈ (s.reply call).2.objects := by
  cases act with
  | call call =>
    obtain ⟨-, rfl⟩ := Prod.mk.inj (Option.some.inj h)
    exact ⟨call, rfl, shown_mem_ofCall hshown⟩
  | failGets | failLists | bookmark | closeWatches | watch | forwardAll | drop =>
    obtain ⟨-, rfl⟩ := Prod.mk.inj (Option.some.inj h)
    cases hshown
  | forward =>
    obtain ⟨after, -, heq⟩ := Option.map_eq_some_iff.1 h
    obtain ⟨-, rfl⟩ := Prod.mk.inj heq
    cases hshown
  | next =>
    obtain ⟨after, -, heq⟩ := Option.map_eq_some_iff.1 h
    obtain ⟨-, rfl⟩ := Prod.mk.inj heq
    cases List.mem_singleton.1 hshown
  | take =>
    obtain ⟨-, rfl⟩ := Prod.mk.inj (Option.some.inj h)
    exact absurd hshown (shown_not_mem_ofTaken _ _ _)

theorem Recorded.written_of_object? {name : ObjectName} {object : StoredObject}
    (h : s.Recorded log) (hobject : s.object? name = some object) :
    (∃ c ∈ writes log, c.object = object) ∧ object.objectName = name := by
  refine ⟨?_, h.consistent.objectName_of_object? hobject⟩
  rw [h.consistent.present, h.history] at hobject
  obtain ⟨c, hfind, hleft⟩ := Option.bind_eq_some_iff.1 hobject
  refine ⟨c, List.mem_reverse.1 (List.mem_of_find?_eq_some hfind), ?_⟩
  unfold Change.left? at hleft
  split at hleft
  · exact Option.some.inj hleft
  · exact Option.some.inj hleft
  · cases hleft

namespace Told

theorem empty : empty.Told [] := by
  refine ⟨.empty, fun feed f hf => ?_, fun object hobject => ?_, fun name object hshown => ?_⟩
  · cases hf
  · cases hobject
  · cases hshown

theorem act? {past : List Occurrence} (h : s.Told past) (hact : s.act? act = some (s', log)) :
    s'.Told (past ++ log) := by
  have hrecorded := h.recorded.act? hact
  have hearlier : ∀ object, (∃ c ∈ writes past, c.object = object) →
      ∃ c ∈ writes (past ++ log), c.object = object := by
    rintro object ⟨c, hc, hco⟩
    exact ⟨c, by rw [writes_append]; exact List.mem_append_left _ hc, hco⟩
  have hnews : ∀ c ∈ writes log,
      ∃ d ∈ writes (past ++ log), d.object = c.object := by
    intro c hc
    exact ⟨c, by rw [writes_append]; exact List.mem_append_right _ hc, rfl⟩
  have hshown : ∀ name object, .shown name object ∈ log →
      (∃ c ∈ writes (past ++ log), c.object = object) ∧ object.objectName = name := by
    intro name object hmem
    obtain ⟨call, rfl, rfl, hobject⟩ := shown_of_act? hact hmem
    obtain ⟨rfl, rfl⟩ := Prod.mk.inj (Option.some.inj hact)
    rcases reply_cases h.recorded.consistent call with
      ⟨-, -, -, hread, -⟩ | ⟨c, htarget, -, hwritten, hchange⟩
    · obtain ⟨hknown, hname⟩ := h.recorded.written_of_object? (hread object hobject)
      exact ⟨hearlier object hknown, hname⟩
    · obtain rfl := hwritten object hobject
      refine ⟨hnews c ?_, htarget⟩
      rw [writes_ofCall, hchange]
      exact List.mem_singleton.2 rfl
  have hfeeds : ∀ feed,
      (∀ f, s'.feeds.get? feed = some f →
        f.Tells fun object => ∃ c ∈ writes (past ++ log), c.object = object) ∧
      ∀ event ∈ events feed log, ∀ object, event.object? = some object →
        ∃ c ∈ writes (past ++ log), c.object = object := by
    intro feed
    have hturns := turns_of_act? h.recorded.consistent hact feed
    have htells := h.tells feed
    generalize s.feeds.get? feed = before at hturns htells
    generalize s'.feeds.get? feed = after at hturns
    generalize events feed log = events at hturns
    have hnone : ∀ event ∈ ([] : List WatchEvent), ∀ object, event.object? = some object →
        ∃ c ∈ writes (past ++ log), c.object = object :=
      fun event hevent => absurd hevent List.not_mem_nil
    cases hturns with
    | absent => exact ⟨fun f hf => (nomatch hf), hnone⟩
    | dropped => exact ⟨fun f hf => (nomatch hf), hnone⟩
    | moved hmoves =>
      obtain ⟨hmoved, hevents⟩ := ((htells _ rfl).mono hearlier).moves hmoves hnews
      exact ⟨fun f hf => Option.some.inj hf ▸ hmoved, hevents⟩
    | opened name version =>
      refine ⟨fun f hf => Option.some.inj hf ▸ ⟨?_, ?_⟩, hnone⟩
      · intro event hevent object hobject
        rw [Feed.start, Feed.held, List.nil_append] at hevent
        obtain ⟨c, hc, rfl⟩ := List.mem_map.1 hevent
        rw [Change.object?_event, Option.some.injEq] at hobject
        have hhistory : c ∈ s.history := by
          rw [recordedSince, List.mem_reverse] at hc
          exact List.mem_of_mem_take (List.mem_of_mem_filter hc)
        rw [h.recorded.history, List.mem_reverse] at hhistory
        exact hearlier object ⟨c, hhistory, hobject⟩
      · exact fun n hn => absurd hn List.not_mem_nil
  refine ⟨hrecorded, fun feed => (hfeeds feed).1, ?_, ?_⟩
  · intro object hobject
    rw [seen_append] at hobject
    rcases List.mem_append.1 hobject with hold | hnew
    · exact hearlier object (h.stored object hold)
    · rcases mem_seen hnew with ⟨name, hmem⟩ | ⟨feed, event, hevent, hsame⟩
      · exact (hshown name object hmem).1
      · exact (hfeeds feed).2 event hevent object hsame
  · intro name object hmem
    rcases List.mem_append.1 hmem with hold | hnew
    · exact h.own name object hold
    · exact (hshown name object hnew).2

theorem run? {acts : List StoreAct} {past : List Occurrence} (h : s.Told past)
    (hrun : Occurrence.run? MemoryStore.act? s acts = some (s', log)) : s'.Told (past ++ log) :=
  runLogged?_preserves (fun h hact => h.act? hact) hrun h

end Told

end MemoryStore
end Keyring
