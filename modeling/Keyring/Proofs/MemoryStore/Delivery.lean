import Keyring.Proofs.MemoryStore.History

/-!
# Delivery of changes

A feed is served by a forwarder that works in small steps, between which anything may happen to the
store and to the watcher. What a watcher has taken, what is on its way to him and what the forwarder
still has to read is together every write to his object after the version from which he watches, in
order and each once. Only a feed that has ended breaks off, and what it has told until then is a
beginning of those writes.
-/
namespace Keyring

/-- What a forwarder can do next. -/
inductive FeedStep
  /-- It puts the first held event into the queue. -/
  | handOn
  /-- It reads the oldest notice. -/
  | read
  /-- It gives up, since notices were lost. -/
  | lag
  /-- It ends the feed as it was asked to. -/
  | finish
  deriving DecidableEq, Repr

/-- Whether an event tells of a write. -/
def WatchEvent.tellsChange : WatchEvent → Bool
  | .added _ | .modified _ | .deleted _ => true
  | .bookmark _ | .error _ => false

@[simp] theorem Change.tellsChange_event (c : Change) : c.event.tellsChange = true := by
  unfold event
  cases c.kind <;> rfl

namespace Feed

/-- One step of the forwarder; none where it has to wait. -/
def step? (f : Feed) : FeedStep → Option Feed
  | .handOn =>
    match f.outgoing with
    | [] => none
    | event :: rest =>
      if f.queue.length < queueLimit then
        some { f with queue := f.queue ++ [event], outgoing := rest }
      else none
  | .read =>
    match f.pending with
    | [] => none
    | n :: rest =>
      if f.outgoing = [] ∧ f.ended = false ∧ f.lost = 0 then
        if n.isRelevant f.name f.last then
          some { f with
            last := max f.last n.version
            outgoing := [n.event]
            unread := rest.reverse }
        else some { f with unread := rest.reverse }
      else none
  | .lag =>
    if f.outgoing = [] ∧ f.ended = false ∧ f.lost ≠ 0 then
      some { f with outgoing := [lagEvent f.lost], unread := [], ended := true }
    else none
  | .finish =>
    if f.outgoing = [] ∧ f.ended = false ∧ f.closing = true then
      some { f with unread := [], ended := true }
    else none

theorem name_of_step? {f f' : Feed} {step : FeedStep} (h : f.step? step = some f') :
    f'.name = f.name := by
  unfold step? at h
  grind

/-- The events that have left the forwarder's hands or wait in them. -/
def held (f : Feed) : List WatchEvent := f.queue ++ f.outgoing

/-- The events that the watcher gets if the feed does not end. -/
def onTheWay (f : Feed) : List WatchEvent := f.held ++ (read f.name f.last f.pending).1

/-! ## Reading notices -/

@[simp] theorem read_nil (name : ObjectName) (last : ℕ) : read name last [] = ([], last) := rfl

theorem read_cons (name : ObjectName) (last : ℕ) (n : Notice) (rest : List Notice) :
    read name last (n :: rest) =
      if n.isRelevant name last then
        (n.event :: (read name (max last n.version) rest).1,
          (read name (max last n.version) rest).2)
      else read name last rest := rfl

theorem read_append (name : ObjectName) (last : ℕ) (notices : List Notice) (n : Notice) :
    (read name last (notices ++ [n])).1 =
      (read name last notices).1 ++
        if n.isRelevant name (read name last notices).2 then [n.event] else [] := by
  induction notices generalizing last with
  | nil =>
    rw [List.nil_append, read_cons]
    by_cases h : n.isRelevant name last = true
    · simp [h, read]
    · simp [h, read]
  | cons m rest ih =>
    rw [List.cons_append, read_cons, read_cons]
    split
    · simp only [ih, List.cons_append]
    · exact ih last

theorem read_last_le (name : ObjectName) {last version : ℕ} {notices : List Notice}
    (hlast : last ≤ version) (h : ∀ n ∈ notices, n.version ≤ version) :
    (read name last notices).2 ≤ version := by
  induction notices generalizing last with
  | nil => exact hlast
  | cons n rest ih =>
    obtain ⟨hn, hrest⟩ := List.forall_mem_cons.1 h
    rw [read_cons]
    split
    · exact ih (Nat.max_le.2 ⟨hlast, hn⟩) hrest
    · exact ih hlast hrest

theorem push_of_ended {f : Feed} (h : f.ended = true) (n : Notice) : f.push n = f := by
  simp [push, h]

theorem push_of_open {f : Feed} (h : f.ended = false) (n : Notice) :
    f.push n = { f with unread := n :: f.unread } := by
  simp [push, h]

theorem pending_push {f : Feed} (h : f.ended = false) (n : Notice) :
    (f.push n).pending = f.pending ++ [n] := by
  simp [push, h, pending]

/-- A notice that is pushed is read behind all others. -/
theorem onTheWay_push {f : Feed} (h : f.ended = false) (n : Notice) :
    (f.push n).onTheWay = f.onTheWay ++
      if n.isRelevant f.name (read f.name f.last f.pending).2 then [n.event] else [] := by
  rw [onTheWay, pending_push h, push_of_open h]
  simp only [held, onTheWay, read_append, List.append_assoc]

end Feed

namespace MemoryStore

/-- The writes to an object after a version, in order. -/
def changesSince (s : MemoryStore) (name : ObjectName) (version : ℕ) : List Change :=
  (s.history.filter fun c => version < c.version && c.target == name).reverse

variable {s s' : MemoryStore}

theorem mem_changesSince {name : ObjectName} {version : ℕ} {c : Change} :
    c ∈ s.changesSince name version ↔ c ∈ s.history ∧ version < c.version ∧ c.target = name := by
  simp [changesSince]

theorem changesSince_wrote {c : Change} (h : s.Wrote s' c) (name : ObjectName) {version : ℕ}
    (hversion : version ≤ s.version) :
    s'.changesSince name version =
      s.changesSince name version ++ if c.target = name then [c] else [] := by
  have hlater : version < c.version := by
    rw [h.number]
    omega
  rw [changesSince, h.history, List.filter_cons]
  by_cases htarget : c.target = name
  · simp [htarget, hlater, changesSince]
  · simp [htarget, changesSince]

end MemoryStore

/-- A feed of a store that was opened at a version and of which events have been taken. -/
structure Feed.Follows (f : Feed) (s : MemoryStore) (since : ℕ) (taken : List WatchEvent) :
    Prop where
  since_le : since ≤ s.version
  last_le : f.last ≤ s.version
  pending_le : ∀ n ∈ f.pending, n.version ≤ s.version
  told : (taken ++ f.held).filter WatchEvent.tellsChange <+:
    (s.changesSince f.name since).map Change.event
  complete : f.ended = false → (taken ++ f.onTheWay).filter WatchEvent.tellsChange =
    (s.changesSince f.name since).map Change.event

namespace Feed.Follows

variable {f f' : Feed} {s s' : MemoryStore} {since : ℕ} {taken : List WatchEvent}

/-- Only the history matters. -/
theorem congr (h : f.Follows s since taken) (hversion : s'.version = s.version)
    (hhistory : s'.history = s.history) : f.Follows s' since taken := by
  have hchanges : s'.changesSince f.name since = s.changesSince f.name since := by
    rw [MemoryStore.changesSince, hhistory, MemoryStore.changesSince]
  refine ⟨hversion ▸ h.since_le, hversion ▸ h.last_le, hversion ▸ h.pending_le, ?_, ?_⟩
  · rw [hchanges]
    exact h.told
  · rw [hchanges]
    exact h.complete

/-- What was pending before is not newer than the store afterwards. -/
theorem pending_le_push (h : f.Follows s since taken) {n : Notice} {version : ℕ}
    (hversion : s.version ≤ version) (hn : n.version ≤ version) :
    ∀ m ∈ (f.push n).pending, m.version ≤ version := by
  intro m hm
  cases hended : f.ended with
  | true =>
    rw [push_of_ended hended] at hm
    exact Nat.le_trans (h.pending_le m hm) hversion
  | false =>
    rw [pending_push hended, List.mem_append, List.mem_singleton] at hm
    rcases hm with hold | rfl
    · exact Nat.le_trans (h.pending_le m hold) hversion
    · exact hn

/-- A feed that has not ended gets each write. -/
theorem wrote {c : Change} (h : f.Follows s since taken) (hw : s.Wrote s' c) :
    (f.push (.change c)).Follows s' since taken := by
  have hle : s.version ≤ s'.version := by
    rw [hw.version]
    omega
  have hchanges := MemoryStore.changesSince_wrote hw f.name h.since_le
  have hpending : ∀ m ∈ (f.push (.change c)).pending, m.version ≤ s'.version := by
    have hversion : (Notice.change c).version = s'.version := by
      rw [Notice.version, hw.number, hw.version]
    exact h.pending_le_push hle (Nat.le_of_eq hversion)
  have htold : (taken ++ f.held).filter WatchEvent.tellsChange <+:
      (s'.changesSince f.name since).map Change.event := by
    rw [hchanges, List.map_append]
    exact h.told.trans (List.prefix_append _ _)
  cases hended : f.ended with
  | true =>
    rw [push_of_ended hended] at hpending ⊢
    refine ⟨Nat.le_trans h.since_le hle, Nat.le_trans h.last_le hle, hpending, htold, ?_⟩
    intro hopen
    rw [hended] at hopen
    cases hopen
  | false =>
    have hlater : (read f.name f.last f.pending).2 < c.version := by
      have := read_last_le f.name h.last_le h.pending_le
      rw [hw.number]
      omega
    have hrelevant : (Notice.change c).isRelevant f.name (read f.name f.last f.pending).2 =
        (c.target == f.name) := by
      simp [Notice.isRelevant, hlater]
    have hcomplete : (taken ++ (f.push (.change c)).onTheWay).filter WatchEvent.tellsChange =
        (s'.changesSince f.name since).map Change.event := by
      rw [onTheWay_push hended, hrelevant, hchanges, List.map_append, ← h.complete hended,
        ← List.append_assoc, List.filter_append]
      by_cases htarget : c.target = f.name
      · simp [htarget, Notice.event]
      · simp [htarget]
    rw [push_of_open hended] at hpending hcomplete ⊢
    exact ⟨Nat.le_trans h.since_le hle, Nat.le_trans h.last_le hle, hpending, htold,
      fun _ => hcomplete⟩

/-- A bookmark hides no write. -/
theorem bookmark (h : f.Follows s since taken) :
    (f.push (.bookmark s.version)).Follows s since taken := by
  cases hended : f.ended with
  | true =>
    rw [push_of_ended hended]
    exact h
  | false =>
    have hpending := h.pending_le_push (n := .bookmark s.version) (Nat.le_refl _) (Nat.le_refl _)
    have hcomplete : (taken ++ (f.push (.bookmark s.version)).onTheWay).filter
        WatchEvent.tellsChange = (s.changesSince f.name since).map Change.event := by
      rw [onTheWay_push hended, ← h.complete hended, ← List.append_assoc, List.filter_append]
      simp [Notice.isRelevant, Notice.event, WatchEvent.tellsChange]
    rw [push_of_open hended] at hpending hcomplete ⊢
    exact ⟨h.since_le, h.last_le, hpending, h.told, fun _ => hcomplete⟩

theorem close (h : f.Follows s since taken) : f.close.Follows s since taken :=
  ⟨h.since_le, h.last_le, h.pending_le, h.told, h.complete⟩

/-- An event that is handed on stays on its way. -/
theorem handOn (h : f.Follows s since taken) {event : WatchEvent} {rest : List WatchEvent}
    (hout : f.outgoing = event :: rest) :
    ({ f with queue := f.queue ++ [event], outgoing := rest } : Feed).Follows s since taken := by
  have hheld : f.queue ++ [event] ++ rest = f.held := by
    rw [held, hout, List.append_assoc, List.singleton_append]
  refine ⟨h.since_le, h.last_le, h.pending_le, ?_, ?_⟩
  · simp only [held] at hheld ⊢
    rw [hheld]
    exact h.told
  · intro hopen
    have hcomplete := h.complete hopen
    simp only [onTheWay, held] at hheld hcomplete ⊢
    rw [hheld]
    exact hcomplete

/-- A notice that matters becomes an event. -/
theorem readRelevant (h : f.Follows s since taken) {n : Notice} {rest : List Notice}
    (hout : f.outgoing = []) (hopen : f.ended = false) (hpending : f.pending = n :: rest)
    (hrelevant : n.isRelevant f.name f.last = true) :
    ({ f with
      last := max f.last n.version
      outgoing := [n.event]
      unread := rest.reverse } : Feed).Follows s since taken := by
  have hle := h.pending_le
  rw [hpending, List.forall_mem_cons] at hle
  have hcomplete := h.complete hopen
  simp only [onTheWay, held, hout, hpending, List.append_nil] at hcomplete
  rw [read_cons, if_pos hrelevant] at hcomplete
  refine ⟨h.since_le, Nat.max_le.2 ⟨h.last_le, hle.1⟩, ?_, ?_, ?_⟩
  · simpa [pending] using hle.2
  · rw [← hcomplete]
    simp only [held, List.filter_append]
    rw [← List.append_assoc, List.filter_cons, List.filter_cons]
    split
    · simp
    · simp
  · intro _
    rw [← hcomplete]
    simp [onTheWay, held, pending]

/-- A notice that does not matter is dropped. -/
theorem readOther (h : f.Follows s since taken) {n : Notice} {rest : List Notice}
    (hpending : f.pending = n :: rest) (hother : ¬ n.isRelevant f.name f.last = true) :
    ({ f with unread := rest.reverse } : Feed).Follows s since taken := by
  have hle := h.pending_le
  rw [hpending, List.forall_mem_cons] at hle
  refine ⟨h.since_le, h.last_le, ?_, h.told, ?_⟩
  · simpa [pending] using hle.2
  · intro hopen
    have hcomplete := h.complete hopen
    rw [onTheWay, hpending, read_cons, if_neg hother] at hcomplete
    simpa [onTheWay, held, pending] using hcomplete

/-- A feed that ends keeps what it has told. -/
theorem breakOff (h : f.Follows s since taken) (hout : f.outgoing = []) {events : List WatchEvent}
    (hevents : events.filter WatchEvent.tellsChange = []) :
    ({ f with outgoing := events, unread := [], ended := true } : Feed).Follows s since taken := by
  refine ⟨h.since_le, h.last_le, ?_, ?_, ?_⟩
  · intro n hn
    cases hn
  · have htold := h.told
    simp only [held, hout, List.append_nil, List.filter_append] at htold ⊢
    rwa [hevents, List.append_nil]
  · intro hopen
    cases hopen

/-- No step of the forwarder loses or doubles a write. -/
theorem step {step : FeedStep} (h : f.Follows s since taken) (hstep : f.step? step = some f') :
    f'.Follows s since taken := by
  cases step with
  | handOn =>
    simp only [step?] at hstep
    split at hstep
    next => cases hstep
    next event rest hout =>
      split at hstep
      next => exact Option.some.inj hstep ▸ h.handOn hout
      next => cases hstep
  | read =>
    simp only [step?] at hstep
    split at hstep
    next => cases hstep
    next n rest hpending =>
      split at hstep
      next hguard =>
        split at hstep
        next hrelevant =>
          exact Option.some.inj hstep ▸ h.readRelevant hguard.1 hguard.2.1 hpending hrelevant
        next hother => exact Option.some.inj hstep ▸ h.readOther hpending hother
      next => cases hstep
  | lag =>
    simp only [step?] at hstep
    split at hstep
    next hguard => exact Option.some.inj hstep ▸ h.breakOff hguard.1 rfl
    next => cases hstep
  | finish =>
    simp only [step?] at hstep
    split at hstep
    next hguard =>
      have hnone : ([] : List WatchEvent).filter WatchEvent.tellsChange = [] := rfl
      have hended := h.breakOff hguard.1 hnone
      rw [← Option.some.inj hstep]
      rwa [← hguard.1] at hended
    next => cases hstep

/-- The watcher takes the first event of the queue. -/
theorem take {event : WatchEvent} {rest : List WatchEvent} (h : f.Follows s since taken)
    (hqueue : f.queue = event :: rest) :
    ({ f with queue := rest } : Feed).Follows s since (taken ++ [event]) := by
  have htold := h.told
  have hcomplete := h.complete
  simp only [held, onTheWay, hqueue] at htold hcomplete
  refine ⟨h.since_le, h.last_le, h.pending_le, ?_, ?_⟩
  · simpa [held] using htold
  · intro hopen
    simpa [held, onTheWay, pending] using hcomplete hopen

/-- Every write of which a watcher is told stands in the history. -/
theorem event_mem {event : WatchEvent} (h : f.Follows s since taken)
    (hevent : event ∈ taken ++ f.held) (htells : event.tellsChange = true) :
    ∃ c ∈ s.history, since < c.version ∧ c.target = f.name ∧ c.event = event := by
  have hmem : event ∈ (taken ++ f.held).filter WatchEvent.tellsChange :=
    List.mem_filter.2 ⟨hevent, htells⟩
  obtain ⟨c, hc, hce⟩ := List.mem_map.1 (h.told.subset hmem)
  obtain ⟨hhistory, hlater, htarget⟩ := MemoryStore.mem_changesSince.1 hc
  exact ⟨c, hhistory, hlater, htarget, hce⟩

end Feed.Follows
end Keyring
