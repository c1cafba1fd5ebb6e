import Keyring.Proofs.MemoryStore.Forwarding

/-!
# Feeds and their watchers

A store adds to its feeds, forwarders work and watchers take events. Whatever becomes of a feed, it
ends for a reason only, and a watcher who takes one event after the other while his forwarder works
gets all that a watcher gets who takes everything at once.
-/
namespace Keyring.Feed

/-- What can become of a feed in one step of its store, which may do these writes, and the events
that its watcher gets. -/
inductive Moves (news : List Change) : Feed → Feed → List WatchEvent → Prop
  | stay (f : Feed) : Moves news f f []
  | push (f : Feed) (n : Notice) (h : ∀ c, n = .change c → c ∈ news) : Moves news f (f.push n) []
  | close (f : Feed) : Moves news f f.close []
  | work {f f' : Feed} (h : f.Runs f') : Moves news f f' []
  | take {f : Feed} {event : WatchEvent} {rest : List WatchEvent} (h : f.queue = event :: rest) :
    Moves news f { f with queue := rest } [event]
  | drain (f : Feed) : Moves news f f.exhausted f.available

variable {f f' : Feed}

@[simp] theorem closing_push (f : Feed) (n : Notice) : (f.push n).closing = f.closing := by
  unfold push
  split <;> rfl

@[simp] theorem ended_push (f : Feed) (n : Notice) : (f.push n).ended = f.ended := by
  unfold push
  split <;> rfl

@[simp] theorem held_push (f : Feed) (n : Notice) : (f.push n).held = f.held := by
  unfold push held
  split <;> rfl

theorem closing_of_step? {step : FeedStep} (h : f.step? step = some f') :
    f'.closing = f.closing := by
  unfold step? at h
  grind

theorem Runs.closing (h : f.Runs f') : f'.closing = f.closing := by
  induction h with
  | refl => rfl
  | tail _ hstep ih =>
    obtain ⟨step, hstep⟩ := hstep
    exact (closing_of_step? hstep).trans ih

/-! ## Feeds that break off -/

/-- A feed that ends has a reason: the store has closed it, or its watcher is told of a failure. -/
structure Excused (f : Feed) (closed : Prop) (taken : List WatchEvent) : Prop where
  closing : f.closing = true → closed
  ended : f.ended = true → closed ∨ ∃ message, WatchEvent.error message ∈ taken ++ f.held

/-- A watcher who has lost notices is told of a failure. -/
theorem exists_error_mem (lost : ℕ) {events : List WatchEvent} (h : lagEvent lost ∈ events) :
    ∃ message, WatchEvent.error message ∈ events :=
  ⟨_, h⟩

namespace Excused

variable {f f' : Feed} {closed closed' : Prop} {taken events : List WatchEvent}

theorem step? {step : FeedStep} (h : f.Excused closed taken) (hstep : f.step? step = some f') :
    f'.Excused closed taken := by
  refine ⟨fun hclosing => h.closing (closing_of_step? hstep ▸ hclosing), fun hended => ?_⟩
  cases step with
  | handOn =>
    simp only [Feed.step?] at hstep
    split at hstep
    next => cases hstep
    next event rest hout =>
      split at hstep
      next =>
        obtain rfl := Option.some.inj hstep
        simpa [held, hout] using h.ended hended
      next => cases hstep
  | read =>
    simp only [Feed.step?] at hstep
    grind
  | lag =>
    simp only [Feed.step?] at hstep
    split at hstep
    next =>
      obtain rfl := Option.some.inj hstep
      exact Or.inr (exists_error_mem f.lost (by simp [held]))
    next => cases hstep
  | finish =>
    simp only [Feed.step?] at hstep
    split at hstep
    next hguard => exact Or.inl (h.closing hguard.2.2)
    next => cases hstep

theorem runs (h : f.Excused closed taken) (hruns : f.Runs f') : f'.Excused closed taken := by
  induction hruns with
  | refl => exact h
  | tail _ hstep ih =>
    obtain ⟨step, hstep⟩ := hstep
    exact ih.step? hstep

/-- Whatever becomes of a feed, it does not end without a reason. -/
theorem moves {news : List Change} (h : f.Excused closed taken) (hmoves : Moves news f f' events)
    (hclosed : closed → closed')
    (hclosing : f'.closing = true → f.closing = true ∨ closed') :
    f'.Excused closed' (taken ++ events) := by
  refine ⟨fun hyes => (hclosing hyes).elim (hclosed ∘ h.closing) id, fun hended => ?_⟩
  cases hmoves with
  | stay =>
    rw [List.append_nil]
    exact (h.ended hended).imp_left hclosed
  | push n =>
    rw [List.append_nil, held_push]
    exact (h.ended (f.ended_push n ▸ hended)).imp_left hclosed
  | close =>
    rw [List.append_nil]
    exact (h.ended hended).imp_left hclosed
  | work hruns =>
    rw [List.append_nil]
    exact ((h.runs hruns).ended hended).imp_left hclosed
  | take hqueue =>
    have htold := h.ended hended
    rw [held, hqueue, List.cons_append] at htold
    rw [List.append_assoc, List.singleton_append]
    exact htold.imp_left hclosed
  | drain =>
    rw [available]
    simp only [Feed.exhausted, held, List.append_nil]
    by_cases hover : f.ended = true ∨ f.closing = true
    · rw [if_pos hover]
      rcases hover with hover | hover
      · exact (h.ended hover).imp_left hclosed
      · exact Or.inl (hclosed (h.closing hover))
    · rw [if_neg hover]
      right
      have hlost : f.lost ≠ 0 := by
        intro hkept
        rw [not_or, Bool.not_eq_true, Bool.not_eq_true] at hover
        simp [Feed.exhausted, hover, hkept] at hended
      rw [if_neg hlost]
      exact exists_error_mem f.lost (by simp)

end Excused

/-! ## Watchers who catch up -/

/-- A watcher takes these events one by one while the forwarder works for him. -/
inductive Drains : Feed → List WatchEvent → Feed → Prop
  | done (f : Feed) : Drains f [] f
  | work {f f' last : Feed} {events : List WatchEvent} (step : FeedStep)
    (h : f.step? step = some f') (hrest : Drains f' events last) : Drains f events last
  | take {f last : Feed} {event : WatchEvent} {queue events : List WatchEvent}
    (h : f.queue = event :: queue) (hrest : Drains { f with queue := queue } events last) :
    Drains f (event :: events) last

namespace Drains

variable {f last : Feed} {events : List WatchEvent}

/-- What the forwarder holds is handed on one by one. -/
theorem outgoing (held : List WatchEvent) {f : Feed} (hout : f.outgoing = held)
    (hqueue : f.queue = []) (h : Drains { f with outgoing := [] } events last) :
    Drains f (held ++ events) last := by
  induction held generalizing f with
  | nil =>
    have hsame : { f with outgoing := [] } = f := by rw [← hout]
    rwa [hsame] at h
  | cons event rest ih =>
    have hstep : f.step? .handOn = some { f with queue := [event], outgoing := rest } := by
      simp [Feed.step?, hout, hqueue, queueLimit]
    refine .work .handOn hstep (.take rfl (ih rfl rfl ?_))
    have hsame : ({ f with queue := [], outgoing := [] } : Feed) = { f with outgoing := [] } := by
      rw [← hqueue]
    exact hsame ▸ h

/-- What is held is taken first. -/
theorem held (f : Feed) (h : Drains { f with queue := [], outgoing := [] } events last) :
    Drains f (f.held ++ events) last := by
  rw [Feed.held, List.append_assoc]
  generalize hqueue : f.queue = queue
  induction queue generalizing f with
  | nil =>
    have hsame : ({ f with queue := [], outgoing := [] } : Feed) = { f with outgoing := [] } := by
      rw [← hqueue]
    exact outgoing f.outgoing rfl hqueue (hsame ▸ h)
  | cons event rest ih => exact .take hqueue (ih { f with queue := rest } h rfl)

/-- Notices become events one by one. -/
theorem pending (notices : List Notice) (hlimit : notices.length ≤ unreadLimit) {f : Feed}
    (hunread : f.unread = notices.reverse) (hqueue : f.queue = []) (hout : f.outgoing = [])
    (hopen : f.ended = false) : ∃ last, Drains f (read f.name f.last notices).1 last := by
  induction notices generalizing f with
  | nil => exact ⟨f, .done f⟩
  | cons n rest ih =>
    have hrest : rest.length ≤ unreadLimit := by
      rw [List.length_cons] at hlimit
      omega
    have hlost : f.lost = 0 := by
      rw [lost, hunread, List.length_reverse]
      omega
    have hpending : f.pending = n :: rest := by rw [Feed.pending, hunread, List.reverse_reverse]
    have hread : f.step? .read =
        if n.isRelevant f.name f.last then
          some { f with
            last := max f.last n.version
            outgoing := [n.event]
            unread := rest.reverse }
        else some { f with unread := rest.reverse } := by
      simp only [Feed.step?, hpending]
      rw [if_pos ⟨hout, hopen, hlost⟩]
    rw [read_cons]
    by_cases hrelevant : n.isRelevant f.name f.last = true
    · rw [if_pos hrelevant] at hread ⊢
      obtain ⟨last, hlast⟩ := ih hrest
        (f := { f with last := max f.last n.version, unread := rest.reverse }) rfl hqueue hout hopen
      refine ⟨last, .work .read hread (outgoing [n.event] rfl hqueue ?_)⟩
      rw [← hout]
      exact hlast
    · rw [if_neg hrelevant] at hread ⊢
      obtain ⟨last, hlast⟩ :=
        ih hrest (f := { f with unread := rest.reverse }) rfl hqueue hout hopen
      exact ⟨last, .work .read hread hlast⟩

end Drains

/-- A watcher who takes events for as long as there are any gets all that are available. -/
theorem drains_available (f : Feed) : ∃ last, f.Drains f.available last := by
  obtain ⟨g, hg⟩ : ∃ g : Feed, g = { f with queue := [], outgoing := [] } := ⟨_, rfl⟩
  have hfirst : ∀ {events last}, g.Drains events last → f.Drains (f.held ++ events) last :=
    fun h => .held f (hg ▸ h)
  rw [available, ← held]
  by_cases hover : f.ended = true ∨ f.closing = true
  · rw [if_pos hover]
    exact ⟨g, by simpa using hfirst (.done g)⟩
  · rw [if_neg hover]
    rw [not_or, Bool.not_eq_true, Bool.not_eq_true] at hover
    by_cases hlost : f.lost = 0
    · rw [if_pos hlost]
      have hlimit : f.pending.length ≤ unreadLimit := by
        rw [pending, List.length_reverse]
        exact Nat.le_of_sub_eq_zero hlost
      obtain ⟨last, hlast⟩ := Drains.pending f.pending hlimit (f := g)
        (by rw [hg, pending, List.reverse_reverse]) (by rw [hg]) (by rw [hg])
        (by rw [hg]; exact hover.1)
      have hread := hfirst hlast
      rw [hg] at hread
      exact ⟨last, hread⟩
    · rw [if_neg hlost]
      obtain ⟨lagged, hlagged⟩ : ∃ lagged : Feed, lagged =
        { g with outgoing := [lagEvent f.lost], unread := [], ended := true } := ⟨_, rfl⟩
      have hlag : g.step? .lag = some lagged := by
        rw [hlagged, hg]
        simp only [step?, lost]
        exact if_pos ⟨trivial, hover.1, hlost⟩
      have hlast : Drains lagged ([lagEvent f.lost] ++ []) { lagged with outgoing := [] } :=
        .outgoing [lagEvent f.lost] (by rw [hlagged]) (by rw [hlagged, hg]) (.done _)
      exact ⟨_, hfirst (.work .lag hlag hlast)⟩

end Keyring.Feed
