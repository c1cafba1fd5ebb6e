import Keyring.Proofs.MemoryStore.Evolution
import Mathlib.Logic.Relation

/-!
# Forwarders that run until they wait

A forwarder that runs until it has to wait gets there by its small steps, and then no small step is
left. A watcher who takes events for as long as there are any takes all that are on their way to
him. So what the small steps keep is kept by the store as it runs.
-/
namespace Keyring

namespace Feed

/-- Small steps of the forwarder, one after the other. -/
def Runs : Feed → Feed → Prop := Relation.ReflTransGen fun f f' => ∃ step, f.step? step = some f'

/-- A forwarder that has to wait: for room in the queue, for notices, or for nothing any more. -/
structure Waits (f : Feed) : Prop where
  full : f.outgoing ≠ [] → queueLimit ≤ f.queue.length
  done : f.outgoing = [] → f.ended = true ∨ (f.unread = [] ∧ f.closing = false)

variable {f f' : Feed}

theorem Runs.step {f'' : Feed} (step : FeedStep) (h : f.step? step = some f')
    (hrest : f'.Runs f'') : f.Runs f'' :=
  Relation.ReflTransGen.head ⟨step, h⟩ hrest

theorem Runs.name (h : f.Runs f') : f'.name = f.name := by
  induction h with
  | refl => rfl
  | tail _ hstep ih =>
    obtain ⟨step, hstep⟩ := hstep
    exact (name_of_step? hstep).trans ih

/-- A forwarder that has to wait can take no step. -/
theorem Waits.step?_eq_none (h : f.Waits) (step : FeedStep) : f.step? step = none := by
  cases step with
  | handOn =>
    simp only [step?]
    split
    next => rfl
    next event rest hout =>
      have hfull := h.full (by simp [hout])
      rw [if_neg (Nat.not_lt.2 hfull)]
  | read =>
    simp only [step?]
    split
    next => rfl
    next n rest hpending =>
      rw [if_neg]
      rintro ⟨hout, hopen, -⟩
      rcases h.done hout with hended | ⟨hunread, -⟩
      · rw [hended] at hopen
        cases hopen
      · simp [pending, hunread] at hpending
  | lag =>
    simp only [step?]
    rw [if_neg]
    rintro ⟨hout, hopen, hlost⟩
    rcases h.done hout with hended | ⟨hunread, -⟩
    · rw [hended] at hopen
      cases hopen
    · simp [lost, hunread] at hlost
  | finish =>
    simp only [step?]
    rw [if_neg]
    rintro ⟨hout, hopen, hclosing⟩
    rcases h.done hout with hended | ⟨-, hstays⟩
    · rw [hended] at hopen
      cases hopen
    · rw [hstays] at hclosing
      cases hclosing

/-! ## Running until there is nothing to do -/

theorem flush_of_room {event : WatchEvent} {rest : List WatchEvent}
    (hout : f.outgoing = event :: rest) (hroom : f.queue.length < queueLimit) :
    f.flush = ({ f with queue := f.queue ++ [event], outgoing := rest } : Feed).flush := by
  have hsucc : queueLimit - f.queue.length = queueLimit - (f.queue.length + 1) + 1 := by omega
  simp [flush, hout, hsucc]

theorem flush_of_full (h : ¬ f.queue.length < queueLimit) : f.flush = f := by
  have hnone : queueLimit - f.queue.length = 0 := by omega
  simp [flush, hnone]

theorem flush_of_nil (h : f.outgoing = []) : f.flush = f := by
  cases f
  simp_all [flush]

/-- Handing events on takes one step for each. -/
theorem runs_flush (f : Feed) : f.Runs f.flush := by
  generalize hout : f.outgoing = events
  induction events generalizing f with
  | nil =>
    rw [flush_of_nil hout]
    exact .refl
  | cons event rest ih =>
    by_cases hroom : f.queue.length < queueLimit
    · rw [flush_of_room hout hroom]
      exact Runs.step .handOn (by simp [step?, hout, hroom]) (ih _ rfl)
    · rw [flush_of_full hroom]
      exact .refl

theorem full_flush (f : Feed) (h : f.flush.outgoing ≠ []) : queueLimit ≤ f.flush.queue.length := by
  simp only [flush, ne_eq, List.drop_eq_nil_iff, Nat.not_le] at h
  simp only [flush, List.length_append, List.length_take]
  omega

/-- Reading takes one step for each notice and one for each event that is handed on. -/
theorem runs_readPending (notices : List Notice) (hlimit : notices.length ≤ unreadLimit) (f : Feed)
    (hout : f.outgoing = []) (hopen : f.ended = false) :
    ({ f with unread := notices.reverse } : Feed).Runs (f.readPending notices) := by
  induction notices generalizing f with
  | nil => exact .refl
  | cons n rest ih =>
    have hrest : rest.length ≤ unreadLimit := by
      rw [List.length_cons] at hlimit
      omega
    have hlost : ({ f with unread := (n :: rest).reverse } : Feed).lost = 0 := by
      simp only [lost, List.length_reverse]
      omega
    have hread : ({ f with unread := (n :: rest).reverse } : Feed).step? .read =
        if n.isRelevant f.name f.last then
          some { f with
            last := max f.last n.version
            outgoing := [n.event]
            unread := rest.reverse }
        else some { f with unread := rest.reverse } := by
      simp only [step?, pending, List.reverse_reverse]
      rw [if_pos ⟨hout, hopen, hlost⟩]
    rw [readPending]
    by_cases hrelevant : n.isRelevant f.name f.last = true
    · rw [if_pos hrelevant] at hread
      rw [if_pos hrelevant]
      by_cases hroom : f.queue.length < queueLimit
      · rw [if_pos hroom]
        refine Runs.step .read hread (Runs.step .handOn ?_ (ih hrest _ hout hopen))
        simp [step?, hroom, hout]
      · rw [if_neg hroom]
        exact Runs.step .read hread .refl
    · rw [if_neg hrelevant] at hread
      rw [if_neg hrelevant]
      exact Runs.step .read hread (ih hrest f hout hopen)

theorem waits_readPending (notices : List Notice) (f : Feed) (hout : f.outgoing = [])
    (hclosing : f.closing = false) : (f.readPending notices).Waits := by
  induction notices generalizing f with
  | nil => exact ⟨fun h => absurd hout h, fun _ => Or.inr ⟨rfl, hclosing⟩⟩
  | cons n rest ih =>
    rw [readPending]
    split
    · dsimp only
      split
      · exact ih _ hout hclosing
      next hfull => exact ⟨fun _ => Nat.not_lt.1 hfull, by simp⟩
    · exact ih f hout hclosing

/-- The forwarder as it runs takes small steps until it has to wait. -/
theorem runs_forward (f : Feed) : f.Runs f.forward ∧ f.forward.Waits := by
  have hflush := f.runs_flush
  have hfull := f.full_flush
  unfold forward
  generalize f.flush = g at hflush hfull
  dsimp only
  split
  next hwaits =>
    refine ⟨hflush, hfull, ?_⟩
    intro hout
    exact Or.inl (hwaits.resolve_left fun hheld => hheld hout)
  next hgoes =>
    rw [not_or, not_not, Bool.not_eq_true] at hgoes
    obtain ⟨hout, hopen⟩ := hgoes
    split
    next hclosing =>
      refine ⟨hflush.trans (Runs.step .finish ?_ .refl), ?_, fun _ => Or.inl rfl⟩
      · simp [step?, hout, hopen, hclosing]
      · intro hheld
        exact absurd hout hheld
    next hclosing =>
      rw [Bool.not_eq_true] at hclosing
      split
      next hlost =>
        have hlimit : g.pending.length ≤ unreadLimit := by
          rw [pending, List.length_reverse]
          exact Nat.le_of_sub_eq_zero hlost
        have hread := runs_readPending g.pending hlimit g hout hopen
        rw [pending, List.reverse_reverse] at hread
        exact ⟨hflush.trans hread, waits_readPending g.pending g hout hclosing⟩
      next hlost =>
        refine ⟨hflush.trans (Runs.step .lag ?_ (runs_flush _)), full_flush _,
          fun _ => Or.inl rfl⟩
        simp [step?, hout, hopen, hlost]

namespace Follows

variable {s : MemoryStore} {since : ℕ} {taken : List WatchEvent}

theorem runs (h : f.Follows s since taken) (hruns : f.Runs f') : f'.Follows s since taken := by
  induction hruns with
  | refl => exact h
  | tail _ hstep ih =>
    obtain ⟨step, hstep⟩ := hstep
    exact ih.step hstep

theorem forward (h : f.Follows s since taken) : f.forward.Follows s since taken :=
  h.runs f.runs_forward.1

/-- A watcher who takes all events there are misses none of what is on its way to him. -/
theorem exhausted (h : f.Follows s since taken) :
    f.exhausted.Follows s since (taken ++ f.available) := by
  have hlast := read_last_le f.name h.last_le h.pending_le
  have hwaiting : ¬ (f.ended = true ∨ f.closing = true) → f.ended = false := by
    intro hgoes
    simpa using fun hended => hgoes (Or.inl hended)
  refine ⟨h.since_le, ?_, ?_, ?_, ?_⟩
  · simp only [Feed.exhausted]
    split
    · exact h.last_le
    · exact hlast
  · intro n hn
    cases hn
  · simp only [Feed.exhausted, held, List.append_nil, available]
    split
    · exact h.told
    next hgoes =>
      split
      · rw [← h.complete (hwaiting hgoes)]
        exact List.prefix_rfl
      · have htold := h.told
        rw [held] at htold
        rw [← List.append_assoc, List.filter_append]
        simpa [lagEvent, WatchEvent.tellsChange] using htold
  · intro hopen
    simp only [Feed.exhausted, Bool.or_eq_false_iff] at hopen
    obtain ⟨⟨hended, hclosing⟩, hlost⟩ := hopen
    have hcomplete := h.complete hended
    have hkept : f.lost = 0 := by simpa using hlost
    simpa [onTheWay, held, Feed.exhausted, pending, available, hended, hclosing, hkept]
      using hcomplete

end Follows
end Feed

namespace MemoryStore

variable {s : MemoryStore}

/-- The forwarders as they run serve all watchers as before. -/
theorem Evolves.forwardAll (hs : s.Consistent) : s.Evolves s.forwardAll none :=
  Evolves.map hs (fun f => f.runs_forward.1.name) fun _ _ _ hfollows => hfollows.forward

/-- A watcher who takes all events is served on. -/
theorem Serves.take {feed since : ℕ} {name : ObjectName} {taken : List WatchEvent}
    (h : s.Serves feed name since taken) :
    (s.take feed).1.Serves feed name since (taken ++ (s.take feed).2.1) := by
  obtain ⟨hlt, f, hf, hname, hfollows⟩ := h
  have htake : s.take feed =
      ({ s with feeds := s.feeds.insert feed f.exhausted }, f.available, f.exhausted.ended) := by
    simp [MemoryStore.take, hf]
  rw [htake]
  exact ⟨hlt, f.exhausted, SortedMap.get?_insert_self s.feeds feed f.exhausted, hname,
    hfollows.exhausted.congr rfl rfl⟩

end MemoryStore
end Keyring
