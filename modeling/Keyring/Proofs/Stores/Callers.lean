import Keyring.Proofs.Fleet.Endings
import Keyring.Proofs.Stores.Shared
import Keyring.Proofs.Stores.Tenants

/-!
# Callers among others

A caller that wants a key set written shares the store and its cache with others, who take steps
between its own. What the store may do with its requests includes all failures of the store. A call
that has written, or has found what it was asked for, changes the store no more and does not fail.
-/
namespace Keyring

/-- A call with the cache of its process and the store that is shared. -/
structure Caller where
  store : SharedStore
  cache : Cache
  call : Call

namespace Caller

/-- A step of the call itself. Whatever comes of the making of a key, the write goes on with it. -/
inductive Step : Caller → Caller → Prop
  /-- The write asks the store. -/
  | ask {store store' : SharedStore} {cache : Cache} {c : Call} {w : KeySetWrite} {call : StoreCall}
    {reply : StoreReply} {answer : StoreAnswer} (hwrite : c.write = some w)
    (hfree : c.answer = none) (hcall : w.call? = some call)
    (hreply : store.Answers call store' reply) (hanswer : reply.answer? = some answer) :
    Step ⟨store, cache, c⟩ ⟨store', cache, { c with answer := some answer }⟩
  /-- The write looks at the answer. -/
  | look {store : SharedStore} {cache cache' : Cache} {c : Call} {w w' : KeySetWrite}
    {answer : StoreAnswer} (hwrite : c.write = some w) (hanswer : c.answer = some answer)
    (hlook : Call.look? w cache answer = some (w', cache')) :
    Step ⟨store, cache, c⟩ ⟨store, cache', { c with write := some w', answer := none }⟩
  /-- The write gets key material, or the failure to make it. -/
  | generate {store : SharedStore} {cache : Cache} {c : Call} {w : KeySetWrite}
    {fetched : StoredObject} {pending : PendingVersion} (hwrite : c.write = some w)
    (hphase : w.phase = .generating fetched pending) (made : Except KeyError KeyRecord) :
    Step ⟨store, cache, c⟩
      ⟨store, cache, { c with write := some (w.generated fetched pending made) }⟩
  /-- The write's pause is over. -/
  | wake {store : SharedStore} {cache : Cache} {c : Call} {w w' : KeySetWrite}
    (hwrite : c.write = some w) (hwake : Call.wake? w = some w') :
    Step ⟨store, cache, c⟩ ⟨store, cache, { c with write := some w' }⟩
  /-- The caller is told the result. -/
  | reply {store : SharedStore} {cache : Cache} {c : Call} {w : KeySetWrite}
    {result : Except KeyError KeyId} (hwrite : c.write = some w) (hresult : w.result? = some result)
    (hfree : c.result = none) :
    Step ⟨store, cache, c⟩ ⟨store, cache, { c with result := some (c.outcome cache result) }⟩

/-- Steps of a call, with those of others in between: `others` says what they may do to the store,
and the cache they may leave as they like. The steps of the call itself are listed. -/
inductive Run (others : SharedStore → SharedStore → Prop) (first : Caller) :
    List (Caller × Caller) → Caller → Prop
  | start : Run others first [] first
  | own {steps : List (Caller × Caller)} {before after : Caller} (h : Run others first steps before)
    (hstep : Step before after) : Run others first (steps ++ [(before, after)]) after
  | other {steps : List (Caller × Caller)} {before : Caller} (h : Run others first steps before)
    {store : SharedStore} (hstore : others before.store store) (cache : Cache) :
    Run others first steps { before with store, cache }

variable {others : SharedStore → SharedStore → Prop} {first last before after : Caller}
  {steps : List (Caller × Caller)}

/-- The calls of a fleet take these steps. -/
theorem step_of_step? {rsaBits : ℕ} {m m' : MemoryStore} {cache cache' : Cache} {c c' : Call}
    {step : CallStep} (h : c.step? rsaBits m cache step = some (m', cache', c')) :
    Step ⟨.memory m, cache, c⟩ ⟨.memory m', cache', c'⟩ := by
  rcases Call.step?_cases h with ⟨w, answer, -, hwrite, hfree, hask, rfl, rfl⟩ |
    ⟨w, answer, w', -, hwrite, hanswer, hlook, rfl, rfl⟩ |
    ⟨w, w', ⟨now, pool, -, hgenerate⟩ | ⟨-, hwake⟩, hwrite, rfl, rfl, rfl⟩ |
    ⟨w, result, rfl, hwrite, hresult, rfl, rfl, rfl⟩
  · rw [Call.ask?_eq] at hask
    obtain ⟨call, hcall, hmap⟩ := Option.bind_eq_some_iff.1 hask
    obtain ⟨told, htold, heq⟩ := Option.map_eq_some_iff.1 hmap
    obtain ⟨rfl, rfl⟩ := Prod.mk.inj heq
    exact .ask hwrite hfree hcall (.memory m call) htold
  · exact .look hwrite hanswer hlook
  · unfold Call.generate? at hgenerate
    split at hgenerate
    next fetched pending hphase =>
      rw [← Option.some.inj hgenerate]
      exact .generate hwrite hphase _
    next => cases hgenerate
  · exact .wake hwrite hwake
  · have hfree : c.result = none := by
      simp only [Call.step?, hwrite, Option.bind_some, hresult] at h
      split at h
      next _ hnone => exact hnone
      next => cases h
    exact .reply hwrite hresult hfree

/-- Every step of the call is one. -/
theorem Run.step_of_mem (h : Run others first steps last) (hmem : (before, after) ∈ steps) :
    Step before after := by
  induction h with
  | start => cases hmem
  | own _ hstep ih =>
    rcases List.mem_append.1 hmem with hold | hnew
    · exact ih hold
    · obtain ⟨rfl, rfl⟩ := Prod.mk.inj (List.mem_singleton.1 hnew)
      exact hstep
  | other _ _ _ ih => exact ih hmem

/-! ## Steps of calls that can go on in one way only -/

/-- With an answer that the write waits for, the call looks at it. -/
theorem Step.look_of_answered (hstep : Step before after) {w : KeySetWrite} {answer : StoreAnswer}
    (hwrite : before.call.write = some w) (hanswer : before.call.answer = some answer)
    (hwaits : w.phase = .fetching ∨ ∃ object id, w.phase = .storing object id) :
    ∃ w' cache', Call.look? w before.cache answer = some (w', cache') ∧
      after.store = before.store ∧ after.call.write = some w' := by
  cases hstep with
  | ask _ hfree => cases hanswer.symm.trans hfree
  | @look _ _ cache' _ v v' told hv htold hlook =>
    obtain rfl := Option.some.inj (hwrite.symm.trans hv)
    obtain rfl := Option.some.inj (hanswer.symm.trans htold)
    exact ⟨v', cache', hlook, rfl, rfl⟩
  | @generate _ _ _ v _ _ hv hgenerating =>
    obtain rfl := Option.some.inj (hwrite.symm.trans hv)
    simp [hgenerating] at hwaits
  | @wake _ _ _ v _ hv hwake =>
    obtain rfl := Option.some.inj (hwrite.symm.trans hv)
    unfold Call.wake? at hwake
    split at hwake
    next hpausing => simp [hpausing] at hwaits
    next => cases hwake
  | @reply _ _ _ v _ hv hresult =>
    obtain rfl := Option.some.inj (hwrite.symm.trans hv)
    simp [KeySetWrite.phase_of_result? hresult] at hwaits

/-- A write that has come to an end stays as it is and asks for nothing. -/
theorem Step.of_finished (hstep : Step before after) {w : KeySetWrite}
    {result : Except KeyError KeyId} (hwrite : before.call.write = some w)
    (hphase : w.phase = .finished result) :
    after.store = before.store ∧ after.call.write = some w := by
  cases hstep with
  | @ask _ _ _ _ v _ _ _ hv _ hcall =>
    obtain rfl := Option.some.inj (hwrite.symm.trans hv)
    simp only [KeySetWrite.call?, hphase] at hcall
    cases hcall
  | @look _ _ _ _ v _ answer hv _ hlook =>
    obtain rfl := Option.some.inj (hwrite.symm.trans hv)
    cases answer <;> simp [Call.look?, hphase] at hlook
  | @generate _ _ _ v _ _ hv hgenerating =>
    obtain rfl := Option.some.inj (hwrite.symm.trans hv)
    cases hphase.symm.trans hgenerating
  | @wake _ _ _ v _ hv hwake =>
    obtain rfl := Option.some.inj (hwrite.symm.trans hv)
    simp only [Call.wake?, hphase] at hwake
    cases hwake
  | reply => exact ⟨rfl, hwrite⟩

/-! ## Calls that do not fail any more -/

/-- A call that has written, or that has found what it was asked for. -/
inductive Won (c : Call) : Prop
  | written {w : KeySetWrite} {object stored : StoredObject} {id : KeyId}
    (hwrite : c.write = some w) (hphase : w.phase = .storing object id)
    (hanswer : c.answer = some (.written (.ok stored)))
  | finished {w : KeySetWrite} {id : KeyId} (hwrite : c.write = some w)
    (hphase : w.phase = .finished (.ok id))

/-- A call that has won changes the store no more, and has won for good. -/
theorem Won.step (h : Won before.call) (hstep : Step before after) :
    after.store = before.store ∧ Won after.call := by
  cases h with
  | @written w object stored id hwrite hphase hanswer =>
    obtain ⟨w', cache', hlook, hstore, hafter⟩ :=
      hstep.look_of_answered hwrite hanswer (Or.inr ⟨object, id, hphase⟩)
    simp only [Call.look?, hphase, KeySetWrite.stored, Option.some.injEq, Prod.mk.injEq] at hlook
    obtain ⟨rfl, -⟩ := hlook
    exact ⟨hstore, .finished hafter rfl⟩
  | finished hwrite hphase =>
    obtain ⟨hstore, hafter⟩ := hstep.of_finished hwrite hphase
    exact ⟨hstore, .finished hafter hphase⟩

/-- A call that tells the result of its write as it is. -/
structure Frank (c : Call) : Prop where
  errand : c.errand ≠ .keySet
  told : ∀ result w, c.result = some result → c.write = some w → w.phase = .finished result

theorem frank_start (owner : ℕ) (member : Member) (cache : Cache) {errand : Errand}
    (herrand : errand ≠ .keySet) (name : String) (keyType : KeyType) :
    Frank (.start owner member cache errand name keyType) := by
  refine ⟨by rwa [Call.errand_start], ?_⟩
  intro result w hresult hwrite
  cases hvalid : KeySetName.ofText name with
  | error failure => simp [Call.start, hvalid] at hwrite
  | ok valid =>
    cases errand with
    | keySet => exact absurd rfl herrand
    | ensure | rotate => simp [Call.start, hvalid] at hresult

theorem Frank.step (h : Frank before.call) (hstep : Step before after) : Frank after.call := by
  cases hstep with
  | ask => exact ⟨h.errand, h.told⟩
  | @look _ _ _ _ w w' answer hwrite _ hlook =>
    refine ⟨h.errand, fun result v hresult _ => ?_⟩
    have hphase := h.told result w hresult hwrite
    cases answer <;> simp [Call.look?, hphase] at hlook
  | @generate _ _ _ w _ _ hwrite hgenerating =>
    refine ⟨h.errand, fun result v hresult _ => ?_⟩
    cases (h.told result w hresult hwrite).symm.trans hgenerating
  | @wake _ _ _ w _ hwrite hwake =>
    refine ⟨h.errand, fun result v hresult _ => ?_⟩
    simp only [Call.wake?, h.told result w hresult hwrite] at hwake
    cases hwake
  | @reply _ cache c w result hwrite hresult =>
    refine ⟨h.errand, fun told v htold hv => ?_⟩
    obtain rfl := Option.some.inj (hwrite.symm.trans hv)
    have houtcome : c.outcome cache result = result := by
      unfold Call.outcome
      split
      next hkeySet => exact absurd hkeySet h.errand
      next => rfl
    rw [← Option.some.inj htold, houtcome]
    exact KeySetWrite.phase_of_result? hresult

/-- Who is told a failure has not won. -/
theorem Frank.not_won {c : Call} (h : Frank c) {failure : KeyError}
    (hresult : c.result = some (.error failure)) : ¬ Won c := by
  rintro (⟨hwrite, hphase, -⟩ | ⟨hwrite, hphase⟩)
  · cases hphase.symm.trans (h.told _ _ hresult hwrite)
  · cases hphase.symm.trans (h.told _ _ hresult hwrite)

end Caller
end Keyring
