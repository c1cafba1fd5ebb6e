import Keyring.Proofs.KeySet.Decisions
import Keyring.Proofs.Retry
import Keyring.Proofs.Stores.Tenants

/-!
# Attempts

A write to a key set is a sequence of attempts with pauses between them. Whatever the store answers,
each attempt starts with a fetch and plans on what was fetched, and only a conflict leads to another
one. Key material is made in the first attempt that needs a version and serves the later ones.
-/
namespace Keyring

/-! ## Exchanges -/

/-- What passes in one step between a write and what it relies on. -/
inductive Exchange
  /-- The store answers a call. -/
  | ask (call : StoreCall) (answer : StoreAnswer)
  /-- A key is made at that time out of that pool. -/
  | generate (now : Timestamp) (pool : Entropy)
  /-- A pause passes. -/
  | pause (delay : Duration)

def Exchange.isGeneration : Exchange → Bool
  | generate .. => true
  | _ => false

namespace KeySetWrite

/-- A step of a write. The cache may be as it likes: others write to it at any time. -/
inductive Step (rsaBits : ℕ) (w : KeySetWrite) : Exchange → KeySetWrite → Prop
  | ask {call : StoreCall} {answer : StoreAnswer} {cache cache' : Cache} {w' : KeySetWrite}
    (hcall : w.call? = some call) (hlook : Call.look? w cache answer = some (w', cache')) :
    Step rsaBits w (.ask call answer) w'
  | generate {now : Timestamp} {pool : Entropy} {w' : KeySetWrite}
    (h : Call.generate? w rsaBits now pool = some w') : Step rsaBits w (.generate now pool) w'
  | pause {delay : Duration} (h : w.phase = .pausing (some delay)) :
    Step rsaBits w (.pause delay) w.resume

/-- Steps of a write one after the other. -/
inductive Run (rsaBits : ℕ) : KeySetWrite → List Exchange → KeySetWrite → Prop
  | nil (w : KeySetWrite) : Run rsaBits w [] w
  | cons {w w₁ w' : KeySetWrite} {e : Exchange} {rest : List Exchange} (h : Step rsaBits w e w₁)
    (hrest : Run rsaBits w₁ rest w') : Run rsaBits w (e :: rest) w'

end KeySetWrite

/-! ## Attempts -/

namespace WriteRequest

def plan (r : WriteRequest) (found : Option StoredObject) : Except KeyError KeySetPlan :=
  KeySetPlan.make r.name ((found.getD (.fresh r.target)).data.get? r.name.field) r.keyType r.rotate

/-- What was fetched, with other bytes for the key set. -/
def change (r : WriteRequest) (found : Option StoredObject) (bytes : Bytes) : StoredObject :=
  let object := found.getD (.fresh r.target)
  { object with data := object.data.insert r.name.field bytes }

/-- The fetch of a request and what the store answers to it. -/
def fetch (r : WriteRequest) (answer : Except KeyError (Option StoredObject)) : Exchange :=
  .ask (.get r.target) (.found answer)

end WriteRequest

/-- The call that stores an object, which is created if it was never written. -/
def StoreWrite.storing (object : StoredObject) : StoreWrite :=
  if KeySetWrite.isCreation object then .create object else .update object

/-- One attempt: what was exchanged in it, and how it ended. -/
structure Attempt where
  exchanges : List Exchange
  result : Except KeyError KeyId

/-- Whether another writer was faster. -/
def Attempt.conflicts (a : Attempt) : Bool :=
  match a.result with
  | .error failure => failure.isWriteConflict
  | .ok _ => false

/-- Whether the plan of an attempt needs a version. -/
def Attempt.NeedsVersion (r : WriteRequest) (a : Attempt) : Prop :=
  ∃ found pending, a.exchanges.head? = some (r.fetch (.ok found)) ∧
    r.plan found = .ok (.needsVersion pending)

/-- Where the key material of an attempt comes from: it is there already, or it is made. -/
inductive Supply (rsaBits : ℕ) (keyType : KeyType) : (before : Option KeyRecord) →
    List Exchange → Except KeyError KeyRecord → (after : Option KeyRecord) → Prop
  | kept (material : KeyRecord) : Supply rsaBits keyType (some material) [] (.ok material)
      (some material)
  | made {now : Timestamp} {pool : Entropy} {key : Key}
    (h : (Key.generate keyType .none rsaBits now pool).1 = .ok key) :
    Supply rsaBits keyType none [.generate now pool] (.ok key.record) (some key.record)
  | failed {now : Timestamp} {pool : Entropy} {failure : KeyError}
    (h : (Key.generate keyType .none rsaBits now pool).1 = .error failure) :
    Supply rsaBits keyType none [.generate now pool] (.error failure) none

/-- An attempt, with the key material before it and after it. It starts with a fetch and goes by
what that finds. -/
inductive Attempted (rsaBits : ℕ) (r : WriteRequest) :
    (before : Option KeyRecord) → Attempt → (after : Option KeyRecord) → Prop
  | unread (material : Option KeyRecord) (failure : KeyError) :
    Attempted rsaBits r material ⟨[r.fetch (.error failure)], .error failure⟩ material
  | unplanned (material : Option KeyRecord) {found : Option StoredObject} {failure : KeyError}
    (hplan : r.plan found = .error failure) :
    Attempted rsaBits r material ⟨[r.fetch (.ok found)], .error failure⟩ material
  | unchanged (material : Option KeyRecord) {found : Option StoredObject} {id : KeyId}
    (hplan : r.plan found = .ok (.unchanged id)) :
    Attempted rsaBits r material ⟨[r.fetch (.ok found)], .ok id⟩ material
  | unsupplied {before after : Option KeyRecord} {found : Option StoredObject}
    {pending : PendingVersion} {supply : List Exchange} {failure : KeyError}
    (hplan : r.plan found = .ok (.needsVersion pending))
    (hsupply : Supply rsaBits r.keyType before supply (.error failure) after) :
    Attempted rsaBits r before ⟨r.fetch (.ok found) :: supply, .error failure⟩ after
  | unfit {before after : Option KeyRecord} {found : Option StoredObject}
    {pending : PendingVersion} {supply : List Exchange} {material : KeyRecord} {failure : KeyError}
    (hplan : r.plan found = .ok (.needsVersion pending))
    (hsupply : Supply rsaBits r.keyType before supply (.ok material) after)
    (hfinish : pending.finish material = .error failure) :
    Attempted rsaBits r before ⟨r.fetch (.ok found) :: supply, .error failure⟩ after
  | stored {before after : Option KeyRecord} {found : Option StoredObject}
    {pending : PendingVersion} {supply : List Exchange} {material : KeyRecord} {bytes : Bytes}
    (hplan : r.plan found = .ok (.needsVersion pending))
    (hsupply : Supply rsaBits r.keyType before supply (.ok material) after)
    (hfinish : pending.finish material = .ok bytes) (answer : Except KeyError StoredObject) :
    Attempted rsaBits r before
      ⟨r.fetch (.ok found) :: supply ++
          [.ask (.write (.storing (r.change found bytes))) (.written answer)],
        answer.map fun _ => pending.id⟩ after

/-- All attempts from some number of retries on, and what is exchanged in them and between them. -/
inductive Attempts (rsaBits : ℕ) (r : WriteRequest) :
    ℕ → Option KeyRecord → List Attempt → List Exchange → Prop
  | last {retries : ℕ} {before after : Option KeyRecord} {a : Attempt}
    (h : Attempted rsaBits r before a after)
    (hlast : ¬ (a.conflicts = true ∧ retries < r.retry.maxRetries)) :
    Attempts rsaBits r retries before [a] a.exchanges
  | again {retries : ℕ} {before after : Option KeyRecord} {a : Attempt} {delay : Duration}
    {rest : List Attempt} {trace : List Exchange} (h : Attempted rsaBits r before a after)
    (hagain : a.conflicts = true ∧ retries < r.retry.maxRetries)
    (hdelay : r.retry.delay? (retries + 1) = some delay)
    (hrest : Attempts rsaBits r (retries + 1) after rest trace) :
    Attempts rsaBits r retries before (a :: rest) (a.exchanges ++ .pause delay :: trace)

/-! ## From a run to its attempts -/

namespace KeySetWrite

variable {rsaBits : ℕ} {w w' : KeySetWrite} {e : Exchange} {trace : List Exchange}
  {result : Except KeyError KeyId}

/-- A write after an attempt that ended like this. -/
def conclude (w : KeySetWrite) (material : Option KeyRecord) :
    Except KeyError KeyId → KeySetWrite
  | .error failure => ({ w with material } : KeySetWrite).fail failure
  | .ok id => { w with material, phase := .finished (.ok id) }

/-- A write that stores something goes on with what the store answers. -/
theorem Step.of_storing {object : StoredObject} {id : KeyId} (hphase : w.phase = .storing object id)
    (h : Step rsaBits w e w') : ∃ answer : Except KeyError StoredObject,
      e = .ask (.write (.storing object)) (.written answer) ∧
        w' = w.conclude w.material (answer.map fun _ => id) := by
  cases h with
  | @ask call answer cache cache' _ hcall hlook =>
    rw [call?, hphase] at hcall
    obtain rfl := Option.some.inj hcall
    cases answer with
    | found found => simp [Call.look?, hphase] at hlook
    | written answer =>
      simp only [Call.look?, hphase, Option.some.injEq] at hlook
      refine ⟨answer, rfl, ?_⟩
      cases answer with
      | error failure => exact (congrArg Prod.fst hlook).symm
      | ok written => exact (congrArg Prod.fst hlook).symm
  | generate h => simp [Call.generate?, hphase] at h
  | pause h => cases hphase.symm.trans h

/-- A write that waits for key material goes on with the key that is made. -/
theorem Step.of_generating {object : StoredObject} {pending : PendingVersion}
    (hphase : w.phase = .generating object pending) (h : Step rsaBits w e w') :
    ∃ now pool, e = .generate now pool ∧ w' = w.generated object pending
      ((Key.generate w.request.keyType .none rsaBits now pool).1.map Key.record) := by
  cases h with
  | ask hcall => simp [call?, hphase] at hcall
  | @generate now pool _ h =>
    simp only [Call.generate?, hphase, Option.some.injEq] at h
    exact ⟨now, pool, rfl, h.symm⟩
  | pause h => cases hphase.symm.trans h

/-- A write that fetches goes on with what the store answers. -/
theorem Step.of_fetching (hphase : w.phase = .fetching) (h : Step rsaBits w e w') :
    ∃ answer cache, e = w.request.fetch answer ∧ w' = (w.fetched cache answer).1 := by
  cases h with
  | @ask call answer cache cache' _ hcall hlook =>
    rw [call?, hphase] at hcall
    obtain rfl := Option.some.inj hcall
    cases answer with
    | found answer =>
      simp only [Call.look?, hphase, Option.some.injEq] at hlook
      exact ⟨answer, cache, rfl, (congrArg Prod.fst hlook).symm⟩
    | written written => simp [Call.look?, hphase] at hlook
  | generate h => simp [Call.generate?, hphase] at h
  | pause h => cases hphase.symm.trans h

/-- A write that pauses goes on with the next attempt. -/
theorem Step.of_pausing {delay : Option Duration} (hphase : w.phase = .pausing delay)
    (h : Step rsaBits w e w') : ∃ d, delay = some d ∧ e = .pause d ∧ w' = w.resume := by
  cases h with
  | ask hcall => simp [call?, hphase] at hcall
  | generate h => simp [Call.generate?, hphase] at h
  | @pause d h => exact ⟨d, WritePhase.pausing.inj (hphase.symm.trans h), rfl, rfl⟩

/-- A write that has come to an end takes no step. -/
theorem Step.not_of_finished (hphase : w.phase = .finished result) : ¬ Step rsaBits w e w' := by
  intro h
  cases h with
  | ask hcall => simp [call?, hphase] at hcall
  | generate h => simp [Call.generate?, hphase] at h
  | pause h => cases hphase.symm.trans h

/-- With its key material a write ends its attempt: it does not fit, or it is stored. -/
theorem exists_attempt_of_prepare {found : Option StoredObject} {pending : PendingVersion}
    {supply : List Exchange} {material : KeyRecord} {after : Option KeyRecord} {phase : WritePhase}
    (hplan : w.request.plan found = .ok (.needsVersion pending))
    (hsupply : Supply rsaBits w.request.keyType w.material supply (.ok material) after)
    (hrun : Run rsaBits ((⟨w.request, w.retries, after, phase⟩ : KeySetWrite).prepare
      (found.getD (.fresh w.request.target)) pending material) trace w')
    (hresult : w'.result? = some result) :
    ∃ a rest, Attempted rsaBits w.request w.material a after ∧
      w.request.fetch (.ok found) :: supply ++ trace = a.exchanges ++ rest ∧
      Run rsaBits (w.conclude after a.result) rest w' := by
  unfold prepare at hrun
  split at hrun
  next failure hfinish =>
    exact ⟨_, trace, .unfit hplan hsupply hfinish, rfl, hrun⟩
  next bytes hfinish =>
    cases hrun with
    | nil => cases hresult
    | @cons _ _ _ _ rest h hrest =>
      obtain ⟨answer, rfl, rfl⟩ := h.of_storing rfl
      refine ⟨_, rest, .stored hplan hsupply hfinish answer, ?_, ?_⟩
      · simp only [List.cons_append, List.append_assoc, List.nil_append]
        rfl
      · cases answer <;> exact hrest

/-- A write that makes its key material goes on with it or ends its attempt. -/
theorem exists_attempt_of_generating {found : Option StoredObject} {pending : PendingVersion}
    (hplan : w.request.plan found = .ok (.needsVersion pending)) (hmaterial : w.material = none)
    (hrun : Run rsaBits
      { w with phase := .generating (found.getD (.fresh w.request.target)) pending } trace w')
    (hresult : w'.result? = some result) :
    ∃ a after rest, Attempted rsaBits w.request w.material a after ∧
      w.request.fetch (.ok found) :: trace = a.exchanges ++ rest ∧
      Run rsaBits (w.conclude after a.result) rest w' := by
  cases hrun with
  | nil => cases hresult
  | cons h hrest =>
    obtain ⟨now, pool, rfl, rfl⟩ := h.of_generating rfl
    cases hmade : (Key.generate w.request.keyType .none rsaBits now pool).1 with
    | error failure =>
      have hsupply : Supply rsaBits w.request.keyType w.material [.generate now pool]
          (.error failure) w.material := by
        rw [hmaterial]
        exact .failed hmade
      refine ⟨_, _, _, .unsupplied hplan hsupply, rfl, ?_⟩
      rw [hmade] at hrest
      exact hrest
    | ok key =>
      have hsupply : Supply rsaBits w.request.keyType w.material [.generate now pool]
          (.ok key.record) (some key.record) := by
        rw [hmaterial]
        exact .made hmade
      rw [hmade] at hrest
      obtain ⟨a, rest, ha, hexchanges, hlater⟩ :=
        exists_attempt_of_prepare hplan hsupply hrest hresult
      exact ⟨a, _, rest, ha, hexchanges, hlater⟩

/-- A write that starts an attempt and comes to an end has made that attempt. -/
theorem exists_attempt (hphase : w.phase = .fetching) (hrun : Run rsaBits w trace w')
    (hresult : w'.result? = some result) :
    ∃ a after rest, Attempted rsaBits w.request w.material a after ∧
      trace = a.exchanges ++ rest ∧ Run rsaBits (w.conclude after a.result) rest w' := by
  cases hrun with
  | nil => simp [result?, hphase] at hresult
  | cons h hrest =>
    obtain ⟨answer, cache, rfl, rfl⟩ := h.of_fetching hphase
    unfold fetched at hrest
    split at hrest
    next failure => exact ⟨_, _, _, .unread w.material failure, rfl, hrest⟩
    next found =>
      dsimp only at hrest
      split at hrest
      next failure hplan => exact ⟨_, _, _, .unplanned w.material hplan, rfl, hrest⟩
      next id hplan => exact ⟨_, _, _, .unchanged w.material hplan, rfl, hrest⟩
      next pending hplan =>
        split at hrest
        next material hmaterial =>
          have hsupply : Supply rsaBits w.request.keyType w.material [] (.ok material)
              (some material) := by
            rw [hmaterial]
            exact .kept material
          have hsame : w = ⟨w.request, w.retries, some material, w.phase⟩ := by rw [← hmaterial]
          rw [hsame] at hrest
          obtain ⟨a, rest, ha, hexchanges, hlater⟩ :=
            exists_attempt_of_prepare hplan hsupply hrest hresult
          exact ⟨a, _, rest, ha, hexchanges, hlater⟩
        next hmaterial => exact exists_attempt_of_generating hplan hmaterial hrest hresult

theorem phase_conclude_last {material : Option KeyRecord} {a : Attempt}
    (h : ¬ (a.conflicts = true ∧ w.retries < w.request.retry.maxRetries)) :
    (w.conclude material a.result).phase = .finished a.result := by
  unfold Attempt.conflicts at h
  cases hresult : a.result with
  | ok id => rfl
  | error failure =>
    rw [hresult] at h
    rw [conclude, fail, if_neg h]

theorem conclude_again {material : Option KeyRecord} {a : Attempt}
    (h : a.conflicts = true ∧ w.retries < w.request.retry.maxRetries) :
    w.conclude material a.result = ⟨w.request, w.retries + 1, material,
      .pausing (w.request.retry.delay? (w.retries + 1))⟩ := by
  unfold Attempt.conflicts at h
  cases hresult : a.result with
  | ok id =>
    rw [hresult] at h
    exact absurd h.1 Bool.false_ne_true
  | error failure =>
    rw [hresult] at h
    rw [conclude, fail, if_pos h]

theorem Run.of_finished (hphase : w.phase = .finished result) (h : Run rsaBits w trace w') :
    trace = [] ∧ w' = w := by
  cases h with
  | nil => exact ⟨rfl, rfl⟩
  | cons hstep => exact absurd hstep (Step.not_of_finished hphase)

/-- A write that comes to an end is made of attempts, of which the last one gives the result. -/
theorem exists_attempts (hphase : w.phase = .fetching) (hrun : Run rsaBits w trace w')
    (hresult : w'.result? = some result) :
    ∃ attempts, Attempts rsaBits w.request w.retries w.material attempts trace ∧
      attempts.getLast?.map Attempt.result = some result := by
  -- an attempt takes more than one step, so the run that is left is shorter
  induction hlength : trace.length using Nat.strong_induction_on generalizing w trace with
  | _ n ih =>
    obtain ⟨a, after, rest, ha, rfl, hrest⟩ := exists_attempt hphase hrun hresult
    by_cases hagain : a.conflicts = true ∧ w.retries < w.request.retry.maxRetries
    · rw [conclude_again hagain] at hrest
      cases hrest with
      | nil => cases hresult
      | @cons _ _ _ _ later h hlater =>
        obtain ⟨delay, hdelay, rfl, rfl⟩ := h.of_pausing rfl
        obtain ⟨attempts, hattempts, hlast⟩ := ih later.length
          (by rw [← hlength, List.length_append, List.length_cons]; omega) rfl hlater rfl
        refine ⟨a :: attempts, .again ha hagain hdelay hattempts, ?_⟩
        cases hattempts <;> simpa [List.getLast?_cons_cons] using hlast
    · have hfinished : (w.conclude after a.result).phase = .finished a.result :=
        phase_conclude_last hagain
      obtain ⟨rfl, rfl⟩ := hrest.of_finished hfinished
      rw [List.append_nil]
      refine ⟨[a], .last ha hagain, ?_⟩
      rw [result?, hfinished, Option.some.injEq] at hresult
      rw [← hresult]
      rfl

end KeySetWrite

/-! ## Counting -/

variable {rsaBits : ℕ} {r : WriteRequest} {before after : Option KeyRecord} {a : Attempt}
  {attempts : List Attempt} {trace : List Exchange} {retries : ℕ}

/-- There is one attempt more than conflicts, up to the number of retries. -/
theorem Attempts.length_eq (h : Attempts rsaBits r retries before attempts trace) :
    attempts.length =
      1 + min (r.retry.maxRetries - retries) (attempts.takeWhile Attempt.conflicts).length := by
  induction h with
  | @last retries _ _ a _ hlast =>
    by_cases hconflicts : a.conflicts = true
    · have hnone : ¬ retries < r.retry.maxRetries := fun hlt => hlast ⟨hconflicts, hlt⟩
      rw [List.length_singleton]
      omega
    · simp [hconflicts]
  | again _ hagain _ _ ih =>
    rw [List.takeWhile_cons_of_pos hagain.1, List.length_cons, List.length_cons, ih]
    omega

/-- A result that does not say that another writer was faster. -/
def NoConflict {α : Type} (result : Except KeyError α) : Prop :=
  ∀ failure, result = .error failure → failure.isWriteConflict = false

theorem noConflict_ok {α : Type} (value : α) : NoConflict (.ok value : Except KeyError α) := by
  intro failure hfailure
  cases hfailure

theorem noConflict_error {α : Type} {failure : KeyError} (h : failure.isWriteConflict = false) :
    NoConflict (.error failure : Except KeyError α) := by
  intro other hother
  rwa [← Except.error.inj hother]

theorem SigningKey.noConflict_load (record : KeyRecord) : NoConflict (load record) := by
  unfold load
  split
  · split
    · exact noConflict_ok _
    · exact noConflict_error rfl
  · exact noConflict_error rfl

theorem SigningKey.noConflict_generate (id : KeyId) (bits : ℕ) (now : Timestamp)
    (pool : Entropy) : NoConflict (generate id bits now pool).1 := by
  unfold generate
  split
  · exact noConflict_error rfl
  · split
    next =>
      dsimp only
      exact noConflict_load _
    next => exact noConflict_error rfl

/-- That a key cannot be made is no conflict. -/
theorem Key.noConflict_generate (keyType : KeyType) (id : KeyId) (bits : ℕ) (now : Timestamp)
    (pool : Entropy) : NoConflict (generate keyType id bits now pool).1 := by
  cases keyType with
  | symmetricAead => exact noConflict_ok _
  | asymmetricSigning =>
    have hmade := SigningKey.noConflict_generate id bits now pool
    rw [generate]
    dsimp only
    cases hkey : (SigningKey.generate id bits now pool).1 with
    | ok key => exact noConflict_ok _
    | error failure => exact noConflict_error (hmade failure hkey)

/-- Key material is there and stays, or it is made. -/
theorem Supply.cases {keyType : KeyType} {supply : List Exchange}
    {material : Except KeyError KeyRecord} (h : Supply rsaBits keyType before supply material after) :
    (supply.countP Exchange.isGeneration = 0 ∧ after = before) ∨
      (before = none ∧ supply.countP Exchange.isGeneration = 1 ∧
        (after.isSome = true ∨ ∃ failure, material = .error failure ∧
          failure.isWriteConflict = false)) := by
  cases h with
  | kept material => exact Or.inl ⟨rfl, rfl⟩
  | made h => exact Or.inr ⟨rfl, rfl, Or.inl rfl⟩
  | failed h => exact Or.inr ⟨rfl, rfl, Or.inr ⟨_, rfl, Key.noConflict_generate _ _ _ _ _ _ h⟩⟩

/-- An attempt that needs no version makes no key. One that makes a key has none from before, and
the next attempt has it. -/
theorem Attempted.cases (h : Attempted rsaBits r before a after) :
    (a.exchanges.countP Exchange.isGeneration = 0 ∧ after = before) ∨
      (a.NeedsVersion r ∧ before = none ∧ a.exchanges.countP Exchange.isGeneration = 1 ∧
        (a.conflicts = true → after.isSome = true)) := by
  cases h with
  | unread => exact Or.inl ⟨rfl, rfl⟩
  | unplanned => exact Or.inl ⟨rfl, rfl⟩
  | unchanged => exact Or.inl ⟨rfl, rfl⟩
  | @unsupplied _ found pending supply failure hplan hsupply =>
    rcases hsupply.cases with ⟨hcount, hsame⟩ | ⟨hnone, hcount, hafter⟩
    · exact Or.inl ⟨hcount, hsame⟩
    · refine Or.inr ⟨⟨found, pending, rfl, hplan⟩, hnone, hcount, fun hconflicts => ?_⟩
      rcases hafter with hsome | ⟨other, hother, hnot⟩
      · exact hsome
      · obtain rfl := Except.error.inj hother
        exact absurd (hnot.symm.trans hconflicts) Bool.false_ne_true
  | @unfit _ found pending supply material failure hplan hsupply hfinish =>
    rcases hsupply.cases with ⟨hcount, hsame⟩ | ⟨hnone, hcount, hafter⟩
    · exact Or.inl ⟨hcount, hsame⟩
    · refine Or.inr ⟨⟨found, pending, rfl, hplan⟩, hnone, hcount, fun _ => ?_⟩
      rcases hafter with hsome | ⟨other, hother, -⟩
      · exact hsome
      · cases hother
  | @stored _ found pending supply material bytes hplan hsupply hfinish answer =>
    have hcounts : (r.fetch (.ok found) :: supply ++ [Exchange.ask (.write (.storing
        (r.change found bytes))) (.written answer)]).countP Exchange.isGeneration =
          supply.countP Exchange.isGeneration := by
      rw [List.countP_append]
      rfl
    rcases hsupply.cases with ⟨hcount, hsame⟩ | ⟨hnone, hcount, hafter⟩
    · exact Or.inl ⟨hcounts.trans hcount, hsame⟩
    · refine Or.inr ⟨⟨found, pending, rfl, hplan⟩, hnone, hcounts.trans hcount, fun _ => ?_⟩
      rcases hafter with hsome | ⟨other, hother, -⟩
      · exact hsome
      · cases hother

/-- Key material is made at most once, and only if there is none. -/
theorem Attempts.generations_le (h : Attempts rsaBits r retries before attempts trace) :
    trace.countP Exchange.isGeneration ≤ if before.isSome then 0 else 1 := by
  induction h with
  | last h =>
    rcases h.cases with ⟨hcount, -⟩ | ⟨-, rfl, hcount, -⟩
    · rw [hcount]
      exact Nat.zero_le _
    · rw [hcount]
      exact Nat.le_refl 1
  | @again _ _ _ _ delay _ trace h hagain _ _ ih =>
    have hpause : (.pause delay :: trace).countP Exchange.isGeneration =
        trace.countP Exchange.isGeneration := rfl
    rw [List.countP_append, hpause]
    rcases h.cases with ⟨hcount, rfl⟩ | ⟨-, rfl, hcount, hafter⟩
    · rw [hcount, Nat.zero_add]
      exact ih
    · rw [hafter hagain.1] at ih
      rw [hcount, Nat.le_zero.1 ih]
      exact Nat.le_refl 1

/-- If no attempt needs a version, no key is made. -/
theorem Attempts.generations_eq_zero (h : Attempts rsaBits r retries before attempts trace)
    (hneeds : ∀ a ∈ attempts, ¬ a.NeedsVersion r) : trace.countP Exchange.isGeneration = 0 := by
  induction h with
  | last h =>
    rcases h.cases with ⟨hcount, -⟩ | ⟨hneed, -⟩
    · exact hcount
    · exact absurd hneed (hneeds _ List.mem_cons_self)
  | again h _ _ _ ih =>
    obtain ⟨hfirst, hlater⟩ := List.forall_mem_cons.1 hneeds
    rw [List.countP_append]
    rcases h.cases with ⟨hcount, -⟩ | ⟨hneed, -⟩
    · rw [hcount, Nat.zero_add]
      exact ih hlater
    · exact absurd hneed hfirst

/-! ## Coming to an end -/

/-- What a write relies on. Its answers may depend on all that was exchanged before. -/
structure Surroundings where
  get : List Exchange → ObjectName → Except KeyError (Option StoredObject)
  store : List Exchange → StoreWrite → Except KeyError StoredObject
  now : List Exchange → Timestamp
  pool : List Exchange → Entropy

namespace Surroundings

/-- Whether an exchange after others is one with these surroundings. -/
def Gives (s : Surroundings) (past : List Exchange) : Exchange → Prop
  | .ask (.get name) answer => answer = .found (s.get past name)
  | .ask (.write write) answer => answer = .written (s.store past write)
  | .ask (.list _) _ => False
  | .generate now pool => now = s.now past ∧ pool = s.pool past
  | .pause _ => True

/-- Whether all exchanges after others are exchanges with these surroundings. -/
def GivesAll (s : Surroundings) : (past : List Exchange) → List Exchange → Prop
  | _, [] => True
  | past, e :: rest => s.Gives past e ∧ s.GivesAll (past ++ [e]) rest

end Surroundings

/-- How many steps of an attempt and of the pause before it are left. -/
def WritePhase.rank : WritePhase → ℕ
  | pausing _ => 4
  | fetching => 3
  | generating .. => 2
  | storing .. => 1
  | finished _ => 0

namespace KeySetWrite

variable {w w' : KeySetWrite} {e : Exchange} {trace : List Exchange}

theorem prepare_cases (w : KeySetWrite) (fetched : StoredObject) (pending : PendingVersion)
    (material : KeyRecord) :
    (∃ failure, w.prepare fetched pending material = w.fail failure) ∨
      ∃ object id, w.prepare fetched pending material =
        { w with phase := .storing object id } := by
  unfold prepare
  split
  next failure _ => exact Or.inl ⟨failure, rfl⟩
  next => exact Or.inr ⟨_, _, rfl⟩

/-- A step ends a pause, ends the attempt or goes on with it. -/
theorem Step.cases (h : Step rsaBits w e w') :
    (∃ delay, w.phase = .pausing delay ∧ w' = w.resume) ∨
      (0 < w.phase.rank ∧ ∃ material, (∃ failure,
          w' = ({ w with material } : KeySetWrite).fail failure) ∨
        ∃ result, w' = { w with material, phase := .finished result }) ∨
      (2 < w.phase.rank ∧ ∃ fetched pending,
        w' = { w with phase := .generating fetched pending }) ∨
      (1 < w.phase.rank ∧ ∃ material object id,
        w' = { w with material, phase := .storing object id }) := by
  cases hphase : w.phase with
  | fetching =>
    obtain ⟨answer, cache, rfl, rfl⟩ := h.of_fetching hphase
    unfold fetched
    split
    next failure => exact Or.inr (Or.inl ⟨by decide, w.material, Or.inl ⟨failure, rfl⟩⟩)
    next found =>
      dsimp only
      split
      next failure _ => exact Or.inr (Or.inl ⟨by decide, w.material, Or.inl ⟨failure, rfl⟩⟩)
      next id _ => exact Or.inr (Or.inl ⟨by decide, w.material, Or.inr ⟨.ok id, rfl⟩⟩)
      next pending _ =>
        split
        next material _ =>
          rcases prepare_cases w (found.getD (.fresh w.request.target)) pending material with
            ⟨failure, hfail⟩ | ⟨object, id, hstoring⟩
          · exact Or.inr (Or.inl ⟨by decide, w.material, Or.inl ⟨failure, hfail⟩⟩)
          · exact Or.inr (Or.inr (Or.inr ⟨by decide, w.material, object, id, hstoring⟩))
        next => exact Or.inr (Or.inr (Or.inl ⟨by decide, _, pending, rfl⟩))
  | generating fetched pending =>
    obtain ⟨now, pool, rfl, rfl⟩ := h.of_generating hphase
    unfold generated
    split
    next failure _ => exact Or.inr (Or.inl ⟨Nat.two_pos, w.material, Or.inl ⟨failure, rfl⟩⟩)
    next material _ =>
      rcases prepare_cases { w with material := some material } fetched pending material with
        ⟨failure, hfail⟩ | ⟨object, id, hstoring⟩
      · exact Or.inr (Or.inl ⟨Nat.two_pos, some material, Or.inl ⟨failure, hfail⟩⟩)
      · exact Or.inr (Or.inr (Or.inr ⟨Nat.one_lt_two, some material, object, id, hstoring⟩))
  | storing object id =>
    obtain ⟨answer, rfl, rfl⟩ := h.of_storing hphase
    cases answer with
    | error failure => exact Or.inr (Or.inl ⟨Nat.one_pos, w.material, Or.inl ⟨failure, rfl⟩⟩)
    | ok written => exact Or.inr (Or.inl ⟨Nat.one_pos, w.material, Or.inr ⟨.ok id, rfl⟩⟩)
  | pausing delay =>
    obtain ⟨d, rfl, rfl, rfl⟩ := h.of_pausing hphase
    exact Or.inl ⟨some d, rfl, rfl⟩
  | finished result => exact absurd h (Step.not_of_finished hphase)

/-- How many steps a write can still take. -/
def remaining (w : KeySetWrite) : ℕ :=
  4 * (w.request.retry.maxRetries - w.retries) + w.phase.rank

/-- A failure leaves no more to do than the retries that are left. -/
theorem remaining_fail (w : KeySetWrite) (failure : KeyError) :
    (w.fail failure).remaining ≤ 4 * (w.request.retry.maxRetries - w.retries) := by
  unfold fail remaining
  split
  next hagain => simp only [WritePhase.rank]; omega
  next => simp only [WritePhase.rank]; omega

/-- Every step leaves less to do. -/
theorem Step.remaining_lt (h : Step rsaBits w e w') : w'.remaining < w.remaining := by
  rcases h.cases with ⟨delay, hphase, rfl⟩ | ⟨hrank, material, ⟨failure, rfl⟩ | ⟨result, rfl⟩⟩ |
    ⟨hrank, fetched, pending, rfl⟩ | ⟨hrank, material, object, id, rfl⟩
  · simp only [remaining, resume, hphase, WritePhase.rank]
    omega
  · have hfail := remaining_fail { w with material } failure
    exact hfail.trans_lt (Nat.lt_add_of_pos_right hrank)
  · exact Nat.add_lt_add_left hrank _
  · exact Nat.add_lt_add_left hrank _
  · exact Nat.add_lt_add_left hrank _

/-- A write takes no more steps than are left. -/
theorem Run.length_le (h : Run rsaBits w trace w') : trace.length ≤ w.remaining := by
  induction h with
  | nil => exact Nat.zero_le _
  | cons hstep _ ih =>
    rw [List.length_cons]
    exact Nat.succ_le_of_lt (ih.trans_lt hstep.remaining_lt)

/-- A write whose pauses can be computed, also the present one. -/
structure Paced (w : KeySetWrite) : Prop where
  defined : w.request.retry.DefinedTo w.request.retry.maxRetries
  present : ∀ delay, w.phase = .pausing delay → delay.isSome = true

theorem paced_fail (h : w.request.retry.DefinedTo w.request.retry.maxRetries)
    (failure : KeyError) : (w.fail failure).Paced := by
  refine ⟨by rwa [request_fail], ?_⟩
  unfold fail
  split
  next hagain =>
    intro delay hdelay
    rw [← WritePhase.pausing.inj hdelay]
    exact h _ (Nat.le_add_left 1 _) hagain.2
  next =>
    intro delay hdelay
    cases hdelay

theorem Step.paced (h : Step rsaBits w e w') (hpaced : w.Paced) : w'.Paced := by
  rcases h.cases with ⟨delay, hphase, rfl⟩ | ⟨-, material, ⟨failure, rfl⟩ | ⟨result, rfl⟩⟩ |
    ⟨-, fetched, pending, rfl⟩ | ⟨-, material, object, id, rfl⟩
  · exact ⟨hpaced.defined, fun _ hdelay => by cases hdelay⟩
  · have hmade : ({ w with material } : KeySetWrite).Paced := ⟨hpaced.defined, hpaced.present⟩
    exact paced_fail hmade.defined failure
  · exact ⟨hpaced.defined, fun _ hdelay => by cases hdelay⟩
  · exact ⟨hpaced.defined, fun _ hdelay => by cases hdelay⟩
  · exact ⟨hpaced.defined, fun _ hdelay => by cases hdelay⟩

theorem Step.fetch (hphase : w.phase = .fetching)
    (answer : Except KeyError (Option StoredObject)) :
    Step rsaBits w (w.request.fetch answer) (w.fetched .empty answer).1 := by
  have hcall : w.call? = some (.get w.request.target) := by rw [call?, hphase]
  have hlook : Call.look? w .empty (.found answer) = some (w.fetched .empty answer) := by
    rw [Call.look?, hphase]
  exact .ask hcall hlook

theorem Step.store {object : StoredObject} {id : KeyId} (hphase : w.phase = .storing object id)
    (answer : Except KeyError StoredObject) :
    Step rsaBits w (.ask (.write (.storing object)) (.written answer))
      (w.stored id .empty answer).1 := by
  have hcall : w.call? = some (.write (.storing object)) := by
    rw [call?, hphase]
    rfl
  have hlook : Call.look? w .empty (.written answer) = some (w.stored id .empty answer) := by
    rw [Call.look?, hphase]
  exact .ask hcall hlook

/-- A write that has not come to an end takes a step, whatever its surroundings answer. -/
theorem exists_step (s : Surroundings) (past : List Exchange) (hpaced : w.Paced)
    (hnot : w.result? = none) : ∃ e w', Step rsaBits w e w' ∧ s.Gives past e := by
  cases hphase : w.phase with
  | fetching => exact ⟨_, _, .fetch hphase (s.get past w.request.target), rfl⟩
  | generating fetched pending =>
    exact ⟨.generate (s.now past) (s.pool past), _,
      .generate (by rw [Call.generate?, hphase]), rfl, rfl⟩
  | storing object id => exact ⟨_, _, .store hphase (s.store past (.storing object)), rfl⟩
  | pausing delay =>
    obtain ⟨d, rfl⟩ := Option.isSome_iff_exists.1 (hpaced.present delay hphase)
    exact ⟨.pause d, _, .pause hphase, trivial⟩
  | finished result => simp [result?, hphase] at hnot

/-- Every write comes to an end. -/
theorem exists_run (s : Surroundings) (past : List Exchange) (hpaced : w.Paced) :
    ∃ trace w' result, Run rsaBits w trace w' ∧ s.GivesAll past trace ∧
      w'.result? = some result := by
  induction hremaining : w.remaining using Nat.strong_induction_on generalizing w past with
  | _ n ih =>
    cases hresult : w.result? with
    | some result => exact ⟨[], w, result, .nil w, trivial, hresult⟩
    | none =>
      obtain ⟨e, next, hstep, hgives⟩ := exists_step s past hpaced hresult
      obtain ⟨trace, w', result, hrun, hall, hend⟩ :=
        ih next.remaining (hremaining ▸ hstep.remaining_lt) (past ++ [e]) (hstep.paced hpaced) rfl
      exact ⟨e :: trace, w', result, .cons hstep hrun, ⟨hgives, hall⟩, hend⟩

end KeySetWrite

/-! ## Calls -/

/-- A call for an active version or for a new one makes one attempt more than there are conflicts,
up to the number of retries, and ends as the last attempt ends. Each attempt fetches and plans
anew. Between two attempts the pause of the policy passes, and of all attempts together one makes
key material at most, and none if none needs a version. -/
theorem Call.attempts_exact {rsaBits owner : ℕ} {member : Member} {cache : Cache} {errand : Errand}
    {text : String} {name : KeySetName} {keyType : KeyType} (herrand : errand ≠ .keySet)
    (hname : KeySetName.ofText? text = some name)
    (hdelays : member.options.writeRetry.DefinedTo member.options.writeRetry.maxRetries) :
    ∃ r : WriteRequest,
      r = ⟨member.target, name, keyType, errand = .rotate, member.options.writeRetry⟩ ∧
      start owner member cache errand text keyType =
        ⟨owner, errand, text, some (.start r), none, none⟩ ∧
      (∀ c : Call, c.errand = errand → ∀ now result, c.outcome now result = result) ∧
      (∀ s : Surroundings, ∃ trace w result, KeySetWrite.Run rsaBits (.start r) trace w ∧
        s.GivesAll [] trace ∧ w.result? = some result) ∧
      ∀ trace w, KeySetWrite.Run rsaBits (.start r) trace w →
        trace.length ≤ 4 * r.retry.maxRetries + 3 ∧
        ∀ result, w.result? = some result → ∃ attempts,
          Attempts rsaBits r 0 none attempts trace ∧
          attempts.length =
            1 + min r.retry.maxRetries (attempts.takeWhile Attempt.conflicts).length ∧
          attempts.getLast?.map Attempt.result = some result ∧
          trace.countP Exchange.isGeneration ≤ 1 ∧
          ((∀ a ∈ attempts, ¬ a.NeedsVersion r) → trace.countP Exchange.isGeneration = 0) := by
  refine ⟨_, rfl, ?_, ?_, fun s => ?_, fun trace w hrun => ⟨hrun.length_le, ?_⟩⟩
  · rw [start, KeySetName.ofText, hname]
    cases errand with
    | keySet => exact absurd rfl herrand
    | ensure => rfl
    | rotate => rfl
  · rintro c rfl now result
    unfold outcome
    split
    next hkeySet => exact absurd hkeySet herrand
    next => rfl
  · exact KeySetWrite.exists_run s [] ⟨hdelays, fun _ hdelay => by cases hdelay⟩
  · intro result hresult
    obtain ⟨attempts, hattempts, hlast⟩ := KeySetWrite.exists_attempts rfl hrun hresult
    exact ⟨attempts, hattempts, hattempts.length_eq, hlast, hattempts.generations_le,
      hattempts.generations_eq_zero⟩

/-- A request for an active version of the sample set. -/
def WriteRequest.sample : WriteRequest :=
  ⟨⟨"n", "o"⟩, .sample, .symmetricAead, false, .standard⟩

/-- What a writer exchanges that meets a conflict first and an active version then. -/
def Exchange.conflictThenActive : List Exchange :=
  [WriteRequest.sample.fetch (.error (.conflict "n/o" "1" "2")), .pause (Duration.ofMillis 50),
    WriteRequest.sample.fetch (.ok (some (.withSet .sample (.single .firstZeros))))]

theorem KeySetWrite.exists_run_sample : ∃ w,
    Run 2048 (.start .sample) Exchange.conflictThenActive w ∧ w.result? = some (.ok .first) := by
  obtain ⟨key, hkey⟩ := KeyRecord.load_firstZeros
  have hloads := KeySet.loadsActive_single hkey
  rw [← StoredObject.get?_withSet .sample] at hloads
  have hdelay : RetryPolicy.standard.delay? 1 = some (Duration.ofMillis 50) := by decide +kernel
  obtain ⟨again, hagain⟩ : ∃ again : KeySetWrite, again = ⟨.sample, 1, none, .fetching⟩ := ⟨_, rfl⟩
  have hresult : (again.fetched .empty
      (.ok (some (.withSet .sample (.single .firstZeros))))).1.result? = some (.ok .first) := by
    rw [hagain]
    exact (result?_fetched rfl).2 (KeySetPlan.make_unchanged_iff.2 ⟨hloads, by decide⟩)
  have hfail : Step 2048 (.start .sample)
      (WriteRequest.sample.fetch (.error (.conflict "n/o" "1" "2")))
      ⟨.sample, 1, none, .pausing (RetryPolicy.standard.delay? 1)⟩ := .fetch rfl _
  have hpause : Step 2048 ⟨.sample, 1, none, .pausing (RetryPolicy.standard.delay? 1)⟩
      (.pause (Duration.ofMillis 50)) again := by
    rw [hagain]
    exact .pause (congrArg WritePhase.pausing hdelay)
  have hfound : Step 2048 again
      (WriteRequest.sample.fetch (.ok (some (.withSet .sample (.single .firstZeros)))))
      (again.fetched .empty (.ok (some (.withSet .sample (.single .firstZeros))))).1 := by
    rw [hagain]
    exact .fetch rfl _
  exact ⟨_, .cons hfail (.cons hpause (.cons hfound (.nil _))), hresult⟩

/-- A call that meets a conflict and then finds an active version has made its attempts like
that. -/
theorem Call.attempts_conflictThenActive : ∃ attempts,
    Attempts 2048 .sample 0 none attempts Exchange.conflictThenActive ∧
      attempts.length = 1 + min 5 (attempts.takeWhile Attempt.conflicts).length ∧
      attempts.getLast?.map Attempt.result = some (.ok .first) := by
  obtain ⟨w, hrun, hresult⟩ := KeySetWrite.exists_run_sample
  have herrand : Errand.ensure ≠ .keySet := by decide
  obtain ⟨r, rfl, -, -, -, hexact⟩ := @attempts_exact 2048 0 ⟨⟨"n", "o"⟩, .standard⟩ .empty .ensure
    _ .sample .symmetricAead herrand (KeySetName.ofText?_text .sample)
    (RetryPolicy.definedTo_standard _)
  obtain ⟨attempts, hattempts, hlength, hlast, -⟩ := (hexact _ w hrun).2 _ hresult
  exact ⟨attempts, hattempts, hlength, hlast⟩

end Keyring
