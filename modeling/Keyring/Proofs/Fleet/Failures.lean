import Keyring.Proofs.Fleet.Creations

/-!
# Failures that blame no key

The store, the reading of what it has stored and the making of keys fail for reasons of their own.
That a set has no active version, or one of another kind, is said of rotations and of caches only.
So a call that rotates nothing never says it, as long as the cache has the set after each write that
ends well.
-/
namespace Keyring

variable {α : Type}

namespace KeyError

/-- Whether a failure, or the one inside, is about an active version that is missing or of another
kind. -/
def blamesKey : KeyError → Bool
  | .notInitialized _ | .wrongKeyType .. => true
  | .creationFailed _ cause => cause.blamesKey
  | _ => false

attribute [simp] blamesKey

end KeyError

/-- A result that is no failure about an active version. -/
def BlamesNoKey (result : Except KeyError α) : Prop :=
  ∀ failure, result = .error failure → failure.blamesKey = false

@[simp] theorem blamesNoKey_ok (value : α) : BlamesNoKey (.ok value : Except KeyError α) := by
  intro failure hfailure
  cases hfailure

@[simp] theorem blamesNoKey_error {failure : KeyError} :
    BlamesNoKey (.error failure : Except KeyError α) ↔ failure.blamesKey = false := by
  constructor
  · exact fun h => h failure rfl
  · intro h other hother
    rwa [← Except.error.inj hother]

theorem BlamesNoKey.map {β : Type} {result : Except KeyError α} (h : BlamesNoKey result)
    (f : α → β) : BlamesNoKey (result.map f) := by
  cases result with
  | ok value => exact blamesNoKey_ok (f value)
  | error failure => exact blamesNoKey_error.2 (blamesNoKey_error.1 h)

/-! ## Keys and plans -/

namespace SigningKey

theorem blamesNoKey_load (record : KeyRecord) : BlamesNoKey (load record) := by
  unfold load
  split
  · split <;> simp
  · simp [KeyRecord.kindMismatch]

theorem blamesNoKey_generate (id : KeyId) (bits : ℕ) (now : Timestamp) (pool : Entropy) :
    BlamesNoKey (generate id bits now pool).1 := by
  unfold generate
  split
  · simp
  · split
    next =>
      dsimp only
      exact blamesNoKey_load _
    next => simp

end SigningKey

theorem Key.blamesNoKey_generate (keyType : KeyType) (id : KeyId) (bits : ℕ) (now : Timestamp)
    (pool : Entropy) : BlamesNoKey (generate keyType id bits now pool).1 := by
  cases keyType with
  | asymmetricSigning => exact (SigningKey.blamesNoKey_generate id bits now pool).map _
  | symmetricAead => exact blamesNoKey_ok _

theorem KeySetData.blamesNoKey_ofBytes (name : KeySetName) (bytes : Bytes) :
    BlamesNoKey (ofBytes name bytes) := by
  unfold ofBytes
  split <;> simp

namespace KeySetPlan

/-- Without a rotation, a plan asks for no kind of the active version. -/
theorem blamesNoKey_make (name : KeySetName) (stored : Option Bytes) (keyType : KeyType) :
    BlamesNoKey (make name stored keyType false) := by
  unfold make
  split
  next failure hfailure =>
    cases stored with
    | none => cases hfailure
    | some bytes => exact blamesNoKey_error.2 (KeySetData.blamesNoKey_ofBytes name bytes _ hfailure)
  next data _ =>
    dsimp only
    split
    · split <;> simp
    · simp

/-- Key material of the kind that was planned for is stored. -/
theorem exists_finish {name : KeySetName} {stored : Option Bytes} {keyType : KeyType}
    {rotate : Bool} {pending : PendingVersion}
    (h : make name stored keyType rotate = .ok (.needsVersion pending)) {material : KeyRecord}
    (hmaterial : material.keyType = keyType) : ∃ bytes, pending.finish material = .ok bytes := by
  obtain ⟨data, -, ⟨-, -, hkeeps⟩ | ⟨id, -, -, hneeds⟩⟩ := make_ok_cases h
  · cases hkeeps
  · obtain rfl := KeySetPlan.needsVersion.inj hneeds
    rw [PendingVersion.finish, if_neg (not_not.2 hmaterial)]
    exact ⟨_, rfl⟩

end KeySetPlan

/-! ## The store -/

namespace MemoryStore

theorem blamesNoKey_get (s : MemoryStore) (name : ObjectName) : BlamesNoKey (s.get name).2 := by
  unfold get
  split <;> simp

theorem blamesNoKey_create (s : MemoryStore) (object : StoredObject) :
    BlamesNoKey (s.create object).2 := by
  unfold create
  split <;> simp

theorem blamesNoKey_update (s : MemoryStore) (object : StoredObject) :
    BlamesNoKey (s.update object).2 := by
  unfold update
  split
  · simp
  · split <;> simp

end MemoryStore

/-- An answer that is no failure about an active version. -/
def StoreAnswer.BlamesNoKey : StoreAnswer → Prop
  | .found result => Keyring.BlamesNoKey result
  | .written result => Keyring.BlamesNoKey result

/-! ## Writes -/

/-- A write that has not failed, or whose failure is not about an active version. -/
def WritePhase.BlamesNoKey : WritePhase → Prop
  | .finished result => Keyring.BlamesNoKey result
  | _ => True

namespace KeySetWrite

variable {w : KeySetWrite}

theorem blamesNoKey_fail {failure : KeyError} (h : failure.blamesKey = false) :
    (w.fail failure).phase.BlamesNoKey := by
  unfold fail
  split
  · trivial
  · exact blamesNoKey_error.2 h

/-- Material that fits the request goes on to the store. -/
theorem blamesNoKey_prepare {stored : Option Bytes} {pending : PendingVersion}
    (hplan : KeySetPlan.make w.request.name stored w.request.keyType w.request.rotate =
      .ok (.needsVersion pending)) {material : KeyRecord} (hfits : w.request.Fits material)
    (fetched : StoredObject) : (w.prepare fetched pending material).phase.BlamesNoKey := by
  obtain ⟨bytes, hfinish⟩ := KeySetPlan.exists_finish hplan hfits.keyType
  unfold prepare
  rw [hfinish]
  trivial

theorem blamesNoKey_fetched (hrotate : w.request.rotate = false)
    (hfits : ∀ material, w.material = some material → w.request.Fits material) (cache : Cache)
    {result : Except KeyError (Option StoredObject)} (hresult : BlamesNoKey result) :
    (w.fetched cache result).1.phase.BlamesNoKey := by
  unfold fetched
  split
  next failure => exact blamesNoKey_fail (blamesNoKey_error.1 hresult)
  next found =>
    dsimp only
    split
    next failure hplan =>
      rw [hrotate] at hplan
      exact blamesNoKey_fail (KeySetPlan.blamesNoKey_make _ _ _ failure hplan)
    next => exact blamesNoKey_ok _
    next pending hplan =>
      split
      next material hmaterial => exact blamesNoKey_prepare hplan (hfits material hmaterial) _
      next => trivial

theorem blamesNoKey_stored (id : KeyId) (cache : Cache) {result : Except KeyError StoredObject}
    (hresult : BlamesNoKey result) : (w.stored id cache result).1.phase.BlamesNoKey := by
  unfold stored
  split
  next failure => exact blamesNoKey_fail (blamesNoKey_error.1 hresult)
  next => exact blamesNoKey_ok id

end KeySetWrite

/-! ## Calls -/

namespace Call

variable {w w' : KeySetWrite} {s s' : MemoryStore} {cache cache' : Cache}

theorem blamesNoKey_ask? {answer : StoreAnswer} (h : ask? w s = some (s', answer)) :
    answer.BlamesNoKey := by
  unfold ask? at h
  split at h
  next =>
    obtain ⟨-, rfl⟩ := Prod.mk.inj (Option.some.inj h)
    exact s.blamesNoKey_get w.request.target
  next object id _ =>
    obtain ⟨-, rfl⟩ := Prod.mk.inj (Option.some.inj h)
    by_cases hcreation : KeySetWrite.isCreation object = true
    · rw [if_pos hcreation]
      exact s.blamesNoKey_create object
    · rw [if_neg hcreation]
      exact s.blamesNoKey_update object
  next => cases h

theorem blamesNoKey_look? (hrotate : w.request.rotate = false)
    (hfits : ∀ material, w.material = some material → w.request.Fits material)
    {answer : StoreAnswer} (hanswer : answer.BlamesNoKey)
    (h : look? w cache answer = some (w', cache')) : w'.phase.BlamesNoKey := by
  cases answer with
  | found result =>
    simp only [look?] at h
    split at h
    next =>
      obtain ⟨rfl, -⟩ := Prod.mk.inj (Option.some.inj h)
      exact KeySetWrite.blamesNoKey_fetched hrotate hfits cache hanswer
    next => cases h
  | written result =>
    simp only [look?] at h
    split at h
    next object id _ =>
      obtain ⟨rfl, -⟩ := Prod.mk.inj (Option.some.inj h)
      exact KeySetWrite.blamesNoKey_stored id cache hanswer
    next => cases h

theorem blamesNoKey_generate? (hprepared : w.Prepared s) {rsaBits : ℕ} {now : Timestamp}
    {pool : Entropy} (h : generate? w rsaBits now pool = some w') : w'.phase.BlamesNoKey := by
  unfold generate? at h
  split at h
  next fetched pending hphase =>
    rw [← Option.some.inj h]
    have hblames := Key.blamesNoKey_generate w.request.keyType .none rsaBits now pool
    cases hkey : (Key.generate w.request.keyType .none rsaBits now pool).1 with
    | error failure => exact KeySetWrite.blamesNoKey_fail (hblames failure hkey)
    | ok key =>
      have hplan := (hprepared.generating fetched pending hphase).plan
      exact KeySetWrite.blamesNoKey_prepare (w := { w with material := some key.record }) hplan
        (WriteRequest.fits_of_generate hkey) fetched
  next => cases h

theorem blamesNoKey_wake? (h : wake? w = some w') : w'.phase.BlamesNoKey := by
  unfold wake? at h
  split at h
  next =>
    rw [← Option.some.inj h]
    trivial
  next => cases h

/-- A call that rotates nothing, none of whose failures is about an active version. -/
structure BlamesNoKey (c : Call) : Prop where
  request : ∀ w, c.write = some w → w.request.rotate = false
  answer : ∀ answer, c.answer = some answer → answer.BlamesNoKey
  write : ∀ w, c.write = some w → w.phase.BlamesNoKey
  told : ∀ result, c.result = some result → Keyring.BlamesNoKey result

theorem blamesNoKey_start (owner : ℕ) (member : Member) (cache : Cache) {errand : Errand}
    (herrand : errand ≠ .rotate) (name : String) (keyType : KeyType) :
    (start owner member cache errand name keyType).BlamesNoKey := by
  refine ⟨?_, ?_, ?_, ?_⟩
  · intro w hw
    exact (write_start hw).2.1.trans (decide_eq_false herrand)
  · intro answer hanswer
    rw [answer_start] at hanswer
    cases hanswer
  · intro w hw
    rw [(write_start hw).2.2]
    trivial
  · intro result hresult
    unfold start at hresult
    split at hresult
    next failure hname =>
      rw [← Option.some.inj hresult]
      unfold KeySetName.ofText at hname
      split at hname
      next => cases hname
      next => exact Except.error.inj hname ▸ blamesNoKey_error.2 rfl
    next =>
      dsimp only at hresult
      split at hresult
      next => exact Option.some.inj hresult ▸ blamesNoKey_ok _
      next => cases hresult

/-- What the caller is told at the end of a write, if the cache has the set after one that ended
well. -/
theorem blamesNoKey_outcome {c : Call} {result : Except KeyError KeyId}
    (hresult : Keyring.BlamesNoKey result)
    (hactive : ∀ id, result = .ok id → ∃ key, cache.activeKey c.name = .ok key) :
    Keyring.BlamesNoKey (c.outcome cache result) := by
  unfold outcome
  split
  next =>
    split
    next => exact blamesNoKey_ok _
    next id failure hfailure =>
      obtain ⟨key, hkey⟩ := hactive id rfl
      rw [hkey] at hfailure
      cases hfailure
    next failure _ =>
      have hcause := blamesNoKey_error.1 hresult
      exact blamesNoKey_error.2 hcause
  next => exact hresult

/-- A step of such a call, if the cache has the set after a write that ended well. -/
theorem BlamesNoKey.step? {c c' : Call} (h : c.BlamesNoKey) (hprepared : c.Prepared s)
    (hactive : ∀ w id, c.write = some w → w.phase = .finished (.ok id) →
      ∃ key, cache.activeKey c.name = .ok key) {rsaBits : ℕ} {step : CallStep}
    (hstep : c.step? rsaBits s cache step = some (s', cache', c')) : c'.BlamesNoKey := by
  have hrequest : ∀ w', c'.write = some w' → w'.request.rotate = false := by
    intro w' hw'
    obtain ⟨w, hw, hsame⟩ := (step?_about hstep).2 w' hw'
    rw [hsame]
    exact h.request w hw
  rcases step?_cases hstep with ⟨w, answer, -, -, -, hask, -, rfl⟩ |
    ⟨w, answer, next, -, hw, hanswer, hlook, -, rfl⟩ | ⟨w, next, hkind, hw, -, -, rfl⟩ |
    ⟨w, result, -, hw, hresult, -, -, rfl⟩
  · refine ⟨hrequest, ?_, h.write, h.told⟩
    intro told htold
    rw [← Option.some.inj htold]
    exact blamesNoKey_ask? hask
  · refine ⟨hrequest, ?_, ?_, h.told⟩
    · intro told htold
      cases htold
    · intro v hv
      rw [← Option.some.inj hv]
      exact blamesNoKey_look? (h.request w hw) (hprepared w hw).material (h.answer answer hanswer)
        hlook
  · refine ⟨hrequest, h.answer, ?_, h.told⟩
    intro v hv
    rw [← Option.some.inj hv]
    rcases hkind with ⟨now, pool, -, hgenerate⟩ | ⟨-, hwake⟩
    · exact blamesNoKey_generate? (hprepared w hw) hgenerate
    · exact blamesNoKey_wake? hwake
  · refine ⟨hrequest, h.answer, h.write, ?_⟩
    intro told htold
    rw [← Option.some.inj htold]
    have hphase := KeySetWrite.phase_of_result? hresult
    apply blamesNoKey_outcome
    · have hwrite := h.write w hw
      rw [hphase] at hwrite
      exact hwrite
    · rintro id rfl
      exact hactive w id hw hphase

end Call
end Keyring
