import Keyring.Proofs.Fleet.Convergence
import Keyring.Proofs.Fleet.Endings
import Keyring.Proofs.Fleet.Failures

/-!
# Callers see their own writes

A write that ends well hands the object that it has stored or found to the cache of its process, or
the cache has a later version already. The set has the version of the write in the object then, and
ledgers lose no record, so the cache has an active version from then on, whatever watch loops and
other processes do.
-/
namespace Keyring

variable {target : ObjectName} {text : String} {version : ℕ} {id : KeyId}

namespace Fleet

variable {members : ℕ → Member} {fleet next last : Fleet} {actions : List Action}

/-- In the run, a look of the call at that object ends its write well, with that number. -/
def Ended (members : ℕ → Member) (first : Fleet) (actions : List Action) (i : ℕ)
    (object : StoredObject) (id : KeyId) : Prop :=
  ∃ before after fleet next c c', actions = before ++ .call i .look :: after ∧
    first.run? members before = some fleet ∧ fleet.step? members (.call i .look) = some next ∧
    fleet.call i = some c ∧ c.answer.bind StoreAnswer.object? = some object ∧
    next.call i = some c' ∧ c'.write.bind KeySetWrite.result? = some (.ok id)

theorem Ended.append {first : Fleet} {i : ℕ} {object : StoredObject}
    (h : Ended members first actions i object id) (more : List Action) :
    Ended members first (actions ++ more) i object id := by
  obtain ⟨before, after, fleet, next, c, c', rfl, hrest⟩ := h
  exact ⟨before, after ++ more, fleet, next, c, c', by simp, hrest⟩

/-- A call stays a call of its process about its set. -/
theorem exists_call_later {i : ℕ} {c : Call} (hc : fleet.call i = some c)
    (h : fleet.run? members actions = some last) :
    ∃ c', last.call i = some c' ∧ c'.owner = c.owner ∧ c'.name = c.name := by
  refine runSteps?_induction (P := fun _ last => ∃ c', last.call i = some c' ∧ c'.owner = c.owner ∧
    c'.name = c.name) ⟨c, hc, rfl, rfl⟩ ?_ h
  rintro actions action before after - ⟨d, hd, howner, hname⟩ hstep
  rcases step?_cases hstep with ⟨step, store, -, -, rfl⟩ |
    ⟨j, owner, errand, name, keyType, -, hnone, rfl⟩ |
    ⟨j, step, e, store, cache, e', -, he, hcall, rfl⟩ | ⟨k, owner, -, -, rfl⟩ |
    ⟨k, step, w, store, cache, w', -, -, -, rfl⟩
  · exact ⟨d, hd, howner, hname⟩
  · have hne : i ≠ j := by
      rintro rfl
      rw [hd] at hnone
      cases hnone
    exact ⟨d, by simpa [setCall, hne] using hd, howner, hname⟩
  · by_cases hj : i = j
    · subst hj
      obtain rfl := Option.some.inj (hd.symm.trans he)
      refine ⟨e', by simp [setCall], ?_, ?_⟩
      · exact (Call.step?_same hcall).1.trans howner
      · exact (Call.step?_about hcall).1.trans hname
    · exact ⟨d, by simpa [setCall, advance, hj] using hd, howner, hname⟩
  · exact ⟨d, hd, howner, hname⟩
  · exact ⟨d, hd, howner, hname⟩

/-- The step of a call, with the store and the cache that it leaves behind. -/
theorem exists_call_step {i : ℕ} {step : CallStep}
    (h : fleet.step? members (.call i step) = some next) :
    ∃ c c', fleet.call i = some c ∧ next.call i = some c' ∧
      c.step? (members c.owner).options.rsaBits fleet.store (fleet.cache c.owner) step =
        some (next.store, next.cache c.owner, c') := by
  obtain ⟨c, hc, hmap⟩ := Option.bind_eq_some_iff.1 h
  obtain ⟨⟨store, cache, c'⟩, hcall, rfl⟩ := Option.map_eq_some_iff.1 hmap
  refine ⟨c, c', hc, by simp [setCall], ?_⟩
  rw [hcall]
  simp [setCall, advance]

/-- A plan that keeps a version was made on an object whose ledger ends with it. -/
theorem shows_of_plan (h : start.run? members actions = some fleet) (hquiet : Quiet target actions)
    {object : StoredObject}
    (hattests : fleet.store.Attests target object.resourceVersion (some object))
    {name : KeySetName} {keyType : KeyType} {rotate : Bool}
    (hplan : KeySetPlan.make name (object.data.get? name.field) keyType rotate =
      .ok (.unchanged id)) :
    ∃ version, object.resourceVersion = Decimal.ofNat version ∧
      fleet.store.Shows target name.text version id := by
  obtain ⟨version, hversion, htoken, hat⟩ := hattests
  have hfields : fleet.store.fieldsAt version target = object.data := by
    rw [MemoryStore.fieldsAt, hat]
    rfl
  obtain ⟨records, -, hrecords, -⟩ := (kept_start members target).ledgerAt_grows hquiet h
    (Nat.zero_le version) (Nat.le_refl version) hversion name
  have hledger : LedgerAt object.data name records := hfields ▸ hrecords
  have hkeeps : rotate = false := by
    obtain ⟨data, -, ⟨hkeeps, -, -⟩ | ⟨next, -, -, hneeds⟩⟩ := KeySetPlan.make_ok_cases hplan
    · exact hkeeps
    · cases hneeds
  subst hkeeps
  rcases hledger.make_ok_cases hplan with ⟨kept, hsame, hid, hne⟩ | ⟨pending, hneeds, -⟩
  · obtain rfl := KeySetPlan.unchanged.inj hsame
    have hlength := List.length_pos_of_ne_nil hne
    exact ⟨version, htoken, hversion, by omega, name, records, rfl, hrecords, by omega⟩
  · cases hneeds

/-- The active version in a cache is the last one of the ledger at the version of the cache. -/
theorem shows_of_activeKey (h : start.run? members actions = some fleet)
    (hquiet : Quiet target actions) {i : ℕ} (hi : (members i).target = target) {key : Key}
    (hkey : (fleet.cache i).activeKey text = .ok key) :
    ∃ version : ℕ, (version : ℤ) ≤ (fleet.cache i).resourceVersion ∧
      fleet.store.Shows target text version key.id := by
  obtain ⟨hsound, -, -⟩ := run?_spec (.start members) h
  obtain ⟨keySet, hset, hactive⟩ := Cache.activeKey_eq_ok_iff.1 hkey
  have hsince : (fleet.cache i).Since 0 := by
    obtain ⟨version, -, hcached, -⟩ := hsound.caches i
    exact Or.inr (by omega)
  obtain ⟨version, name, hcached, -, hversion, rfl, hloaded⟩ :=
    hsound.loaded_of_cached hi hsince hset
  obtain ⟨records, -, hrecords, -⟩ := (kept_start members target).ledgerAt_grows hquiet h
    (Nat.zero_le version) (Nat.le_refl version) hversion name
  obtain ⟨data, hledger, rfl⟩ := hrecords.ledger_of_loaded hloaded
  obtain ⟨hmem, hid⟩ := hledger.active?_ofData hactive
  have hlength := List.length_pos_of_mem hmem
  exact ⟨version, by omega, hversion, by omega, name, records, rfl, hrecords, by omega⟩

/-- A cache at the version of a record or at a later one has an active version. -/
theorem activeKey_of_shows (h : start.run? members actions = some fleet)
    (hquiet : Quiet target actions) {i : ℕ} (hi : (members i).target = target)
    (hshows : fleet.store.Shows target text version id)
    (hle : (version : ℤ) ≤ (fleet.cache i).resourceVersion) :
    ∃ key, (fleet.cache i).activeKey text = .ok key ∧ id.val ≤ key.id.val := by
  obtain ⟨hsound, -, -⟩ := run?_spec (.start members) h
  obtain ⟨later, hlater, hcached, hkeySets⟩ := hsound.caches i
  obtain ⟨name, records, rfl, hledger, hid⟩ := hshows.ledger
  obtain ⟨records', more, hrecords, hmore⟩ := (kept_start members target).ledgerAt_grows hquiet h
    (Nat.zero_le version) (by omega : version ≤ later) hlater name
  obtain rfl := hledger.unique hrecords
  have hpositive := hshows.positive
  have hne : records ++ more ≠ [] := by
    intro hnil
    rw [(List.append_eq_nil_iff.1 hnil).1, List.length_nil] at hid
    omega
  obtain ⟨data, hdata, hloaded⟩ := hmore.loaded_of_ne_nil hne
  obtain ⟨key, hactive, -⟩ := hdata.exists_active?_ofData hne
  refine ⟨key, Cache.activeKey_eq_ok_iff.2 ⟨KeySet.ofData data, ?_, hactive⟩, ?_⟩
  · rw [hkeySets, hi]
    exact KeySets.get?_ofObject?_eq_some_iff.2 ⟨name, rfl, hloaded⟩
  · rw [(hdata.active?_ofData hactive).2, List.length_append]
    omega

/-- Calls are told of writes only that the object has. -/
theorem vouched (h : start.run? members actions = some fleet) (hquiet : Quiet target actions)
    {i : ℕ} {c : Call} (hc : fleet.call i = some c) (htarget : (members c.owner).target = target) :
    c.Vouched fleet.store target := by
  revert hquiet c
  refine runSteps?_induction (P := fun actions fleet => Quiet target actions → ∀ {c : Call},
    fleet.call i = some c → (members c.owner).target = target → c.Vouched fleet.store target)
    ?_ ?_ h
  · intro _ c hc
    cases hc
  · intro actions action before after hrun ih hstep hquiet c hc htarget
    have hquietBefore : Quiet target actions := fun a ha => hquiet a (List.mem_append_left _ ha)
    have hbefore := ((kept_start members target).run? hquietBefore hrun).1
    obtain ⟨hafter, hstepped⟩ := step?_spec hbefore.sound hstep
    rcases call_of_step? hstep hc with hold | ⟨owner, errand, name, keyType, -, -, rfl⟩ |
      ⟨step, d, cache, rfl, hd, hcall⟩
    · exact (ih hquietBefore hold htarget).later hstepped.leads
    · exact .of_unanswered (Call.answer_start owner (members owner) _ errand name keyType)
    · have howner := (Call.step?_same hcall).1
      refine (ih hquietBefore hd (howner ▸ htarget)).step? hstepped.leads ?_ hcall
      rintro w object id written rfl hw hphase hanswer
      rcases hbefore.step?_cases (hquiet _ (by simp)) hstep with ⟨-, hunwritten⟩ |
        ⟨j, e, v, object', records, record, haction, he, hv, hstoring, happends⟩
      · exact absurd ⟨i, c, written, rfl, hc, htarget, hanswer⟩ hunwritten
      · obtain ⟨rfl, -⟩ := Action.call.inj haction
        obtain rfl := Option.some.inj (hd.symm.trans he)
        obtain rfl := Option.some.inj (hw.symm.trans hv)
        obtain ⟨-, rfl⟩ := WritePhase.storing.inj (hstoring.symm.trans hphase)
        have hattests : after.store.Attests target written.resourceVersion (some written) := by
          have hsound := (hafter.calls i c hc).answer _ hanswer
          rwa [htarget] at hsound
        obtain ⟨version, hversion, htoken, hat⟩ := hattests
        have hfields : after.store.fieldsAt version target = after.store.fields target := by
          obtain ⟨u, answer, hu, -, hask, -, rfl⟩ := Call.step?_ask hcall
          obtain rfl := Option.some.inj (hw.symm.trans hu)
          obtain rfl := Option.some.inj hanswer
          have hsound := (hbefore.sound.calls i d hd).write w hw
          rw [htarget] at hsound
          rw [MemoryStore.fieldsAt, hat, Call.fields_of_written hsound hask]
          rfl
        have hid := happends.id_eq
        refine ⟨version, htoken, hversion, by omega, w.request.name, records ++ [record],
          request_name hrun hd hw, hfields ▸ happends.new, ?_⟩
        rw [List.length_append, List.length_singleton]
        omega

/-- An object that ends a write well shows the version that the write tells. -/
theorem shows_of_look (h : start.run? members actions = some fleet) (hquiet : Quiet target actions)
    {i : ℕ} {c : Call} (hc : fleet.call i = some c) (htarget : (members c.owner).target = target)
    {w w' : KeySetWrite} (hw : c.write = some w) {answer : StoreAnswer}
    (hanswer : c.answer = some answer) {cache cache' : Cache}
    (hlook : Call.look? w cache answer = some (w', cache'))
    (hphase : w'.phase = .finished (.ok id)) :
    ∃ object version, answer.object? = some object ∧ cache' = (cache.update object).1 ∧
      object.resourceVersion = Decimal.ofNat version ∧
      fleet.store.Shows target c.name version id := by
  obtain ⟨object, hobject, hcache, hplan | ⟨prepared, hstoring, rfl⟩⟩ :=
    Call.look?_ended hlook hphase
  · obtain ⟨hsound, -, -⟩ := run?_spec (.start members) h
    have hattests := ((hsound.calls i c hc).answer answer hanswer).attests hobject
    rw [htarget] at hattests
    obtain ⟨version, htoken, hshows⟩ := shows_of_plan h hquiet hattests hplan
    rw [request_name h hc hw] at hshows
    exact ⟨object, version, hobject, hcache, htoken, hshows⟩
  · obtain ⟨version, htoken, hshows⟩ :=
      (vouched h hquiet hc htarget).written w prepared id object hw hstoring hanswer
    exact ⟨object, version, hobject, hcache, htoken, hshows⟩

/-- What a write has ended with is in the cache of its process from then on. -/
theorem Ended.shows {i : ℕ} {object : StoredObject}
    (hended : Ended members start actions i object id)
    (h : start.run? members actions = some last) (hquiet : Quiet target actions)
    (hlimit : last.store.version < Cache.versionLimit) {c : Call} (hc : last.call i = some c)
    (htarget : (members c.owner).target = target) :
    ∃ version, object.resourceVersion = Decimal.ofNat version ∧
      (version : ℤ) ≤ (last.cache c.owner).resourceVersion ∧
      last.store.Shows target c.name version id := by
  obtain ⟨before, after, fleet, next, d, d', rfl, hrun, hstep, hd, htold, hd', hresult⟩ := hended
  have hquietBefore : Quiet target before := fun a ha => hquiet a (by simp [ha])
  obtain ⟨hsound, -, -⟩ := run?_spec (.start members) hrun
  obtain ⟨hnext, hstepped⟩ := step?_spec hsound hstep
  simp only [runSteps?_append, hrun, runSteps?_cons, hstep, Option.bind_some] at h
  obtain ⟨-, hleads, hgrows⟩ := run?_spec hnext h
  obtain ⟨e, e', he, he', hcall⟩ := exists_call_step hstep
  obtain rfl := Option.some.inj (hd.symm.trans he)
  obtain rfl := Option.some.inj (hd'.symm.trans he')
  -- the call of the end is the one that has looked
  obtain ⟨c', hc', howner, hname⟩ := exists_call_later hd' h
  obtain rfl := Option.some.inj (hc.symm.trans hc')
  rw [(Call.step?_same hcall).1] at howner
  rw [(Call.step?_about hcall).1] at hname
  rw [howner] at htarget ⊢
  rw [hname]
  obtain ⟨w', hw', hfinished⟩ := Option.bind_eq_some_iff.1 hresult
  obtain ⟨w, answer, v, hw, hanswer, hlook, -, rfl⟩ := Call.step?_look hcall
  obtain rfl := Option.some.inj hw'
  obtain ⟨shown, version, hshown, hcache, htoken, hshows⟩ := shows_of_look hrun hquietBefore hd
    htarget hw hanswer hlook (KeySetWrite.phase_of_result? hfinished)
  rw [hanswer, Option.bind_some, hshown, Option.some.injEq] at htold
  subst htold
  have hleadsAll := hstepped.leads.trans hleads
  have hbelow : version < Cache.versionLimit :=
    Nat.lt_of_le_of_lt (hshows.later hleadsAll).written hlimit
  have hle : (version : ℤ) ≤ (next.cache d.owner).resourceVersion := by
    rw [hcache]
    exact Cache.le_resourceVersion_update _ htoken hbelow
  exact ⟨version, htoken, Int.le_trans hle (hgrows d.owner), hshows.later hleadsAll⟩

/-- Whoever is told of an end of a write, a look of the call has ended it. -/
theorem traced (h : start.run? members actions = some last) {i : ℕ} {c : Call}
    (hc : last.call i = some c) :
    c.Traced fun id => ∃ object, Ended members start actions i object id := by
  revert c
  refine runSteps?_induction (P := fun actions last => ∀ {c : Call}, last.call i = some c →
    c.Traced fun id => ∃ object, Ended members start actions i object id) ?_ ?_ h
  · intro c hc
    cases hc
  · intro actions action before after hrun ih hstep c hc
    have hmono : ∀ id, (∃ object, Ended members start actions i object id) →
        ∃ object, Ended members start (actions ++ [action]) i object id := by
      rintro id ⟨object, hended⟩
      exact ⟨object, hended.append [action]⟩
    rcases call_of_step? hstep hc with hold | ⟨owner, errand, name, keyType, -, -, rfl⟩ |
      ⟨step, d, cache, rfl, hd, hcall⟩
    · exact (ih hold).mono hmono
    · exact Call.traced_start owner (members owner) _ errand name keyType _
    · refine (ih hd).step? hmono ?_ hcall
      rintro w id rfl hw hphase
      obtain ⟨v, answer, w', -, hanswer, hlook, -, rfl⟩ := Call.step?_look hcall
      obtain rfl := Option.some.inj hw
      obtain ⟨object, hobject, -, -⟩ := Call.look?_ended hlook hphase
      refine ⟨object, actions, [], before, after, d, _, rfl, hrun, hstep, hd, ?_, hc, ?_⟩
      · rw [hanswer]
        exact hobject
      · simp [KeySetWrite.result?, hphase]

/-- A handle is on a set that the cache of its process has from then on. -/
theorem handle_shows (h : start.run? members actions = some last) (hquiet : Quiet target actions)
    {i : ℕ} {c : Call} (hc : last.call i = some c) (htarget : (members c.owner).target = target)
    (herrand : c.errand = .keySet) (hresult : c.result = some (.ok id)) :
    ∃ version : ℕ, (version : ℤ) ≤ (last.cache c.owner).resourceVersion ∧
      last.store.Shows target c.name version id := by
  revert hquiet c
  refine runSteps?_induction (P := fun actions last => Quiet target actions → ∀ {c : Call},
    last.call i = some c → (members c.owner).target = target → c.errand = .keySet →
    c.result = some (.ok id) → ∃ version : ℕ,
      (version : ℤ) ≤ (last.cache c.owner).resourceVersion ∧
      last.store.Shows target c.name version id) ?_ ?_ h
  · intro _ c hc
    cases hc
  · intro actions action before after hrun ih hstep hquiet c hc htarget herrand hresult
    have hquietBefore : Quiet target actions := fun a ha => hquiet a (List.mem_append_left _ ha)
    have hstepped := (step?_spec (run?_spec (.start members) hrun).1 hstep).2
    suffices hat : ∃ version : ℕ, (version : ℤ) ≤ (before.cache c.owner).resourceVersion ∧
        before.store.Shows target c.name version id by
      obtain ⟨version, hle, hshows⟩ := hat
      exact ⟨version, Int.le_trans hle (hstepped.cache_le c.owner), hshows.later hstepped.leads⟩
    rcases call_of_step? hstep hc with hold | ⟨owner, errand, name, keyType, -, -, rfl⟩ |
      ⟨step, d, cache, -, hd, hcall⟩
    · exact ih hquietBefore hold htarget herrand hresult
    · obtain ⟨key, hkey, rfl⟩ := Call.result_start hresult
      rw [Call.owner_start] at htarget ⊢
      rw [Call.name_start]
      exact shows_of_activeKey hrun hquietBefore htarget hkey
    · obtain ⟨howner, hsame⟩ := Call.step?_same hcall
      rw [howner] at htarget ⊢
      rw [hsame] at herrand
      rcases Call.step?_cases hcall with ⟨w, answer, -, -, -, -, -, rfl⟩ |
        ⟨w, answer, v, -, -, -, -, -, rfl⟩ | ⟨w, v, -, -, -, -, rfl⟩ |
        ⟨w, result, -, -, -, -, -, rfl⟩
      · exact ih hquietBefore hd htarget herrand hresult
      · exact ih hquietBefore hd htarget herrand hresult
      · exact ih hquietBefore hd htarget herrand hresult
      · have htold : d.outcome (before.cache d.owner) result = .ok id := Option.some.inj hresult
        unfold Call.outcome at htold
        rw [herrand] at htold
        dsimp only at htold
        split at htold
        next key hkey =>
          obtain rfl := Except.ok.inj htold
          exact shows_of_activeKey hrun hquietBefore htarget hkey
        next => cases htold
        next => cases htold

/-- Calls that rotate nothing do not fail for a version that is missing or of another kind. -/
theorem blamesNoKey (h : start.run? members actions = some last) (hquiet : Quiet target actions)
    (hlimit : last.store.version < Cache.versionLimit) {i : ℕ} {c : Call}
    (hc : last.call i = some c) (htarget : (members c.owner).target = target)
    (herrand : c.errand ≠ .rotate) : c.BlamesNoKey := by
  revert hquiet hlimit c
  refine runSteps?_induction (P := fun actions last => Quiet target actions →
    last.store.version < Cache.versionLimit → ∀ {c : Call}, last.call i = some c →
    (members c.owner).target = target → c.errand ≠ .rotate → c.BlamesNoKey) ?_ ?_ h
  · intro _ _ c hc
    cases hc
  · intro actions action before after hrun ih hstep hquiet hlimit c hc htarget herrand
    have hquietBefore : Quiet target actions := fun a ha => hquiet a (List.mem_append_left _ ha)
    have hbefore := ((kept_start members target).run? hquietBefore hrun).1
    have hlimitBefore : before.store.version < Cache.versionLimit :=
      Nat.lt_of_le_of_lt (step?_spec hbefore.sound hstep).2.leads.version_le hlimit
    rcases call_of_step? hstep hc with hold | ⟨owner, errand, name, keyType, -, -, rfl⟩ |
      ⟨step, d, cache, -, hd, hcall⟩
    · exact ih hquietBefore hlimitBefore hold htarget herrand
    · rw [Call.errand_start] at herrand
      exact Call.blamesNoKey_start owner (members owner) _ herrand name keyType
    · obtain ⟨howner, hsame⟩ := Call.step?_same hcall
      rw [howner] at htarget
      rw [hsame] at herrand
      apply (ih hquietBefore hlimitBefore hd htarget herrand).step? (hbefore.prepared i d hd) ?_
        hcall
      intro w id hw hphase
      obtain ⟨object, hended⟩ := (traced hrun hd).finished w id hw hphase
      obtain ⟨version, -, hle, hshows⟩ :=
        hended.shows hrun hquietBefore hlimitBefore hd htarget
      obtain ⟨key, hkey, -⟩ := activeKey_of_shows hrun hquietBefore htarget hshows hle
      exact ⟨key, hkey⟩

/-- Processes begin at an empty store, no other program writes to their object, and versions fit
into caches. Then from a look on that ends the write of a call well, the cache of its process is at
the version of the object that was stored or found, or at a later one, and has an active version
with the number of the write or a greater one. A call that tells a number has it from such a look,
or is one for a handle, and then too the cache has an active version with that number or a greater
one. A call that rotates nothing never fails because the set has no active version or one of another
kind. -/
theorem own_writes_usable (h : start.run? members actions = some last)
    (hquiet : Quiet target actions) (hlimit : last.store.version < Cache.versionLimit) {i : ℕ}
    {c : Call} (hc : last.call i = some c) (htarget : (members c.owner).target = target) :
    (∀ object id, Ended members start actions i object id →
        ∃ version, object.resourceVersion = Decimal.ofNat version ∧
          (version : ℤ) ≤ (last.cache c.owner).resourceVersion ∧
          ∃ key, (last.cache c.owner).activeKey c.name = .ok key ∧ id.val ≤ key.id.val) ∧
      (∀ id, c.result = some (.ok id) →
        (c.errand ≠ .keySet → ∃ object, Ended members start actions i object id) ∧
          ∃ key, (last.cache c.owner).activeKey c.name = .ok key ∧ id.val ≤ key.id.val) ∧
      (c.errand ≠ .rotate → ∀ failure, c.result = some (.error failure) →
        failure.blamesKey = false) := by
  have hends : ∀ object id, Ended members start actions i object id →
      ∃ version, object.resourceVersion = Decimal.ofNat version ∧
        (version : ℤ) ≤ (last.cache c.owner).resourceVersion ∧
        ∃ key, (last.cache c.owner).activeKey c.name = .ok key ∧ id.val ≤ key.id.val := by
    intro object id hended
    obtain ⟨version, htoken, hle, hshows⟩ := hended.shows h hquiet hlimit hc htarget
    exact ⟨version, htoken, hle, activeKey_of_shows h hquiet htarget hshows hle⟩
  refine ⟨hends, ?_, ?_⟩
  · intro id hresult
    have htraced := (traced h hc).told
    refine ⟨fun herrand => htraced herrand id hresult, ?_⟩
    by_cases herrand : c.errand = .keySet
    · obtain ⟨version, hle, hshows⟩ := handle_shows h hquiet hc htarget herrand hresult
      exact activeKey_of_shows h hquiet htarget hshows hle
    · obtain ⟨object, hended⟩ := htraced herrand id hresult
      obtain ⟨-, -, -, hactive⟩ := hends object id hended
      exact hactive
  · intro herrand failure hresult
    exact (blamesNoKey h hquiet hlimit hc htarget herrand).told _ hresult failure rfl

/-- After a race both the process that was faster and the one that was not have an active version,
and the faster one is at the version that it has written. -/
theorem own_writes_usable_raced :
    ∃ last c, start.run? (Member.sharing ⟨"ns", "keys"⟩) racedCreation = some last ∧
      last.call 0 = some c ∧ c.result = some (.ok ⟨1, by decide, by decide⟩) ∧
      ∃ object version,
        Ended (Member.sharing ⟨"ns", "keys"⟩) start racedCreation 0 object
            ⟨1, by decide, by decide⟩ ∧
          object.resourceVersion = Decimal.ofNat version ∧
          (version : ℤ) ≤ (last.cache c.owner).resourceVersion ∧
          ∃ key, (last.cache c.owner).activeKey c.name = .ok key ∧ 1 ≤ key.id.val := by
  have hruns : (start.run? (Member.sharing ⟨"ns", "keys"⟩) racedCreation).bind (fun last =>
      (last.call 0).map fun c => (decide (last.store.version < Cache.versionLimit),
        decide (c.errand = .keySet), c.result)) =
      some (true, false, some (.ok ⟨1, by decide, by decide⟩)) := by
    decide +kernel
  obtain ⟨last, hrun, hrest⟩ := Option.bind_eq_some_iff.1 hruns
  obtain ⟨c, hc, hfacts⟩ := Option.map_eq_some_iff.1 hrest
  obtain ⟨hlimit, hfacts⟩ := Prod.mk.inj hfacts
  obtain ⟨herrand, hresult⟩ := Prod.mk.inj hfacts
  have hquiet : Quiet ⟨"ns", "keys"⟩ racedCreation := by
    unfold Quiet
    decide
  obtain ⟨hends, htold, -⟩ := own_writes_usable hrun hquiet (of_decide_eq_true hlimit) hc rfl
  obtain ⟨object, hended⟩ := (htold _ hresult).1 (of_decide_eq_false herrand)
  obtain ⟨version, htoken, hle, hactive⟩ := hends object _ hended
  exact ⟨last, c, hrun, hc, hresult, object, version, hended, htoken, hle, hactive⟩

end Fleet
end Keyring
