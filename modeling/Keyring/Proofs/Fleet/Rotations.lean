import Keyring.Proofs.Fleet.Ledgers

/-!
# No rotation is lost

A rotation that succeeds tells the number of a record that its own request has put behind those of
the set. Ledgers lose no record and a record that is added gets the next number, so two rotations of
one set never tell the same number, however their steps and those of other calls interleave.
-/
namespace Keyring

variable {target : ObjectName} {w w' : KeySetWrite} {cache cache' : Cache} {id : KeyId}

namespace KeySetWrite

theorem phase_fail_ne (w : KeySetWrite) (failure : KeyError) :
    (w.fail failure).phase ≠ .finished (.ok id) := by
  unfold fail
  split
  · intro hphase
    cases hphase
  · intro hphase
    cases hphase

theorem phase_prepare_ne (w : KeySetWrite) (fetched : StoredObject) (pending : PendingVersion)
    (material : KeyRecord) : (w.prepare fetched pending material).phase ≠ .finished (.ok id) := by
  unfold prepare
  split
  next failure _ => exact w.phase_fail_ne failure
  next =>
    intro hphase
    cases hphase

@[simp] theorem request_prepare (w : KeySetWrite) (fetched : StoredObject)
    (pending : PendingVersion) (material : KeyRecord) :
    (w.prepare fetched pending material).request = w.request := by
  unfold prepare
  split
  next failure _ => exact w.request_fail failure
  next => rfl

theorem phase_of_result? {result : Except KeyError KeyId} (h : w.result? = some result) :
    w.phase = .finished result := by
  unfold result? at h
  split at h
  next hfinished => rw [hfinished, Option.some.inj h]
  next => cases h

end KeySetWrite

namespace Call

/-- A rotation that ends well after a look was told that its write succeeded. -/
theorem look?_of_rotate (hrotate : w.request.rotate = true) {answer : StoreAnswer}
    (h : look? w cache answer = some (w', cache')) :
    w'.request = w.request ∧ ∀ id, w'.phase = .finished (.ok id) →
      ∃ object written, w.phase = .storing object id ∧ answer = .written (.ok written) := by
  rcases look?_cases h with ⟨failure, rfl, -⟩ |
    ⟨found, object, plan, -, -, hplan, ⟨id, rfl, -, -⟩ | ⟨pending, -, -, hnext⟩⟩ |
    ⟨object, id, written, hphase, rfl, rfl, -⟩
  · refine ⟨w.request_fail failure, ?_⟩
    intro id hfinished
    exact absurd hfinished (w.phase_fail_ne failure)
  · obtain ⟨data, -, ⟨hkeep, -, -⟩ | ⟨next, -, -, hneeds⟩⟩ := KeySetPlan.make_ok_cases hplan
    · rw [hrotate] at hkeep
      cases hkeep
    · cases hneeds
  · rcases hnext with ⟨material, -, rfl⟩ | rfl
    · refine ⟨w.request_prepare object pending material, ?_⟩
      intro id hfinished
      exact absurd hfinished (w.phase_prepare_ne object pending material)
    · refine ⟨rfl, ?_⟩
      intro id hfinished
      cases hfinished
  · refine ⟨rfl, ?_⟩
    intro other hfinished
    obtain rfl := Except.ok.inj (WritePhase.finished.inj hfinished)
    exact ⟨object, written, hphase, rfl⟩

/-- A write goes on by itself only where it does not wait for the store, and does not end well. -/
theorem alone_phase {rsaBits : ℕ} {step : CallStep}
    (h : (∃ now pool, step = .generate now pool ∧ generate? w rsaBits now pool = some w') ∨
      (step = .wake ∧ wake? w = some w')) :
    w'.request = w.request ∧
      ¬ (w.phase = .fetching ∨ ∃ object id, w.phase = .storing object id) ∧
      ∀ id, w'.phase ≠ .finished (.ok id) := by
  rcases h with ⟨now, pool, -, hgenerate⟩ | ⟨-, hwake⟩
  · unfold generate? at hgenerate
    split at hgenerate
    next fetched pending hphase =>
      rw [← Option.some.inj hgenerate, hphase]
      unfold KeySetWrite.generated
      split
      next failure _ =>
        exact ⟨w.request_fail failure, by simp, fun _ => w.phase_fail_ne failure⟩
      next material _ =>
        exact ⟨KeySetWrite.request_prepare _ fetched pending material, by simp,
          fun _ => KeySetWrite.phase_prepare_ne _ fetched pending material⟩
    next => cases hgenerate
  · unfold wake? at hwake
    split at hwake
    next delay hphase =>
      rw [← Option.some.inj hwake, hphase]
      exact ⟨rfl, by simp, by simp [KeySetWrite.resume]⟩
    next => cases hwake

theorem ask?_phase {s s' : MemoryStore} {answer : StoreAnswer}
    (h : ask? w s = some (s', answer)) :
    w.phase = .fetching ∨ ∃ object id, w.phase = .storing object id := by
  unfold ask? at h
  split at h
  next hphase => exact Or.inl hphase
  next object id hphase => exact Or.inr ⟨object, id, hphase⟩
  next => cases h

/-- A rotation under way, whose write has added what it says. -/
structure Rotates (c : Call) (added : KeySetName → KeyId → Prop) : Prop where
  errand : c.errand = .rotate
  request : ∀ w, c.write = some w →
    KeySetName.ofText? c.name = some w.request.name ∧ w.request.rotate = true
  waiting : ∀ w answer, c.write = some w → c.answer = some answer →
    w.phase = .fetching ∨ ∃ object id, w.phase = .storing object id
  written : ∀ w object id written, c.write = some w → w.phase = .storing object id →
    c.answer = some (.written (.ok written)) → added w.request.name id
  finished : ∀ w id, c.write = some w → w.phase = .finished (.ok id) → added w.request.name id
  told : ∀ id, c.result = some (.ok id) → ∃ name, KeySetName.ofText? c.name = some name ∧
    added name id

theorem rotates_start (owner : ℕ) (member : Member) (cache : Cache) (name : String)
    (keyType : KeyType) (added : KeySetName → KeyId → Prop) :
    (start owner member cache .rotate name keyType).Rotates added := by
  unfold start
  split
  next failure _ =>
    refine ⟨rfl, ?_, ?_, ?_, ?_, ?_⟩
    · intro w hw
      cases hw
    · intro w answer hw
      cases hw
    · intro w object id written hw
      cases hw
    · intro w id hw
      cases hw
    · intro id hresult
      cases hresult
  next valid hvalid =>
    have hname : KeySetName.ofText? name = some valid := by
      unfold KeySetName.ofText at hvalid
      split at hvalid
      next found hfound => rw [hfound, Except.ok.inj hvalid]
      next => cases hvalid
    refine ⟨rfl, ?_, ?_, ?_, ?_, ?_⟩
    · intro w hw
      rw [← Option.some.inj hw]
      exact ⟨hname, rfl⟩
    · intro w answer _ hanswer
      cases hanswer
    · intro w object id written _ _ hanswer
      cases hanswer
    · intro w id hw hphase
      rw [← Option.some.inj hw] at hphase
      cases hphase
    · intro id hresult
      cases hresult

theorem Rotates.mono {c : Call} {added added' : KeySetName → KeyId → Prop} (h : c.Rotates added)
    (hadded : ∀ name id, added name id → added' name id) : c.Rotates added' := by
  refine ⟨h.errand, h.request, h.waiting, ?_, ?_, ?_⟩
  · intro w object id written hw hphase hanswer
    exact hadded _ _ (h.written w object id written hw hphase hanswer)
  · intro w id hw hphase
    exact hadded _ _ (h.finished w id hw hphase)
  · intro id hresult
    obtain ⟨name, hname, htold⟩ := h.told id hresult
    exact ⟨name, hname, hadded name id htold⟩

/-- A step of a rotation, if a request that succeeds has added what it was to add. -/
theorem Rotates.step? {c c' : Call} {added added' : KeySetName → KeyId → Prop}
    (h : c.Rotates added) (hadded : ∀ name id, added name id → added' name id) {rsaBits : ℕ}
    {s s' : MemoryStore} {step : CallStep}
    (hask : ∀ w object id written, step = .ask → c.write = some w → w.phase = .storing object id →
      c'.answer = some (.written (.ok written)) → added' w.request.name id)
    (hstep : c.step? rsaBits s cache step = some (s', cache', c')) : c'.Rotates added' := by
  have hold := h.mono hadded
  rcases step?_cases hstep with ⟨w, answer, rfl, hw, -, hasked, -, rfl⟩ |
    ⟨w, answer, next, rfl, hw, hanswer, hlook, -, rfl⟩ | ⟨w, next, hkind, hw, -, -, rfl⟩ |
    ⟨w, result, rfl, hw, hresult, -, -, rfl⟩
  · refine ⟨h.errand, h.request, ?_, ?_, hold.finished, hold.told⟩
    · intro v given hv hgiven
      obtain rfl := Option.some.inj (hw.symm.trans hv)
      exact ask?_phase hasked
    · intro v object id written hv hphase hgiven
      exact hask v object id written rfl hv hphase hgiven
  · obtain ⟨hname, hrotate⟩ := h.request w hw
    obtain ⟨hrequest, hends⟩ := look?_of_rotate hrotate hlook
    refine ⟨h.errand, ?_, ?_, ?_, ?_, hold.told⟩
    · intro v hv
      rw [← Option.some.inj hv, hrequest]
      exact ⟨hname, hrotate⟩
    · intro v given _ hgiven
      cases hgiven
    · intro v object id written _ _ hgiven
      cases hgiven
    · intro v id hv hphase
      obtain rfl := Option.some.inj hv
      obtain ⟨object, written, hstoring, rfl⟩ := hends id hphase
      rw [hrequest]
      exact hold.written w object id written hw hstoring hanswer
  · obtain ⟨hrequest, halone, hends⟩ := alone_phase hkind
    have hnone : c.answer = none := by
      by_contra hsome
      obtain ⟨answer, hanswer⟩ := Option.ne_none_iff_exists'.1 hsome
      exact halone (h.waiting w answer hw hanswer)
    refine ⟨h.errand, ?_, ?_, ?_, ?_, hold.told⟩
    · intro v hv
      rw [← Option.some.inj hv, hrequest]
      exact h.request w hw
    · intro v answer hv hanswer
      rw [hnone] at hanswer
      cases hanswer
    · intro v object id written hv hphase hanswer
      rw [hnone] at hanswer
      cases hanswer
    · intro v id hv hphase
      rw [← Option.some.inj hv] at hphase
      exact absurd hphase (hends id)
  · refine ⟨h.errand, h.request, h.waiting, hold.written, hold.finished, ?_⟩
    intro id hid
    have houtcome : c.outcome cache result = result := by
      simp [outcome, h.errand]
    rw [houtcome, Option.some.injEq] at hid
    have hphase := KeySetWrite.phase_of_result? hresult
    rw [hid] at hphase
    exact ⟨w.request.name, (h.request w hw).1, hold.finished w id hw hphase⟩

theorem errand_start (owner : ℕ) (member : Member) (cache : Cache) (errand : Errand)
    (name : String) (keyType : KeyType) :
    (start owner member cache errand name keyType).errand = errand := by
  unfold start
  split
  next => rfl
  next => split <;> rfl

theorem step?_same {c c' : Call} {rsaBits : ℕ} {s s' : MemoryStore} {step : CallStep}
    (h : c.step? rsaBits s cache step = some (s', cache', c')) :
    c'.owner = c.owner ∧ c'.errand = c.errand := by
  rcases step?_cases h with ⟨w, answer, -, -, -, -, -, rfl⟩ |
    ⟨w, answer, next, -, -, -, -, -, rfl⟩ | ⟨w, next, -, -, -, -, rfl⟩ |
    ⟨w, result, -, -, -, -, -, rfl⟩
  · exact ⟨rfl, rfl⟩
  · exact ⟨rfl, rfl⟩
  · exact ⟨rfl, rfl⟩
  · exact ⟨rfl, rfl⟩

end Call

namespace Fleet

variable {members : ℕ → Member} {first last fleet next : Fleet} {actions : List Action}

/-- In the run, a request of the call puts a record of that number behind those of the set. -/
def Added (members : ℕ → Member) (target : ObjectName) (first : Fleet) (actions : List Action)
    (i : ℕ) (name : KeySetName) (id : KeyId) : Prop :=
  ∃ before after fleet next records record, actions = before ++ .call i .ask :: after ∧
    first.run? members before = some fleet ∧ fleet.step? members (.call i .ask) = some next ∧
    Appends (fleet.store.fields target) (next.store.fields target) name records record ∧
    record.id = id

/-- The call is a rotation of a set in the object, begun after the first state, that has told its
caller the number. -/
def Rotated (members : ℕ → Member) (target : ObjectName) (first last : Fleet) (i : ℕ)
    (name : String) (id : KeyId) : Prop :=
  ∃ c, first.call i = none ∧ last.call i = some c ∧ c.errand = .rotate ∧ c.name = name ∧
    (members c.owner).target = target ∧ c.result = some (.ok id)

theorem Added.append {i : ℕ} {name : KeySetName} {id : KeyId}
    (h : Added members target first actions i name id) (more : List Action) :
    Added members target first (actions ++ more) i name id := by
  obtain ⟨before, after, fleet, next, records, record, rfl, hrest⟩ := h
  exact ⟨before, after ++ more, fleet, next, records, record, by simp, hrest⟩

/-- A record that is added later has a greater number. -/
theorem Kept.id_lt (hkept : first.Kept members target) {before between : List Action}
    {action : Action} (hquiet : Quiet target (before ++ action :: between))
    (hrun : first.run? members before = some fleet)
    (hstep : fleet.step? members action = some next) {name : KeySetName}
    {records records' : List KeyRecord} {record record' : KeyRecord}
    (happends : Appends (fleet.store.fields target) (next.store.fields target) name records record)
    {later : Fleet} (hlater : first.run? members (before ++ action :: between) = some later)
    (happends' : Appends (later.store.fields target) (last.store.fields target) name records'
      record') : record.id.val < record'.id.val := by
  have hfleet := (hkept.run? (fun a ha => hquiet a (by simp [ha])) hrun).1
  have hnext := (hfleet.step? (hquiet action (by simp)) hstep).1
  simp only [runSteps?_append, hrun, runSteps?_cons, hstep, Option.bind_some] at hlater
  obtain ⟨more, hgrown⟩ :=
    (hnext.run? (fun a ha => hquiet a (by simp [ha])) hlater).2 name _ happends.new
  have hsame := happends'.old.unique hgrown
  rw [happends.id_eq, happends'.id_eq, hsame]
  simp only [List.length_append, List.length_singleton]
  omega

/-- Calls that add records of one number to one set are one call. -/
theorem Kept.eq_of_added (hkept : first.Kept members target) (hquiet : Quiet target actions)
    {i j : ℕ} {name : KeySetName} {id : KeyId}
    (hi : Added members target first actions i name id)
    (hj : Added members target first actions j name id) : i = j := by
  obtain ⟨before, after, fleet, next, records, record, hsplit, hrun, hstep, happends, hid⟩ := hi
  obtain ⟨before', after', fleet', next', records', record', hsplit', hrun', hstep', happends',
    hid'⟩ := hj
  have hquietBefore : ∀ front back, actions = front ++ back → Quiet target front :=
    fun front back h a ha => hquiet a (h ▸ List.mem_append_left back ha)
  have hsame := hsplit.symm.trans hsplit'
  rcases List.append_eq_append_iff.1 hsame with ⟨between, rfl, hafter⟩ | ⟨between, rfl, hafter⟩
  · cases between with
    | nil => exact (Action.call.inj (List.cons.inj hafter).1).1
    | cons action rest =>
      obtain ⟨rfl, -⟩ := List.cons.inj hafter
      have hlt := hkept.id_lt (hquietBefore _ _ hsplit') hrun hstep happends hrun' happends'
      rw [hid, hid'] at hlt
      exact absurd hlt (Int.lt_irrefl _)
  · cases between with
    | nil => exact (Action.call.inj (List.cons.inj hafter).1).1.symm
    | cons action rest =>
      obtain ⟨rfl, -⟩ := List.cons.inj hafter
      have hlt := hkept.id_lt (hquietBefore _ _ hsplit) hrun' hstep' happends' hrun happends
      rw [hid, hid'] at hlt
      exact absurd hlt (Int.lt_irrefl _)

/-- What a rotation says has been added is added by its own request. -/
theorem Kept.rotates (hkept : first.Kept members target) (hquiet : Quiet target actions)
    (h : first.run? members actions = some last) {i : ℕ} {c : Call} (hnew : first.call i = none)
    (hc : last.call i = some c) (hrotate : c.errand = .rotate)
    (htarget : (members c.owner).target = target) :
    c.Rotates (Added members target first actions i) := by
  revert hquiet c
  refine runSteps?_induction (P := fun actions last => Quiet target actions → ∀ {c : Call},
    last.call i = some c → c.errand = .rotate → (members c.owner).target = target →
    c.Rotates (Added members target first actions i)) ?_ ?_ h
  · intro _ c hc
    rw [hnew] at hc
    cases hc
  · intro actions action before after hrun ih hstep hquiet c hc hrotate htarget
    have hquietBefore : Quiet target actions := fun a ha => hquiet a (List.mem_append_left _ ha)
    have hbefore := (hkept.run? hquietBefore hrun).1
    have hmono : ∀ name id, Added members target first actions i name id →
        Added members target first (actions ++ [action]) i name id :=
      fun _ _ hadded => hadded.append [action]
    rcases call_of_step? hstep hc with hold | ⟨owner, errand, name, keyType, -, -, rfl⟩ |
      ⟨step, d, cache, rfl, hd, hcall⟩
    · exact (ih hquietBefore hold hrotate htarget).mono hmono
    · rw [Call.errand_start] at hrotate
      subst hrotate
      exact Call.rotates_start owner (members owner) _ name keyType _
    · obtain ⟨howner, herrand⟩ := Call.step?_same hcall
      rw [howner] at htarget
      rw [herrand] at hrotate
      refine (ih hquietBefore hd hrotate htarget).step? hmono ?_ hcall
      rintro w object id written rfl hw hphase hanswer
      rcases hbefore.step?_cases (hquiet _ (by simp)) hstep with ⟨-, hunwritten⟩ |
        ⟨j, e, v, object', records, record, haction, he, hv, hstoring, happends⟩
      · exact absurd ⟨i, c, written, rfl, hc, howner ▸ htarget, hanswer⟩ hunwritten
      · obtain ⟨rfl, -⟩ := Action.call.inj haction
        obtain rfl := Option.some.inj (hd.symm.trans he)
        obtain rfl := Option.some.inj (hw.symm.trans hv)
        obtain ⟨-, hid⟩ := WritePhase.storing.inj (hstoring.symm.trans hphase)
        exact ⟨actions, [], before, _, records, record, rfl, hrun, hstep, happends, hid⟩

/-- Processes share an object that does not exist at first, and no other program writes to it. In
every state that they can reach, each field of the object is the ledger of a key set; each step
leaves the object alone or is a write that succeeds and puts one record behind those of one field; a
rotation that succeeds tells the number of the record that its own request has added; and no two
rotations of one set tell the same number. -/
theorem no_rotation_lost {earlier : List Action}
    (hearlier : start.run? members earlier = some first)
    (habsent : first.store.object? target = none) (hquiet : Quiet target actions)
    (h : first.run? members actions = some last) :
    (∀ field bytes, (last.store.fields target).get? field = some bytes →
        ∃ (name : KeySetName) (data : KeySetData) (records : List KeyRecord),
          field = name.field ∧ KeySetData.ofBytes? bytes = some data ∧ data.Ledger records ∧
          records ≠ [] ∧ (KeySet.ofData data).keys.map Key.record = records) ∧
      (∀ before action after fleet next, actions = before ++ action :: after →
        first.run? members before = some fleet → fleet.step? members action = some next →
          (next.store.object? target = fleet.store.object? target ∧
            ¬ Wrote members target next action) ∨
          ∃ name records record, Appends (fleet.store.fields target) (next.store.fields target)
            name records record) ∧
      (∀ i text id, Rotated members target first last i text id →
        ∃ name, KeySetName.ofText? text = some name ∧
          Added members target first actions i name id) ∧
      ∀ i j text id, Rotated members target first last i text id →
        Rotated members target first last j text id → i = j := by
  have hkept := kept_of_absent hearlier habsent
  have hadded : ∀ i text id, Rotated members target first last i text id →
      ∃ name, KeySetName.ofText? text = some name ∧
        Added members target first actions i name id := by
    rintro i text id ⟨c, hnew, hc, hrotate, rfl, htarget, hresult⟩
    exact (hkept.rotates hquiet h hnew hc hrotate htarget).told id hresult
  refine ⟨?_, ?_, hadded, ?_⟩
  · intro field bytes hbytes
    have hledgers := (hkept.run? hquiet h).1.ledgers
    obtain ⟨name, rfl⟩ := hledgers.named field bytes hbytes
    obtain ⟨records, hat⟩ := hledgers.ledger name
    have hne := hat.ne_nil hbytes
    obtain ⟨data, hstored, hledger, -⟩ := hat
    rw [hbytes] at hstored
    exact ⟨name, data, records, rfl, hstored, hledger, hne, hledger.keys_ofData⟩
  · intro before action after fleet next hsplit hrun hstep
    have hfleet := (hkept.run? (fun a ha => hquiet a (by simp [hsplit, ha])) hrun).1
    rcases hfleet.step?_cases (hquiet action (by simp [hsplit])) hstep with hsame |
      ⟨i, c, w, object, records, record, -, -, -, -, happends⟩
    · exact Or.inl hsame
    · exact Or.inr ⟨w.request.name, records, record, happends⟩
  · intro i j text id hi hj
    obtain ⟨name, hname, hiadded⟩ := hadded i text id hi
    obtain ⟨name', hname', hjadded⟩ := hadded j text id hj
    obtain rfl := Option.some.inj (hname.symm.trans hname')
    exact hkept.eq_of_added hquiet hiadded hjadded

/-- Two processes rotate one set of an object that does not exist yet. One of them creates it, the
other conflicts and tries again after a pause. -/
def racedRotations : List Action :=
  [.begin 0 0 .rotate "signing" .symmetricAead, .begin 1 1 .rotate "signing" .symmetricAead,
    .call 0 .ask, .call 1 .ask, .call 0 .look, .call 1 .look,
    .call 0 (.generate epoch (.ofSeed [])), .call 1 (.generate epoch (.ofSeed [1])),
    .call 0 .ask, .call 1 .ask, .call 0 .look, .call 1 .look, .call 0 .reply,
    .call 1 .wake, .call 1 .ask, .call 1 .look, .call 1 .ask, .call 1 .look, .call 1 .reply]

/-- Each of the two rotations has added the version that it tells. -/
theorem no_rotation_lost_raced :
    ∃ last, start.run? (Member.sharing ⟨"ns", "keys"⟩) racedRotations = some last ∧
      ∃ one two : KeyId, one.val = 1 ∧ two.val = 2 ∧
        Rotated (Member.sharing ⟨"ns", "keys"⟩) ⟨"ns", "keys"⟩ start last 0 "signing" one ∧
        Rotated (Member.sharing ⟨"ns", "keys"⟩) ⟨"ns", "keys"⟩ start last 1 "signing" two ∧
        ∃ name, KeySetName.ofText? "signing" = some name ∧
          Added (Member.sharing ⟨"ns", "keys"⟩) ⟨"ns", "keys"⟩ start racedRotations 0 name one ∧
          Added (Member.sharing ⟨"ns", "keys"⟩) ⟨"ns", "keys"⟩ start racedRotations 1 name two := by
  have hruns : ((start.run? (Member.sharing ⟨"ns", "keys"⟩) racedRotations).bind fun last =>
      (last.call 0).bind fun c => (last.call 1).map fun d =>
        (decide (c.errand = .rotate ∧ c.name = "signing" ∧
            c.result = some (.ok ⟨1, by decide, by decide⟩)),
          decide (d.errand = .rotate ∧ d.name = "signing" ∧
            d.result = some (.ok ⟨2, by decide, by decide⟩)))) = some (true, true) := by
    decide +kernel
  obtain ⟨last, hrun, hrest⟩ := Option.bind_eq_some_iff.1 hruns
  obtain ⟨c, hc, hrest⟩ := Option.bind_eq_some_iff.1 hrest
  obtain ⟨d, hd, hfacts⟩ := Option.map_eq_some_iff.1 hrest
  simp only [Prod.mk.injEq, decide_eq_true_eq] at hfacts
  obtain ⟨⟨hfirst, hname, hone⟩, hsecond, hname', htwo⟩ := hfacts
  have hstart : start.run? (Member.sharing ⟨"ns", "keys"⟩) [] = some start := rfl
  have hquiet : Quiet ⟨"ns", "keys"⟩ racedRotations := by
    unfold Quiet
    decide
  have hrotated : Rotated (Member.sharing ⟨"ns", "keys"⟩) ⟨"ns", "keys"⟩ start last 0 "signing"
      ⟨1, by decide, by decide⟩ := ⟨c, rfl, hc, hfirst, hname, rfl, hone⟩
  have hrotated' : Rotated (Member.sharing ⟨"ns", "keys"⟩) ⟨"ns", "keys"⟩ start last 1 "signing"
      ⟨2, by decide, by decide⟩ := ⟨d, rfl, hd, hsecond, hname', rfl, htwo⟩
  obtain ⟨-, -, hadded, -⟩ := no_rotation_lost hstart rfl hquiet hrun
  obtain ⟨name, htext, hadded₁⟩ := hadded 0 "signing" _ hrotated
  obtain ⟨name', htext', hadded₂⟩ := hadded 1 "signing" _ hrotated'
  obtain rfl : name = name' := Option.some.inj (htext.symm.trans htext')
  exact ⟨last, hrun, _, _, rfl, rfl, hrotated, hrotated', name, htext, hadded₁, hadded₂⟩

end Fleet
end Keyring
