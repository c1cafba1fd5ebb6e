import Keyring.Proofs.Stores.Callers
import Keyring.Proofs.Stores.Replacements

/-!
# Calls that fail

A call that ends in a failure has left no trace with any of its own steps, whatever others did in
between: once it has changed the store or its cache, it does not fail any more. Whether it fails or
not, it writes over no file that cannot be read and over no field that cannot be decoded.
-/
namespace Keyring

/-! ## Writes on what was read -/

/-- An object that a write may plan on: it was read or is a new one, and the field of the key set
can be decoded or is missing. -/
structure SharedStore.Offers (store : SharedStore) (request : WriteRequest)
    (object : StoredObject) : Prop where
  held : object.resourceVersion = "" ∨ store.Held request.target object
  decodable : ∀ bytes, object.data.get? request.name.field = some bytes →
    (KeySetData.ofBytes? bytes).isSome = true

theorem SharedStore.Offers.later {store store' : SharedStore} {request : WriteRequest}
    {object : StoredObject} (h : store.Offers request object) (hfollows : store.Follows store') :
    store'.Offers request object :=
  ⟨h.held.imp_right fun hheld => hheld.later hfollows, h.decodable⟩

namespace KeySetWrite

/-- A write that holds only what it may plan on, or has amended in the field of its key set. -/
structure Grounded (w : KeySetWrite) (store : SharedStore) : Prop where
  generating : ∀ fetched pending, w.phase = .generating fetched pending →
    store.Offers w.request fetched
  storing : ∀ object id, w.phase = .storing object id →
    ∃ fetched, store.Offers w.request fetched ∧ object.Amends fetched w.request.name.field

variable {w w' : KeySetWrite} {store store' : SharedStore} {fetched : StoredObject}

@[simp] theorem request_generated (w : KeySetWrite) (fetched : StoredObject)
    (pending : PendingVersion) (made : Except KeyError KeyRecord) :
    (w.generated fetched pending made).request = w.request := by
  cases made with
  | error failure => exact w.request_fail failure
  | ok material =>
    exact request_prepare { w with material := some material } fetched pending material

namespace Grounded

theorem later (h : w.Grounded store) (hfollows : store.Follows store') : w.Grounded store' := by
  refine ⟨fun read pending hphase => (h.generating read pending hphase).later hfollows, ?_⟩
  intro object id hphase
  obtain ⟨read, hoffers, hamends⟩ := h.storing object id hphase
  exact ⟨read, hoffers.later hfollows, hamends⟩

/-- In other phases a write holds nothing. -/
theorem of_phase (hgenerating : ∀ fetched pending, w.phase ≠ .generating fetched pending)
    (hstoring : ∀ object id, w.phase ≠ .storing object id) : w.Grounded store :=
  ⟨fun fetched pending hphase => absurd hphase (hgenerating fetched pending),
    fun object id hphase => absurd hphase (hstoring object id)⟩

theorem fail (w : KeySetWrite) (failure : KeyError) : (w.fail failure).Grounded store := by
  unfold KeySetWrite.fail
  split
  · exact of_phase (by simp) (by simp)
  · exact of_phase (by simp) (by simp)

theorem prepare (hoffers : store.Offers w.request fetched) (pending : PendingVersion)
    (material : KeyRecord) : (w.prepare fetched pending material).Grounded store := by
  unfold KeySetWrite.prepare
  split
  next failure _ => exact fail w failure
  next bytes _ =>
    constructor
    · intro read other hphase
      cases hphase
    · intro object id hphase
      obtain ⟨rfl, -⟩ := WritePhase.storing.inj hphase
      exact ⟨fetched, hoffers, ⟨bytes, rfl⟩, hoffers.decodable⟩

theorem generated (h : w.Grounded store) {pending : PendingVersion}
    (hphase : w.phase = .generating fetched pending) (made : Except KeyError KeyRecord) :
    (w.generated fetched pending made).Grounded store := by
  have hoffers := h.generating fetched pending hphase
  cases made with
  | error failure => exact fail w failure
  | ok material =>
    exact prepare (w := { w with material := some material }) hoffers pending material

theorem wake? (h : Call.wake? w = some w') : w'.Grounded store := by
  unfold Call.wake? at h
  split at h
  next =>
    rw [← Option.some.inj h]
    exact of_phase (by simp [resume]) (by simp [resume])
  next => cases h

/-- A write plans only on a field that can be decoded or is missing. -/
theorem look? {cache cache' : Cache} {answer : StoreAnswer}
    (hanswer : ∀ object, answer = .found (.ok (some object)) →
      store.Held w.request.target object)
    (h : Call.look? w cache answer = some (w', cache')) : w'.Grounded store := by
  rcases Call.look?_cases h with ⟨failure, rfl, -⟩ |
    ⟨found, object, plan, rfl, rfl, hplan, ⟨id, -, rfl, -⟩ | ⟨pending, rfl, -, hnext⟩⟩ |
    ⟨object, id, written, -, -, rfl, -⟩
  · exact fail w failure
  · exact of_phase (by simp) (by simp)
  · have hoffers : store.Offers w.request (found.getD (.fresh w.request.target)) := by
      constructor
      · cases found with
        | none => exact Or.inl rfl
        | some object => exact Or.inr (hanswer object rfl)
      · intro bytes hfield
        obtain ⟨data, hstored, -⟩ := KeySetPlan.make_ok_cases hplan
        rw [hfield] at hstored
        exact Option.isSome_iff_exists.2 ⟨data, hstored⟩
    rcases hnext with ⟨material, -, rfl⟩ | rfl
    · exact prepare hoffers pending material
    · constructor
      · intro read other hphase
        obtain ⟨rfl, -⟩ := WritePhase.generating.inj hphase
        exact hoffers
      · intro object id hphase
        cases hphase
  · exact of_phase (by simp) (by simp)

/-- Such a write stores with care. -/
theorem careful (h : w.Grounded store) {write : StoreWrite}
    (hcall : w.call? = some (.write write)) : write.Careful store w.request.target := by
  unfold KeySetWrite.call? at hcall
  split at hcall
  next => cases hcall
  next object id hphase =>
    obtain rfl := StoreCall.write.inj (Option.some.inj hcall)
    obtain ⟨fetched, hoffers, hamends⟩ := h.storing object id hphase
    split
    next => exact .create object
    next hreplaces =>
      have htoken : fetched.resourceVersion ≠ "" := by
        rw [← hamends.resourceVersion]
        simpa [isCreation] using hreplaces
      exact .update (hoffers.held.resolve_left htoken) hamends
  next => cases hcall

end Grounded
/-- An object that a write has found is held. -/
theorem held_of_found {call : StoreCall} {reply : StoreReply} {object : StoredObject}
    (hcall : w.call? = some call) (hreply : store.Answers call store' reply)
    (hanswer : reply.answer? = some (.found (.ok (some object)))) (htidy : store.Tidy) :
    store.Held w.request.target object := by
  unfold KeySetWrite.call? at hcall
  split at hcall
  next =>
    obtain rfl := Option.some.inj hcall
    cases reply with
    | found result =>
      obtain rfl := StoreAnswer.found.inj (Option.some.inj hanswer)
      exact hreply.held htidy
    | listed | written | deleted => cases hanswer
  next =>
    obtain rfl := Option.some.inj hcall
    obtain ⟨result, rfl⟩ := hreply.written (by split <;> simp)
    cases hanswer
  next => cases hcall

end KeySetWrite

namespace Caller

variable {others : SharedStore → SharedStore → Prop} {first last before after : Caller}
  {steps : List (Caller × Caller)}

/-! ## Steps without a trace -/

/-- A step after which the same is stored under the same versions, the files are the same, watchers
are told the same, and the cache is the same. -/
structure LeavesNoTrace (before after : Caller) : Prop where
  shows : ∀ name, after.store.shows name = before.store.shows name
  file? : ∀ name, after.store.file? name = before.store.file? name
  tells : ∀ name, after.store.tells name = before.store.tells name
  cache : after.cache = before.cache

theorem LeavesNoTrace.of_alike (hstore : before.store.Alike after.store)
    (hcache : after.cache = before.cache) : LeavesNoTrace before after :=
  ⟨fun name => (hstore.same name).1, fun name => (hstore.same name).2.2,
    fun name => (hstore.same name).2.1, hcache⟩

/-- A request leaves the store as it was, or the call has won. -/
theorem alike_or_won {store store' : SharedStore} {c : Call} {w : KeySetWrite} {call : StoreCall}
    {reply : StoreReply} {answer : StoreAnswer} (hwrite : c.write = some w)
    (hcall : w.call? = some call) (hreply : store.Answers call store' reply)
    (hanswer : reply.answer? = some answer) :
    store.Alike store' ∨ Won { c with answer := some answer } := by
  unfold KeySetWrite.call? at hcall
  split at hcall
  next =>
    obtain rfl := Option.some.inj hcall
    exact Or.inl (hreply.alike (Or.inl rfl))
  next object id hphase =>
    obtain rfl := Option.some.inj hcall
    obtain ⟨result, rfl⟩ := hreply.written (by split <;> simp)
    obtain rfl := Option.some.inj hanswer
    cases result with
    | error failure => exact Or.inl (hreply.alike (Or.inr rfl))
    | ok stored => exact Or.inr (.written hwrite hphase rfl)
  next => cases hcall

/-- A step of a call leaves no trace, or the call has won. -/
theorem Step.leavesNoTrace_or_won (h : Step before after) :
    LeavesNoTrace before after ∨ Won after.call := by
  cases h with
  | ask hwrite _ hcall hreply hanswer =>
    rcases alike_or_won hwrite hcall hreply hanswer with halike | hwon
    · exact Or.inl (.of_alike halike rfl)
    · exact Or.inr hwon
  | look hwrite hanswer hlook =>
    rcases Call.look?_cases hlook with ⟨failure, -, rfl⟩ |
      ⟨found, object, plan, -, -, -, ⟨id, -, rfl, -⟩ | ⟨pending, -, rfl, -⟩⟩ |
      ⟨object, id, written, -, -, rfl, -⟩
    · exact Or.inl (.of_alike (.refl _) rfl)
    · exact Or.inr (.finished rfl rfl)
    · exact Or.inl (.of_alike (.refl _) rfl)
    · exact Or.inr (.finished rfl rfl)
  | generate | wake | reply => exact Or.inl (.of_alike (.refl _) rfl)

/-- The steps of a call that has not won have left no trace. -/
theorem Run.leavesNoTrace_or_won (h : Run others first steps last) :
    (∀ step ∈ steps, LeavesNoTrace step.1 step.2) ∨ Won last.call := by
  induction h with
  | start => exact Or.inl fun step hstep => absurd hstep List.not_mem_nil
  | own _ hstep ih =>
    rcases ih with htraces | hwon
    · rcases hstep.leavesNoTrace_or_won with htrace | hwon
      · exact Or.inl (List.forall_mem_append.2 ⟨htraces, List.forall_mem_singleton.2 htrace⟩)
      · exact Or.inr hwon
    · exact Or.inr (hwon.step hstep).2
  | other _ _ _ ih => exact ih

theorem Run.frank (h : Run others first steps last) (hfirst : Frank first.call) :
    Frank last.call := by
  induction h with
  | start => exact hfirst
  | own _ hstep ih => exact ih.step hstep
  | other _ _ _ ih => exact ih

/-! ## Fields that cannot be decoded -/

/-- A call that was told of an object in which the field of its key set cannot be decoded. -/
def MeetsUndecodable (c : Call) : Prop :=
  ∃ w object bytes, c.write = some w ∧ w.phase = .fetching ∧
    c.answer = some (.found (.ok (some object))) ∧
    object.data.get? w.request.name.field = some bytes ∧ KeySetData.ofBytes? bytes = none

/-- A write that has come to an end with a failure about what is stored. -/
def FoundCorrupt (c : Call) : Prop :=
  ∃ w reason, c.write = some w ∧ w.phase = .finished (.error (.corruptRecord reason))

/-- The next step of a call that meets an undecodable field ends the write. -/
theorem Step.foundCorrupt (hstep : Step before after) (h : MeetsUndecodable before.call) :
    FoundCorrupt after.call := by
  obtain ⟨w, object, bytes, hwrite, hphase, hanswer, hfield, hbad⟩ := h
  obtain ⟨w', cache', hlook, -, hafter⟩ := hstep.look_of_answered hwrite hanswer (Or.inl hphase)
  obtain ⟨reason, hreason⟩ : ∃ reason,
      reason = "key set " ++ w.request.name.text ++ ": " := ⟨_, rfl⟩
  have hplan : KeySetPlan.make w.request.name (object.data.get? w.request.name.field)
      w.request.keyType w.request.rotate = .error (.corruptRecord reason) := by
    simp only [hfield, KeySetPlan.make, Option.elim_some, KeySetData.ofBytes, hbad, hreason]
  simp only [Call.look?, hphase, KeySetWrite.fetched, Option.getD_some, hplan,
    Option.some.injEq, Prod.mk.injEq] at hlook
  have hended := w.result?_fail_of_not_conflict (.corruptRecord reason) rfl
  rw [hlook.1] at hended
  exact ⟨w', reason, hafter, KeySetWrite.phase_of_result? hended⟩

theorem FoundCorrupt.step (h : FoundCorrupt before.call) (hstep : Step before after) :
    FoundCorrupt after.call := by
  obtain ⟨w, reason, hwrite, hphase⟩ := h
  exact ⟨w, reason, (hstep.of_finished hwrite hphase).2, hphase⟩

/-- A run in which an undecodable field was met. -/
theorem Run.foundCorrupt (h : Run others first steps last) (hmem : (before, after) ∈ steps)
    (hmeets : MeetsUndecodable before.call) : FoundCorrupt last.call := by
  induction h with
  | start => cases hmem
  | own _ hstep ih =>
    rcases List.mem_append.1 hmem with hold | hnew
    · exact (ih hold).step hstep
    · obtain ⟨rfl, rfl⟩ := Prod.mk.inj (List.mem_singleton.1 hnew)
      exact hstep.foundCorrupt hmeets
  | other _ _ _ ih => exact ih hmem

/-! ## Steps that spare what cannot be decoded -/

/-- A caller that knows of the store only what was read. -/
structure Grounded (caller : Caller) : Prop where
  regular : caller.store.Regular
  answer : ∀ w object, caller.call.write = some w →
    caller.call.answer = some (.found (.ok (some object))) →
    caller.store.Held w.request.target object
  write : ∀ w, caller.call.write = some w → w.Grounded caller.store

theorem grounded_start {store : SharedStore} (hregular : store.Regular) (cache known : Cache)
    (owner : ℕ) (member : Member) (errand : Errand) (name : String) (keyType : KeyType) :
    Grounded ⟨store, cache, .start owner member known errand name keyType⟩ := by
  refine ⟨hregular, ?_, ?_⟩
  · intro w object _ hanswer
    rw [Call.answer_start] at hanswer
    cases hanswer
  · intro w hwrite
    have hphase := (Call.write_start hwrite).2.2
    exact .of_phase (by simp [hphase]) (by simp [hphase])

namespace Grounded

theorem later (h : before.Grounded) {store : SharedStore} (hfollows : before.store.Follows store)
    (hregular : store.Regular) (cache : Cache) : Grounded { before with store, cache } :=
  ⟨hregular, fun w object hwrite hanswer => (h.answer w object hwrite hanswer).later hfollows,
    fun w hwrite => (h.write w hwrite).later hfollows⟩

/-- A step of the write alone. -/
theorem alone (h : before.Grounded) {w w' : KeySetWrite} (hwrite : before.call.write = some w)
    (hrequest : w'.request = w.request) (hw' : w'.Grounded before.store) :
    Grounded { before with call := { before.call with write := some w' } } := by
  refine ⟨h.regular, ?_, ?_⟩
  · intro v object hv hanswer
    obtain rfl := Option.some.inj hv
    rw [hrequest]
    exact h.answer w object hwrite hanswer
  · intro v hv
    exact Option.some.inj hv ▸ hw'

/-- A step spares what cannot be decoded, and the caller stays grounded or has won. -/
theorem step (h : before.Grounded) (hstep : Step before after) :
    before.store.SparesUndecodable after.store ∧ (after.Grounded ∨ Won after.call) := by
  cases hstep with
  | @ask store store' cache c w call reply answer hwrite hfree hcall hreply hanswer =>
    rcases alike_or_won hwrite hcall hreply hanswer with halike | hwon
    · refine ⟨halike.sparesUndecodable, Or.inl ?_⟩
      have hlater := h.later halike.follows (halike.regular h.regular) cache
      refine ⟨hlater.regular, ?_, hlater.write⟩
      intro v object hv hfound
      obtain rfl := Option.some.inj (hwrite.symm.trans hv)
      obtain rfl := Option.some.inj hfound
      exact (KeySetWrite.held_of_found hcall hreply hanswer h.regular.tidy).later halike.follows
    · refine ⟨?_, Or.inr hwon⟩
      cases call with
      | get | list => exact (hreply.alike (Or.inl rfl)).sparesUndecodable
      | write write =>
        exact hreply.sparesUndecodable h.regular ((h.write w hwrite).careful hcall)
  | @look store cache cache' c w w' answer hwrite hanswer hlook =>
    refine ⟨(SharedStore.Alike.refl _).sparesUndecodable, Or.inl ⟨h.regular, ?_, ?_⟩⟩
    · intro v object _ hfound
      cases hfound
    · intro v hv
      rw [← Option.some.inj hv]
      apply KeySetWrite.Grounded.look? _ hlook
      rintro object rfl
      exact h.answer w object hwrite hanswer
  | @generate store cache c w fetched pending hwrite hphase made =>
    refine ⟨(SharedStore.Alike.refl _).sparesUndecodable, Or.inl (h.alone hwrite ?_ ?_)⟩
    · exact w.request_generated fetched pending made
    · exact (h.write w hwrite).generated hphase made
  | @wake store cache c w w' hwrite hwake =>
    refine ⟨(SharedStore.Alike.refl _).sparesUndecodable, Or.inl (h.alone hwrite ?_ ?_)⟩
    · exact (@Call.alone_phase w w' 0 .wake (Or.inr ⟨rfl, hwake⟩)).1
    · exact .wake? hwake
  | reply =>
    exact ⟨(SharedStore.Alike.refl _).sparesUndecodable, Or.inl ⟨h.regular, h.answer, h.write⟩⟩

end Grounded

/-- A run spares what cannot be decoded, if the others count on. -/
theorem Run.sparesUndecodable (h : Run others first steps last) (hfirst : first.Grounded)
    (horderly : SharedStore.Orderly others) :
    (∀ step ∈ steps, step.1.store.SparesUndecodable step.2.store) ∧
      (last.Grounded ∨ Won last.call) := by
  induction h with
  | start => exact ⟨fun step hstep => absurd hstep List.not_mem_nil, Or.inl hfirst⟩
  | @own steps before after _ hstep ih =>
    obtain ⟨hspares, hcaller⟩ := ih
    have hnext : before.store.SparesUndecodable after.store ∧
        (after.Grounded ∨ Won after.call) := by
      rcases hcaller with hgrounded | hwon
      · exact hgrounded.step hstep
      · obtain ⟨hstore, hafter⟩ := hwon.step hstep
        rw [hstore]
        exact ⟨(SharedStore.Alike.refl _).sparesUndecodable, Or.inr hafter⟩
    exact ⟨List.forall_mem_append.2 ⟨hspares, List.forall_mem_singleton.2 hnext.1⟩, hnext.2⟩
  | other _ hstore cache ih =>
    obtain ⟨hspares, hgrounded | hwon⟩ := ih
    · obtain ⟨hfollows, hregular⟩ := horderly _ _ hstore hgrounded.regular
      exact ⟨hspares, Or.inl (hgrounded.later hfollows hregular cache)⟩
    · exact ⟨hspares, Or.inr hwon⟩

end Caller

variable {others : SharedStore → SharedStore → Prop} {store : SharedStore} {cache : Cache}
  {member : Member} {errand : Errand} {steps : List (Caller × Caller)} {last : Caller}

/-- A call for an active version or a rotation that ends in a failure has left no trace with any of
its steps, whatever is stored and whatever others do. If it finds a field that cannot be decoded, it
ends in a failure. It writes over no file that cannot be read, and over no field that cannot be
decoded at that time, as long as the store and the others count the versions of objects. -/
theorem failed_writes_leave_no_trace (herrand : errand ≠ .keySet) {owner : ℕ} {name : String}
    {keyType : KeyType}
    (hrun : Caller.Run others ⟨store, cache, .start owner member cache errand name keyType⟩ steps
      last) :
    (∀ failure, last.call.result = some (.error failure) →
        ∀ step ∈ steps, Caller.LeavesNoTrace step.1 step.2) ∧
      (∀ step ∈ steps, Caller.MeetsUndecodable step.1.call →
        ∀ result, last.call.result = some result →
          ∃ reason, result = .error (.corruptRecord reason)) ∧
      (∀ step ∈ steps, step.1.store.SparesUnreadable step.2.store) ∧
      (store.Regular → SharedStore.Orderly others →
        ∀ step ∈ steps, step.1.store.SparesUndecodable step.2.store) := by
  have hfrank := hrun.frank (Caller.frank_start owner member cache herrand name keyType)
  refine ⟨?_, ?_, ?_, ?_⟩
  · intro failure hresult
    exact hrun.leavesNoTrace_or_won.resolve_right (hfrank.not_won hresult)
  · rintro ⟨before, after⟩ hmem hmeets result hresult
    obtain ⟨w, reason, hwrite, hphase⟩ := hrun.foundCorrupt hmem hmeets
    have htold := hfrank.told result w hresult hwrite
    exact ⟨reason, WritePhase.finished.inj (htold.symm.trans hphase)⟩
  · rintro ⟨before, after⟩ hmem
    cases hrun.step_of_mem hmem with
    | ask _ _ _ hreply => exact hreply.sparesUnreadable
    | look | generate | wake | reply => exact (SharedStore.Alike.refl _).sparesUnreadable
  · intro hregular horderly
    have hfirst := Caller.grounded_start hregular cache cache owner member errand name keyType
    exact (hrun.sparesUndecodable hfirst horderly).1

/-- A store in memory with an object in which the field of a key set is no JSON. -/
def MemoryStore.undecodable : MemoryStore :=
  (MemoryStore.empty.create ⟨"ns", "keys", "", .ofList [("keyset.s", [120])]⟩).1

theorem MemoryStore.consistent_undecodable : undecodable.Consistent :=
  consistent_empty.reply (.write (.create ⟨"ns", "keys", "", .ofList [("keyset.s", [120])]⟩))

namespace LocalStore

/-- In the first store no object is stored. -/
theorem load_first (name : ObjectName) {existing : Option ObjectFile}
    (h : firstStore.load firstDisk.files name = .ok existing) : existing = none := by
  obtain ⟨place, hplace⟩ := exists_ready (isDirectory_of_openDirectory openDirectory_first)
  obtain ⟨hready, hnone⟩ := hplace name (isFresh_first name)
  rcases hready.load_missing hnone with hload | ⟨-, failure, hload⟩
  · exact (Except.ok.inj (hload.symm.trans h)).symm
  · cases hload.symm.trans h

theorem regular_first : (SharedStore.files firstStore firstDisk).Regular := by
  constructor
  · intro name file object hload
    cases load_first name hload
  · intro name object version hshows
    obtain ⟨existing, hload, -, rfl⟩ := SharedStore.shows_files_ok hshows
    rw [load_first name hload]
    decide

end LocalStore

namespace Caller

/-- A rotation of a set that cannot be decoded, with a write of another object in between. -/
theorem exists_run_undecodable : ∃ steps last, steps.length = 3 ∧
    Run SharedStore.Called
      ⟨.memory .undecodable, .empty,
        .start 0 ⟨⟨"ns", "keys"⟩, .standard⟩ .empty .rotate "s" .symmetricAead⟩ steps last ∧
    last.call.result = some (.error (.corruptRecord "key set s: ")) := by
  have hcalled : SharedStore.Called (.memory .undecodable)
      (.memory (MemoryStore.undecodable.create (.fresh ⟨"ns", "other"⟩)).1) := by
    have hafter := MemoryStore.consistent_undecodable.reply
      (.write (.create (.fresh ⟨"ns", "other"⟩)))
    refine ⟨⟨_, _, .memory .undecodable (.write (.create (.fresh ⟨"ns", "other"⟩)))⟩, ?_⟩
    exact (hafter.regular (by decide)).room
  have hasked : Run SharedStore.Called
      ⟨.memory .undecodable, .empty,
        .start 0 ⟨⟨"ns", "keys"⟩, .standard⟩ .empty .rotate "s" .symmetricAead⟩ _ _ :=
    .own .start (@step_of_step? 2048 _ _ _ _ _ _ .ask rfl)
  have hlooked := (hasked.other hcalled .empty).own (@step_of_step? 2048 _ _ _ _ _ _ .look rfl)
  have htold := hlooked.own (@step_of_step? 2048 _ _ _ _ _ _ .reply rfl)
  exact ⟨_, _, rfl, htold, rfl⟩

/-- A write of which the file system takes only the beginning of the draft. -/
theorem exists_run_unwritten : ∃ steps last, steps.length = 6 ∧
    Run SharedStore.Called
      ⟨.files .firstStore LocalStore.firstDisk, .empty,
        .start 0 ⟨⟨"ns", "keys"⟩, .standard⟩ .empty .ensure "s" .symmetricAead⟩ steps last ∧
    last.call.result = some (.error .io) := by
  have hget : LocalStore.firstStore.get LocalStore.firstDisk ⟨"ns", "keys"⟩ = .ok none := by
    obtain ⟨place, hplace⟩ := LocalStore.exists_ready
      (LocalStore.isDirectory_of_openDirectory LocalStore.openDirectory_first)
    obtain ⟨hready, hnone⟩ := hplace ⟨"ns", "keys"⟩ (LocalStore.isFresh_first _)
    have hload := (hready.load_missing hnone).resolve_right fun hfailed =>
      hfailed.1 (by decide +kernel)
    rw [LocalStore.get, hload]
    rfl
  obtain ⟨files, hdraft⟩ : ∃ files, LocalStore.firstDisk.files.write
      (LocalStore.firstStore.draftPath ⟨"ns", "keys"⟩) [] = .ok files := ⟨_, rfl⟩
  obtain ⟨store, hstore⟩ : ∃ store, store = SharedStore.files .firstStore LocalStore.firstDisk :=
    ⟨_, rfl⟩
  obtain ⟨left, hleft⟩ : ∃ left, left =
      SharedStore.files .firstStore ⟨files, LocalStore.firstDisk.pool⟩ := ⟨_, rfl⟩
  have hread : store.Answers (.get ⟨"ns", "keys"⟩) store (.found (.ok none)) := by
    have hanswers := SharedStore.Answers.files .firstStore LocalStore.firstDisk
      (.get ⟨"ns", "keys"⟩)
    rwa [LocalStore.reply, hget, ← hstore] at hanswers
  have hrefused : ∀ object : StoredObject, object.objectName = ⟨"ns", "keys"⟩ →
      store.Answers (.write (.create object)) left (.written (.error .io)) := by
    intro object hname
    rw [hstore, hleft]
    refine .unwritten .firstStore LocalStore.firstDisk (.create object) files _ (Or.inr ⟨[], ?_⟩)
    rw [StoreWrite.target, hname, hdraft]
  rw [← hstore]
  have hasked : Run SharedStore.Called
      ⟨store, .empty,
        .start 0 ⟨⟨"ns", "keys"⟩, .standard⟩ .empty .ensure "s" .symmetricAead⟩ _ _ :=
    .own .start (.ask rfl rfl rfl hread rfl)
  have hlooked := hasked.own (.look rfl rfl rfl)
  have hgenerated := hlooked.own
    (.generate rfl rfl (.ok ⟨.none, .symmetricAead, [], ⟨0, by decide, by decide⟩⟩))
  have hwritten := hgenerated.own (.ask rfl rfl rfl (hrefused _ rfl) rfl)
  have hended := hwritten.own (.look rfl rfl rfl)
  have htold := hended.own (.reply rfl rfl rfl)
  exact ⟨_, _, rfl, htold, rfl⟩

end Caller

/-- A rotation of a set that cannot be decoded fails and leaves no trace, and so does a write of
which the file system takes only the beginning of the draft. -/
theorem failed_writes_leave_no_trace_faults :
    (∃ steps last, Errand.rotate ≠ .keySet ∧
      Caller.Run SharedStore.Called
        ⟨.memory .undecodable, .empty,
          .start 0 ⟨⟨"ns", "keys"⟩, .standard⟩ .empty .rotate "s" .symmetricAead⟩ steps last ∧
      steps.length = 3 ∧ last.call.result = some (.error (.corruptRecord "key set s: ")) ∧
      (∀ step ∈ steps, Caller.LeavesNoTrace step.1 step.2) ∧
      ∀ step ∈ steps, step.1.store.SparesUndecodable step.2.store) ∧
    ∃ steps last, Errand.ensure ≠ .keySet ∧
      Caller.Run SharedStore.Called
        ⟨.files .firstStore LocalStore.firstDisk, .empty,
          .start 0 ⟨⟨"ns", "keys"⟩, .standard⟩ .empty .ensure "s" .symmetricAead⟩ steps last ∧
      steps.length = 6 ∧ last.call.result = some (.error .io) ∧
      (∀ step ∈ steps, Caller.LeavesNoTrace step.1 step.2) ∧
      ∀ step ∈ steps, step.1.store.SparesUndecodable step.2.store := by
  constructor
  · obtain ⟨steps, last, hlength, hrun, hresult⟩ := Caller.exists_run_undecodable
    obtain ⟨htraces, -, -, hspares⟩ := failed_writes_leave_no_trace (by decide) hrun
    have hregular := MemoryStore.consistent_undecodable.regular (by decide)
    exact ⟨steps, last, by decide, hrun, hlength, hresult, htraces _ hresult,
      hspares hregular SharedStore.orderly_called⟩
  · obtain ⟨steps, last, hlength, hrun, hresult⟩ := Caller.exists_run_unwritten
    obtain ⟨htraces, -, -, hspares⟩ := failed_writes_leave_no_trace (by decide) hrun
    exact ⟨steps, last, by decide, hrun, hlength, hresult, htraces _ hresult,
      hspares LocalStore.regular_first SharedStore.orderly_called⟩

end Keyring
