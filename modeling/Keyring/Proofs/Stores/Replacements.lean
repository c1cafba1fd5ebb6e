import Keyring.Proofs.Fleet.Writing
import Keyring.Proofs.Stores.Shared

/-!
# Objects that are replaced

Who replaces an object says which version is to be replaced. A store that counts its writes takes
the new object only if that version still stands, and then what is replaced is the object that was
read. So fields that were taken over from it are kept, whatever other writers did in between.
-/
namespace Keyring

/-- What a planned write leaves: the next version, and in it an object of the name that carries the
version. -/
theorem StoreWrite.plan_ok {w : StoreWrite} {existing : Option ObjectFile} {file : ObjectFile}
    (h : w.plan existing = .ok file) :
    file.version = ObjectFile.lastVersion existing + 1 ∧
      ∀ object, file.live? = some object →
        object.objectName = w.target ∧ object.resourceVersion = Decimal.ofNat file.version := by
  cases w with
  | create stored =>
    refine ⟨ObjectFile.version_create h, ?_⟩
    simp only [plan, ObjectFile.create] at h
    split at h
    next => cases h
    next =>
      obtain rfl := Except.ok.inj h
      rintro object ⟨⟩
      exact ⟨rfl, rfl⟩
  | update stored =>
    refine ⟨ObjectFile.version_update h, ?_⟩
    simp only [plan, ObjectFile.update] at h
    split at h
    next => cases h
    next =>
      split at h
      next => cases h
      next =>
        obtain rfl := Except.ok.inj h
        rintro object ⟨⟩
        exact ⟨rfl, rfl⟩
  | delete name =>
    refine ⟨ObjectFile.version_delete h, ?_⟩
    simp only [plan, ObjectFile.delete] at h
    split at h
    next => cases h
    next =>
      obtain rfl := Except.ok.inj h
      rintro object ⟨⟩

/-- A planned replacement is of the last version, if it says of which. -/
theorem ObjectFile.update_ok {existing : Option ObjectFile} {object : StoredObject}
    {file : ObjectFile} (h : update existing object = .ok file) :
    (object.resourceVersion = "" ∨
        object.resourceVersion = Decimal.ofNat (lastVersion existing)) ∧
      file = next (lastVersion existing) false object := by
  unfold update at h
  split at h
  next => cases h
  next =>
    dsimp only at h
    split at h
    next => cases h
    next hcurrent =>
      refine ⟨?_, (Except.ok.inj h).symm⟩
      by_cases hempty : object.resourceVersion = ""
      · exact Or.inl hempty
      · exact Or.inr (not_not.1 fun hne => hcurrent ⟨hempty, hne⟩)

/-! ## Stores that count their writes -/

/-- The files hold objects under their own names, with the numbers of their last writes. -/
def LocalStore.Tidy (s : LocalStore) (t : FileTree) : Prop :=
  ∀ name file object, s.load t name = .ok (some file) → file.live? = some object →
    fileName object.objectName = fileName name ∧
      object.resourceVersion = Decimal.ofNat file.version

/-- Every file is as it was or tells of later writes. -/
def LocalStore.CountsOn (s : LocalStore) (t t' : FileTree) : Prop :=
  ∀ name existing, s.load t name = .ok existing → ∃ existing', s.load t' name = .ok existing' ∧
    (existing' = existing ∨ ObjectFile.lastVersion existing < ObjectFile.lastVersion existing')

namespace SharedStore

/-- A store in which all objects were stored by writes to it. -/
def Tidy : SharedStore → Prop
  | memory m => m.Consistent
  | files s disk => s.Tidy disk.files

/-- A store of which the numbers of the next writes have 64 bits. -/
def HasRoom (store : SharedStore) : Prop :=
  ∀ name object version, store.shows name = .ok (object, version) →
    version + 1 < ObjectFile.versionLimit

/-- A store that counts its writes, and can count one more. -/
structure Regular (store : SharedStore) : Prop where
  tidy : store.Tidy
  room : store.HasRoom

/-- A store as it is after writes by anybody. -/
def Follows : SharedStore → SharedStore → Prop
  | memory m, memory m' => m.Leads m'
  | files s disk, files s' disk' => s' = s ∧ s.CountsOn disk.files disk'.files
  | _, _ => False

variable {store store' : SharedStore} {call : StoreCall} {reply : StoreReply}
  {target : ObjectName} {object : StoredObject}

theorem Alike.regular (h : store.Alike store') (hregular : store.Regular) : store'.Regular := by
  refine ⟨?_, fun name object version hshows => ?_⟩
  · match store, store', h with
    | memory m, memory m', h =>
      have heq : m' = _ := h
      have hm := hregular.tidy
      rw [heq]
      exact ⟨hm.numbered, hm.stamped, hm.present⟩
    | files s disk, files s' disk', h =>
      obtain ⟨rfl, hread⟩ := h
      intro name file object hload
      rw [LocalStore.load_of_read (hread name)] at hload
      exact hregular.tidy name file object hload
  · rw [(h.same name).1] at hshows
    exact hregular.room name object version hshows

theorem Alike.follows (h : store.Alike store') : store.Follows store' := by
  match store, store', h with
  | memory m, memory m', h =>
    have heq : m' = _ := h
    rw [heq]
    exact ⟨Nat.le_refl _, [], rfl, fun c hc => absurd hc List.not_mem_nil⟩
  | files s disk, files s' disk', h =>
    obtain ⟨rfl, hread⟩ := h
    refine ⟨rfl, fun name existing hload => ⟨existing, ?_, Or.inl rfl⟩⟩
    rw [LocalStore.load_of_read (hread name), hload]

end SharedStore

/-- A store in memory counts its writes as far as its version goes. -/
theorem MemoryStore.Consistent.regular {m : MemoryStore} (hm : m.Consistent)
    (hroom : m.version + 1 < ObjectFile.versionLimit) : (SharedStore.memory m).Regular := by
  refine ⟨hm, fun name object version hshows => ?_⟩
  obtain ⟨-, rfl⟩ := Prod.mk.inj (Except.ok.inj hshows)
  exact hroom

/-- A change that is done leaves all files as they were or with later writes. -/
theorem LocalStore.countsOn_of_change {s : LocalStore} {disk disk' : Disk} {w : StoreWrite}
    {file : ObjectFile} (h : s.change disk w.target w.plan = (disk', .ok file))
    (htidy : s.Tidy disk.files) (hroom : file.version < ObjectFile.versionLimit) :
    s.CountsOn disk.files disk'.files ∧ s.Tidy disk'.files := by
  obtain ⟨existing, hload, hplan, hloaded, hothers⟩ := change_ok h
  obtain ⟨hversion, hlive⟩ := StoreWrite.plan_ok hplan
  constructor
  · intro name before hbefore
    by_cases hsame : fileName name = fileName w.target
    · rw [load_of_fileName hsame] at hbefore ⊢
      obtain rfl := Except.ok.inj (hload.symm.trans hbefore)
      refine ⟨some file, hloaded hroom, Or.inr ?_⟩
      rw [ObjectFile.lastVersion_some]
      omega
    · exact ⟨before, (load_of_read (hothers name hsame)).trans hbefore, Or.inl rfl⟩
  · intro name after object hafter hobject
    by_cases hsame : fileName name = fileName w.target
    · rw [load_of_fileName hsame, hloaded hroom, Except.ok.injEq, Option.some.injEq] at hafter
      obtain rfl := hafter
      obtain ⟨hname, htoken⟩ := hlive object hobject
      exact ⟨by rw [hname, hsame], htoken⟩
    · rw [load_of_read (hothers name hsame)] at hafter
      exact htidy name after object hafter hobject

namespace SharedStore

variable {store store' : SharedStore} {call : StoreCall} {reply : StoreReply}
  {target : ObjectName} {object : StoredObject}

/-- A write that is done was planned on what was loaded. -/
theorem change_of_written {s : LocalStore} {disk : Disk} {w : StoreWrite}
    (h : (s.reply disk (.write w)).2.isFailure = false) :
    ∃ file, s.change disk w.target w.plan = ((s.reply disk (.write w)).1, .ok file) := by
  rw [LocalStore.reply, LocalStore.write_eq] at h ⊢
  cases houtcome : (s.change disk w.target w.plan).2 with
  | error failure => simp [houtcome] at h
  | ok file => exact ⟨file, Prod.ext rfl houtcome⟩

/-- The file that a write leaves has a number of 64 bits. -/
theorem HasRoom.version_lt {s : LocalStore} {disk : Disk} (h : (files s disk).HasRoom)
    {w : StoreWrite} {existing : Option ObjectFile} {file : ObjectFile}
    (hload : s.load disk.files w.target = .ok existing) (hplan : w.plan existing = .ok file) :
    file.version < ObjectFile.versionLimit := by
  rw [(StoreWrite.plan_ok hplan).1]
  apply h w.target (ObjectFile.current? existing)
  rw [shows, hload]
  rfl

/-- Whatever a regular store does with a call, it is tidy afterwards and counts on. -/
theorem Answers.follows (h : store.Answers call store' reply) (hregular : store.Regular) :
    store.Follows store' ∧ store'.Tidy := by
  by_cases hcall : call.isWrite = false ∨ reply.isFailure = true
  · have halike := h.alike hcall
    exact ⟨halike.follows, (halike.regular hregular).tidy⟩
  · obtain ⟨hwrite, hdone⟩ := not_or.1 hcall
    cases call with
    | get | list => exact absurd rfl hwrite
    | write w =>
      cases h with
      | memory m =>
        rcases MemoryStore.write_cases hregular.tidy w with hsame | ⟨c, -, hwrote⟩
        · rw [MemoryStore.reply, hsame]
          exact ⟨(Alike.refl _).follows, hregular.tidy⟩
        · exact ⟨.of_wrote hwrote, hwrote.consistent hregular.tidy⟩
      | unread => exact ⟨(Alike.refl _).follows, hregular.tidy⟩
      | unwritten => exact absurd (w.isFailure_reply_error .io) hdone
      | files s disk =>
        obtain ⟨file, hchange⟩ := change_of_written (Bool.eq_false_iff.2 hdone)
        obtain ⟨existing, hload, hplan, -, -⟩ := LocalStore.change_ok hchange
        have hroom := hregular.room.version_lt hload hplan
        obtain ⟨hcounts, hkept⟩ := LocalStore.countsOn_of_change hchange hregular.tidy hroom
        exact ⟨⟨rfl, hcounts⟩, hkept⟩

/-- What others do to a store leaves it regular, and it counts on. -/
def Orderly (others : SharedStore → SharedStore → Prop) : Prop :=
  ∀ store store', others store store' → store.Regular → store.Follows store' ∧ store'.Regular

/-- A store as it is after a call to it, if it can count on. -/
def Called (store store' : SharedStore) : Prop :=
  (∃ call reply, store.Answers call store' reply) ∧ store'.HasRoom

/-- Others who do nothing but call the store are orderly. -/
theorem orderly_called : Orderly Called := by
  rintro store store' ⟨⟨call, reply, hanswers⟩, hroom⟩ hregular
  obtain ⟨hfollows, htidy⟩ := hanswers.follows hregular
  exact ⟨hfollows, htidy, hroom⟩

end SharedStore

/-! ## What was read of an object -/

/-- An object that was read, and that is still there if the number of the last write is its own. -/
structure LocalStore.Held (s : LocalStore) (t : FileTree) (target : ObjectName)
    (object : StoredObject) : Prop where
  name : fileName object.objectName = fileName target
  stands : ∃ number file, object.resourceVersion = Decimal.ofNat number ∧
    s.load t target = .ok (some file) ∧ number ≤ file.version ∧
    (file.version = number → file.live? = some object)

namespace SharedStore

variable {store store' : SharedStore} {call : StoreCall} {reply : StoreReply}
  {target : ObjectName} {object : StoredObject}

/-- An object that was read. -/
def Held : SharedStore → ObjectName → StoredObject → Prop
  | memory m, target, object => m.Attests target object.resourceVersion (some object)
  | files s disk, target, object => s.Held disk.files target object

/-- What is shown is held. -/
theorem Tidy.held (h : store.Tidy) {version : ℕ}
    (hshows : store.shows target = .ok (some object, version)) : store.Held target object := by
  cases store with
  | memory m =>
    obtain ⟨hobject, -⟩ := Prod.mk.inj (Except.ok.inj hshows)
    exact MemoryStore.Consistent.attests h hobject
  | files s disk =>
    obtain ⟨existing, hload, hcurrent, -⟩ := shows_files_ok hshows
    cases existing with
    | none => cases hcurrent
    | some file =>
      obtain ⟨hname, htoken⟩ := h target file object hload hcurrent
      exact ⟨hname, file.version, file, htoken, hload, Nat.le_refl _, fun _ => hcurrent⟩

/-- An object that is found is held. -/
theorem Answers.held (h : store.Answers (.get target) store' (.found (.ok (some object))))
    (htidy : store.Tidy) : store.Held target object := by
  obtain ⟨result, hreply⟩ : ∃ result, result = StoreReply.found (.ok (some object)) := ⟨_, rfl⟩
  rw [← hreply] at h
  cases h with
  | memory m =>
    rcases (m.get_spec target).2 with hfound | ⟨failure, hfailed⟩
    · rw [MemoryStore.reply, hfound] at hreply
      have hobject : m.object? target = some object := Except.ok.inj (StoreReply.found.inj hreply)
      have hshows : (SharedStore.memory m).shows target = .ok (some object, m.version) := by
        rw [shows, hobject]
      exact htidy.held hshows
    · rw [MemoryStore.reply, hfailed] at hreply
      cases hreply
  | unread => cases hreply
  | files s disk =>
    have hget : s.get disk target = .ok (some object) := StoreReply.found.inj hreply
    cases hload : s.load disk.files target with
    | error failure =>
      rw [LocalStore.get, hload] at hget
      cases hget
    | ok existing =>
      rw [LocalStore.get, hload] at hget
      have hcurrent : ObjectFile.current? existing = some object := Except.ok.inj hget
      have hshows : (SharedStore.files s disk).shows target =
          .ok (some object, ObjectFile.lastVersion existing) := by
        rw [shows, hload, ← hcurrent]
        rfl
      exact htidy.held hshows

/-- What is held stays so. -/
theorem Held.later (h : store.Held target object) (hfollows : store.Follows store') :
    store'.Held target object := by
  match store, store', hfollows with
  | memory m, memory m', hleads => exact MemoryStore.Attests.later h hleads
  | files s disk, files s' disk', hfollows =>
    obtain ⟨rfl, hcounts⟩ := hfollows
    obtain ⟨number, file, htoken, hload, hle, hstands⟩ := h.stands
    obtain ⟨existing, hload', rfl | hlater⟩ := hcounts target (some file) hload
    · exact ⟨h.name, number, file, htoken, hload', hle, hstands⟩
    · cases existing with
      | none => cases hlater
      | some file' =>
        rw [ObjectFile.lastVersion_some, ObjectFile.lastVersion_some] at hlater
        refine ⟨h.name, number, file', htoken, hload', by omega, fun hsame => ?_⟩
        omega

/-- What is held has a version. -/
theorem Held.token_ne_empty (h : store.Held target object) : object.resourceVersion ≠ "" := by
  cases store with
  | memory m => exact MemoryStore.Attests.token_ne_empty h
  | files s disk =>
    obtain ⟨number, -, htoken, -⟩ := h.stands
    rw [htoken]
    exact Decimal.ofNat_ne_empty number

/-! ## Fields that cannot be decoded -/

/-- Fields that cannot be decoded as key sets are left as they are. -/
def SparesUndecodable (store store' : SharedStore) : Prop :=
  ∀ name object version field bytes, store.shows name = .ok (some object, version) →
    object.data.get? field = some bytes → KeySetData.ofBytes? bytes = none →
    ∃ object' version', store'.shows name = .ok (some object', version') ∧
      object'.data.get? field = some bytes

theorem Alike.sparesUndecodable (h : store.Alike store') : store.SparesUndecodable store' := by
  intro name object version field bytes hshows hfield _
  exact ⟨object, version, (h.same name).1.trans hshows, hfield⟩

end SharedStore

/-- An object that was read, with one field set that was missing or could be decoded. -/
structure StoredObject.Amends (object : StoredObject) (read : StoredObject) (field : String) :
    Prop where
  same : ∃ bytes, object = { read with data := read.data.insert field bytes }
  decodable : ∀ bytes, read.data.get? field = some bytes → (KeySetData.ofBytes? bytes).isSome = true

namespace StoredObject.Amends

variable {object read : StoredObject} {field : String}

theorem objectName (h : object.Amends read field) : object.objectName = read.objectName := by
  obtain ⟨written, rfl⟩ := h.same
  rfl

theorem resourceVersion (h : object.Amends read field) :
    object.resourceVersion = read.resourceVersion := by
  obtain ⟨written, rfl⟩ := h.same
  rfl

/-- Fields that cannot be decoded are those of the object that was read. -/
theorem get? (h : object.Amends read field) {other : String} {bytes : Bytes}
    (hread : read.data.get? other = some bytes) (hbad : KeySetData.ofBytes? bytes = none) :
    object.data.get? other = some bytes := by
  obtain ⟨written, rfl⟩ := h.same
  have hne : other ≠ field := by
    rintro rfl
    have hgood := h.decodable bytes hread
    rw [hbad] at hgood
    cases hgood
  rw [SortedMap.get?_insert_of_ne _ hne, hread]

end StoredObject.Amends

/-- A write that puts no object in the place of another, or an amended one in the place of the one
that was read. -/
inductive StoreWrite.Careful (store : SharedStore) (target : ObjectName) : StoreWrite → Prop
  | create (object : StoredObject) : Careful store target (.create object)
  | update {object read : StoredObject} {field : String} (held : store.Held target read)
    (amends : object.Amends read field) : Careful store target (.update object)

/-- A careful write to a store in memory. -/
theorem MemoryStore.sparesUndecodable_write {m : MemoryStore} (hm : m.Consistent)
    {target : ObjectName} {w : StoreWrite} (hw : w.Careful (.memory m) target) :
    (SharedStore.memory m).SparesUndecodable (.memory (m.write w).1) := by
  intro name current version field bytes hshows hfield hbad
  obtain ⟨hcurrent, -⟩ := Prod.mk.inj (Except.ok.inj hshows)
  have hkept : ∀ {m' : MemoryStore}, m'.object? name = m.object? name →
      ∃ object' version', (SharedStore.memory m').shows name = .ok (some object', version') ∧
        object'.data.get? field = some bytes := by
    intro m' hsame
    refine ⟨current, m'.version, ?_, hfield⟩
    rw [SharedStore.shows, hsame, hcurrent]
  cases hw with
  | create object =>
    rw [write]
    rcases m.create_cases object with ⟨existing, -, hfailed⟩ | ⟨hnone, hwrote, -⟩
    · rw [hfailed]
      exact hkept rfl
    · apply hkept
      have hother : object.objectName ≠ name := by
        rintro rfl
        cases hnone.symm.trans hcurrent
      exact (hwrote.object? name).trans (if_neg hother)
  | @update object read amended held amends =>
    rw [write]
    rcases m.update_cases object with ⟨failure, hfailed⟩ | ⟨existing, hexisting, htoken, hwrote, -⟩
    · rw [hfailed]
      exact hkept rfl
    · by_cases hname : object.objectName = name
      · -- the object that is replaced has the version of the one that was read
        subst hname
        have htarget : object.objectName = target :=
          amends.objectName.trans (MemoryStore.Attests.objectName held)
        have hversion : object.resourceVersion = existing.resourceVersion :=
          htoken.resolve_left (amends.resourceVersion ▸ held.token_ne_empty)
        have hattests := hm.attests hexisting
        rw [htarget, ← hversion, amends.resourceVersion] at hattests
        obtain rfl := Option.some.inj (MemoryStore.Attests.unique held hattests)
        obtain rfl := Option.some.inj (hcurrent.symm.trans hexisting)
        refine ⟨m.stamp object, (m.update object).1.version, ?_, amends.get? hfield hbad⟩
        rw [SharedStore.shows, hwrote.object?]
        exact congrArg (fun o => Except.ok (o, _)) (if_pos rfl)
      · exact hkept ((hwrote.object? name).trans (if_neg hname))

/-- A careful write to a store in files. -/
theorem LocalStore.sparesUndecodable_change {s : LocalStore} {disk disk' : Disk}
    {target : ObjectName} {w : StoreWrite} (hw : w.Careful (.files s disk) target)
    {file : ObjectFile} (hchange : s.change disk w.target w.plan = (disk', .ok file))
    (hroom : file.version < ObjectFile.versionLimit) :
    (SharedStore.files s disk).SparesUndecodable (.files s disk') := by
  intro name current version field bytes hshows hfield hbad
  obtain ⟨existing, hload, hplan, hloaded, hothers⟩ := change_ok hchange
  obtain ⟨before, hbefore, hcurrent, hversion⟩ := SharedStore.shows_files_ok hshows
  by_cases hname : fileName name = fileName w.target
  · rw [load_of_fileName hname, hload, Except.ok.injEq] at hbefore
    subst hbefore
    cases hw with
    | create object =>
      simp only [StoreWrite.plan, ObjectFile.create, hcurrent] at hplan
      cases hplan
    | @update object read amended held amends =>
      -- the number in the file is the version of the object that was read
      obtain ⟨number, file₀, htoken, hload₀, -, hstands⟩ := held.stands
      have htarget : fileName object.objectName = fileName target := by
        rw [amends.objectName, held.name]
      rw [StoreWrite.target, load_of_fileName htarget, hload₀, Except.ok.injEq] at hload
      subst hload
      obtain ⟨hlast, rfl⟩ := ObjectFile.update_ok hplan
      have hlast := hlast.resolve_left (amends.resourceVersion ▸ held.token_ne_empty)
      rw [amends.resourceVersion, htoken] at hlast
      have hcurrent' := hstands (Decimal.ofNat_injective hlast).symm
      obtain rfl := Option.some.inj (hcurrent'.symm.trans hcurrent)
      refine ⟨{ object with resourceVersion := Decimal.ofNat (file₀.version + 1) },
        file₀.version + 1, ?_, amends.get? hfield hbad⟩
      rw [SharedStore.shows, load_of_fileName hname, hloaded hroom]
      rfl
  · refine ⟨current, version, ?_, hfield⟩
    rw [← hshows, SharedStore.shows, SharedStore.shows, load_of_read (hothers name hname)]

/-- A careful write spares all fields that cannot be decoded. -/
theorem SharedStore.Answers.sparesUndecodable {store store' : SharedStore} {target : ObjectName}
    {w : StoreWrite} {reply : StoreReply} (h : store.Answers (.write w) store' reply)
    (hregular : store.Regular) (hw : w.Careful store target) :
    store.SparesUndecodable store' := by
  by_cases hfailed : reply.isFailure = true
  · exact (h.alike (Or.inr hfailed)).sparesUndecodable
  · cases h with
    | memory m => exact MemoryStore.sparesUndecodable_write hregular.tidy hw
    | unread => exact (Alike.refl _).sparesUndecodable
    | unwritten => exact absurd (w.isFailure_reply_error .io) hfailed
    | files s disk =>
      obtain ⟨file, hchange⟩ := change_of_written (Bool.eq_false_iff.2 hfailed)
      obtain ⟨existing, hload, hplan, -, -⟩ := LocalStore.change_ok hchange
      have hroom := hregular.room.version_lt hload hplan
      exact LocalStore.sparesUndecodable_change hw hchange hroom

end Keyring
