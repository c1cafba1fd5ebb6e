import Keyring.Proofs.LocalStore.Runs
import Keyring.Proofs.MemoryStore.Sightings

/-!
# Versions of objects

In either kind of store the writes to an object have growing numbers for as long as the store is
used, whatever is deleted and created again in between. So an object that is seen twice with one
token is the same both times, and who replaces an object on the strength of a token succeeds only if
nobody has written to it since.
-/
namespace Keyring

open Occurrence

/-- The object is there, and the token is that of its last write. -/
def Occurrence.IsCurrent (log : List Occurrence) (name : ObjectName) (token : String) : Prop :=
  ∃ c, lastWrite? name log = some c ∧ c.kind ≠ .deleted ∧ c.object.resourceVersion = token

/-- A store that did what the log says, in which an object and a token tell what the object was. -/
structure Versioned {σ : Type} (reply : σ → StoreCall → σ × StoreReply) (names : Set ObjectName)
    (state : σ) (log : List Occurrence) : Prop where
  /-- The writes to an object get growing numbers, also when it is deleted and created again. -/
  increasing : ∀ name, (writesTo name log).Pairwise fun a b => a.version < b.version
  /-- The token of a write is its number. -/
  stamped : ∀ c ∈ writes log, c.object.resourceVersion = Decimal.ofNat c.version
  /-- What is shown in reply to a call is the object that the call is about. -/
  own : ∀ name object, shown name object ∈ log → object.objectName = name
  /-- Whoever sees an object with one token twice sees the same. -/
  unique : ∀ object ∈ seen log, ∀ other ∈ seen log, object.objectName = other.objectName →
    object.resourceVersion = other.resourceVersion → object = other
  /-- A replacement that names a version succeeds if and only if the object is at that version. -/
  exact : ∀ object : StoredObject, object.objectName ∈ names → object.resourceVersion ≠ "" →
    ((∃ stored, (reply state (.write (.update object))).2 = .written (.ok stored)) ↔
      IsCurrent log object.objectName object.resourceVersion)
  /-- A replacement that names the version of some write succeeds only after that very write. -/
  fresh : ∀ c ∈ writes log, ∀ object : StoredObject, object.objectName ∈ names →
    object.objectName = c.target → object.resourceVersion = c.object.resourceVersion →
    (∃ stored, (reply state (.write (.update object))).2 = .written (.ok stored)) →
    lastWrite? c.target log = some c

/-- It is enough that the log can be relied upon. -/
theorem Occurrence.Faithful.versioned {σ : Type} {reply : σ → StoreCall → σ × StoreReply}
    {names : Set ObjectName} {state : σ} {log : List Occurrence} (h : Faithful log)
    (hown : ∀ name object, shown name object ∈ log → object.objectName = name)
    (hexact : ∀ object : StoredObject, object.objectName ∈ names → object.resourceVersion ≠ "" →
      ((∃ stored, (reply state (.write (.update object))).2 = .written (.ok stored)) ↔
        IsCurrent log object.objectName object.resourceVersion)) :
    Versioned reply names state log := by
  refine ⟨h.increasing, h.stamped, hown, fun object hobject other hother => ?_, hexact, ?_⟩
  · exact h.seen_unique hobject hother
  · intro c hc object hmem hname htoken hdone
    have hnonempty : object.resourceVersion ≠ "" := by
      rw [htoken, h.stamped c hc]
      exact Decimal.ofNat_ne_empty c.version
    obtain ⟨last, hlast, -, hcurrent⟩ := (hexact object hmem hnonempty).1 hdone
    rw [hname] at hlast
    obtain ⟨hwritten, htarget⟩ := mem_of_lastWrite? hlast
    obtain rfl := h.eq_of_token hc hwritten htarget.symm (htoken.symm.trans hcurrent.symm)
    exact hlast

/-! ## Stores in memory -/

namespace MemoryStore

variable {s : MemoryStore} {log : List Occurrence}

theorem Recorded.object?_eq (h : s.Recorded log) (name : ObjectName) :
    s.object? name = (lastWrite? name log).bind Change.left? := by
  rw [h.consistent.present, Change.lastLeft?, h.history, lastWrite?, writesTo, List.getLast?_filter]

namespace Told

theorem faithful (h : s.Told log) : Faithful log := by
  have hs := h.recorded.consistent
  refine ⟨fun name => ?_, fun c hc => ?_, h.stored⟩
  · have hdescending := hs.descending
    rw [h.recorded.history, List.pairwise_reverse] at hdescending
    exact hdescending.filter _
  · exact hs.stamped c (h.recorded.history ▸ List.mem_reverse.2 hc)

/-- A replacement of the object as it is, and no other, succeeds. -/
theorem update_iff (h : s.Told log) {object : StoredObject} (htoken : object.resourceVersion ≠ "") :
    (∃ stored, (s.reply (.write (.update object))).2 = .written (.ok stored)) ↔
      IsCurrent log object.objectName object.resourceVersion := by
  have hobject := h.recorded.object?_eq object.objectName
  rw [reply, write, IsCurrent, update, hobject]
  cases hlast : lastWrite? object.objectName log with
  | none => simp
  | some c =>
    rw [Option.bind_some, Change.left?]
    cases hkind : c.kind with
    | deleted => simp [hkind]
    | added | modified =>
      by_cases hsame : object.resourceVersion = c.object.resourceVersion
      · simp [hsame, hkind, put]
      · simp [htoken, hsame, Ne.symm hsame]

end Told

/-- A store in memory knows its objects by their tokens. -/
theorem versioned_of_run? {acts : List StoreAct}
    (h : Occurrence.run? act? empty acts = some (s, log)) :
    Versioned MemoryStore.reply Set.univ s log := by
  have htold : s.Told log := Told.empty.run? h
  exact htold.faithful.versioned htold.own fun object _ htoken => htold.update_iff htoken

end MemoryStore

/-! ## Stores in files -/

namespace LocalStore

variable {s : LocalStore} {place : FilePath} {names : Set ObjectName} {d d' : WatchedDisk}
  {log later : List Occurrence}

namespace Watched

/-- A replacement of the object as it is, and no other, succeeds. -/
theorem update_iff (h : s.Watched place names d log) {object : StoredObject}
    (hname : object.objectName ∈ names) (htoken : object.resourceVersion ≠ "") :
    (∃ stored, (s.reply d.disk (.write (.update object))).2 = .written (.ok stored)) ↔
      IsCurrent log object.objectName object.resourceVersion := by
  have hready := h.keeps.ready _ hname
  rw [reply, write_eq]
  by_cases hadmits : s.Admits object.objectName
  · have hload := h.keeps.load _ hname hadmits
    have hdone : (∃ stored, (StoreWrite.update object).reply (s.change d.disk object.objectName
          (StoreWrite.update object).plan).2 = .written (.ok stored)) ↔
        ∃ file, (StoreWrite.update object).plan
          ((lastWrite? object.objectName log).map ObjectFile.ofChange) = .ok file := by
      rcases change_cases hadmits hready hload (StoreWrite.update object).plan with
        ⟨failure, hplan, hchange⟩ | ⟨file, disk', hplan, hchange, -⟩
      · rw [hchange, hplan]
        simp [StoreWrite.reply, Except.map]
      · rw [hchange, hplan]
        simp [StoreWrite.reply, Except.map]
    rw [StoreWrite.target, hdone, StoreWrite.plan, IsCurrent, ObjectFile.update]
    cases hlast : lastWrite? object.objectName log with
    | none => simp [ObjectFile.current?]
    | some c =>
      have hstamped := h.keeps.faithful.stamped c (mem_of_lastWrite? hlast).1
      have hcurrent : ObjectFile.current? ((some c).map ObjectFile.ofChange) =
          if c.kind = .deleted then none else some c.object := by
        simp [ObjectFile.current?, ObjectFile.live?, ObjectFile.ofChange]
      have hversion : ObjectFile.lastVersion ((some c).map ObjectFile.ofChange) = c.version := rfl
      rw [hcurrent, hversion]
      by_cases hkind : c.kind = .deleted
      · simp [hkind]
      · by_cases hsame : object.resourceVersion = Decimal.ofNat c.version
        · simp [hkind, hsame, hstamped]
        · simp [hkind, htoken, hsame, Ne.symm hsame, hstamped]
  · obtain ⟨-, failure, hfailed⟩ := change_refused hadmits hready (StoreWrite.update object).plan
    rw [StoreWrite.target, hfailed, IsCurrent]
    constructor
    · rintro ⟨stored, hstored⟩
      cases hstored
    · rintro ⟨c, hlast, -⟩
      obtain ⟨hc, htarget⟩ := mem_of_lastWrite? hlast
      exact absurd (htarget ▸ (h.keeps.addressed c hc).2) hadmits

/-- Acts that are addressed to these objects, and not too many of them. -/
theorem run? {acts : List LocalAct} (h : s.Watched place names d log)
    (hinj : Set.InjOn fileName {name ∈ names | s.Admits name})
    (htargets : ∀ act ∈ acts, ∀ name ∈ act.targets, name ∈ names)
    (hlimit : (writes (log ++ later)).length + 1 < ObjectFile.versionLimit)
    (hrun : Occurrence.run? s.act? d acts = some (d', later)) :
    s.Watched place names d' (log ++ later) := by
  induction acts generalizing d log later with
  | nil =>
    obtain ⟨rfl, rfl⟩ := Prod.mk.inj (Option.some.inj hrun)
    rwa [List.append_nil]
  | cons act rest ih =>
    obtain ⟨next, first, later', hact, hrest, rfl⟩ := runLogged?_cons_eq_some_iff.1 hrun
    obtain ⟨hfirst, htail⟩ := List.forall_mem_cons.1 htargets
    rw [← List.append_assoc] at hlimit ⊢
    have hearly : (writes log).length + 1 < ObjectFile.versionLimit := by
      rw [writes_append, writes_append, List.length_append, List.length_append] at hlimit
      omega
    exact ih (h.act? hinj hfirst hearly hact) htail hlimit hrest

end Watched

/-- A new store in files knows its objects by their tokens. -/
theorem versioned_of_run? {disk disk' : Disk} {directory : String} {source : MasterKeySource}
    {pollMillis : ℕ} {acts : List LocalAct}
    (hopen : openDirectory disk directory source pollMillis = (disk', .ok s))
    (hfresh : ∀ name ∈ names, s.IsFresh disk'.files name)
    (hinj : Set.InjOn fileName {name ∈ names | s.Admits name})
    (htargets : ∀ act ∈ acts, ∀ name ∈ act.targets, name ∈ names)
    (hlimit : (writes log).length + 1 < ObjectFile.versionLimit)
    (hrun : Occurrence.run? s.act? ⟨disk', fun _ => none⟩ acts = some (d, log)) :
    Versioned s.reply names d.disk log := by
  obtain ⟨place, hplace⟩ := exists_ready (isDirectory_of_openDirectory hopen)
  have hstart : s.Watched place names ⟨disk', fun _ => none⟩ [] :=
    .start fun name hname => hplace name (hfresh name hname)
  have hlast : s.Watched place names d log := hstart.run? hinj htargets hlimit hrun
  exact hlast.keeps.faithful.versioned hlast.own fun object hname htoken =>
    hlast.update_iff hname htoken

end LocalStore

variable {memory : MemoryStore} {memoryActs : List StoreAct} {memoryLog : List Occurrence}
variable {disk disk' : Disk} {directory : String} {source : MasterKeySource} {pollMillis : ℕ}
  {s : LocalStore} {names : Set ObjectName} {localActs : List LocalAct} {d : WatchedDisk}
  {localLog : List Occurrence}

/-- Whatever is done to a store in memory, and to a new store in files that have different names, an
object and a token tell what the object was, and a writer who knows an old version does not succeed.
The number of the last write to a file has to fit into the file. -/
theorem tokens_never_reused
    (hmemory : Occurrence.run? MemoryStore.act? .empty memoryActs = some (memory, memoryLog))
    (hopen : LocalStore.openDirectory disk directory source pollMillis = (disk', .ok s))
    (hfresh : ∀ name ∈ names, s.IsFresh disk'.files name)
    (hinj : Set.InjOn LocalStore.fileName {name ∈ names | s.Admits name})
    (htargets : ∀ act ∈ localActs, ∀ name ∈ act.targets, name ∈ names)
    (hlimit : (writes localLog).length + 1 < ObjectFile.versionLimit)
    (hlocal : Occurrence.run? s.act? ⟨disk', fun _ => none⟩ localActs = some (d, localLog)) :
    Versioned MemoryStore.reply Set.univ memory memoryLog ∧
      Versioned s.reply names d.disk localLog :=
  ⟨MemoryStore.versioned_of_run? hmemory,
    LocalStore.versioned_of_run? hopen hfresh hinj htargets hlimit hlocal⟩

namespace LocalStore

/-- An object is created, watched, deleted and created again; then a replacement comes too late. -/
def staleReplacement : List LocalAct :=
  let object : StoredObject := ⟨"ns", "keys", "", .ofList [("a", [1, 2])]⟩
  [.call (.write (.create object)), .watch 0 object.objectName "" 0, .take 0 0,
    .call (.write (.delete object.objectName)), .call (.write (.create object)),
    .call (.write (.update { object with resourceVersion := "1" })),
    .call (.get object.objectName)]

end LocalStore

theorem tokens_never_reused_staleReplacement :
    ∃ memory memoryLog d localLog,
      Occurrence.run? MemoryStore.act? .empty
        [.call (.write (.create (.fresh ⟨"ns", "keys"⟩))), .call (.get ⟨"ns", "keys"⟩)] =
          some (memory, memoryLog) ∧
      LocalStore.openDirectory ⟨.empty, .ofSeed [1]⟩ "/keys"
        (.bytes LocalStore.firstStore.masterKey.bytes) 100 =
          (LocalStore.firstDisk, .ok LocalStore.firstStore) ∧
      Occurrence.run? LocalStore.firstStore.act? ⟨LocalStore.firstDisk, fun _ => none⟩
        LocalStore.staleReplacement = some (d, localLog) ∧
      Versioned MemoryStore.reply Set.univ memory memoryLog ∧
      Versioned LocalStore.firstStore.reply {⟨"ns", "keys"⟩} d.disk localLog := by
  obtain ⟨memory, memoryLog, hmemory⟩ : ∃ memory memoryLog,
      Occurrence.run? MemoryStore.act? .empty
        [.call (.write (.create (.fresh ⟨"ns", "keys"⟩))), .call (.get ⟨"ns", "keys"⟩)] =
          some (memory, memoryLog) := ⟨_, _, rfl⟩
  have hruns : (Occurrence.run? LocalStore.firstStore.act? ⟨LocalStore.firstDisk, fun _ => none⟩
      LocalStore.staleReplacement).isSome = true := by decide +kernel
  obtain ⟨⟨d, localLog⟩, hlocal⟩ := Option.isSome_iff_exists.1 hruns
  have hfresh : ∀ name ∈ ({⟨"ns", "keys"⟩} : Set ObjectName),
      LocalStore.firstStore.IsFresh LocalStore.firstDisk.files name :=
    fun name _ => LocalStore.isFresh_first name
  have hinj : Set.InjOn LocalStore.fileName
      {name ∈ ({⟨"ns", "keys"⟩} : Set ObjectName) | LocalStore.firstStore.Admits name} :=
    fun a ha b hb _ => ha.1.trans hb.1.symm
  have htargets : ∀ act ∈ LocalStore.staleReplacement, ∀ name ∈ act.targets,
      name ∈ ({⟨"ns", "keys"⟩} : Set ObjectName) := by
    have hall : ∀ act ∈ LocalStore.staleReplacement, ∀ name ∈ act.targets,
        name = ⟨"ns", "keys"⟩ := by decide
    exact hall
  have hlimit : (writes localLog).length + 1 < ObjectFile.versionLimit := by
    have hfew : (writes localLog).length ≤ 7 := LocalStore.length_writes_le hlocal
    rw [ObjectFile.versionLimit]
    omega
  exact ⟨memory, memoryLog, d, localLog, hmemory, LocalStore.openDirectory_first, hlocal,
    tokens_never_reused hmemory LocalStore.openDirectory_first hfresh hinj htargets hlimit hlocal⟩

end Keyring
