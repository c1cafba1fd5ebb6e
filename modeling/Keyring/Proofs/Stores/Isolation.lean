import Keyring.Proofs.MemoryStore.Evolution
import Keyring.Proofs.Stores.Interchange
import Mathlib.Data.Set.Function

/-!
# Objects that do not disturb each other

A store in memory finds its objects by name, so a write to one cannot be seen at another. A store in
files does the same for as long as no two names that its file system takes have one file name: the
separators of directories are replaced in a file name, and the namespace ends where the name might
go on.
-/
namespace Keyring

/-- The store shows objects under their own names only, and a write to one of them changes nothing
that it shows of the others. -/
structure Isolates {σ : Type} (reply : σ → StoreCall → σ × StoreReply) (names : Set ObjectName)
    (state : σ) : Prop where
  own : ∀ call : StoreCall, call.target ∈ names →
    ∀ object ∈ (reply state call).2.objects, object.objectName = call.target
  apart : ∀ (w : StoreWrite) (read : StoreCall), w.target ∈ names → read.target ∈ names →
    read.isWrite = false → read.target ≠ w.target →
    (reply (reply state (.write w)).1 read).2.withoutVersion =
      (reply state read).2.withoutVersion

/-! ## Stores in memory -/

namespace MemoryStore

variable {m m' : MemoryStore}

/-- What is shown of an object depends on the object and on the failures that are planned. -/
theorem reply_congr {read : StoreCall} (hread : read.isWrite = false)
    (hobject : m'.object? read.target = m.object? read.target)
    (hgets : m'.failingGets = m.failingGets) (hlists : m'.failingLists = m.failingLists) :
    (m'.reply read).2.withoutVersion = (m.reply read).2.withoutVersion := by
  cases read with
  | get name =>
    rw [StoreCall.target] at hobject
    rw [reply, reply, get, get, hgets, hobject]
    split <;> rfl
  | list name =>
    rw [StoreCall.target] at hobject
    rw [reply, reply, list, list, hlists, hobject]
    split <;> rfl
  | write w => cases hread

namespace Consistent

/-- A store in memory shows objects under their own names. -/
theorem objectName_of_reply (hm : m.Consistent) {call : StoreCall} {object : StoredObject}
    (h : object ∈ (m.reply call).2.objects) : object.objectName = call.target := by
  cases call with
  | get name =>
    rw [reply] at h
    rcases (m.get_spec name).2 with hfound | ⟨failure, hfailed⟩
    · rw [hfound] at h
      exact hm.objectName_of_object? (Option.mem_toList.1 h)
    · rw [hfailed] at h
      cases h
  | list name =>
    rw [reply] at h
    rcases (m.list_spec name).2 with hlisted | ⟨failure, hfailed⟩
    · rw [hlisted] at h
      exact hm.objectName_of_object? (Option.mem_toList.1 h)
    · rw [hfailed] at h
      cases h
  | write w =>
    cases w with
    | create stored =>
      rw [reply, write] at h
      rcases m.create_cases stored with ⟨current, -, hfailed⟩ | ⟨-, -, hwritten⟩
      · rw [hfailed] at h
        cases h
      · rw [hwritten] at h
        exact List.mem_singleton.1 h ▸ rfl
    | update stored =>
      rw [reply, write] at h
      rcases m.update_cases stored with ⟨failure, hfailed⟩ | ⟨current, -, -, -, hwritten⟩
      · rw [hfailed] at h
        cases h
      · rw [hwritten] at h
        exact List.mem_singleton.1 h ▸ rfl
    | delete name => cases h

/-- A store in memory keeps its objects apart. -/
theorem isolates (hm : m.Consistent) (names : Set ObjectName) :
    Isolates MemoryStore.reply names m := by
  refine ⟨fun call _ object hobject => hm.objectName_of_reply hobject, ?_⟩
  intro w read _ _ hread hne
  obtain ⟨hgets, hlists⟩ := m.failing_write w
  apply reply_congr hread _ hgets hlists
  rcases write_cases hm w with hsame | ⟨c, htarget, hwrote⟩
  · exact congrArg (MemoryStore.object? · read.target) hsame
  · have hother : c.target ≠ read.target := htarget ▸ hne.symm
    exact (hwrote.object? read.target).trans (if_neg hother)

theorem reply (hm : m.Consistent) (call : StoreCall) : (m.reply call).1.Consistent := by
  cases call with
  | get name => exact (m.get_spec name).1.1.consistent hm
  | list name => exact (m.list_spec name).1.1.consistent hm
  | write w =>
    rcases write_cases hm w with hsame | ⟨c, -, hwrote⟩
    · exact hsame.symm ▸ hm
    · exact hwrote.consistent hm

end Consistent
end MemoryStore

/-! ## Stores in files -/

namespace LocalStore

variable {s : LocalStore} {place : FilePath} {names : Set ObjectName} {left : ℕ}

theorem admits_of_fileName {a b : ObjectName} (h : fileName a = fileName b) (ha : s.Admits a) :
    s.Admits b := by
  rwa [Admits, draftPath, draftName, ← h]

/-- A name that its file name tells: the namespace ends where the file name shows it, and no
separators are replaced. -/
def Plain (name : ObjectName) : Prop :=
  (∀ c ∈ name.namespace.toList, c ≠ '_' ∧ c ≠ '/' ∧ c ≠ '\\') ∧
    ∀ c ∈ name.name.toList, c ≠ '/' ∧ c ≠ '\\'

theorem filePart_eq_self {text : String} (h : ∀ c ∈ text.toList, c ≠ '/' ∧ c ≠ '\\') :
    filePart text = text := by
  have hmap : (text.toList.map fun c => if c = '/' ∨ c = '\\' then '_' else c) = text.toList := by
    refine (List.map_congr_left fun c hc => ?_).trans (List.map_id _)
    obtain ⟨hslash, hbackslash⟩ := h c hc
    exact if_neg (by simp [hslash, hbackslash])
  rw [filePart, hmap, String.ofList_toList]

/-- Different plain names have different file names. -/
theorem injOn_fileName_plain : Set.InjOn fileName {name | Plain name} := by
  have htext : ∀ name, Plain name → (fileName name).toList =
      name.namespace.toList ++ '_' :: '_' :: (name.name.toList ++ ".obj".toList) := by
    intro name h
    rw [fileName, filePart_eq_self fun c hc => (h.1 c hc).2, filePart_eq_self h.2]
    simp
  have hspace : ∀ name rest, Plain name →
      (name.namespace.toList ++ '_' :: rest).takeWhile (fun c => c != '_') =
        name.namespace.toList := by
    intro name rest h
    rw [List.takeWhile_append_of_pos fun c hc => bne_iff_ne.2 (h.1 c hc).1]
    simp
  intro a ha b hb heq
  have hlists := congrArg String.toList heq
  rw [htext a ha, htext b hb] at hlists
  have hspaces : a.namespace.toList = b.namespace.toList := by
    rw [← hspace a _ ha, hlists, hspace b _ hb]
  rw [hspaces, List.append_cancel_left_eq, List.cons_inj_right, List.cons_inj_right,
    List.append_cancel_right_eq] at hlists
  obtain ⟨space, name⟩ := a
  obtain ⟨space', name'⟩ := b
  rw [ObjectName.mk.injEq]
  exact ⟨String.toList_injective hspaces, String.toList_injective hlists⟩

/-- What is shown of an object depends on its file. -/
theorem reply_congr {disk disk' : Disk} {read : StoreCall} (hread : read.isWrite = false)
    (hload : s.load disk'.files read.target = s.load disk.files read.target) :
    (s.reply disk' read).2 = (s.reply disk read).2 := by
  cases read with
  | get name =>
    rw [StoreCall.target] at hload
    rw [reply, reply, get, get, hload]
  | list name =>
    rw [StoreCall.target] at hload
    rw [reply, reply, list, list, hload]
  | write w => cases hread

/-- Under a name that is not taken, nothing is written and nothing is shown. -/
theorem reply_refused {disk : Disk} {call : StoreCall} (hnot : ¬ s.Admits call.target)
    (hready : s.Ready disk.files place call.target)
    (hempty : ∀ existing, s.load disk.files call.target = .ok existing → existing = none) :
    (s.reply disk call).1.files = disk.files ∧ (s.reply disk call).2.objects = [] := by
  cases call with
  | get name =>
    refine ⟨rfl, ?_⟩
    rw [StoreCall.target] at hempty
    rw [reply, get]
    cases hload : s.load disk.files name with
    | error failure => rfl
    | ok existing =>
      rw [hempty existing hload]
      rfl
  | list name =>
    refine ⟨rfl, ?_⟩
    rw [StoreCall.target] at hempty
    rw [reply, list]
    cases hload : s.load disk.files name with
    | error failure => rfl
    | ok existing =>
      rw [hempty existing hload]
      rfl
  | write w =>
    rw [StoreCall.target] at hnot hready
    obtain ⟨hfiles, failure, hfailed⟩ := change_refused hnot hready w.plan
    rw [reply, write_eq, hfailed]
    exact ⟨hfiles, w.objects_reply_error failure⟩

/-- Every object is what some store in memory knows of it, and that many writes may follow. Under
the names that are not taken there is nothing. -/
structure Intact (s : LocalStore) (place : FilePath) (names : Set ObjectName) (left : ℕ)
    (t : FileTree) : Prop where
  ready : ∀ name ∈ names, s.Ready t place name
  mirrored : ∀ name ∈ names, s.Admits name → ∃ m : MemoryStore, m.Consistent ∧
    s.Mirrors place name t m ∧ m.version + left < ObjectFile.versionLimit
  refused : ∀ name ∈ names, ¬ s.Admits name →
    ∀ existing, s.load t name = .ok existing → existing = none

namespace Intact

/-- A new store. -/
theorem start {t : FileTree} (hleft : left < ObjectFile.versionLimit)
    (h : ∀ name ∈ names, s.Ready t place name ∧ t.at? (place ++ [fileName name]) = none) :
    s.Intact place names left t := by
  refine ⟨fun name hname => (h name hname).1, ?_, ?_⟩
  · intro name hname hadmits
    obtain ⟨hready, hnone⟩ := h name hname
    refine ⟨.empty, MemoryStore.consistent_empty, .start hadmits hready hnone, ?_⟩
    rwa [show MemoryStore.empty.version = 0 from rfl, Nat.zero_add]
  · intro name hname hnot existing hload
    obtain ⟨hready, hnone⟩ := h name hname
    rcases hready.load_missing hnone with hmissing | ⟨-, failure, hfailed⟩
    · exact (Except.ok.inj (hmissing.symm.trans hload)).symm
    · cases hfailed.symm.trans hload

variable {disk : Disk} {call : StoreCall}

/-- A call leaves the files of the other objects as they are. -/
theorem spares (h : s.Intact place names left disk.files)
    (hinj : Set.InjOn fileName {name ∈ names | s.Admits name}) (htarget : call.target ∈ names)
    {name : ObjectName} (hname : name ∈ names) (hne : name ≠ call.target) :
    s.Ready (s.reply disk call).1.files place name ∧
      s.load (s.reply disk call).1.files name = s.load disk.files name := by
  by_cases hadmits : s.Admits call.target
  · obtain ⟨m, -, hmirrors, -⟩ := h.mirrored _ htarget hadmits
    obtain ⟨-, hspares, -⟩ := hmirrors.reply hadmits rfl
    have hfile : fileName name ≠ fileName call.target := fun heq =>
      hne (hinj ⟨hname, admits_of_fileName heq.symm hadmits⟩ ⟨htarget, hadmits⟩ heq)
    exact hspares name hfile (h.ready name hname)
  · obtain ⟨hfiles, -⟩ := reply_refused hadmits (h.ready _ htarget) (h.refused _ htarget hadmits)
    rw [hfiles]
    exact ⟨h.ready name hname, rfl⟩

/-- A call leaves every object as a store in memory would leave it. -/
theorem reply (h : s.Intact place names (StoreCall.writes [call] + left) disk.files)
    (hinj : Set.InjOn fileName {name ∈ names | s.Admits name}) (htarget : call.target ∈ names) :
    s.Intact place names left (s.reply disk call).1.files := by
  have hown : s.Ready (s.reply disk call).1.files place call.target ∧
      (s.Admits call.target → ∃ m : MemoryStore, m.Consistent ∧
        s.Mirrors place call.target (s.reply disk call).1.files m ∧
        m.version + left < ObjectFile.versionLimit) ∧
      (¬ s.Admits call.target → ∀ existing,
        s.load (s.reply disk call).1.files call.target = .ok existing → existing = none) := by
    by_cases hadmits : s.Admits call.target
    · obtain ⟨m, hm, hmirrors, hversion⟩ := h.mirrored _ htarget hadmits
      obtain ⟨-, -, hready, hle, hnext⟩ := hmirrors.reply hadmits rfl
      refine ⟨hready, fun _ => ?_, fun hnot => absurd hadmits hnot⟩
      exact ⟨(m.reply call).1, hm.reply call, hnext (by omega), by omega⟩
    · have hempty := h.refused _ htarget hadmits
      obtain ⟨hfiles, -⟩ := reply_refused hadmits (h.ready _ htarget) hempty
      rw [hfiles]
      exact ⟨h.ready _ htarget, fun hyes => absurd hyes hadmits, fun _ => hempty⟩
  obtain ⟨hready, hmirrored, hrefused⟩ := hown
  refine ⟨?_, ?_, ?_⟩
  · intro name hname
    by_cases hne : name = call.target
    · exact hne ▸ hready
    · exact (h.spares hinj htarget hname hne).1
  · intro name hname hadmits
    by_cases hne : name = call.target
    · subst hne
      exact hmirrored hadmits
    · obtain ⟨hkept, hload⟩ := h.spares hinj htarget hname hne
      obtain ⟨m, hm, ⟨-, ⟨existing, hexisting, hagrees⟩, hsound⟩, hversion⟩ :=
        h.mirrored name hname hadmits
      exact ⟨m, hm, ⟨hkept, ⟨existing, hload.trans hexisting, hagrees⟩, hsound⟩, by omega⟩
  · intro name hname hnot
    by_cases hne : name = call.target
    · subst hne
      exact hrefused hnot
    · rw [(h.spares hinj htarget hname hne).2]
      exact h.refused name hname hnot

/-- A store in files with different file names keeps its objects apart. -/
theorem isolates (h : s.Intact place names left disk.files)
    (hinj : Set.InjOn fileName {name ∈ names | s.Admits name}) :
    Isolates s.reply names disk := by
  constructor
  · intro call htarget object hobject
    by_cases hadmits : s.Admits call.target
    · obtain ⟨m, hm, hmirrors, -⟩ := h.mirrored _ htarget hadmits
      rw [(hmirrors.reply hadmits rfl).1] at hobject
      exact hm.objectName_of_reply hobject
    · obtain ⟨-, hnone⟩ :=
        reply_refused hadmits (h.ready _ htarget) (h.refused _ htarget hadmits)
      rw [hnone] at hobject
      cases hobject
  · intro w read hwrite hread hisRead hne
    have htarget : (StoreCall.write w).target ∈ names := hwrite
    have hload := (h.spares hinj htarget hread hne).2
    rw [reply_congr hisRead hload]

end Intact

/-- An object that is created is shown under every name that has its file name. -/
theorem get_of_created {disk : Disk} (object : StoredObject) {name : ObjectName}
    (hadmits : s.Admits object.objectName) (hready : s.Ready disk.files place object.objectName)
    (hnone : disk.files.at? (place ++ [fileName object.objectName]) = none)
    (h : fileName object.objectName = fileName name) :
    s.get (s.create disk object).1 name =
      .ok (some { object with resourceVersion := Decimal.ofNat 1 }) := by
  have hload := (hready.load_missing hnone).resolve_right fun hfailed => hfailed.1 hadmits
  rcases change_cases hadmits hready hload fun existing => ObjectFile.create existing object with
    ⟨failure, hplan, -⟩ | ⟨file, disk', hplan, hchange, -, hloaded, -⟩
  · cases hplan
  · obtain rfl : ObjectFile.next 0 false object = file := Except.ok.inj hplan
    have hcreate : (s.create disk object).1 = disk' := by rw [create, hchange]
    have hnumber : (ObjectFile.next 0 false object).version < ObjectFile.versionLimit :=
      show 1 < ObjectFile.versionLimit by decide
    rw [get, hcreate, ← load_of_fileName h, hloaded hnumber]
    rfl

/-- A newly opened store in files keeps its objects apart, whatever is done to them, if and only if
no two names that the file system takes have one file name. -/
theorem isolates_iff {disk disk' : Disk} {directory : String} {source : MasterKeySource}
    {pollMillis : ℕ} (hopen : openDirectory disk directory source pollMillis = (disk', .ok s))
    (hfresh : ∀ name ∈ names, s.IsFresh disk'.files name) :
    (∀ calls : List StoreCall, (∀ call ∈ calls, call.target ∈ names) →
        StoreCall.writes calls < ObjectFile.versionLimit →
        Isolates s.reply names (replies s.reply disk' calls).1) ↔
      Set.InjOn fileName {name ∈ names | s.Admits name} := by
  obtain ⟨place, hplace⟩ := exists_ready (isDirectory_of_openDirectory hopen)
  constructor
  · intro hisolates a ha b hb heq
    obtain ⟨hready, hnone⟩ := hplace a (hfresh a ha.1)
    have hcreated := get_of_created (.fresh a) ha.2 hready hnone heq
    have htargets : ∀ call ∈ [StoreCall.write (.create (.fresh a))], call.target ∈ names := by
      intro call hcall
      exact List.mem_singleton.1 hcall ▸ ha.1
    have hwrites : StoreCall.writes [.write (.create (.fresh a))] < ObjectFile.versionLimit :=
      show 1 < ObjectFile.versionLimit by decide
    have hown := (hisolates _ htargets hwrites).own (.get b) hb.1
    apply hown { StoredObject.fresh a with resourceVersion := Decimal.ofNat 1 }
    show _ ∈ (StoreReply.found (s.get (s.create disk' (.fresh a)).1 b)).objects
    rw [hcreated]
    exact List.mem_singleton.2 rfl
  · intro hinj calls htargets hwrites
    have hstart : s.Intact place names (StoreCall.writes calls) disk'.files :=
      .start hwrites fun name hname => hplace name (hfresh name hname)
    have hlast : s.Intact place names 0 (replies s.reply disk' calls).1.files := by
      refine replies_induction (P := fun left (disk : Disk) =>
        s.Intact place names left disk.files) ?_ hstart
      intro call hcall left disk hintact
      exact hintact.reply hinj (htargets call hcall)
    exact hlast.isolates hinj

end LocalStore
end Keyring
