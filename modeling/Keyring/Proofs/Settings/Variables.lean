import Keyring.Proofs.Outcomes
import Keyring.Settings
import Mathlib.Data.Nat.Notation

/-!
# What variables make of a setting

A setting has the value of the last variable that names it, or its default if there is none.
Variables that name places inside of it make a table or an array of it, which is neither a text nor
a number. All names of a setting are the same in lower case.
-/
namespace Keyring

/-! ## Places of names -/

namespace SettingValue.Place.Reader

/-- The steps that a reader has finished or begun. -/
def count (r : Reader) : ℕ :=
  match r.pending with
  | .closed => r.steps.length
  | _ => r.steps.length + 1

theorem length_of_finish? {r : Reader} {steps : List Step} (h : r.finish? = some steps) :
    steps.length = r.count := by
  unfold finish? at h
  split at h
  next => cases h
  next hpending =>
    rw [← Option.some.inj h, count, hpending]
    rfl
  next hpending => rw [← Option.some.inj h, count, hpending]
  next => cases h

theorem count_next? {r r' : Reader} {c : Char} (h : r.next? c = some r') :
    r'.count = r.count + 1 := by
  obtain ⟨steps, hfinish, hnext⟩ := Option.bind_eq_some_iff.1 h
  rw [← length_of_finish? hfinish]
  split at hnext
  · rw [← Option.some.inj hnext]
    rfl
  · split at hnext
    · rw [← Option.some.inj hnext]
      rfl
    · cases hnext

theorem count_close? {r r' : Reader} {negative : Bool} {digits : List Char}
    (h : r.close? negative digits = some r') : r'.count = r.steps.length + 1 := by
  unfold close? at h
  split at h
  next n _ =>
    generalize (if negative then -(n : Int) else n) = position at h
    dsimp only at h
    split at h
    · rw [← Option.some.inj h]
      rfl
    · cases h
  next => cases h

/-- Nothing that was begun is taken back. -/
theorem count_le_step? {r r' : Reader} {c : Char} (h : r.step? c = some r') :
    r.count ≤ r'.count := by
  have hnext : r.next? c = some r' → r.count ≤ r'.count := fun hnext => by
    rw [count_next? hnext]
    omega
  have hclose : ∀ {negative digits}, r.close? negative digits = some r' → r.count ≤ r'.count := by
    intro negative digits hclose
    rw [count_close? hclose, count]
    split <;> omega
  cases hpending : r.pending with
  | key written =>
    simp only [step?, hpending] at h
    split at h
    · rw [← Option.some.inj h]
      simp [count, hpending]
    · exact hnext h
  | closed =>
    simp only [step?, hpending] at h
    exact hnext h
  | beforePosition =>
    simp only [step?, hpending] at h
    split at h
    · exact Nat.le_of_eq (congrArg count (Option.some.inj h))
    · split at h
      · rw [← Option.some.inj h]
        simp [count, hpending]
      · split at h
        · rw [← Option.some.inj h]
          simp [count, hpending]
        · cases h
  | position negative digits =>
    simp only [step?, hpending] at h
    split at h
    · rw [← Option.some.inj h]
      simp [count, hpending]
    · split at h
      · cases h
      · split at h
        · rw [← Option.some.inj h]
          simp [count, hpending]
        · split at h
          · exact hclose h
          · cases h
  | afterPosition negative digits =>
    simp only [step?, hpending] at h
    split at h
    · exact Nat.le_of_eq (congrArg count (Option.some.inj h))
    · split at h
      · exact hclose h
      · cases h

theorem count_le_run? {cs : List Char} {r r' : Reader} (h : r.run? cs = some r') :
    r.count ≤ r'.count := by
  induction cs generalizing r with
  | nil => exact Nat.le_of_eq (congrArg count (Option.some.inj h))
  | cons c rest ih =>
    obtain ⟨next, hstep, hrun⟩ := Option.bind_eq_some_iff.1 h
    exact Nat.le_trans (count_le_step? hstep) (ih hrun)

/-- A place of one key is written as that key. -/
theorem run?_key {cs written : List Char} {r : Reader} {step : Step}
    (h : run? ⟨[], .key written⟩ cs = some r) (hfinish : r.finish? = some [step]) :
    step = .child (String.ofList (written.reverse ++ cs)) := by
  induction cs generalizing written with
  | nil =>
    rw [← Option.some.inj h] at hfinish
    unfold finish? at hfinish
    split at hfinish
    next => cases hfinish
    next hkey =>
      rw [Pending.key.injEq] at hkey
      rw [List.append_nil, hkey]
      exact (List.cons.inj (Option.some.inj hfinish)).1.symm
    next hclosed => cases hclosed
    next => cases hfinish
  | cons c rest ih =>
    obtain ⟨next, hstep, hrun⟩ := Option.bind_eq_some_iff.1 h
    simp only [step?] at hstep
    split at hstep
    · rw [← Option.some.inj hstep] at hrun
      rw [ih hrun, List.reverse_cons, List.append_assoc, List.singleton_append]
    · -- a second step was begun
      have hone := length_of_finish? hfinish
      have htwo := count_next? hstep
      have hgrows := count_le_run? hrun
      have hbegun : count ⟨[], .key written⟩ = 1 := rfl
      rw [List.length_singleton] at hone
      omega

end SettingValue.Place.Reader

theorem SettingValue.Place.eq_of_ofText {text key : String} (h : ofText text = [.child key]) :
    text = key := by
  unfold ofText at h
  split at h
  next steps hread =>
    obtain ⟨r, hrun, hfinish⟩ := Option.bind_eq_some_iff.1 hread
    have hsteps : steps = [.child key] := by
      rw [← List.reverse_reverse steps, h]
      rfl
    rw [hsteps] at hfinish
    have hkey := Reader.run?_key hrun hfinish
    rw [List.reverse_nil, List.nil_append, String.ofList_toList, Step.child.injEq] at hkey
    exact hkey.symm
  next => exact Step.child.inj (List.cons.inj h).1

namespace Settings

/-- The names of a setting are the same in lower case. -/
theorem lower_eq_of_placeOf? {name other key : String} (h : placeOf? name = some [.child key])
    (hother : placeOf? other = some [.child key]) : Text.lower other = Text.lower name := by
  have spelled : ∀ {n : String}, placeOf? n = some [.child key] →
      (Text.lower n).toList = variableStart ++ key.toList := by
    intro n hn
    unfold placeOf? at hn
    dsimp only at hn
    split at hn
    next hstart =>
      obtain ⟨rest, hrest⟩ := List.isPrefixOf_iff_prefix.1 hstart
      rw [← hrest, List.drop_left] at hn
      rw [← hrest, ← SettingValue.Place.eq_of_ofText (Option.some.inj hn), String.toList_ofList]
    next => cases hn
  exact String.toList_injective ((spelled hother).trans (spelled h).symm)

end Settings

/-! ## Parts of values -/

namespace SettingValue

/-- The part of a value at a key. -/
def part (value : SettingValue) (key : String) : SettingValue := (value.child? key).getD .absent

/-- Values that are neither a text nor a number nor a truth value. -/
def IsComposite : SettingValue → Prop
  | .absent | .array _ | .table _ => True
  | .bool _ | .int _ | .float _ | .text _ => False

theorem text?_of_isComposite {value : SettingValue} (h : value.IsComposite) :
    value.text? = none := by
  cases value with
  | absent | array | table => rfl
  | bool | int | float | text => exact h.elim

theorem nat?_of_isComposite {value : SettingValue} (h : value.IsComposite) : value.nat? = none := by
  cases value with
  | absent | array | table => rfl
  | bool | int | float | text => exact h.elim

theorem find?_replaceEntry (key other : String) (value : SettingValue)
    (entries : List (String × SettingValue)) :
    (replaceEntry key value entries).find? (fun e => e.1 == other) =
      if key = other then some (key, value) else entries.find? fun e => e.1 == other := by
  induction entries with
  | nil => simp [replaceEntry]
  | cons e rest ih =>
    rw [replaceEntry]
    split
    next he =>
      rw [List.find?_cons, List.find?_cons, he]
      by_cases hkey : key = other
      · simp [hkey]
      · have hne : (key == other) = false := by simpa using hkey
        simp [hne, hkey]
    next he =>
      rw [List.find?_cons, List.find?_cons, ih]
      by_cases hkey : key = other
      · have hne : (e.1 == other) = false := by simpa [← hkey] using he
        simp [hkey, hne]
      · simp [hkey]

theorem part_replaceEntry (key other : String) (value whole : SettingValue) :
    (table (replaceEntry key value whole.entries)).part other =
      if key = other then value else whole.part other := by
  rw [part, part, child?, child?, entries, find?_replaceEntry]
  split <;> rfl

theorem part_ofText (text key : String) : (ofText text).part key = .absent := by
  unfold ofText
  dsimp only
  split
  · rfl
  · split
    · rfl
    · split
      · rfl
      · split <;> rfl

theorem isComposite_put {value whole whole' : SettingValue} {step : Step} {steps : List Step}
    (h : put value (step :: steps) whole = some whole') : whole'.IsComposite := by
  cases step with
  | child key =>
    obtain ⟨new, -, rfl⟩ := Option.map_eq_some_iff.1 h
    trivial
  | index position =>
    obtain ⟨n, -, hput⟩ := Option.bind_eq_some_iff.1 h
    obtain ⟨new, -, rfl⟩ := Option.map_eq_some_iff.1 hput
    trivial

/-- The part at a key becomes what is put there, stays, or is composite. -/
theorem part_put {text : String} {steps : List Step} {whole whole' : SettingValue}
    (h : put (ofText text) steps whole = some whole') (key : String) :
    (whole'.part key).IsComposite ∨
      whole'.part key = if steps = [.child key] then ofText text else whole.part key := by
  cases steps with
  | nil =>
    left
    rw [← Option.some.inj h, part_ofText]
    trivial
  | cons step rest =>
    cases step with
    | child name =>
      obtain ⟨new, hnew, rfl⟩ := Option.map_eq_some_iff.1 h
      rw [part_replaceEntry]
      by_cases hname : name = key
      · rw [if_pos hname]
        cases rest with
        | nil =>
          right
          rw [if_pos (by rw [hname]), ← Option.some.inj hnew]
        | cons => exact Or.inl (isComposite_put hnew)
      · right
        rw [if_neg hname, if_neg (by simp [hname])]
    | index position =>
      left
      obtain ⟨n, -, hput⟩ := Option.bind_eq_some_iff.1 h
      obtain ⟨new, -, rfl⟩ := Option.map_eq_some_iff.1 hput
      trivial

/-- A value that is no word for a truth value is a number where it can be read as one. -/
theorem ofText_of_ne {text : String} (htrue : Text.lower text ≠ "true")
    (hfalse : Text.lower text ≠ "false") :
    ofText text = match Decimal.int64? text with
      | some z => .int z
      | none => match Binary64.ofText? text with
        | some f => .float f
        | none => .text text := by
  exact (if_neg htrue).trans (if_neg hfalse)

end SettingValue

/-! ## Values of settings -/

namespace Settings

open SettingValue (ofText)

variable {vars : Variables} {values values' : SettingValue}

/-- The texts that variables have for a setting. -/
def given (key : String) (vars : List (String × String)) : List String :=
  (vars.filter fun v => placeOf? v.1 = some [.child key]).map Prod.snd

theorem part_setVariable {v : String × String} (h : setVariable values v = .ok values')
    (key : String) : (values'.part key).IsComposite ∨ values'.part key =
      if placeOf? v.1 = some [.child key] then ofText v.2 else values.part key := by
  unfold setVariable at h
  split at h
  next hplace =>
    right
    rw [if_neg (by rw [hplace]; simp), Except.ok.inj h]
  next steps hplace =>
    split at h
    next whole hput =>
      rw [← Except.ok.inj h, hplace]
      simpa using SettingValue.part_put hput key
    next => cases h

/-- Variable after variable, a part is composite or what the last one has for it. -/
theorem part_foldlM {l : List (String × String)} {start : SettingValue} {key : String}
    (h : l.foldlM setVariable values = .ok values')
    (hvalues : (values.part key).IsComposite ∨ values.part key = start) :
    (values'.part key).IsComposite ∨
      values'.part key = ((given key l).getLast?.map ofText).getD start := by
  induction l generalizing values start with
  | nil =>
    rw [List.foldlM_nil] at h
    rw [← Except.ok.inj h]
    exact hvalues
  | cons v rest ih =>
    rw [List.foldlM_cons, bind_eq_ok_iff] at h
    obtain ⟨next, hstep, hrest⟩ := h
    have hpart := part_setVariable hstep key
    by_cases hplace : placeOf? v.1 = some [.child key]
    · rw [if_pos hplace] at hpart
      have hgiven : given key (v :: rest) = v.2 :: given key rest := by simp [given, hplace]
      have hlater := ih hrest hpart
      rw [hgiven, List.getLast?_cons]
      cases hlast : (given key rest).getLast? with
      | none => simpa [hlast] using hlater
      | some last => simpa [hlast] using hlater
    · rw [if_neg hplace] at hpart
      have hgiven : given key (v :: rest) = given key rest := by simp [given, hplace]
      rw [hgiven]
      apply ih hrest
      rcases hpart with hcomposite | hsame
      · exact Or.inl hcomposite
      · rw [hsame]
        exact hvalues

theorem part_override (vars : Variables) (name : String) {setting key : String}
    (h : setting ≠ key) (values : SettingValue) :
    (override vars name setting values).part key = values.part key := by
  unfold override
  split
  · rw [SettingValue.part_replaceEntry, if_neg h]
  · rfl

/-- A setting that only variables with its own name change has the value of the last one. -/
theorem part_valuesOf {key : String} (h : valuesOf vars = .ok values) (hlevel : "log_level" ≠ key)
    (hformat : "log_format" ≠ key) :
    (values.part key).IsComposite ∨
      values.part key =
        ((given key vars.entries).getLast?.map ofText).getD (defaults.part key) := by
  rw [valuesOf, bind_eq_ok_iff] at h
  obtain ⟨set, hset, hvalues⟩ := h
  rw [← Except.ok.inj hvalues, part_override _ _ hformat, part_override _ _ hlevel]
  exact part_foldlM hset (Or.inr rfl)

/-- No other variable is another spelling of the name. -/
def OnlySpelling (vars : Variables) (name : String) : Prop :=
  ∀ other, other ≠ name → Text.lower other = Text.lower name → vars.get? other = none

theorem getLast?_given {name key text : String} (hplace : placeOf? name = some [.child key])
    (hget : vars.get? name = some text) (honly : OnlySpelling vars name) :
    (given key vars.entries).getLast? = some text := by
  have hmem : text ∈ given key vars.entries := by
    apply List.mem_map.2
    refine ⟨(name, text), List.mem_filter.2 ⟨?_, decide_eq_true hplace⟩, rfl⟩
    exact (vars.get?_eq_some_iff name text).1 hget
  have hsame : ∀ s ∈ given key vars.entries, s = text := by
    intro s hs
    obtain ⟨⟨other, s⟩, hother, rfl⟩ := List.mem_map.1 hs
    obtain ⟨hentry, hkey⟩ := List.mem_filter.1 hother
    have hs := (vars.get?_eq_some_iff other s).2 hentry
    by_cases hname : other = name
    · rw [hname, hget, Option.some.injEq] at hs
      exact hs.symm
    · rw [honly other hname (lower_eq_of_placeOf? hplace (of_decide_eq_true hkey))] at hs
      cases hs
  have hne : given key vars.entries ≠ [] := List.ne_nil_of_mem hmem
  rw [List.getLast?_eq_some_getLast hne, hsame _ (List.getLast_mem hne)]

/-! ## Settings that are accepted -/

theorem validate_eq_ok_iff {s t : Settings} :
    s.validate = .ok t ↔ s = t ∧ minRsaBits ≤ s.rsaBits ∧ 1 ≤ s.pollIntervalMillis ∧
      isBlank s.namespace = false ∧ isBlank s.objectName = false ∧ isBlank s.keySet = false := by
  unfold validate
  grind

theorem ofVariables_eq_ok_iff {s : Settings} :
    ofVariables vars = .ok s ↔
      ∃ values, valuesOf vars = .ok values ∧ ofValues values = .ok s ∧ s.validate = .ok s := by
  simp only [ofVariables, bind_eq_ok_iff]
  constructor
  · rintro ⟨values, hvalues, read, hread, hvalid⟩
    obtain rfl := (validate_eq_ok_iff.1 hvalid).1
    exact ⟨values, hvalues, hread, hvalid⟩
  · rintro ⟨values, hvalues, hread, hvalid⟩
    exact ⟨values, hvalues, s, hread, hvalid⟩

/-- What the fields are read from. -/
structure ReadFrom (s : Settings) (values : SettingValue) : Prop where
  storePath : (values.part "store_path").text? = some s.storePath
  «namespace» : (values.part "namespace").text? = some s.namespace
  objectName : (values.part "object_name").text? = some s.objectName
  keySet : (values.part "keyset").text? = some s.keySet
  rsaBits : (values.part "rsa_bits").nat? = some s.rsaBits
  watchBackoffSeconds : (values.part "watch_backoff_secs").nat? = some s.watchBackoffSeconds
  pollIntervalMillis : (values.part "poll_interval_ms").nat? = some s.pollIntervalMillis

theorem textOf_eq_ok_iff {key text : String} :
    textOf values key = .ok text ↔ (values.part key).text? = some text := by
  rw [textOf, SettingValue.part]
  split
  next htext => simp [htext]
  next hnone => simp [hnone]

theorem natOf_eq_ok_iff {key : String} {n : ℕ} :
    natOf values key = .ok n ↔ (values.part key).nat? = some n := by
  rw [natOf, SettingValue.part]
  split
  next hnat => simp [hnat]
  next hnone => simp [hnone]

theorem choiceOf_congr {key choice : String} {α : Type} {names : List (String × α)}
    (h : values'.part key = values.part key) :
    choiceOf values' key choice names = choiceOf values key choice names := by
  unfold SettingValue.part at h
  rw [choiceOf, choiceOf, h]

theorem readFrom_of_ofValues {s : Settings} (h : ofValues values = .ok s) : s.ReadFrom values := by
  simp only [ofValues, bind_eq_ok_iff] at h
  obtain ⟨_, -, storePath, hstorePath, namesp, hnamesp, objectName, hobjectName, keySet, hkeySet,
    _, -, rsaBits, hrsaBits, backoff, hbackoff, interval, hinterval, _, -, _, -, h⟩ := h
  rw [← Except.ok.inj h]
  exact ⟨textOf_eq_ok_iff.1 hstorePath, textOf_eq_ok_iff.1 hnamesp, textOf_eq_ok_iff.1 hobjectName,
    textOf_eq_ok_iff.1 hkeySet, natOf_eq_ok_iff.1 hrsaBits, natOf_eq_ok_iff.1 hbackoff,
    natOf_eq_ok_iff.1 hinterval⟩

/-! ## Settings without variables -/

def standard : Settings :=
  ⟨.local, "./keyward-data", "keyward-system", "keyward-keys", "oidc-keys", .asymmetricSigning,
    2048, 10, 1000, "info", .json⟩

theorem ofValues_defaults : ofValues defaults = .ok standard :=
  eq_ok_of_toOption (by decide +kernel)

theorem validate_standard : standard.validate = .ok standard :=
  validate_eq_ok_iff.2 ⟨rfl, by decide +kernel⟩

/-! ## Variables that are given alone -/

def alone (name text : String) : Variables := SortedMap.empty.insert name text

theorem get?_alone_self (name text : String) : (alone name text).get? name = some text :=
  SortedMap.get?_insert_self _ _ _

theorem get?_alone_of_ne {name other : String} (h : other ≠ name) (text : String) :
    (alone name text).get? other = none := by
  rw [alone, SortedMap.get?_insert_of_ne _ h, SortedMap.get?_empty]

theorem onlySpelling_alone (name text : String) : OnlySpelling (alone name text) name :=
  fun _ hne _ => get?_alone_of_ne hne text

/-- A variable alone replaces one default. -/
theorem valuesOf_alone {name key text : String} (hplace : placeOf? name = some [.child key])
    (hlevel : "LOG_LEVEL" ≠ name) (hformat : "LOG_FORMAT" ≠ name) :
    valuesOf (alone name text) =
      .ok (.table (SettingValue.replaceEntry key (ofText text) defaults.entries)) := by
  have hentries : (alone name text).entries = [(name, text)] := rfl
  have hset : setVariable defaults (name, text) =
      .ok (.table (SettingValue.replaceEntry key (ofText text) defaults.entries)) := by
    rw [setVariable, hplace]
    rfl
  simp [valuesOf, hentries, override, get?_alone_of_ne hlevel, get?_alone_of_ne hformat, hset]

end Settings
end Keyring
