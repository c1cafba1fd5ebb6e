import Keyring.Proofs.Binary64.WrittenNumbers
import Keyring.Proofs.Settings.Variables

/-!
# Settings that are numbers

Where a number is asked for, a text may be a word for yes or no, an integer, or a number with a
fraction, an exponent or a name. The last kind is rounded and brought into the range, and so are
integers of more than 63 bits. No other text is taken.
-/
namespace Keyring

/-! ## What a text stands for -/

namespace SettingValue

open Binary64 (yesNoWords)

/-- What a text stands for where a number is asked for. -/
inductive Stands (text : String) : ℕ → Prop
  | yes (h : Text.lower text ∈ ["true", "on", "yes"]) : Stands text 1
  | no (h : Text.lower text ∈ ["false", "off", "no"]) : Stands text 0
  | integer {n : ℕ} (h : Decimal.int64? text = some (n : ℤ)) : Stands text n
  /-- Another number is rounded and brought into the range. -/
  | clamped {f : Binary64} (hlong : Decimal.int64? text = none)
    (h : Binary64.ofText? text = some f) : Stands text (f.clampToNat (2 ^ 64))

theorem nat?_of_stands {text : String} {n : ℕ} (h : Stands text n) :
    (ofText text).nat? = some n := by
  have words : ∀ {word : String}, Text.lower text = word → word ∈ yesNoWords →
      word ≠ "true" → word ≠ "false" → ofText text = .text text := by
    rintro word rfl hword htrue hfalse
    rw [ofText_of_ne htrue hfalse, Decimal.int64?_of_word hword, Binary64.ofText?_of_word hword]
  have numbers : (Decimal.int64? text).isSome = true ∨ (Binary64.ofText? text).isSome = true →
      Text.lower text ≠ "true" ∧ Text.lower text ≠ "false" := by
    intro hnumber
    have hword := Binary64.notMem_words_of_number hnumber
    exact ⟨fun e => hword (by rw [e]; decide), fun e => hword (by rw [e]; decide)⟩
  cases h with
  | yes h =>
    simp only [List.mem_cons, List.not_mem_nil, or_false] at h
    rcases h with h | h | h
    · simp [ofText, h, nat?]
    · rw [words h (by decide) (by decide) (by decide)]
      simp [nat?, natOfText?, h]
    · rw [words h (by decide) (by decide) (by decide)]
      simp [nat?, natOfText?, h]
  | no h =>
    simp only [List.mem_cons, List.not_mem_nil, or_false] at h
    rcases h with h | h | h
    · simp [ofText, h, nat?]
    · rw [words h (by decide) (by decide) (by decide)]
      simp [nat?, natOfText?, h]
    · rw [words h (by decide) (by decide) (by decide)]
      simp [nat?, natOfText?, h]
  | integer h =>
    obtain ⟨htrue, hfalse⟩ := numbers (Or.inl (by rw [h]; rfl))
    rw [ofText_of_ne htrue hfalse, h]
    simp [nat?]
  | clamped hlong h =>
    obtain ⟨htrue, hfalse⟩ := numbers (Or.inr (by rw [h]; rfl))
    rw [ofText_of_ne htrue hfalse, hlong, h]
    rfl

/-- A text is taken as a number exactly if it stands for it. -/
theorem nat?_ofText_eq_some_iff {text : String} {n : ℕ} :
    (ofText text).nat? = some n ↔ Stands text n := by
  refine ⟨fun h => ?_, nat?_of_stands⟩
  by_cases htrue : Text.lower text = "true"
  · have hn : 1 = n := by simpa [ofText, htrue, nat?] using h
    rw [← hn]
    exact .yes (by rw [htrue]; decide)
  by_cases hfalse : Text.lower text = "false"
  · have hn : 0 = n := by simpa [ofText, hfalse, nat?] using h
    rw [← hn]
    exact .no (by rw [hfalse]; decide)
  rw [ofText_of_ne htrue hfalse] at h
  split at h
  next z hz =>
    rw [nat?] at h
    split at h
    next hnonneg =>
      rw [← Option.some.inj h]
      exact .integer (by rw [Int.toNat_of_nonneg hnonneg]; exact hz)
    next => cases h
  next hlong =>
    split at h
    next f hf =>
      rw [← Option.some.inj h]
      exact .clamped hlong hf
    next hnone =>
      simp only [nat?, natOfText?] at h
      split at h
      next hyes =>
        rw [← Option.some.inj h]
        exact .yes (by simpa using hyes)
      next =>
        split at h
        next hno =>
          rw [← Option.some.inj h]
          exact .no (by simpa using hno)
        next =>
          -- digits would have been read as a floating-point number
          rw [Binary64.ofText?_of_nat64? h] at hnone
          cases hnone

theorem Stands.unique {text : String} {m n : ℕ} (hm : Stands text m) (hn : Stands text n) :
    m = n :=
  Option.some.inj ((nat?_of_stands hm).symm.trans (nat?_of_stands hn))

theorem Stands.lt {text : String} {n : ℕ} (h : Stands text n) : n < 2 ^ 64 := by
  cases h with
  | yes | no => decide
  | integer h =>
    obtain ⟨-, hrange⟩ := Option.filter_eq_some_iff.1 h
    have := of_decide_eq_true hrange
    omega
  | clamped => exact Binary64.clampToNat_lt (by decide) _

/-- From `2 ^ 63` on, only every 2048th number and the last one can be given. -/
theorem Stands.coarse {text : String} {n : ℕ} (h : Stands text n) :
    n < 2 ^ 63 ∨ 2048 ∣ n ∨ n = 2 ^ 64 - 1 := by
  cases h with
  | yes | no => exact Or.inl (by decide)
  | integer h =>
    obtain ⟨-, hrange⟩ := Option.filter_eq_some_iff.1 h
    have := of_decide_eq_true hrange
    exact Or.inl (by omega)
  | clamped _ h => exact Binary64.clampToNat_coarse (Binary64.regular_of_ofText? h)

/-- What the text of a natural number stands for: the number itself, or the nearest one with 53
bits. -/
theorem stands_of_nat64? {text : String} {n : ℕ} (h : Decimal.nat64? text = some n) :
    Stands text (if n < 2 ^ 63 then n else min (Binary64.rounded n) (2 ^ 64 - 1)) := by
  obtain ⟨hlimit, hdigits⟩ := Decimal.nat64?_eq_some_iff.1 h
  have hsigned : Decimal.signed? text.toList = some (n : ℤ) := by
    rcases hdigits with ⟨rest, htext, hrest⟩ | htext
    · rw [htext, Decimal.signed?, hrest]
      rfl
    · exact Decimal.signed?_of_digits? htext
  have hint : Decimal.int64? text = if n < 2 ^ 63 then some (n : ℤ) else none := by
    rw [Decimal.int64?, hsigned]
    by_cases hn : n < 2 ^ 63
    · rw [if_pos hn, Option.filter_some, if_pos (by simp; omega)]
    · rw [if_neg hn, Option.filter_some, if_neg (by simp; omega)]
  split
  next hn => exact .integer (by rw [hint, if_pos hn])
  next hn =>
    have hclamped := Stands.clamped (by rw [hint, if_neg hn]) (Binary64.ofText?_of_nat64? h)
    rwa [Binary64.clampToNat_of_isWhole (Binary64.isWhole_ofNat hlimit)] at hclamped

end SettingValue

/-! ## The settings -/

namespace Settings

open SettingValue (Stands)

inductive NumberSetting
  | rsaBits
  | watchBackoffSeconds
  | pollIntervalMillis
  deriving DecidableEq, Repr

namespace NumberSetting

def variableName : NumberSetting → String
  | rsaBits => "KEYWARD_RSA_BITS"
  | watchBackoffSeconds => "KEYWARD_WATCH_BACKOFF_SECS"
  | pollIntervalMillis => "KEYWARD_POLL_INTERVAL_MS"

def key : NumberSetting → String
  | rsaBits => "rsa_bits"
  | watchBackoffSeconds => "watch_backoff_secs"
  | pollIntervalMillis => "poll_interval_ms"

/-- The least number that is accepted. -/
def least : NumberSetting → ℕ
  | rsaBits => minRsaBits
  | watchBackoffSeconds => 0
  | pollIntervalMillis => 1

def field (s : Settings) : NumberSetting → ℕ
  | rsaBits => s.rsaBits
  | watchBackoffSeconds => s.watchBackoffSeconds
  | pollIntervalMillis => s.pollIntervalMillis

variable {vars : Variables} {s : Settings}

theorem placeOf?_variableName (t : NumberSetting) :
    placeOf? t.variableName = some [.child t.key] := by
  cases t <;> decide +kernel

theorem nat?_field {values : SettingValue} (h : s.ReadFrom values) (t : NumberSetting) :
    (values.part t.key).nat? = some (t.field s) := by
  cases t with
  | rsaBits => exact h.rsaBits
  | watchBackoffSeconds => exact h.watchBackoffSeconds
  | pollIntervalMillis => exact h.pollIntervalMillis

theorem nat?_default (t : NumberSetting) : (defaults.part t.key).nat? = some (t.field standard) :=
  nat?_field (readFrom_of_ofValues ofValues_defaults) t

theorem least_le_field (h : s.validate = .ok s) (t : NumberSetting) : t.least ≤ t.field s := by
  obtain ⟨-, hbits, hinterval, -⟩ := validate_eq_ok_iff.1 h
  cases t with
  | rsaBits => exact hbits
  | watchBackoffSeconds => exact Nat.zero_le _
  | pollIntervalMillis => exact hinterval

/-- An accepted number is what the last text that is given stands for, or the default. -/
theorem stands_or_default (h : ofVariables vars = .ok s) (t : NumberSetting) :
    match (given t.key vars.entries).getLast? with
    | some text => Stands text (t.field s)
    | none => t.field s = t.field standard := by
  obtain ⟨values, hvalues, hread, -⟩ := ofVariables_eq_ok_iff.1 h
  have hfield := nat?_field (readFrom_of_ofValues hread) t
  have hlevel : "log_level" ≠ t.key := by cases t <;> decide
  have hformat : "log_format" ≠ t.key := by cases t <;> decide
  rcases part_valuesOf hvalues hlevel hformat with hcomposite | hpart
  · rw [SettingValue.nat?_of_isComposite hcomposite] at hfield
    cases hfield
  · rw [hpart] at hfield
    cases hlast : (given t.key vars.entries).getLast? with
    | some text =>
      rw [hlast] at hfield
      exact SettingValue.nat?_ofText_eq_some_iff.1 hfield
    | none =>
      rw [hlast] at hfield
      exact Option.some.inj (hfield.symm.trans t.nat?_default)

/-- A number that is given under one name is what its text stands for. -/
theorem stands_of_given (h : ofVariables vars = .ok s) {t : NumberSetting} {text : String}
    (hget : vars.get? t.variableName = some text) (honly : OnlySpelling vars t.variableName) :
    Stands text (t.field s) := by
  have hfield := stands_or_default h t
  rwa [getLast?_given t.placeOf?_variableName hget honly] at hfield

/-- No number reaches `2 ^ 64`, and from `2 ^ 63` on there are gaps between them. -/
theorem field_coarse (h : ofVariables vars = .ok s) (t : NumberSetting) :
    t.field s < 2 ^ 64 ∧
      (t.field s < 2 ^ 63 ∨ 2048 ∣ t.field s ∨ t.field s = 2 ^ 64 - 1) := by
  have hfield := stands_or_default h t
  split at hfield
  next text _ => exact ⟨hfield.lt, hfield.coarse⟩
  next =>
    rw [hfield]
    cases t <;> decide

/-! ## Variables that are given alone -/

/-- Values with another number are read if the number can be. -/
theorem exists_ofValues {values values' : SettingValue} (h : ofValues values = .ok s)
    {t : NumberSetting} (hsame : ∀ key, key ≠ t.key → values'.part key = values.part key) {n : ℕ}
    (hn : (values'.part t.key).nat? = some n) : ∃ s', ofValues values' = .ok s' := by
  have text : ∀ {key a : String}, key ≠ t.key → textOf values key = .ok a →
      textOf values' key = .ok a := by
    intro key a hkey hread
    rw [textOf_eq_ok_iff, hsame key hkey]
    exact textOf_eq_ok_iff.1 hread
  have number : ∀ {key : String} {a : ℕ}, natOf values key = .ok a →
      ∃ b, natOf values' key = .ok b := by
    intro key a hread
    by_cases hkey : key = t.key
    · exact ⟨n, natOf_eq_ok_iff.2 (by rw [hkey]; exact hn)⟩
    · exact ⟨a, natOf_eq_ok_iff.2 (by rw [hsame key hkey]; exact natOf_eq_ok_iff.1 hread)⟩
  have hne : ∀ key ∈ ["store_backend", "store_path", "namespace", "object_name", "keyset",
      "key_type", "log_level", "log_format"], key ≠ t.key := by
    cases t <;> decide
  simp only [List.forall_mem_cons] at hne
  obtain ⟨h₁, h₂, h₃, h₄, h₅, h₆, h₇, h₈, -⟩ := hne
  simp only [ofValues, bind_eq_ok_iff] at h
  obtain ⟨backend, hbackend, path, hpath, namesp, hnamesp, object, hobject, keySet, hkeySet,
    keyType, hkeyType, _, hbits, _, hbackoff, _, hinterval, level, hlevel, format, hformat, -⟩ := h
  obtain ⟨bits, hbits⟩ := number hbits
  obtain ⟨backoff, hbackoff⟩ := number hbackoff
  obtain ⟨interval, hinterval⟩ := number hinterval
  simp only [ofValues, bind_eq_ok_iff]
  exact ⟨_, backend, (choiceOf_congr (hsame _ h₁)).trans hbackend, path, text h₂ hpath,
    namesp, text h₃ hnamesp, object, text h₄ hobject, keySet, text h₅ hkeySet,
    keyType, (choiceOf_congr (hsame _ h₆)).trans hkeyType, bits, hbits, backoff, hbackoff,
    interval, hinterval, level, text h₇ hlevel,
    format, (choiceOf_congr (hsame _ h₈)).trans hformat, rfl⟩

/-- A number that is not below the least one is accepted. -/
theorem exists_ofVariables_alone {t : NumberSetting} {text : String} {n : ℕ} (hleast : t.least ≤ n)
    (h : Stands text n) : ∃ s, ofVariables (alone t.variableName text) = .ok s := by
  obtain ⟨values, hvalues⟩ : ∃ values, values = SettingValue.table
    (SettingValue.replaceEntry t.key (.ofText text) defaults.entries) := ⟨_, rfl⟩
  have hpart : ∀ key, values.part key =
      if t.key = key then .ofText text else defaults.part key := fun key => by
    rw [hvalues, SettingValue.part_replaceEntry]
  have hsame : ∀ key, key ≠ t.key → values.part key = defaults.part key := fun key hkey => by
    rw [hpart, if_neg hkey.symm]
  have hown : (values.part t.key).nat? = some n := by
    rw [hpart, if_pos rfl]
    exact SettingValue.nat?_of_stands h
  obtain ⟨s, hs⟩ := exists_ofValues ofValues_defaults hsame hown
  have hread := readFrom_of_ofValues hs
  have hstandard := readFrom_of_ofValues ofValues_defaults
  have hfield : ∀ other : NumberSetting, other.least ≤ other.field s := by
    intro other
    have hother := nat?_field hread other
    by_cases hkey : other.key = t.key
    · obtain rfl : other = t := by
        revert hkey
        cases other <;> cases t <;> decide
      rw [hown, Option.some.injEq] at hother
      rwa [← hother]
    · rw [hsame _ hkey, nat?_default, Option.some.injEq] at hother
      rw [← hother]
      exact least_le_field validate_standard other
  have hnamespace : s.namespace = standard.namespace := by
    have := hread.namespace
    rw [hsame _ (by cases t <;> decide), hstandard.namespace] at this
    exact (Option.some.inj this).symm
  have hobject : s.objectName = standard.objectName := by
    have := hread.objectName
    rw [hsame _ (by cases t <;> decide), hstandard.objectName] at this
    exact (Option.some.inj this).symm
  have hkeySet : s.keySet = standard.keySet := by
    have := hread.keySet
    rw [hsame _ (by cases t <;> decide), hstandard.keySet] at this
    exact (Option.some.inj this).symm
  obtain ⟨-, -, -, hblank⟩ := validate_eq_ok_iff.1 validate_standard
  refine ⟨s, ofVariables_eq_ok_iff.2 ⟨values, ?_, hs, validate_eq_ok_iff.2 ⟨rfl, ?_, ?_, ?_⟩⟩⟩
  · rw [hvalues]
    exact valuesOf_alone t.placeOf?_variableName (by cases t <;> decide) (by cases t <;> decide)
  · exact hfield .rsaBits
  · exact hfield .pollIntervalMillis
  · rw [hnamespace, hobject, hkeySet]
    exact hblank

/-- An accepted number that is given under one name is not below the least one, and is what its text
stands for. It is the written natural number exactly if the text writes one of 63 bits, a multiple
of `2 ^ 11`, or the last of 64 bits. Given alone, a text is refused unless it stands for a number
that is not below the least one. -/
theorem number_given {t : NumberSetting} {text : String} (h : ofVariables vars = .ok s)
    (hget : vars.get? t.variableName = some text) (honly : OnlySpelling vars t.variableName) :
    t.least ≤ t.field s ∧ Stands text (t.field s) ∧
      (Decimal.nat64? text = some (t.field s) ↔
        ∃ n, Decimal.nat64? text = some n ∧ (n < 2 ^ 63 ∨ 2048 ∣ n ∨ n = 2 ^ 64 - 1)) ∧
      ∀ other, (∃ s', ofVariables (alone t.variableName other) = .ok s') ↔
        ∃ n, t.least ≤ n ∧ Stands other n := by
  obtain ⟨values, -, -, hvalid⟩ := ofVariables_eq_ok_iff.1 h
  have hstands := stands_of_given h hget honly
  refine ⟨least_le_field hvalid t, hstands, ?_, fun other => ?_⟩
  · constructor
    · exact fun hexact => ⟨_, hexact, (field_coarse h t).2⟩
    · rintro ⟨n, hn, hcoarse⟩
      rw [hn, hstands.unique (SettingValue.stands_of_nat64? hn), Option.some.injEq]
      split
      · rfl
      next hlong =>
        have hlimit := (Decimal.nat64?_eq_some_iff.1 hn).1
        rcases hcoarse with hshort | hmultiple | hlast
        · exact absurd hshort hlong
        · rw [Binary64.rounded_of_multiple hlimit hmultiple]
          omega
        · have hround := (Binary64.le_rounded_iff hlimit).2 (by omega)
          omega
  · constructor
    · rintro ⟨s', hs'⟩
      obtain ⟨values', -, -, hvalid'⟩ := ofVariables_eq_ok_iff.1 hs'
      exact ⟨t.field s', least_le_field hvalid' t,
        stands_of_given hs' (get?_alone_self _ _) (onlySpelling_alone _ _)⟩
    · rintro ⟨n, hleast, hother⟩
      exact exists_ofVariables_alone hleast hother

/-- Two and a half milliseconds become three. -/
theorem number_given_fraction :
    ofVariables (alone "KEYWARD_POLL_INTERVAL_MS" "2.5") =
        .ok { standard with pollIntervalMillis := 3 } ∧
      Stands "2.5" 3 ∧ Decimal.nat64? "2.5" = none := by
  have haccepted : ofVariables (alone "KEYWARD_POLL_INTERVAL_MS" "2.5") =
      .ok { standard with pollIntervalMillis := 3 } := eq_ok_of_toOption (by decide +kernel)
  have hgiven := number_given haccepted (t := pollIntervalMillis) (get?_alone_self _ _)
    (onlySpelling_alone _ _)
  exact ⟨haccepted, hgiven.2.1, by decide +kernel⟩

/-- What is no number at all is accepted as zero. -/
theorem number_not_written :
    ¬ ∀ (t : NumberSetting) (vars : Variables) (s : Settings) (text : String),
      ofVariables vars = .ok s → vars.get? t.variableName = some text →
      OnlySpelling vars t.variableName → Decimal.nat64? text = some (t.field s) := by
  intro hwritten
  have haccepted : ofVariables (alone "KEYWARD_WATCH_BACKOFF_SECS" "nan") =
      .ok { standard with watchBackoffSeconds := 0 } := eq_ok_of_toOption (by decide +kernel)
  have hnan := hwritten watchBackoffSeconds _ _ "nan" haccepted (get?_alone_self _ _)
    (onlySpelling_alone _ _)
  exact absurd hnan (by decide +kernel)

end NumberSetting

end Settings
end Keyring
