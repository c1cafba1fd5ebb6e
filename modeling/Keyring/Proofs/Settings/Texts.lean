import Keyring.Proofs.Binary64.WrittenNumbers
import Keyring.Proofs.Settings.Variables

/-!
# Settings that are texts

A text that is given for a setting is read as a truth value or a number where that can be done, and
written anew. So it is kept where it is neither, or where it is the one way in which the truth value
or the number is written. Two texts become the same setting only if they are equal, or if both are
truth values or numbers.
-/
namespace Keyring

namespace SettingValue

/-- What a text becomes where a text is asked for. -/
inductive TakenAs (text : String) : String → Prop
  | yes (h : Text.lower text = "true") : TakenAs text "true"
  | no (h : Text.lower text = "false") : TakenAs text "false"
  | integer {z : ℤ} (h : Decimal.int64? text = some z) : TakenAs text (Decimal.ofInt z)
  | float {f : Binary64} (hlong : Decimal.int64? text = none)
    (h : Binary64.ofText? text = some f) : TakenAs text f.plainText
  | word (htruth : Text.lower text ∉ ["true", "false"]) (hlong : Decimal.int64? text = none)
    (h : Binary64.ofText? text = none) : TakenAs text text

/-- Texts that are neither truth values nor numbers. -/
structure IsWord (text : String) : Prop where
  truth : Text.lower text ∉ ["true", "false"]
  integer : Decimal.int64? text = none
  float : Binary64.ofText? text = none

/-- Texts that are written as the truth values and the numbers that they stand for are. -/
inductive AsWritten : String → Prop
  | yes : AsWritten "true"
  | no : AsWritten "false"
  | integer {z : ℤ} (hrange : -2 ^ 63 ≤ z ∧ z < 2 ^ 63) : AsWritten (Decimal.ofInt z)
  | float {f : Binary64} (hlong : Decimal.int64? f.plainText = none)
    (h : Binary64.ofText? f.plainText = some f) : AsWritten f.plainText
  | word {text : String} (h : IsWord text) : AsWritten text

variable {text other taken : String}

/-- A text becomes what it is taken as, and nothing else. -/
theorem text?_ofText_eq_some_iff : (ofText text).text? = some taken ↔ TakenAs text taken := by
  constructor
  · intro h
    by_cases htrue : Text.lower text = "true"
    · have htaken : "true" = taken := by simpa [ofText, htrue, text?] using h
      exact htaken ▸ .yes htrue
    by_cases hfalse : Text.lower text = "false"
    · have htaken : "false" = taken := by simpa [ofText, hfalse, text?] using h
      exact htaken ▸ .no hfalse
    rw [ofText_of_ne htrue hfalse] at h
    split at h
    next z hz => exact Option.some.inj h ▸ .integer hz
    next hlong =>
      split at h
      next f hf => exact Option.some.inj h ▸ .float hlong hf
      next hnone => exact Option.some.inj h ▸ .word (by simp [htrue, hfalse]) hlong hnone
  · have truth : (Decimal.int64? text).isSome = true ∨ (Binary64.ofText? text).isSome = true →
        Text.lower text ≠ "true" ∧ Text.lower text ≠ "false" := by
      intro hnumber
      have hword := Binary64.notMem_words_of_number hnumber
      exact ⟨fun e => hword (by rw [e]; decide), fun e => hword (by rw [e]; decide)⟩
    intro h
    cases h with
    | yes h => simp [ofText, h, text?]
    | no h => simp [ofText, h, text?]
    | integer h =>
      obtain ⟨htrue, hfalse⟩ := truth (Or.inl (by rw [h]; rfl))
      rw [ofText_of_ne htrue hfalse, h]
      rfl
    | float hlong h =>
      obtain ⟨htrue, hfalse⟩ := truth (Or.inr (by rw [h]; rfl))
      rw [ofText_of_ne htrue hfalse, hlong, h]
      rfl
    | word htruth hlong h =>
      have htrue : Text.lower text ≠ "true" := fun e => htruth (by simp [e])
      have hfalse : Text.lower text ≠ "false" := fun e => htruth (by simp [e])
      rw [ofText_of_ne htrue hfalse, hlong, h]
      rfl

/-- Exactly the texts that are written as what they stand for stay as they are. -/
theorem takenAs_self_iff : TakenAs text text ↔ AsWritten text := by
  constructor
  · intro h
    obtain ⟨taken, htaken⟩ : ∃ taken, taken = text := ⟨text, rfl⟩
    have hto : TakenAs text taken := htaken ▸ h
    cases hto with
    | yes => exact htaken ▸ .yes
    | no => exact htaken ▸ .no
    | integer hz => exact htaken ▸ .integer (Decimal.range_of_int64? hz)
    | float hlong hf =>
      rw [← htaken] at hlong hf ⊢
      exact .float hlong hf
    | word htruth hlong hnone => exact .word ⟨htruth, hlong, hnone⟩
  · intro h
    cases h with
    | yes => exact .yes (by decide +kernel)
    | no => exact .no (by decide +kernel)
    | integer hrange => exact .integer (Decimal.int64?_ofInt hrange)
    | float hlong hf => exact .float hlong hf
    | word h => exact .word h.truth h.integer h.float

/-- Nothing but the word itself becomes a word. -/
theorem TakenAs.eq_of_isWord (h : TakenAs text taken) (hword : IsWord taken) : text = taken := by
  cases h with
  | yes | no => exact absurd (by decide +kernel) hword.truth
  | integer hz =>
    have hread := hword.integer
    rw [Decimal.int64?_ofInt (Decimal.range_of_int64? hz)] at hread
    cases hread
  | @float f hlong hf =>
    have hread := f.isSome_ofText?_plainText
    rw [hword.float] at hread
    cases hread
  | word => rfl

theorem TakenAs.eq_self (h : TakenAs text taken) (hword : IsWord text) : taken = text :=
  Option.some.inj ((text?_ofText_eq_some_iff.2 h).symm.trans
    (text?_ofText_eq_some_iff.2 (.word hword.truth hword.integer hword.float)))

/-- Different texts become the same one only if neither is a word. -/
theorem TakenAs.eq_or_not_isWord (h : TakenAs text taken) (hother : TakenAs other taken) :
    text = other ∨ ¬ IsWord text ∧ ¬ IsWord other := by
  by_cases hword : IsWord text
  · obtain rfl := h.eq_self hword
    exact Or.inl (hother.eq_of_isWord hword).symm
  · by_cases hword' : IsWord other
    · obtain rfl := hother.eq_self hword'
      exact Or.inl (h.eq_of_isWord hword')
    · exact Or.inr ⟨hword, hword'⟩

end SettingValue

/-! ## The settings -/

namespace Settings

open SettingValue (TakenAs AsWritten IsWord)

/-- The settings that are texts of any form. -/
inductive TextSetting
  | storePath
  | «namespace»
  | objectName
  | keySet
  deriving DecidableEq, Repr

namespace TextSetting

def variableName : TextSetting → String
  | storePath => "KEYWARD_STORE_PATH"
  | «namespace» => "KEYWARD_NAMESPACE"
  | objectName => "KEYWARD_OBJECT_NAME"
  | keySet => "KEYWARD_KEYSET"

def key : TextSetting → String
  | storePath => "store_path"
  | «namespace» => "namespace"
  | objectName => "object_name"
  | keySet => "keyset"

def field (s : Settings) : TextSetting → String
  | storePath => s.storePath
  | «namespace» => s.namespace
  | objectName => s.objectName
  | keySet => s.keySet

variable {vars vars' : Variables} {s s' : Settings} {t : TextSetting} {text text' : String}

theorem placeOf?_variableName (t : TextSetting) :
    placeOf? t.variableName = some [.child t.key] := by
  cases t <;> decide +kernel

theorem text?_field {values : SettingValue} (h : s.ReadFrom values) (t : TextSetting) :
    (values.part t.key).text? = some (t.field s) := by
  cases t with
  | storePath => exact h.storePath
  | «namespace» => exact h.namespace
  | objectName => exact h.objectName
  | keySet => exact h.keySet

/-- A text that is given under one name becomes the setting that it is taken as. -/
theorem takenAs_of_given (h : ofVariables vars = .ok s)
    (hget : vars.get? t.variableName = some text) (honly : OnlySpelling vars t.variableName) :
    TakenAs text (t.field s) := by
  obtain ⟨values, hvalues, hread, -⟩ := ofVariables_eq_ok_iff.1 h
  have hfield := text?_field (readFrom_of_ofValues hread) t
  have hlevel : "log_level" ≠ t.key := by cases t <;> decide
  have hformat : "log_format" ≠ t.key := by cases t <;> decide
  rcases part_valuesOf hvalues hlevel hformat with hcomposite | hpart
  · rw [SettingValue.text?_of_isComposite hcomposite] at hfield
    cases hfield
  · rw [hpart, getLast?_given t.placeOf?_variableName hget honly] at hfield
    exact SettingValue.text?_ofText_eq_some_iff.1 hfield

/-- An accepted text that is given under one name is read and written anew, so it is kept exactly if
it is written as what it stands for. Two different texts for the same setting of two services become
the same only if each of them is a truth value or a number. -/
theorem text_given (h : ofVariables vars = .ok s) (hget : vars.get? t.variableName = some text)
    (honly : OnlySpelling vars t.variableName) (h' : ofVariables vars' = .ok s')
    (hget' : vars'.get? t.variableName = some text') (honly' : OnlySpelling vars' t.variableName) :
    TakenAs text (t.field s) ∧ (t.field s = text ↔ AsWritten text) ∧
      (t.field s = t.field s' → text = text' ∨ ¬ IsWord text ∧ ¬ IsWord text') := by
  have htaken := takenAs_of_given h hget honly
  have htaken' := takenAs_of_given h' hget' honly'
  refine ⟨htaken, ?_, fun hsame => ?_⟩
  · rw [← SettingValue.takenAs_self_iff]
    constructor
    · intro hkept
      rwa [hkept] at htaken
    · intro hself
      exact Option.some.inj ((SettingValue.text?_ofText_eq_some_iff.2 htaken).symm.trans
        (SettingValue.text?_ofText_eq_some_iff.2 hself))
  · rw [← hsame] at htaken'
    exact htaken.eq_or_not_isWord htaken'

/-- Two namespaces become the same, as both are numbers. -/
theorem text_given_zeros :
    ofVariables (alone "KEYWARD_NAMESPACE" "007") = .ok { standard with «namespace» := "7" } ∧
      ofVariables (alone "KEYWARD_NAMESPACE" "7") = .ok { standard with «namespace» := "7" } ∧
      ¬ AsWritten "007" ∧ AsWritten "7" ∧ ¬ IsWord "007" := by
  have hzeros : ofVariables (alone "KEYWARD_NAMESPACE" "007") =
      .ok { standard with «namespace» := "7" } := eq_ok_of_toOption (by decide +kernel)
  have hplain : ofVariables (alone "KEYWARD_NAMESPACE" "7") =
      .ok { standard with «namespace» := "7" } := eq_ok_of_toOption (by decide +kernel)
  obtain ⟨-, hkept, hsame⟩ := text_given (t := .namespace) hzeros (get?_alone_self _ _)
    (onlySpelling_alone _ _) hplain (get?_alone_self _ _) (onlySpelling_alone _ _)
  obtain ⟨-, hkept', -⟩ := text_given (t := .namespace) hplain (get?_alone_self _ _)
    (onlySpelling_alone _ _) hzeros (get?_alone_self _ _) (onlySpelling_alone _ _)
  refine ⟨hzeros, hplain, fun hwritten => ?_, hkept'.1 rfl, ?_⟩
  · exact absurd (hkept.2 hwritten) (by decide)
  · rcases hsame rfl with heq | ⟨hword, -⟩
    · exact absurd heq (by decide)
    · exact hword

/-- Zeros before a number are not kept. -/
theorem text_not_kept :
    ¬ ∀ (t : TextSetting) (vars : Variables) (s : Settings) (text : String),
      ofVariables vars = .ok s → vars.get? t.variableName = some text →
      OnlySpelling vars t.variableName → t.field s = text := by
  intro hkept
  have haccepted : ofVariables (alone "KEYWARD_NAMESPACE" "007") =
      .ok { standard with «namespace» := "7" } := eq_ok_of_toOption (by decide +kernel)
  have hzeros := hkept .namespace _ _ "007" haccepted (get?_alone_self _ _) (onlySpelling_alone _ _)
  exact absurd hzeros (by decide)

end TextSetting

end Settings
end Keyring
