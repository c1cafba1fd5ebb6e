import Keyring.KeyError
/-!
# Names of key sets

A name is short and made of ASCII letters, digits, `-` and `_`. A key set is stored in a field whose
name is the name of the set behind a fixed beginning; fields of other names hold no key set.
-/
namespace Keyring

/-- Whether a character may occur in the name of a key set. -/
def KeySetName.isPlain (c : Char) : Bool := c.isAlphanum || c == '-' || c == '_'

/-- A name under which a key set may be stored. -/
structure KeySetName where
  text : String
  nonempty : text ≠ ""
  short : text.utf8ByteSize ≤ 200
  plain : text.toList.all KeySetName.isPlain = true
  deriving DecidableEq

namespace KeySetName

def ofText? (text : String) : Option KeySetName :=
  if h : text ≠ "" ∧ text.utf8ByteSize ≤ 200 ∧ text.toList.all isPlain = true then
    some ⟨text, h.1, h.2.1, h.2.2⟩
  else none

/-- The name that a text is, or the failure that quotes it. -/
def ofText (text : String) : Except KeyError KeySetName :=
  match ofText? text with
  | some name => .ok name
  | none => .error (.invalidName text)

@[simp] theorem ofText?_text (name : KeySetName) : ofText? name.text = some name :=
  dif_pos ⟨name.nonempty, name.short, name.plain⟩

theorem text_of_ofText? {text : String} {name : KeySetName} (h : ofText? text = some name) :
    name.text = text := by
  unfold ofText? at h
  split at h
  · exact (Option.some.inj h) ▸ rfl
  · cases h

def fieldStart : List Char := "keyset.".toList

/-- The field in which the key set is stored. -/
def field (name : KeySetName) : String :=
  String.ofList (fieldStart ++ name.text.toList)

def ofField? (field : String) : Option KeySetName :=
  if fieldStart.isPrefixOf field.toList then
    ofText? (String.ofList (field.toList.drop fieldStart.length))
  else none

/-- The field of a name is recognised as that name. -/
@[simp] theorem ofField?_field (name : KeySetName) : ofField? name.field = some name := by
  simp [ofField?, field]

/-- A field is recognised as a name only if it is the field of that name. -/
theorem field_of_ofField? {field : String} {name : KeySetName} (h : ofField? field = some name) :
    name.field = field := by
  unfold ofField? at h
  split at h
  next start =>
    obtain ⟨rest, hr⟩ := List.isPrefixOf_iff_prefix.1 start
    unfold KeySetName.field
    rw [text_of_ofText? h, String.toList_ofList, ← hr, List.drop_left, hr, String.ofList_toList]
  next => cases h

end KeySetName
end Keyring
