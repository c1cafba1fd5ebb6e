import Keyring.Settings.Value
/-!
# Written places

The name of a variable writes a place in the settings: a key, then keys behind points and positions
in brackets. A name that does not have this form is a key as a whole.
-/
namespace Keyring.SettingValue.Place

def isKeyChar (c : Char) : Bool :=
  c.isAlphanum || c == ' ' || c == '_' || c == '-'

/-- Whether a character may stand around a position. -/
def isSpace (c : Char) : Bool := c == ' ' || c == '\t'

/-- What is being read. Characters are kept in reverse. -/
inductive Pending
  | key (written : List Char)
  | beforePosition
  | position (negative : Bool) (digits : List Char)
  | afterPosition (negative : Bool) (digits : List Char)
  | closed

/-- A reader of places: the steps so far in reverse, and what has begun. -/
structure Reader where
  steps : List Step
  pending : Pending

namespace Reader

/-- Ends what has begun, if it may end. -/
def finish? (r : Reader) : Option (List Step) :=
  match r.pending with
  | .key [] => none
  | .key written => some (.child (String.ofList written.reverse) :: r.steps)
  | .closed => some r.steps
  | _ => none

/-- Ends a position at its bracket, if it fits into 64 bits. -/
def close? (r : Reader) (negative : Bool) (digits : List Char) : Option Reader :=
  match Decimal.digits? digits.reverse with
  | some n =>
    let z : Int := if negative then -n else n
    if -9223372036854775808 ≤ z ∧ z < 9223372036854775808 then
      some ⟨.index z :: r.steps, .closed⟩
    else none
  | none => none

/-- Reads a character behind a finished step. -/
def next? (r : Reader) (c : Char) : Option Reader :=
  r.finish?.bind fun steps =>
    if c = '.' then some ⟨steps, .key []⟩
    else if c = '[' then some ⟨steps, .beforePosition⟩
    else none

def step? (r : Reader) (c : Char) : Option Reader :=
  match r.pending with
  | .key written => if isKeyChar c then some ⟨r.steps, .key (c :: written)⟩ else r.next? c
  | .closed => r.next? c
  | .beforePosition =>
    if isSpace c then some r
    else if c = '-' then some ⟨r.steps, .position true []⟩
    else if c.isDigit then some ⟨r.steps, .position false [c]⟩
    else none
  | .position negative digits =>
    if c.isDigit then some ⟨r.steps, .position negative (c :: digits)⟩
    else if digits.isEmpty then none
    else if isSpace c then some ⟨r.steps, .afterPosition negative digits⟩
    else if c = ']' then r.close? negative digits
    else none
  | .afterPosition negative digits =>
    if isSpace c then some r else if c = ']' then r.close? negative digits else none

def run? (r : Reader) : List Char → Option Reader
  | [] => some r
  | c :: cs => (r.step? c).bind fun r => run? r cs

end Reader

/-- The steps to a written place. -/
def ofText (text : String) : List Step :=
  match (Reader.run? ⟨[], .key []⟩ text.toList).bind Reader.finish? with
  | some steps => steps.reverse
  | none => [.child text]

end Keyring.SettingValue.Place
