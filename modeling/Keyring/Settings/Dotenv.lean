import Keyring.Settings
import Keyring.Text.Alphanumeric
import Keyring.Text.Utf8
/-!
# Variable files

A file of variables has one definition in a line, `name = value`, perhaps with `export` before it.
A value may be quoted and may then go on over several lines; outside of single quotes `$name` stands
for a variable. Definitions never replace a variable that is already there. A line that is not well
formed ends the reading, and what was defined before it stays.
-/
namespace Keyring.Dotenv

/-! ## Lines -/

/-- What the end of a line would interrupt. -/
inductive Quoting
  | plain
  | blank
  | escaped
  | single
  | singleEscaped
  | double
  | doubleEscaped
  deriving DecidableEq

/-- What a character that is not in quotes begins. -/
def Quoting.begin (c : Char) : Quoting :=
  if c = '\\' then .escaped else if c = '"' then .double else if c = '\x27' then .single else .plain

/-- What a line is in the middle of after one more character. -/
def Quoting.next : Quoting → Char → Quoting
  | .plain, c => if Text.isBlank c ∧ c ≠ '\n' ∧ c ≠ '\r' then .blank else .begin c
  | .blank, c => .begin c
  | .escaped, _ => .plain
  | .single, c => if c = '\\' then .singleEscaped else if c = '\x27' then .plain else .single
  | .singleEscaped, _ => .single
  | .double, c => if c = '\\' then .doubleEscaped else if c = '"' then .plain else .double
  | .doubleEscaped, _ => .double

/-- The line up to a comment, with `done` before it in reverse, and what it is in the middle of;
`none` for that at a comment. A comment begins at a `#` behind a blank. -/
def scan (done : List Char) (q : Quoting) : List Char → List Char × Option Quoting
  | [] => (done, some q)
  | c :: cs => if q = .blank ∧ c = '#' then (done, none) else scan (c :: done) (q.next c) cs

/-- Drops a line feed and a carriage return before it from the end of a reversed line. -/
def dropLineEnd : List Char → List Char
  | '\n' :: '\r' :: cs => cs
  | '\n' :: cs => cs
  | cs => cs

/-- Splits bytes behind each line feed. -/
def physicalLines (current : Bytes) : Bytes → List Bytes
  | [] => if current.isEmpty then [] else [current.reverse]
  | b :: rest =>
    if b = 0x0a then (b :: current).reverse :: physicalLines [] rest
    else physicalLines (b :: current) rest

/-- Joins lines whose quotes go on, and empties those that begin as a comment. The last item is
`none` where the text ends inside of a quotation or a line is not well-formed UTF-8. -/
def logicalLines (done : List Char) (q : Quoting) : List Bytes → List (Option (List Char))
  | [] => if q = .plain then [] else [none]
  | bytes :: rest =>
    match Utf8.decode? bytes with
    | none => [none]
    | some text =>
      let cs := text.toList
      if done.isEmpty ∧ (Text.trimStart cs).head? = some '#' then
        some [] :: logicalLines [] .plain rest
      else
        match scan done q cs with
        | (done, none) => some done.reverse :: logicalLines [] .plain rest
        | (done, some .plain) => some (dropLineEnd done).reverse :: logicalLines [] .plain rest
        | (done, some q) => logicalLines done q rest

/-! ## Values -/

/-- How a `$` is being read. -/
inductive Reference
  | name
  /-- A name in braces. -/
  | braced
  deriving DecidableEq

/-- A reader of values. Texts are kept in reverse. -/
structure Reader where
  output : List Char
  single : Bool
  double : Bool
  escaped : Bool
  /-- Only blanks and a comment may follow. -/
  ended : Bool
  /-- A comment has begun. -/
  comment : Bool
  reference : Option Reference
  name : List Char

namespace Reader

def push (r : Reader) (c : Char) : Reader := { r with output := c :: r.output }

/-- Appends the value of the name that was read, and forgets the name. -/
def substitute (r : Reader) (value : String → String) : Reader :=
  let text := value (String.ofList r.name.reverse)
  { r with output := text.toList.reverse ++ r.output, name := [] }

/-- Reads the character after a backslash. -/
def escape? (r : Reader) (c : Char) : Option Reader :=
  let r := { r with escaped := false }
  if c = '\\' ∨ c = '\x27' ∨ c = '"' ∨ c = '$' ∨ c = ' ' then some (r.push c)
  else if c = 'n' then some (r.push '\n')
  else none

/-- Reads a character of a reference. The character behind a name stands for itself, whatever it
is, unless it begins the next reference. -/
def refer (r : Reader) (value : String → String) (kind : Reference) (c : Char) : Reader :=
  if Text.isAlphanumeric c then { r with name := c :: r.name }
  else
    match kind with
    | .name =>
      if c = '\x7b' ∧ r.name.isEmpty then { r with reference := some .braced }
      else
        let r := r.substitute value
        if c = '$' then r else { r with reference := none }.push c
    | .braced =>
      if c = '\x7d' then { r.substitute value with reference := none }
      else { r with name := c :: r.name }

def step? (r : Reader) (value : String → String) (c : Char) : Option Reader :=
  if r.comment then some r
  else if r.ended then
    if c = ' ' ∨ c = '\t' then some r
    else if c = '#' then some { r with comment := true }
    else none
  else if r.escaped then r.escape? c
  else if r.single then
    if c = '\x27' then some { r with single := false } else some (r.push c)
  else
    match r.reference with
    | some kind => some (r.refer value kind c)
    | none =>
      if c = '$' then some { r with reference := some .name }
      else if c = '\\' then some { r with escaped := true }
      else if r.double then
        if c = '"' then some { r with double := false } else some (r.push c)
      else if c = '\x27' then some { r with single := true }
      else if c = '"' then some { r with double := true }
      else if c = ' ' ∨ c = '\t' then some { r with ended := true }
      else some (r.push c)

def run? (r : Reader) (value : String → String) : List Char → Option Reader
  | [] => some r
  | c :: cs => (r.step? value c).bind fun r => r.run? value cs

/-- The value at the end, unless a quotation or a brace is open. -/
def finish? (r : Reader) (value : String → String) : Option String :=
  if r.reference = some .braced ∨ r.single ∨ r.double then none
  else some (String.ofList (r.substitute value).output.reverse)

end Reader

/-- Reads a value, with the values of the variables that it may refer to. -/
def value? (value : String → String) (cs : List Char) : Option String :=
  (Reader.run? ⟨[], false, false, false, false, false, none, []⟩ value cs).bind fun r =>
    r.finish? value

/-! ## Definitions -/

/-- Reads a name, and gives what follows it. -/
def name? (cs : List Char) : Option (String × List Char) :=
  let isNameChar (c : Char) : Bool := c.isAlphanum || c == '_' || c == '.'
  match cs with
  | [] => none
  | c :: _ =>
    if c.isAlpha ∨ c = '_' then
      some (String.ofList (cs.takeWhile isNameChar), cs.dropWhile isNameChar)
    else none

def equals? : List Char → Option (List Char)
  | '=' :: cs => some cs
  | _ => none

/-- What a line holds. -/
inductive Line
  | nothing
  | malformed
  /-- A name and what stands behind the equals sign. -/
  | definition (name : String) (written : List Char)

/-- Reads a line up to its value. -/
def Line.ofText (cs : List Char) : Line :=
  let cs := Text.trimStart (Text.trimEnd cs)
  if cs.isEmpty ∨ cs.head? = some '#' then .nothing
  else
    let definition? : Option (String × List Char) := do
      let (name, rest) ← name? cs
      let rest := Text.trimStart rest
      match equals? rest with
      | some rest => some (name, Text.trimStart rest)
      | none =>
        if name = "export" then
          let (name, rest) ← name? rest
          let rest ← equals? (Text.trimStart rest)
          some (name, Text.trimStart rest)
        else none
    match definition? with
    | some (name, rest) => .definition name rest
    | none => .malformed

/-- Why the variables of a file could not be set. -/
inductive Failure
  /-- A value holds a zero character. -/
  | zeroCharacter (name : String)
  deriving DecidableEq, Repr

/-- The variables that are set and the values that the file has given to names so far. -/
structure State where
  vars : Variables
  defined : Variables

/-- The value of a variable that a text refers to: one that is set comes first. -/
def State.valueOf (s : State) (name : String) : String :=
  ((s.vars.get? name).or (s.defined.get? name)).getD ""

/-- Takes a definition. A variable that is set stays as it is. -/
def State.define (s : State) (name value : String) : Except Failure State :=
  let defined := s.defined.insert name value
  if s.vars.contains name then .ok { s with defined }
  else if value.toList.contains '\x00' then .error (.zeroCharacter name)
  else .ok ⟨s.vars.insert name value, defined⟩

/-- Takes lines until one is not well formed. -/
def State.load (s : State) : List (Option (List Char)) → Except Failure State
  | [] => .ok s
  | none :: _ => .ok s
  | some cs :: rest =>
    match Line.ofText cs with
    | .nothing => s.load rest
    | .malformed => .ok s
    | .definition name written =>
      let value := if written.isEmpty ∨ written.head? = some '#' then some ""
        else value? s.valueOf written
      match value with
      | none => .ok s
      | some value =>
        match s.define name value with
        | .ok s => s.load rest
        | .error failure => .error failure

/-- Drops the mark that may stand at the start of a text. -/
def dropMark : Bytes → Bytes
  | 0xef :: 0xbb :: 0xbf :: rest => rest
  | bytes => bytes

/-- The variables together with those that a file defines. -/
def load (vars : Variables) (file : Bytes) : Except Failure Variables :=
  let lines := logicalLines [] .plain (physicalLines [] (dropMark file))
  (State.load ⟨vars, .empty⟩ lines).map State.vars

end Keyring.Dotenv
