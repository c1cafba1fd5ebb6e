import Keyring.Json.Number
import Keyring.Json.StringText
/-!
# JSON trees

A tree is a JSON text of which the structure has been read. A string that is no text, or a number
that is too large, is a leaf without a value: a reader that skips the leaf takes no notice of it,
one that looks at it fails. The parser keeps the open arrays and objects on a stack, so a text may
be nested as deeply as it likes.
-/
namespace Keyring.Json

/-- A JSON text of which the structure has been read. -/
inductive Tree
  | null
  | bool (value : Bool)
  | number (value : Option Number)
  | string (value : Option String)
  | array (items : List Tree)
  | object (members : List (Option String × Tree))

namespace Tree

/-- An open array or object: what it holds so far, in reverse, and the key of the next value. -/
inductive Frame
  | array (items : List Tree)
  | object (members : List (Option String × Tree)) (key : Option String)

/-- What may come next inside the open arrays and objects. -/
inductive Expected
  | value
  | valueOrEnd
  | key
  | keyOrEnd
  | colon
  | commaOrEnd
  deriving DecidableEq

/-- The parser between two tokens. -/
inductive Parser
  | awaiting (expected : Expected) (stack : List Frame)
  | finished (tree : Tree)

namespace Parser

/-- Hands a complete value to the innermost open array or object. -/
def deliver (tree : Tree) : List Frame → Parser
  | [] => .finished tree
  | .array items :: stack => .awaiting .commaOrEnd (.array (tree :: items) :: stack)
  | .object members key :: stack =>
    .awaiting .commaOrEnd (.object ((key, tree) :: members) none :: stack)

/-- A token where a value may begin. -/
def begin? (stack : List Frame) : Token → Option Parser
  | .null => some (deliver .null stack)
  | .bool b => some (deliver (.bool b) stack)
  | .number written => some (deliver (.number (Number.ofWritten? written)) stack)
  | .string written => some (deliver (.string (StringText.read? written)) stack)
  | .openArray => some (.awaiting .valueOrEnd (.array [] :: stack))
  | .openObject => some (.awaiting .keyOrEnd (.object [] none :: stack))
  | _ => none

/-- Ends the innermost array or object, if the token fits it. -/
def close? : Token → List Frame → Option Parser
  | .closeArray, .array items :: stack => some (deliver (.array items.reverse) stack)
  | .closeObject, .object members _ :: stack => some (deliver (.object members.reverse) stack)
  | _, _ => none

def key? : Token → List Frame → Option Parser
  | .string written, .object members _ :: stack =>
    some (.awaiting .colon (.object members (StringText.read? written) :: stack))
  | _, _ => none

def step? : Parser → Token → Option Parser
  | .finished _, _ => none
  | .awaiting .value stack, token => begin? stack token
  | .awaiting .valueOrEnd stack, .closeArray => close? .closeArray stack
  | .awaiting .valueOrEnd stack, token => begin? stack token
  | .awaiting .key stack, token => key? token stack
  | .awaiting .keyOrEnd stack, .closeObject => close? .closeObject stack
  | .awaiting .keyOrEnd stack, token => key? token stack
  | .awaiting .colon stack, .colon => some (.awaiting .value stack)
  | .awaiting .colon _, _ => none
  | .awaiting .commaOrEnd (.array items :: stack), .comma =>
    some (.awaiting .value (.array items :: stack))
  | .awaiting .commaOrEnd (.object members key :: stack), .comma =>
    some (.awaiting .key (.object members key :: stack))
  | .awaiting .commaOrEnd stack, token => close? token stack

def run? (parser : Parser) : List Token → Option Parser
  | [] => some parser
  | token :: rest =>
    match parser.step? token with
    | some parser => parser.run? rest
    | none => none

/-- The tree at the end of the text. -/
def finish? : Parser → Option Tree
  | .finished tree => some tree
  | .awaiting .. => none

end Parser

/-- The tree of a text, if the text is one JSON value with nothing but blanks around it. -/
def parse? (text : Bytes) : Option Tree := do
  let tokens ← Token.lex? text
  let parser ← Parser.run? (.awaiting .value []) tokens
  parser.finish?

end Tree
end Keyring.Json
