import Keyring.Bytes
/-!
# Tokens of a JSON text

A lexer reads a text byte by byte. It checks the form of every token and keeps the bytes of strings
and numbers as they are written: whether a string is well-formed UTF-8, or a number is in range,
concerns only a reader that looks at the value.
-/
namespace Keyring.Json

/-- A token. Strings and numbers hold their written form, a string without its quotes. -/
inductive Token
  | openArray
  | closeArray
  | openObject
  | closeObject
  | comma
  | colon
  | null
  | bool (value : Bool)
  | number (written : Bytes)
  | string (written : Bytes)
  deriving DecidableEq, Repr

namespace Token

abbrev code (c : Char) : UInt8 := UInt8.ofNat c.toNat

/-- A space, tab, line feed or carriage return. -/
def isSpace (b : UInt8) : Bool :=
  b == 0x20 || b == 0x09 || b == 0x0a || b == 0x0d

/-- A decimal digit. -/
def isDigit (b : UInt8) : Bool :=
  0x30 ≤ b && b ≤ 0x39

def isHexDigit (b : UInt8) : Bool :=
  isDigit b || (0x61 ≤ b && b ≤ 0x66) || (0x41 ≤ b && b ≤ 0x46)

/-- What a number still needs: the last phase of its form that was reached. -/
inductive NumberPhase
  | sign
  | zero
  | integer
  | point
  | fraction
  | mark
  | markSign
  | exponent
  deriving DecidableEq, Repr

namespace NumberPhase

/-- The phase after one more byte, or none if the byte does not belong to the number. -/
def next? : NumberPhase → UInt8 → Option NumberPhase
  | sign, b => if b == 0x30 then some zero else if isDigit b then some integer else none
  | zero, b => if b == 0x2e then some point else if b == 0x65 || b == 0x45 then some mark else none
  | integer, b =>
    if isDigit b then some integer else if b == 0x2e then some point
    else if b == 0x65 || b == 0x45 then some mark else none
  | point, b => if isDigit b then some fraction else none
  | fraction, b =>
    if isDigit b then some fraction else if b == 0x65 || b == 0x45 then some mark else none
  | mark, b =>
    if b == 0x2b || b == 0x2d then some markSign else if isDigit b then some exponent else none
  | markSign, b => if isDigit b then some exponent else none
  | exponent, b => if isDigit b then some exponent else none

/-- Whether a number may end in this phase. -/
def complete : NumberPhase → Bool
  | zero | integer | fraction | exponent => true
  | sign | point | mark | markSign => false

end NumberPhase

/-- What the lexer is in the middle of. Written bytes are kept in reverse. -/
inductive Pending
  | nothing
  | word (rest : Bytes) (token : Token)
  | number (phase : NumberPhase) (written : Bytes)
  | string (written : Bytes)
  | escape (written : Bytes)
  | unicode (left : Nat) (written : Bytes)
  deriving Repr

/-- The lexer between two bytes: the tokens so far in reverse, and what has begun. -/
structure Lexer where
  tokens : List Token
  pending : Pending

namespace Lexer

/-- A token ends and nothing has begun. -/
def emit (tokens : List Token) (token : Token) : Lexer :=
  ⟨token :: tokens, .nothing⟩

/-- A byte where a token may begin. -/
def begin? (tokens : List Token) (b : UInt8) : Option Lexer :=
  if isSpace b then some ⟨tokens, .nothing⟩
  else if b == code '[' then some (emit tokens .openArray)
  else if b == code ']' then some (emit tokens .closeArray)
  else if b == 0x7b then some (emit tokens .openObject)
  else if b == 0x7d then some (emit tokens .closeObject)
  else if b == code ',' then some (emit tokens .comma)
  else if b == code ':' then some (emit tokens .colon)
  else if b == code '"' then some ⟨tokens, .string []⟩
  else if b == code 'n' then some ⟨tokens, .word (Bytes.ofAscii "ull") .null⟩
  else if b == code 't' then some ⟨tokens, .word (Bytes.ofAscii "rue") (.bool true)⟩
  else if b == code 'f' then some ⟨tokens, .word (Bytes.ofAscii "alse") (.bool false)⟩
  else if b == code '-' then some ⟨tokens, .number .sign [b]⟩
  else if b == code '0' then some ⟨tokens, .number .zero [b]⟩
  else if isDigit b then some ⟨tokens, .number .integer [b]⟩
  else none

/-- Whether a byte may follow a backslash as a one-letter escape. -/
def isEscape (b : UInt8) : Bool :=
  b == code '"' || b == code '\\' || b == code '/' || b == code 'b' || b == code 'f' ||
    b == code 'n' || b == code 'r' || b == code 't'

/-- Reads one byte. A number ends before the first byte that does not belong to it. -/
def step? (lexer : Lexer) (b : UInt8) : Option Lexer :=
  let tokens := lexer.tokens
  match lexer.pending with
  | .nothing => begin? tokens b
  | .word [] token => begin? (token :: tokens) b
  | .word [c] token => if b == c then some (emit tokens token) else none
  | .word (c :: rest) token => if b == c then some ⟨tokens, .word rest token⟩ else none
  | .number phase written =>
    match phase.next? b with
    | some phase => some ⟨tokens, .number phase (b :: written)⟩
    | none => if phase.complete then begin? (.number written.reverse :: tokens) b else none
  | .string written =>
    if b == code '"' then some (emit tokens (.string written.reverse))
    else if b == code '\\' then some ⟨tokens, .escape (b :: written)⟩
    else if b < 0x20 then none
    else some ⟨tokens, .string (b :: written)⟩
  | .escape written =>
    if b == code 'u' then some ⟨tokens, .unicode 4 (b :: written)⟩
    else if isEscape b then some ⟨tokens, .string (b :: written)⟩
    else none
  | .unicode left written =>
    if !isHexDigit b then none
    else if left ≤ 1 then some ⟨tokens, .string (b :: written)⟩
    else some ⟨tokens, .unicode (left - 1) (b :: written)⟩

def run? (lexer : Lexer) : Bytes → Option Lexer
  | [] => some lexer
  | b :: rest =>
    match lexer.step? b with
    | some lexer => lexer.run? rest
    | none => none

/-- The tokens at the end of the text, in order; `none` if one is unfinished. -/
def finish? (lexer : Lexer) : Option (List Token) :=
  match lexer.pending with
  | .nothing => some lexer.tokens.reverse
  | .number phase written =>
    if phase.complete then some (Token.number written.reverse :: lexer.tokens).reverse else none
  | _ => none

end Lexer

/-- The tokens of a text. -/
def lex? (text : Bytes) : Option (List Token) :=
  (Lexer.run? ⟨[], .nothing⟩ text).bind Lexer.finish?

end Token
end Keyring.Json
