import Keyring.Text.Unprintable
import Keyring.Bytes
/-!
# Quoted texts

A text between double quotes, as messages show a name: the quote and the backslash are escaped, the
common controls have short forms, and any other unprintable character appears as `\u{…}` with its
number in lower-case hexadecimal digits.
-/
namespace Keyring.Text

/-- A number in lower-case hexadecimal digits, without leading zeros. -/
def hexNat (n : Nat) : List Char :=
  (Nat.toDigits 16 n).map Char.toLower

/-- How a character appears inside the quotes. -/
def quoteChar (c : Char) : List Char :=
  match c with
  | '"' => ['\\', '"']
  | '\\' => ['\\', '\\']
  | '\t' => ['\\', 't']
  | '\r' => ['\\', 'r']
  | '\n' => ['\\', 'n']
  | '\x00' => ['\\', '0']
  | c => if isUnprintable c then ['\\', 'u', '\x7b'] ++ hexNat c.toNat ++ ['\x7d'] else [c]

def quoted (text : String) : String :=
  String.ofList ('"' :: text.toList.flatMap quoteChar ++ ['"'])

end Keyring.Text
