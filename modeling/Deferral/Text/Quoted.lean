import Deferral.Text.Extending
import Deferral.Text.Printable

/-!
# Quoted text

Text quoted inside a message stands between double quotes, and every character that would not show
as itself is written as an escape: the quote and the backslash, the usual control characters by
letter, and every other unprintable or combining character by its code point.
-/

namespace Deferral.Text

/-- A code point in lower-case hexadecimal digits without leading zeros. -/
def hexDigits (code : Nat) : List Char := Nat.toDigits 16 code

/-- The characters that stand for `c` between double quotes. -/
def escape (c : Char) : List Char :=
  if c = '"' then ['\\', '"']
  else if c = '\\' then ['\\', '\\']
  else if c = '\n' then ['\\', 'n']
  else if c = '\r' then ['\\', 'r']
  else if c = '\t' then ['\\', 't']
  else if c.toNat = 0 then ['\\', '0']
  else if isExtending c || !isPrintable c then
    ['\\', 'u', '\x7b'] ++ hexDigits c.toNat ++ ['\x7d']
  else [c]

/-- The text between double quotes, escaped. -/
def quoted (text : String) : String :=
  String.ofList ('"' :: (text.toList.flatMap escape ++ ['"']))

end Deferral.Text
