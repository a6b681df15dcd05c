import RegisterMachine.Text.Extending
import RegisterMachine.Text.Unprintable

/-!
# Quoted text

Text between double quotes, in which a character that would be lost or misread is written as an
escape: the quote and the backslash behind a backslash, the common control characters by a letter,
and every other character without a shape of its own by its code point in hexadecimal.
-/

namespace RegisterMachine.Text

/-- The escape that stands for `c` between quotes, if `c` may not stand for itself. -/
def escape? (c : Char) : Option (List Char) :=
  match c with
  | '\x00' => some ['\\', '0']
  | '\t' => some ['\\', 't']
  | '\n' => some ['\\', 'n']
  | '\r' => some ['\\', 'r']
  | '"' => some ['\\', '"']
  | '\\' => some ['\\', '\\']
  | c =>
    if isExtending c || isUnprintable c then
      some ("\\u\x7b".toList ++ Nat.toDigits 16 c.toNat ++ ['}'])
    else none

/-- A character as it is written between quotes. -/
def escape (c : Char) : List Char := (escape? c).getD [c]

/-- Text between double quotes, each character escaped where it must be. -/
def quote (s : String) : String :=
  String.ofList ('"' :: s.toList.flatMap escape ++ ['"'])

end RegisterMachine.Text
