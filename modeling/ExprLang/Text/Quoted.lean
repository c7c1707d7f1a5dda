import ExprLang.Text.Combining
import ExprLang.Text.Ignorable
import ExprLang.Text.Unseen

/-!
Names between double quotes, so that every character of them shows: double quotes
and backslashes are escaped, and what has no visible form of its own is written by
its number.
-/

namespace ExprLang.Quoted

/-- Whether a character has no visible form of its own: nothing of it is drawn, or it is drawn on
the character before it. The halfwidth sound marks of katakana, though they extend a character, and
the plain space keep their form. -/
def isHidden (c : Char) : Bool :=
  (Ranges.unseen.holds c && c != ' ')
    || (Ranges.graphemeExtend.holds c && c != '\uFF9E' && c != '\uFF9F')
    || Ranges.defaultIgnorable.holds c

/-- What stands for a character between the quotes. -/
def escaped (c : Char) : List Char :=
  match c with
  | '\x00' => ['\\', '0']
  | '\t' => ['\\', 't']
  | '\n' => ['\\', 'n']
  | '\r' => ['\\', 'r']
  | '"' => ['\\', '"']
  | '\\' => ['\\', '\\']
  | c =>
    if isHidden c then ['\\', 'u', '\x7b'] ++ Nat.toDigits 16 c.toNat ++ ['\x7d'] else [c]

/-- A name between double quotes. -/
def quote (s : String) : String := String.ofList ('"' :: s.toList.flatMap escaped ++ ['"'])

end ExprLang.Quoted
