import ExprLang.Text.Decimal

/-!
JSON documents whose members keep their order, and two layouts of their text:
compact, and indented by two spaces a level.
-/

namespace ExprLang

/-- A document. Its numbers are whole. -/
inductive Json where
  | null
  | bool (b : Bool)
  | number (n : Int)
  | string (s : String)
  | array (items : List Json)
  | object (members : List (String × Json))
  deriving BEq, Repr

namespace Json

/-- What stands for a character between quotes: quote, backslash and control
characters are escaped (hexadecimal digits in lower case), all others are
themselves. -/
def escaped (c : Char) : List Char :=
  match c with
  | '"' => ['\\', '"']
  | '\\' => ['\\', '\\']
  | '\n' => ['\\', 'n']
  | '\r' => ['\\', 'r']
  | '\t' => ['\\', 't']
  | '\x08' => ['\\', 'b']
  | '\x0c' => ['\\', 'f']
  | c =>
    if c.toNat < 0x20 then
      ['\\', 'u', '0', '0', Nat.digitChar (c.toNat / 16), Nat.digitChar (c.toNat % 16)]
    else [c]

/-- A string between quotes. -/
def quoted (s : String) : String := String.ofList ('"' :: s.toList.flatMap escaped ++ ['"'])

/-- What stands between the marks of a document. -/
structure Layout where
  /-- Between a member's name and its value. -/
  colon : String
  /-- In front of an item or a closing mark at a given level. -/
  line : Nat → String

/-- Everything on one line, without spaces. -/
def Layout.compact : Layout := ⟨":", fun _ => ""⟩

/-- A line for every item, indented by two spaces a level. -/
def Layout.indented : Layout :=
  ⟨": ", fun level => String.ofList ('\n' :: .replicate (2 * level) ' ')⟩

mutual

/-- The text of a document that stands at a level of nesting. -/
def render (f : Layout) (level : Nat) : Json → String
  | .null => "null"
  | .bool b => if b then "true" else "false"
  | .number n => Decimal.ofInt n
  | .string s => quoted s
  | .array [] => "[]"
  | .array (x :: xs) =>
      "[" ++ String.intercalate "," (renderItems f (level + 1) (x :: xs)) ++ f.line level ++ "]"
  | .object [] => "\x7b\x7d"
  | .object (m :: ms) =>
      "\x7b" ++ String.intercalate "," (renderMembers f (level + 1) (m :: ms))
        ++ f.line level ++ "\x7d"

def renderItems (f : Layout) (level : Nat) : List Json → List String
  | [] => []
  | x :: xs => (f.line level ++ render f level x) :: renderItems f level xs

def renderMembers (f : Layout) (level : Nat) : List (String × Json) → List String
  | [] => []
  | (name, x) :: ms =>
      (f.line level ++ quoted name ++ f.colon ++ render f level x) :: renderMembers f level ms

end

/-- The text without spaces. -/
def compact (x : Json) : String := render .compact 0 x

/-- The text over several lines. -/
def indented (x : Json) : String := render .indented 0 x

end Json

end ExprLang
