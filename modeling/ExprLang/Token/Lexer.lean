import ExprLang.Fault
import ExprLang.Token
import ExprLang.Token.Blank

/-!
From text to tokens. At each place the longest lexeme is taken; white space is
skipped; a character that starts no lexeme is a fault of its own, behind which
reading goes on. An end mark follows the last lexeme.
-/

namespace ExprLang.Token

/-- A place in a text: line and column of the next character, from one. -/
structure Place where
  line : Nat
  column : Nat
  deriving DecidableEq, Repr

namespace Place

def start : Place := ⟨1, 1⟩

/-- The place behind a character. Only a line feed ends a line. -/
def after (p : Place) (c : Char) : Place :=
  if c = '\n' then ⟨p.line + 1, 1⟩ else ⟨p.line, p.column + 1⟩

/-- The place behind several characters. -/
def afterAll (p : Place) (cs : List Char) : Place := cs.foldl after p

end Place

def isDigit (c : Char) : Bool := '0' ≤ c && c ≤ '9'

/-- A letter of the ASCII alphabet or an underscore. -/
def isNameStart (c : Char) : Bool :=
  ('a' ≤ c && c ≤ 'z') || ('A' ≤ c && c ≤ 'Z') || c == '_'

def isNamePart (c : Char) : Bool := isNameStart c || isDigit c

/-- The words that are no identifiers. -/
def keywords : List TokenKind :=
  [.letWord, .constWord, .ifWord, .elifWord, .elseWord, .whileWord, .funcWord,
    .trueWord, .falseWord, .nullWord]

/-- The kind of a word: its keyword, or an identifier. -/
def wordKind (word : String) : TokenKind :=
  (keywords.find? fun k => k.fixedSpelling? == some word).getD .identifier

/-- The longest operator or punctuation mark that starts with `c` before `next`,
with the number of characters it has behind `c`. -/
def mark? (c : Char) (next : Option Char) : Option (TokenKind × Nat) :=
  match c with
  | '(' => some (.leftParen, 0)
  | ')' => some (.rightParen, 0)
  | '{' => some (.leftBrace, 0)
  | '}' => some (.rightBrace, 0)
  | ',' => some (.comma, 0)
  | ';' => some (.semicolon, 0)
  | '+' => some (.plus, 0)
  | '-' => some (.minus, 0)
  | '*' => some (.star, 0)
  | '/' => some (.slash, 0)
  | '%' => some (.percent, 0)
  | '!' => if next = some '=' then some (.bangEqual, 1) else some (.bang, 0)
  | '=' =>
      if next = some '=' then some (.equalEqual, 1)
      else if next = some '>' then some (.arrow, 1)
      else some (.equal, 0)
  | '<' => if next = some '=' then some (.lessEqual, 1) else some (.less, 0)
  | '>' => if next = some '=' then some (.greaterEqual, 1) else some (.greater, 0)
  | '&' => if next = some '&' then some (.andAnd, 1) else none
  | '|' => if next = some '|' then some (.orOr, 1) else none
  | _ => none

/-- The longest lexeme that starts with `c` before `cs`: its kind, and how many
characters of `cs` belong to it. -/
def lexeme? (c : Char) (cs : List Char) : Option (TokenKind × Nat) :=
  if isDigit c then some (.number, (cs.takeWhile isDigit).length)
  else if isNameStart c then
    let rest := cs.takeWhile isNamePart
    some (wordKind (String.ofList (c :: rest)), rest.length)
  else mark? c cs.head?

/-- What stands in a text: tokens, and characters that start none. -/
abbrev Item := Except Fault Token

/-- The items of `cs`, which starts at `p`, behind those already `seen` (the last
one first). -/
def itemsFrom (p : Place) (cs : List Char) (seen : List Item) : List Item :=
  match cs with
  | [] => (.ok ⟨.eof, "", p.line, p.column⟩ :: seen).reverse
  | c :: cs =>
    if isBlank c then itemsFrom (p.after c) cs seen
    else
      match lexeme? c cs with
      | some (kind, n) =>
        let lexeme := c :: cs.take n
        itemsFrom (p.afterAll lexeme) (cs.drop n)
          (.ok ⟨kind, String.ofList lexeme, p.line, p.column⟩ :: seen)
      | none =>
        itemsFrom (p.after c) cs (.error (.unexpectedCharacter c p.line p.column) :: seen)
termination_by cs.length
decreasing_by all_goals simp only [List.length_drop, List.length_cons]; omega

/-- All items of a text, in order; the last one is the end mark. -/
def items (source : String) : List Item := itemsFrom .start source.toList []

/-- The tokens of a text that has no fault, or else its first fault. -/
def ofSource (source : String) : Except Fault (List Token) := (items source).mapM id

end ExprLang.Token
