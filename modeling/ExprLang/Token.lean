/-!
Tokens: what kind of lexeme stands where in a text.
-/

namespace ExprLang

inductive TokenKind where
  | leftParen | rightParen | leftBrace | rightBrace | comma | semicolon
  | plus | minus | star | slash | percent
  | bang | bangEqual | equal | equalEqual | arrow
  | greater | greaterEqual | less | lessEqual | andAnd | orOr
  | number | identifier
  | letWord | constWord | ifWord | elifWord | elseWord | whileWord | funcWord
  | trueWord | falseWord | nullWord
  /-- The end mark, which stands behind the last lexeme of a text. -/
  | eof
  deriving DecidableEq, Repr

namespace TokenKind

/-- Every kind. -/
def all : List TokenKind :=
  [.leftParen, .rightParen, .leftBrace, .rightBrace, .comma, .semicolon,
    .plus, .minus, .star, .slash, .percent,
    .bang, .bangEqual, .equal, .equalEqual, .arrow,
    .greater, .greaterEqual, .less, .lessEqual, .andAnd, .orOr,
    .number, .identifier,
    .letWord, .constWord, .ifWord, .elifWord, .elseWord, .whileWord, .funcWord,
    .trueWord, .falseWord, .nullWord, .eof]

/-- The name of a kind in listings. -/
def label : TokenKind → String
  | .leftParen => "LEFT_PAREN"
  | .rightParen => "RIGHT_PAREN"
  | .leftBrace => "LEFT_BRACE"
  | .rightBrace => "RIGHT_BRACE"
  | .comma => "COMMA"
  | .semicolon => "SEMICOLON"
  | .plus => "PLUS"
  | .minus => "MINUS"
  | .star => "STAR"
  | .slash => "SLASH"
  | .percent => "PERCENT"
  | .bang => "BANG"
  | .bangEqual => "BANG_EQUAL"
  | .equal => "EQUAL"
  | .equalEqual => "EQUAL_EQUAL"
  | .arrow => "ARROW"
  | .greater => "GREATER"
  | .greaterEqual => "GREATER_EQUAL"
  | .less => "LESS"
  | .lessEqual => "LESS_EQUAL"
  | .andAnd => "AND_AND"
  | .orOr => "OR_OR"
  | .number => "NUMBER"
  | .identifier => "IDENTIFIER"
  | .letWord => "LET"
  | .constWord => "CONST"
  | .ifWord => "IF"
  | .elifWord => "ELIF"
  | .elseWord => "ELSE"
  | .whileWord => "WHILE"
  | .funcWord => "FUNC"
  | .trueWord => "TRUE"
  | .falseWord => "FALSE"
  | .nullWord => "NULL"
  | .eof => "EOF"

/-- The kind of a given label. -/
def ofLabel? (s : String) : Option TokenKind := all.find? fun k => k.label == s

/-- The one spelling of a kind that has only one: punctuation, operators and
keywords. -/
def fixedSpelling? : TokenKind → Option String
  | .leftParen => some "("
  | .rightParen => some ")"
  | .leftBrace => some "\x7b"
  | .rightBrace => some "\x7d"
  | .comma => some ","
  | .semicolon => some ";"
  | .plus => some "+"
  | .minus => some "-"
  | .star => some "*"
  | .slash => some "/"
  | .percent => some "%"
  | .bang => some "!"
  | .bangEqual => some "!="
  | .equal => some "="
  | .equalEqual => some "=="
  | .arrow => some "=>"
  | .greater => some ">"
  | .greaterEqual => some ">="
  | .less => some "<"
  | .lessEqual => some "<="
  | .andAnd => some "&&"
  | .orOr => some "||"
  | .letWord => some "let"
  | .constWord => some "const"
  | .ifWord => some "if"
  | .elifWord => some "elif"
  | .elseWord => some "else"
  | .whileWord => some "while"
  | .funcWord => some "func"
  | .trueWord => some "true"
  | .falseWord => some "false"
  | .nullWord => some "null"
  | .number | .identifier | .eof => none

end TokenKind

/-- A lexeme with its kind and the place of its first character; lines and
columns count from one. -/
structure Token where
  kind : TokenKind
  lexeme : String
  line : Nat
  column : Nat
  deriving DecidableEq, Repr

namespace Token

/-- The line a listing shows for a token. -/
def text (t : Token) : String := t.kind.label ++ " " ++ t.lexeme

/-- What a diagnostic quotes of a token: nothing of an end mark. -/
def quoted? (t : Token) : Option String :=
  if t.kind = .eof then none else some t.lexeme

end Token

end ExprLang
