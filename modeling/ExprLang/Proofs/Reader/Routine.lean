import ExprLang.Expr.Parser

/-!
Reading tokens in place. A reader has a cursor into a list of tokens and a count of the levels of
nesting that are taken. It looks at one token at a time, moves the cursor on by one, and takes
levels and gives them back by hand: the productions here return to the count they began with only
if each of their ways out sees to it. Neither the list of the tokens that are left nor the number
of levels that are free is handed down, as in `Grammar`.

* `Work`: what a routine does, as a tree of such steps and of calls of other routines;
* `Work.nested`, `Work.kept`: the two ways to take levels and give them back;
* `Routine.work`: the productions, their inner parts and their loops.
-/

namespace ExprLang.Reader

open Grammar (maxNesting)

/-- How far a reader has come: the tokens in front of its cursor, and the levels that are taken. -/
structure Place where
  cursor : Nat
  depth : Nat
  deriving DecidableEq, Repr

/-- The tokens that can be looked at. -/
inductive Access where
  | current
  /-- The one behind the current one, or the last one of all. -/
  | next
  | previous
  deriving DecidableEq, Repr

/-- The token that is looked at; none if there is none in that place. -/
def Access.token? (ts : List Token) (cursor : Nat) : Access → Option Token
  | .current => ts[cursor]?
  | .next => ts[min (cursor + 1) (ts.length - 1)]?
  | .previous => if cursor = 0 then none else ts[cursor - 1]?

/-- The productions. -/
inductive Entry where
  | sequence | declaration
  | braced (owner : BlockOwner)
  | assignment
  /-- Operands joined by operators that bind equally. The tightest operators have the level 0, the
  loosest the level 5, and higher levels have none. -/
  | level (n : Nat)
  | unary | call | primary
  deriving DecidableEq, Repr

/-- Parts of productions that are routines of their own: what stands on levels taken by a
production, and loops, with what they have read so far. -/
inductive Part where
  /-- The items behind the first one. -/
  | items (read : List Expr)
  /-- A declaration on the level that was taken for it. -/
  | content
  /-- The parameters of a function, and its body behind them. -/
  | parameters (read : List Param) (line : Nat)
  /-- The operands of a level. -/
  | chain (n : Nat)
  /-- The operands behind the first one. -/
  | links (n : Nat) (left : Expr)
  /-- A callee and its calls. -/
  | application
  | calls (callee : Expr)
  | arguments (callee : Expr) (read : List Expr) (line : Nat)
  /-- What stands behind `if` or `elif`. -/
  | branches (keyword : String) (read : List (Expr × Expr))

/-- What can be called. -/
inductive Routine where
  | entry (p : Entry)
  | part (p : Part)

/-- What is left to do of a routine. -/
inductive Work (α : Type) where
  | done (a : α)
  | fail (f : Fault)
  | look (access : Access) (next : Token → Work α)
  /-- Moves the cursor on. -/
  | move (next : Work α)
  /-- Takes note of the number of levels that are taken. -/
  | levels (next : Nat → Work α)
  /-- Takes one more level. -/
  | take (next : Work α)
  /-- Gives one level back. -/
  | giveBack (next : Work α)
  /-- Goes back to a number of levels. -/
  | restore (depth : Nat) (next : Work α)
  /-- Calls a routine. Its answer is an expression or a fault, and faults can be dealt with too. -/
  | call (r : Routine) (next : Except Fault Expr → Work α)

namespace Work

variable {α β : Type}

/-- Goes on with what was found, if it was. -/
def bind : Work α → (α → Work β) → Work β
  | .done a, f => f a
  | .fail fault, _ => .fail fault
  | .look access next, f => .look access fun t => (next t).bind f
  | .move next, f => .move (next.bind f)
  | .levels next, f => .levels fun depth => (next depth).bind f
  | .take next, f => .take (next.bind f)
  | .giveBack next, f => .giveBack (next.bind f)
  | .restore depth next, f => .restore depth (next.bind f)
  | .call r next, f => .call r fun answer => (next answer).bind f

instance : Monad Work where
  pure := .done
  bind := bind

theorem bind_done (w : Work α) : w.bind .done = w := by
  induction w with
  | done | fail => rfl
  | look _ _ ih | levels _ ih | call _ _ ih => simp only [bind, ih]
  | move _ ih | take _ ih | giveBack _ ih | restore _ _ ih => rw [bind, ih]

/-! ## Single tokens -/

def peek : Work Token := .look .current .done

def peekNext : Work Token := .look .next .done

def previous : Work Token := .look .previous .done

/-- The current token, with the cursor behind it; an end mark is not passed. -/
def advance : Work Token := do
  let t ← peek
  if t.kind = .eof then previous else .move previous

/-- Whether the current token is of a kind. -/
def check (kind : TokenKind) : Work Bool := do
  let t ← peek
  if t.kind = .eof then pure false
  else do
    let t ← peek
    pure (decide (t.kind = kind))

/-- Moves behind the current token if it is of a kind, and tells whether it was. -/
def accept (kind : TokenKind) : Work Bool := do
  if ← check kind then do
    let _ ← advance
    pure true
  else pure false

/-- Something else was expected at the current token. -/
def refuse (what : Expected) : Work α := do
  let t ← peek
  .fail (.syntaxError what t.quoted? t.line)

def consume (kind : TokenKind) (what : Expected) : Work Token := do
  if ← check kind then advance else refuse what

/-- The operator of a table that stands at the cursor, with its line. -/
def matchOperator (table : List (TokenKind × BinaryOp)) : Work (Option (BinaryOp × Nat)) := do
  let t ← peek
  match table.find? fun row => row.1 == t.kind with
  | none => pure none
  | some row => do
    let mark ← advance
    pure (some (row.2, mark.line))

/-! ## Levels -/

/-- Takes a level if one is free. -/
def deepen : Work Unit :=
  .levels fun depth =>
    if maxNesting ≤ depth then do
      let _ ← peek
      .fail (.tooDeep maxNesting)
    else .take (pure ())

/-- An answer as it is. -/
def ofAnswer : Except Fault α → Work α
  | .ok a => .done a
  | .error fault => .fail fault

/-- Calls a routine and takes its answer as it is. -/
def run (r : Routine) : Work Expr := .call r ofAnswer

abbrev read (p : Entry) : Work Expr := run (.entry p)

abbrev goOn (p : Part) : Work Expr := run (.part p)

/-- Calls a routine on a level taken for it, and gives this level back. -/
def nested (r : Routine) : Work Expr := do
  deepen
  .call r fun answer => .giveBack (ofAnswer answer)

/-- Calls a routine that takes any number of levels, and goes back to those taken before. -/
def kept (p : Part) : Work Expr :=
  .levels fun depth => .call (.part p) fun answer => .restore depth (ofAnswer answer)

end Work

open Work

/-! ## Sequences and declarations -/

def sequence : Work Expr := do
  let first ← read .declaration
  if ← check .semicolon then goOn (.items [first]) else pure first

def items (seen : List Expr) : Work Expr := do
  if ← accept .semicolon then do
    let item ← read .declaration
    goOn (.items (seen ++ [item]))
  else pure (.sequence seen)

/-- A declaration behind its keyword. -/
def binding (constant : Bool) : Work Expr := do
  let keyword ← previous
  let name ← consume .identifier (.nameAfter keyword.lexeme)
  let _ ← consume .equal (.equalAfter keyword.lexeme)
  let value ← read .declaration
  pure (.declare name.lexeme constant value keyword.line)

/-- A function behind its keyword. -/
def function : Work Expr := do
  let keyword ← previous
  let _ ← consume .leftParen (.openAfter "func")
  goOn (.parameters [] keyword.line)

/-- A function behind its parameters. -/
def functionBody (params : List Param) (line : Nat) : Work Expr := do
  let _ ← consume .rightParen .closeParameters
  let _ ← consume .arrow .arrow
  let inside ← read (.braced .function)
  pure (.function params inside line)

/-- What stands behind a parameter. -/
def nextParameter (seen : List Param) (line : Nat) : Work Expr := do
  if ← accept .comma then goOn (.parameters seen line) else functionBody seen line

def parameters (seen : List Param) (line : Nat) : Work Expr := do
  if ← check .rightParen then functionBody seen line
  else do
    let constant ← accept .constWord
    let name ← consume .identifier .parameterName
    nextParameter (seen ++ [⟨name.lexeme, constant⟩]) line

/-- A loop behind its keyword. -/
def loop : Work Expr := do
  let keyword ← previous
  let _ ← consume .leftParen (.openAfter "while")
  let condition ← read .sequence
  let _ ← consume .rightParen (.closeCondition "while")
  let inside ← read (.braced (.keyword "while"))
  pure (.loop condition inside keyword.line)

def content : Work Expr := do
  if ← accept .letWord then binding false
  else if ← accept .constWord then binding true
  else if ← accept .funcWord then function
  else if ← accept .whileWord then loop
  else read .assignment

def braced (owner : BlockOwner) : Work Expr := do
  let _ ← consume .leftBrace (.openBlock owner)
  let e ← read .sequence
  let _ ← consume .rightBrace (.closeBlock owner)
  pure e

def assignment : Work Expr := do
  let target ← read (.level 5)
  if ← accept .equal then do
    let mark ← previous
    let value ← read .declaration
    match target with
    | .identifier name _ => pure (.assign name value mark.line)
    | other => .fail (.invalidTarget other.nodeName mark.line)
  else pure target

/-! ## Operators and calls -/

/-- The operators of a level. -/
def table : Nat → List (TokenKind × BinaryOp)
  | 0 => [(.star, .multiply), (.slash, .divide), (.percent, .modulus)]
  | 1 => [(.plus, .add), (.minus, .subtract)]
  | 2 => [(.less, .less), (.lessEqual, .lessEqual), (.greater, .greater),
      (.greaterEqual, .greaterEqual)]
  | 3 => [(.equalEqual, .equal), (.bangEqual, .notEqual)]
  | 4 => [(.andAnd, .and)]
  | 5 => [(.orOr, .or)]
  | _ => []

/-- The operands of a level. -/
def operand : Nat → Entry
  | 0 => .unary
  | n + 1 => .level n

def chain (n : Nat) : Work Expr := do
  let first ← read (operand n)
  goOn (.links n first)

def links (n : Nat) (left : Expr) : Work Expr := do
  match ← matchOperator (table n) with
  | some (op, line) => do
    deepen
    let right ← read (operand n)
    goOn (.links n (.binary op left right line))
  | none => pure left

/-- The least number behind its minus sign, where the digits stand for its magnitude and are
not called. -/
def leastNumber : Work (Option Expr) := do
  let t ← peek
  if t.kind = .number ∧ Decimal.natural? t.lexeme = some Int64.minValue.toInt.natAbs then do
    let next ← peekNext
    if next.kind = .leftParen then pure none
    else do
      let _ ← advance
      pure (some (.number Int64.minValue))
  else pure none

/-- An operand behind a prefix operator. -/
def negation (op : UnaryOp) : Work Expr := do
  let mark ← previous
  let e ← nested (.entry .unary)
  pure (.unary op e mark.line)

def unary : Work Expr := do
  if ← accept .minus then do
    match ← leastNumber with
    | some e => pure e
    | none => negation .negate
  else if ← accept .bang then negation .not
  else read .call

def application : Work Expr := do
  let callee ← read .primary
  goOn (.calls callee)

def calls (callee : Expr) : Work Expr := do
  if ← accept .leftParen then do
    deepen
    let mark ← previous
    let e ← goOn (.arguments callee [] mark.line)
    goOn (.calls e)
  else pure callee

/-- The end of a list of arguments. -/
def closeArguments (callee : Expr) (values : List Expr) (line : Nat) : Work Expr := do
  let _ ← consume .rightParen .closeArguments
  pure (.call callee values line)

/-- What stands behind an argument. -/
def nextArgument (callee : Expr) (seen : List Expr) (line : Nat) : Work Expr := do
  if ← accept .comma then goOn (.arguments callee seen line)
  else closeArguments callee seen line

def arguments (callee : Expr) (seen : List Expr) (line : Nat) : Work Expr := do
  if ← check .rightParen then closeArguments callee seen line
  else do
    let value ← read .declaration
    nextArgument callee (seen ++ [value]) line

/-! ## Primary expressions -/

def primary : Work Expr := do
  if ← accept .number then do
    let t ← previous
    match Decimal.signed? t.lexeme with
    | some n => pure (.number n)
    | none => .fail (.syntaxError .wordNumber t.quoted? t.line)
  else if ← accept .trueWord then pure (.bool true)
  else if ← accept .falseWord then pure (.bool false)
  else if ← accept .nullWord then pure .null
  else if ← accept .identifier then do
    let t ← previous
    pure (.identifier t.lexeme t.line)
  else if ← accept .leftParen then do
    let e ← read .sequence
    let _ ← consume .rightParen .closeGroup
    pure e
  else if ← accept .leftBrace then do
    let e ← read .sequence
    let _ ← consume .rightBrace .closeBraces
    pure (.block e)
  else if ← accept .ifWord then do
    let keyword ← previous
    goOn (.branches keyword.lexeme [])
  else refuse .expression

/-- What stands behind a guarded body. -/
def nextBranch (seen : List (Expr × Expr)) : Work Expr := do
  if ← accept .elifWord then do
    let keyword ← previous
    goOn (.branches keyword.lexeme seen)
  else if ← accept .elseWord then do
    let last ← read (.braced (.keyword "else"))
    pure (.choice (.ofList seen (some last)))
  else pure (.choice (.ofList seen none))

def branches (keyword : String) (seen : List (Expr × Expr)) : Work Expr := do
  let _ ← consume .leftParen (.openAfter keyword)
  let condition ← read .sequence
  let _ ← consume .rightParen (.closeCondition keyword)
  let inside ← read (.braced (.keyword keyword))
  nextBranch (seen ++ [(condition, inside)])

/-! ## All of them -/

/-- What a routine does. -/
def Routine.work : Routine → Work Expr
  | .entry .sequence => sequence
  | .entry .declaration => nested (.part .content)
  | .entry (.braced owner) => braced owner
  | .entry .assignment => assignment
  | .entry (.level n) => kept (.chain n)
  | .entry .unary => unary
  | .entry .call => kept .application
  | .entry .primary => primary
  | .part (.items seen) => items seen
  | .part .content => content
  | .part (.parameters seen line) => parameters seen line
  | .part (.chain n) => chain n
  | .part (.links n left) => links n left
  | .part .application => application
  | .part (.calls callee) => calls callee
  | .part (.arguments callee seen line) => arguments callee seen line
  | .part (.branches keyword seen) => branches keyword seen

end ExprLang.Reader
