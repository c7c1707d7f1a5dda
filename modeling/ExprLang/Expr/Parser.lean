import ExprLang.Expr
import ExprLang.Fault
import ExprLang.Text.Decimal
import ExprLang.Token

/-!
From tokens to an expression, by this grammar (loosest first):

    program     = sequence, end
    sequence    = declaration, {";", declaration}
    declaration = ("let" | "const"), name, "=", declaration
                | "func", "(", [parameters], ")", "=>", "{", sequence, "}"
                | "while", "(", sequence, ")", "{", sequence, "}"
                | chain, ["=", declaration]
    parameters  = ["const"], name, {",", ["const"], name}, [","]
    chain       = operands joined by operators of equal looseness, the loosest first
    operand     = ("-" | "!"), operand | application
    application = primary, {"(", [arguments], ")"}
    arguments   = declaration, {",", declaration}, [","]
    primary     = number | "true" | "false" | "null" | name
                | "(", sequence, ")" | "{", sequence, "}"
                | "if", "(", sequence, ")", "{", sequence, "}",
                  {"elif", "(", sequence, ")", "{", sequence, "}"}, ["else", "{", sequence, "}"]

Nesting is bounded. Every production gets the number of levels that are still
free, its `room`. A declaration and the operand of a prefix operator take one
level. So does every further operand of a chain and every further call of an
application, and these levels stay taken to the end of the chain.
-/

namespace ExprLang

namespace BinaryOp

/-- The operator that a kind of token stands for between two operands. -/
def ofKind? : TokenKind → Option BinaryOp
  | .plus => some .add
  | .minus => some .subtract
  | .star => some .multiply
  | .slash => some .divide
  | .percent => some .modulus
  | .less => some .less
  | .lessEqual => some .lessEqual
  | .greater => some .greater
  | .greaterEqual => some .greaterEqual
  | .equalEqual => some .equal
  | .bangEqual => some .notEqual
  | .andAnd => some .and
  | .orOr => some .or
  | _ => none

/-- How loosely an operator binds. -/
def looseness : BinaryOp → Nat
  | .multiply | .divide | .modulus => 1
  | .add | .subtract => 2
  | .less | .lessEqual | .greater | .greaterEqual => 3
  | .equal | .notEqual => 4
  | .and => 5
  | .or => 6

/-- The looseness of the operator that binds least. -/
abbrev loosest : Nat := 6

/-- The operator of a given looseness that a kind of token stands for. -/
def ofKindAt? (looseness : Nat) (kind : TokenKind) : Option BinaryOp :=
  (ofKind? kind).filter fun op => op.looseness == looseness

end BinaryOp

namespace Grammar

/-- Why the tokens are no program. -/
inductive Refusal where
  /-- Something else was expected at the first of the remaining tokens. -/
  | expected (what : Expected) (remaining : List Token)
  /-- An equal sign behind something that is no name. -/
  | invalidTarget (target : String) (line : Nat)
  /-- No level of nesting was free. -/
  | tooDeep
  deriving DecidableEq, Repr

/-- The most levels of nesting. -/
def maxNesting : Nat := 1000

/-- A refusal as a fault. -/
def Refusal.toFault : Refusal → Fault
  | .expected what [] => .syntaxError what none 1
  | .expected what (t :: _) => .syntaxError what t.quoted? t.line
  | .invalidTarget target line => .invalidTarget target line
  | .tooDeep => .tooDeep maxNesting

/-- Something read, with the tokens behind it, fewer than `n`. -/
structure Parsed (α : Type) (n : Nat) where
  value : α
  rest : List Token
  shorter : rest.length < n

/-- What a production makes of tokens. -/
abbrev Reading (α : Type) (n : Nat) := Except Refusal (Parsed α n)

/-- One token of a given kind. -/
def expect (kind : TokenKind) (what : Expected) (ts : List Token) : Reading Token ts.length :=
  match ts with
  | [] => .error (.expected what [])
  | t :: rest =>
    if t.kind = kind then .ok ⟨t, rest, by simp⟩
    else .error (.expected what (t :: rest))

/-- Whether `t` is the number 2^63 and no call follows. Behind a minus sign this is
the least number, whose digits alone are out of range. -/
def isLeastMagnitude (t : Token) (rest : List Token) : Bool :=
  t.kind = .number && Decimal.natural? t.lexeme == some Int64.minValue.toInt.natAbs
    && rest.head?.map Token.kind != some .leftParen

/-- Parameters up to a closing parenthesis; a comma may follow the last one. -/
def parameters (ts : List Token) : Reading (List Param) (ts.length + 1) :=
  match ts with
  | [] => .error (.expected .parameterName [])
  | t :: rest =>
    if t.kind = .rightParen then .ok ⟨[], t :: rest, by simp⟩
    else do
      let constant := t.kind = .constWord
      let names := if constant then rest else t :: rest
      let ⟨name, r₁, h₁⟩ ← expect .identifier .parameterName names
      have hn : names.length ≤ rest.length + 1 := by simp only [names]; split <;> simp
      let param : Param := ⟨name.lexeme, constant⟩
      match r₁, h₁ with
      | [], _ => .ok ⟨[param], [], by simp⟩
      | comma :: r₂, h₁ =>
        have h₂ : r₂.length < rest.length := by simp only [List.length_cons] at h₁; omega
        if comma.kind = .comma then do
          let ⟨params, r₃, h₃⟩ ← parameters r₂
          .ok ⟨param :: params, r₃, by simp only [List.length_cons]; omega⟩
        else .ok ⟨[param], comma :: r₂, by simp only [List.length_cons]; omega⟩
termination_by ts.length
decreasing_by simp only [List.length_cons]; omega

mutual

/-- Declarations with semicolons between them. A single one stands for itself. -/
def sequence (room : Nat) (ts : List Token) : Reading Expr ts.length := do
  let ⟨first, r₁, h₁⟩ ← declaration room ts
  let ⟨more, r₂, h₂⟩ ← furtherItems room r₁
  .ok ⟨if more.isEmpty then first else .sequence (first :: more), r₂, by omega⟩
termination_by (ts.length, 12)

/-- The items of a sequence behind its first. -/
def furtherItems (room : Nat) (ts : List Token) : Reading (List Expr) (ts.length + 1) :=
  match ts with
  | [] => .ok ⟨[], [], by simp⟩
  | t :: rest =>
    if t.kind = .semicolon then do
      let ⟨item, r₁, h₁⟩ ← declaration room rest
      let ⟨items, r₂, h₂⟩ ← furtherItems room r₁
      .ok ⟨item :: items, r₂, by simp only [List.length_cons]; omega⟩
    else .ok ⟨[], t :: rest, by simp⟩
termination_by (ts.length, 0)

/-- A declaration, a function, a loop, an assignment or a chain of operands, one
level deeper. -/
def declaration (room : Nat) (ts : List Token) : Reading Expr ts.length :=
  match room with
  | 0 => .error .tooDeep
  | room + 1 =>
    match ts with
    | [] => assignment room []
    | t :: rest =>
      match t.kind with
      | .letWord => binding false room t rest
      | .constWord => binding true room t rest
      | .funcWord => do
        let ⟨_, r₁, h₁⟩ ← expect .leftParen (.openAfter "func") rest
        let ⟨params, r₂, h₂⟩ ← parameters r₁
        let ⟨_, r₃, h₃⟩ ← expect .rightParen .closeParameters r₂
        let ⟨_, r₄, h₄⟩ ← expect .arrow .arrow r₃
        let ⟨inside, r₅, h₅⟩ ← body .function room r₄
        .ok ⟨.function params inside t.line, r₅, by simp only [List.length_cons]; omega⟩
      | .whileWord => do
        let ⟨_, r₁, h₁⟩ ← expect .leftParen (.openAfter "while") rest
        let ⟨condition, r₂, h₂⟩ ← sequence room r₁
        let ⟨_, r₃, h₃⟩ ← expect .rightParen (.closeCondition "while") r₂
        let ⟨inside, r₄, h₄⟩ ← body (.keyword "while") room r₃
        .ok ⟨.loop condition inside t.line, r₄, by simp only [List.length_cons]; omega⟩
      | _ => assignment room (t :: rest)
termination_by (ts.length, 11)

/-- What follows the keyword of a declaration. -/
def binding (constant : Bool) (room : Nat) (keyword : Token) (ts : List Token) :
    Reading Expr (ts.length + 1) := do
  let ⟨name, r₁, h₁⟩ ← expect .identifier (.nameAfter keyword.lexeme) ts
  let ⟨_, r₂, h₂⟩ ← expect .equal (.equalAfter keyword.lexeme) r₁
  let ⟨value, r₃, h₃⟩ ← declaration room r₂
  .ok ⟨.declare name.lexeme constant value keyword.line, r₃, by omega⟩
termination_by (ts.length, 0)

/-- A chain of operands and, behind an equal sign, the value for the name it is. -/
def assignment (room : Nat) (ts : List Token) : Reading Expr ts.length := do
  let ⟨target, r₁, h₁⟩ ← chain BinaryOp.loosest room ts
  match r₁, h₁ with
  | [], h => .ok ⟨target, [], h⟩
  | t :: rest, h =>
    if t.kind = .equal then do
      have h₁ : rest.length < ts.length := by simp only [List.length_cons] at h; omega
      let ⟨value, r₂, h₂⟩ ← declaration room rest
      match target with
      | .identifier name _ => .ok ⟨.assign name value t.line, r₂, by omega⟩
      | other => .error (.invalidTarget other.nodeName t.line)
    else .ok ⟨target, t :: rest, h⟩
termination_by (ts.length, 10)

/-- Operands joined by operators of at most a given looseness. -/
def chain (looseness : Nat) (room : Nat) (ts : List Token) : Reading Expr ts.length :=
  match looseness with
  | 0 => operand room ts
  | tighter + 1 => do
    let ⟨first, r₁, h₁⟩ ← chain tighter room ts
    links tighter room first r₁ ts.length h₁
termination_by (ts.length, 3 + looseness)

/-- Further operands of a chain, joined to the left. -/
def links (tighter : Nat) (room : Nat) (left : Expr) (ts : List Token) (n : Nat)
    (h : ts.length < n) : Reading Expr n :=
  match ts with
  | [] => .ok ⟨left, [], h⟩
  | t :: rest =>
    match BinaryOp.ofKindAt? (tighter + 1) t.kind with
    | none => .ok ⟨left, t :: rest, h⟩
    | some op =>
      match room with
      | 0 => .error .tooDeep
      | room + 1 => do
        let ⟨right, r₁, h₁⟩ ← chain tighter room rest
        links tighter room (.binary op left right t.line) r₁ n
          (by simp only [List.length_cons] at h; omega)
termination_by (ts.length, 0)

/-- An application behind any number of prefix operators. -/
def operand (room : Nat) (ts : List Token) : Reading Expr ts.length :=
  match ts with
  | [] => application room []
  | t :: rest =>
    match t.kind with
    | .minus =>
      match rest with
      | [] => negation .negate room t []
      | n :: rest =>
        if isLeastMagnitude n rest then
          .ok ⟨.number Int64.minValue, rest, by simp only [List.length_cons]; omega⟩
        else negation .negate room t (n :: rest)
    | .bang => negation .not room t rest
    | _ => application room (t :: rest)
termination_by (ts.length, 2)

/-- What follows a prefix operator, one level deeper. -/
def negation (op : UnaryOp) (room : Nat) (mark : Token) (ts : List Token) :
    Reading Expr (ts.length + 1) :=
  match room with
  | 0 => .error .tooDeep
  | room + 1 => do
    let ⟨e, r₁, h₁⟩ ← operand room ts
    .ok ⟨.unary op e mark.line, r₁, by omega⟩
termination_by (ts.length, 3)

/-- A primary expression with calls behind it. -/
def application (room : Nat) (ts : List Token) : Reading Expr ts.length := do
  let ⟨callee, r₁, h₁⟩ ← primary room ts
  calls room callee r₁ ts.length h₁
termination_by (ts.length, 1)

/-- Calls of what stands in front of them, from left to right. -/
def calls (room : Nat) (callee : Expr) (ts : List Token) (n : Nat) (h : ts.length < n) :
    Reading Expr n :=
  match ts with
  | [] => .ok ⟨callee, [], h⟩
  | t :: rest =>
    if t.kind = .leftParen then
      match room with
      | 0 => .error .tooDeep
      | room + 1 => do
        let ⟨values, r₁, h₁⟩ ← arguments room rest
        let ⟨_, r₂, h₂⟩ ← expect .rightParen .closeArguments r₁
        calls room (.call callee values t.line) r₂ n (by simp only [List.length_cons] at h; omega)
    else .ok ⟨callee, t :: rest, h⟩
termination_by (ts.length, 0)

/-- Arguments up to a closing parenthesis; a comma may follow the last one. -/
def arguments (room : Nat) (ts : List Token) : Reading (List Expr) (ts.length + 1) :=
  if ts.head?.map Token.kind = some .rightParen then .ok ⟨[], ts, by simp⟩
  else do
    let ⟨value, r₁, h₁⟩ ← declaration room ts
    match r₁, h₁ with
    | [], _ => .ok ⟨[value], [], by simp⟩
    | comma :: rest, h₁ =>
      if comma.kind = .comma then do
        have h : rest.length < ts.length := by simp only [List.length_cons] at h₁; omega
        let ⟨values, r₂, h₂⟩ ← arguments room rest
        .ok ⟨value :: values, r₂, by omega⟩
      else .ok ⟨[value], comma :: rest, by omega⟩
termination_by (ts.length, 12)

/-- A leaf, a group, a block or a conditional. -/
def primary (room : Nat) (ts : List Token) : Reading Expr ts.length :=
  match ts with
  | [] => .error (.expected .expression [])
  | t :: rest =>
    match t.kind with
    | .number =>
      match Decimal.signed? t.lexeme with
      | some n => .ok ⟨.number n, rest, by simp⟩
      | none => .error (.expected .wordNumber (t :: rest))
    | .trueWord => .ok ⟨.bool true, rest, by simp⟩
    | .falseWord => .ok ⟨.bool false, rest, by simp⟩
    | .nullWord => .ok ⟨.null, rest, by simp⟩
    | .identifier => .ok ⟨.identifier t.lexeme t.line, rest, by simp⟩
    | .leftParen => do
      let ⟨e, r₁, h₁⟩ ← sequence room rest
      let ⟨_, r₂, h₂⟩ ← expect .rightParen .closeGroup r₁
      .ok ⟨e, r₂, by simp only [List.length_cons]; omega⟩
    | .leftBrace => do
      let ⟨e, r₁, h₁⟩ ← sequence room rest
      let ⟨_, r₂, h₂⟩ ← expect .rightBrace .closeBraces r₁
      .ok ⟨.block e, r₂, by simp only [List.length_cons]; omega⟩
    | .ifWord => do
      let ⟨arms, r₁, h₁⟩ ← alternatives room t.lexeme rest
      .ok ⟨.choice arms, r₁, by simp only [List.length_cons]; omega⟩
    | _ => .error (.expected .expression (t :: rest))
termination_by (ts.length, 0)

/-- A guard and its body behind a keyword, and the alternatives that follow. -/
def alternatives (room : Nat) (keyword : String) (ts : List Token) : Reading Arms ts.length := do
  let ⟨_, r₁, h₁⟩ ← expect .leftParen (.openAfter keyword) ts
  let ⟨condition, r₂, h₂⟩ ← sequence room r₁
  let ⟨_, r₃, h₃⟩ ← expect .rightParen (.closeCondition keyword) r₂
  let ⟨inside, r₄, h₄⟩ ← body (.keyword keyword) room r₃
  match r₄, h₄ with
  | [], h₄ => .ok ⟨.guarded condition inside .done, [], by omega⟩
  | t :: rest, h₄ =>
    have h : rest.length < ts.length := by simp only [List.length_cons] at h₄; omega
    if t.kind = .elifWord then do
      let ⟨arms, r₅, h₅⟩ ← alternatives room t.lexeme rest
      .ok ⟨.guarded condition inside arms, r₅, by omega⟩
    else if t.kind = .elseWord then do
      let ⟨last, r₅, h₅⟩ ← body (.keyword "else") room rest
      .ok ⟨.guarded condition inside (.otherwise last), r₅, by omega⟩
    else .ok ⟨.guarded condition inside .done, t :: rest, by omega⟩
termination_by (ts.length, 0)

/-- A sequence between braces. -/
def body (owner : BlockOwner) (room : Nat) (ts : List Token) : Reading Expr ts.length := do
  let ⟨_, r₁, h₁⟩ ← expect .leftBrace (.openBlock owner) ts
  let ⟨e, r₂, h₂⟩ ← sequence room r₁
  let ⟨_, r₃, h₃⟩ ← expect .rightBrace (.closeBlock owner) r₂
  .ok ⟨e, r₃, by omega⟩
termination_by (ts.length, 0)

end

/-- A sequence up to an end mark. What stands behind the mark does not count. -/
def program (ts : List Token) : Except Refusal Expr :=
  match sequence maxNesting ts with
  | .error refusal => .error refusal
  | .ok ⟨e, rest, _⟩ =>
    if rest.head?.map Token.kind = some .eof then .ok e
    else .error (.expected .endOfProgram rest)

end Grammar

/-- The expression that a list of tokens is. The last token has to be an end mark. -/
def Expr.ofTokens (ts : List Token) : Except Fault Expr :=
  match ts.getLast? with
  | none => .error (.syntaxError .program none 1)
  | some last =>
    if last.kind = .eof then (Grammar.program ts).mapError Grammar.Refusal.toFault
    else .error (.syntaxError .endMark last.quoted? last.line)

end ExprLang
