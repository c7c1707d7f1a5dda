import ExprLang.Operator

/-!
Expressions. Everything in the language is an expression, so one type of node
is enough; a conditional keeps its alternatives in a type of their own.
-/

namespace ExprLang

/-- A parameter of a function literal; the body may not assign to a constant one. -/
structure Param where
  name : String
  constant : Bool
  deriving DecidableEq, Repr

mutual

/-- A program or a part of one. A line is that of the word or mark that makes the
node what it is: keyword, equal sign, operator or opening parenthesis. -/
inductive Expr where
  | number (n : Int64)
  | bool (b : Bool)
  | null
  | identifier (name : String) (line : Nat)
  /-- Binds a name in the scope where it stands. -/
  | declare (name : String) (constant : Bool) (value : Expr) (line : Nat)
  /-- Gives a new value to a name that is bound already. -/
  | assign (name : String) (value : Expr) (line : Nat)
  /-- Items in order, with the value of the last one. -/
  | sequence (items : List Expr)
  /-- A body with a scope of its own. -/
  | block (body : Expr)
  | choice (arms : Arms)
  | loop (condition body : Expr) (line : Nat)
  | function (params : List Param) (body : Expr) (line : Nat)
  | call (callee : Expr) (arguments : List Expr) (line : Nat)
  | binary (op : BinaryOp) (left right : Expr) (line : Nat)
  | unary (op : UnaryOp) (operand : Expr) (line : Nat)

/-- The alternatives of a conditional: bodies with guards, and perhaps a last one
without. -/
inductive Arms where
  | done
  | otherwise (body : Expr)
  | guarded (condition body : Expr) (rest : Arms)

end

deriving instance BEq, Repr, Inhabited for Expr
deriving instance BEq, Repr, Inhabited for Arms

namespace Arms

/-- Alternatives from guarded bodies and a last body. -/
def ofList : List (Expr × Expr) → Option Expr → Arms
  | [], none => .done
  | [], some body => .otherwise body
  | (condition, body) :: rest, last => .guarded condition body (ofList rest last)

/-- The guards with their bodies. -/
def branches : Arms → List (Expr × Expr)
  | .done | .otherwise _ => []
  | .guarded condition body rest => (condition, body) :: rest.branches

/-- The body without a guard. -/
def last? : Arms → Option Expr
  | .done => none
  | .otherwise body => some body
  | .guarded _ _ rest => rest.last?

theorem ofList_branches_last? : ∀ a : Arms, ofList a.branches a.last? = a
  | .done | .otherwise _ => rfl
  | .guarded c b rest => congrArg (Arms.guarded c b) (ofList_branches_last? rest)

theorem branches_ofList (bs : List (Expr × Expr)) (last : Option Expr) :
    (ofList bs last).branches = bs := by
  induction bs with
  | nil => cases last <;> rfl
  | cons b bs ih => exact congrArg (b :: ·) ih

theorem last?_ofList (bs : List (Expr × Expr)) (last : Option Expr) :
    (ofList bs last).last? = last := by
  induction bs with
  | nil => cases last <;> rfl
  | cons b bs ih => exact ih

end Arms

/-- The name of the kind of node, for diagnostics. -/
def Expr.nodeName : Expr → String
  | .number _ => "number literal"
  | .bool _ => "boolean literal"
  | .null => "null literal"
  | .identifier .. => "identifier"
  | .declare .. => "declaration"
  | .assign .. => "assignment"
  | .sequence _ => "statement sequence"
  | .block _ => "block"
  | .choice _ => "if expression"
  | .loop .. => "while loop"
  | .function .. => "function literal"
  | .call .. => "call"
  | .binary .. => "binary expression"
  | .unary .. => "unary expression"

end ExprLang
