import ExprLang.Expr
import ExprLang.Fault
import ExprLang.Text.Decimal

/-!
Values, and the forms in which they are shown.
-/

namespace ExprLang

/-- A scope by its number in the store that holds it. -/
abbrev ScopeId := Nat

/-- A function literal with the scope it was evaluated in. Every stored value was
evaluated in a scope made for it alone, so that closures over one scope are
copies of one closure. -/
structure Closure where
  params : List Param
  body : Expr
  /-- The line the literal starts on. -/
  line : Nat
  scope : ScopeId
  deriving BEq, Repr

inductive Value where
  | number (n : Int64)
  | bool (b : Bool)
  | null
  | closure (c : Closure)
  | builtin (b : Builtin)
  deriving BEq, Repr

namespace Value

def shape : Value → Shape
  | .number _ => .number
  | .bool _ => .boolean
  | .null => .null
  | .closure _ => .function
  | .builtin _ => .builtin

/-- What a program's output shows of a value. -/
def text : Value → String
  | .number n => Decimal.ofInt n.toInt
  | .bool b => if b then "true" else "false"
  | .null => "null"
  | .closure _ => "<function>"
  | .builtin _ => "<built-in function>"

/-- A form that tells apart values of different types and functions of different
arity. -/
def detail : Value → String
  | .number n => "Number(" ++ Decimal.ofInt n.toInt ++ ")"
  | .bool b => "Bool(" ++ (if b then "true" else "false") ++ ")"
  | .null => "Null"
  | .closure c =>
      "Function(Closure \x7b arity: " ++ toString c.params.length ++ ", line: "
        ++ toString c.line ++ ", .. \x7d)"
  | .builtin .outNumber => "Builtin(OutNumber)"

end Value

end ExprLang
