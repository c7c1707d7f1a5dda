/-!
The operators of the language and its built-in functions: their names and
the spellings that programs and diagnostics use for them.
-/

namespace ExprLang

/-- Infix operators. -/
inductive BinaryOp where
  | add | subtract | multiply | divide | modulus
  | less | lessEqual | greater | greaterEqual
  | equal | notEqual | and | or
  deriving DecidableEq, Repr

/-- Prefix operators. -/
inductive UnaryOp where
  | negate | not
  deriving DecidableEq, Repr

/-- Functions that exist without being written in the language. -/
inductive Builtin where
  /-- Writes the text of its argument on a line of the output. -/
  | outNumber
  deriving DecidableEq, Repr

namespace BinaryOp

/-- Every infix operator, in the order of the grammar's classes. -/
def all : List BinaryOp :=
  [.add, .subtract, .multiply, .divide, .modulus, .less, .lessEqual,
    .greater, .greaterEqual, .equal, .notEqual, .and, .or]

/-- How the operator is written. -/
def symbol : BinaryOp → String
  | .add => "+"
  | .subtract => "-"
  | .multiply => "*"
  | .divide => "/"
  | .modulus => "%"
  | .less => "<"
  | .lessEqual => "<="
  | .greater => ">"
  | .greaterEqual => ">="
  | .equal => "=="
  | .notEqual => "!="
  | .and => "&&"
  | .or => "||"

/-- How documents name the operator. -/
def name : BinaryOp → String
  | .add => "Add"
  | .subtract => "Subtract"
  | .multiply => "Multiply"
  | .divide => "Divide"
  | .modulus => "Modulus"
  | .less => "Less"
  | .lessEqual => "LessEqual"
  | .greater => "Greater"
  | .greaterEqual => "GreaterEqual"
  | .equal => "Equal"
  | .notEqual => "NotEqual"
  | .and => "And"
  | .or => "Or"

/-- The operator of a given name. -/
def ofName? (s : String) : Option BinaryOp := all.find? fun op => op.name == s

end BinaryOp

namespace UnaryOp

/-- How the operator is written. -/
def symbol : UnaryOp → String
  | .negate => "-"
  | .not => "!"

/-- How documents name the operator. -/
def name : UnaryOp → String
  | .negate => "Negate"
  | .not => "Not"

/-- The operator of a given name. -/
def ofName? (s : String) : Option UnaryOp :=
  [UnaryOp.negate, .not].find? fun op => op.name == s

end UnaryOp

namespace Builtin

/-- The name a root scope binds the function to. -/
def name : Builtin → String
  | .outNumber => "outn"

/-- How many arguments the function takes. -/
def arity : Builtin → Nat
  | .outNumber => 1

end Builtin

end ExprLang
