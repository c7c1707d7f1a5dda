import ExprLang.Value

/-!
What operators do with values. Numbers wrap around at 64 bits and division drops
the fraction; types are checked before a divisor is, and on the left first.
-/

namespace ExprLang

namespace Value

/-- The number a value is, for an operation that wants one. -/
def asNumber (operation : Operation) (line : Nat) : Value → Except Fault Int64
  | .number n => .ok n
  | other => .error (.typeMismatch operation (.shape .number) other.shape line)

/-- The boolean a value is, for an operation that wants one. -/
def asBool (operation : Operation) (line : Nat) : Value → Except Fault Bool
  | .bool b => .ok b
  | other => .error (.typeMismatch operation (.shape .boolean) other.shape line)

end Value

namespace BinaryOp

/-- Applies an operation on numbers. -/
def onNumbers (op : BinaryOp) (line : Nat) (left right : Value)
    (f : Int64 → Int64 → Except Fault Value) : Except Fault Value := do
  let a ← left.asNumber (.binary op) line
  let b ← right.asNumber (.binary op) line
  f a b

/-- Applies an operation on booleans. -/
def onBools (op : BinaryOp) (line : Nat) (left right : Value) (f : Bool → Bool → Bool) :
    Except Fault Value := do
  let a ← left.asBool (.binary op) line
  let b ← right.asBool (.binary op) line
  return .bool (f a b)

/-- Whether two numbers or two booleans are the same. Other values are not
compared. -/
def equality (op : BinaryOp) (line : Nat) : Value → Value → Except Fault Bool
  | .number a, .number b => .ok (a == b)
  | .bool a, .bool b => .ok (a == b)
  | .number _, right => .error (.typeMismatch (.binary op) (.shape .number) right.shape line)
  | .bool _, right => .error (.typeMismatch (.binary op) (.shape .boolean) right.shape line)
  | left, _ => .error (.typeMismatch (.binary op) .numberOrBoolean left.shape line)

/-- The value of an operator between two values, on the operator's line. -/
def apply (op : BinaryOp) (line : Nat) (left right : Value) : Except Fault Value :=
  match op with
  | .add => op.onNumbers line left right fun a b => .ok (.number (a + b))
  | .subtract => op.onNumbers line left right fun a b => .ok (.number (a - b))
  | .multiply => op.onNumbers line left right fun a b => .ok (.number (a * b))
  | .divide => op.onNumbers line left right fun a b =>
      if b = 0 then .error (.divisionByZero line) else .ok (.number (a / b))
  | .modulus => op.onNumbers line left right fun a b =>
      if b = 0 then .error (.modulusByZero line) else .ok (.number (a % b))
  | .less => op.onNumbers line left right fun a b => .ok (.bool (a < b))
  | .lessEqual => op.onNumbers line left right fun a b => .ok (.bool (a ≤ b))
  | .greater => op.onNumbers line left right fun a b => .ok (.bool (b < a))
  | .greaterEqual => op.onNumbers line left right fun a b => .ok (.bool (b ≤ a))
  | .equal => do return .bool (← op.equality line left right)
  | .notEqual => do return .bool (!(← op.equality line left right))
  | .and => op.onBools line left right fun a b => a && b
  | .or => op.onBools line left right fun a b => a || b

end BinaryOp

/-- The value of a prefix operator in front of a value. -/
def UnaryOp.apply (op : UnaryOp) (line : Nat) (operand : Value) : Except Fault Value :=
  match op with
  | .negate => do return .number (-(← operand.asNumber (.unary op) line))
  | .not => do return .bool (!(← operand.asBool (.unary op) line))

end ExprLang
