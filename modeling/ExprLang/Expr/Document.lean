import ExprLang.Expr
import ExprLang.Text.Json

/-!
The JSON form of an expression. A node is an object with one member, named for
the kind of node; it holds everything that makes the node, its line included.
-/

namespace ExprLang

def Param.toJson (p : Param) : Json :=
  .object [("name", .string p.name), ("constant", .bool p.constant)]

/-- A document that says which kind of node its content makes. -/
def Json.tagged (tag : String) (content : Json) : Json := .object [(tag, content)]

mutual

def Expr.toJson : Expr → Json
  | .number n => .tagged "Number" (.number n.toInt)
  | .bool b => .tagged "Bool" (.bool b)
  | .null => .string "Null"
  | .identifier name line =>
      .tagged "Variable" (.object [("name", .string name), ("line", .number line)])
  | .declare name constant value line =>
      .tagged "Let" (.object [("name", .string name), ("constant", .bool constant),
        ("value", value.toJson), ("line", .number line)])
  | .assign name value line =>
      .tagged "Assign" (.object [("name", .string name), ("value", value.toJson),
        ("line", .number line)])
  | .sequence items => .tagged "Sequence" (.array (Expr.toJsons items))
  | .block body => .tagged "Block" body.toJson
  | .choice arms =>
      .tagged "If" (.object [("branches", .array arms.branchesToJson),
        ("else_branch", arms.lastToJson)])
  | .loop condition body line =>
      .tagged "While" (.object [("condition", condition.toJson), ("body", body.toJson),
        ("line", .number line)])
  | .function params body line =>
      .tagged "Function" (.object [("params", .array (params.map Param.toJson)),
        ("body", body.toJson), ("line", .number line)])
  | .call callee arguments line =>
      .tagged "Call" (.object [("callee", callee.toJson),
        ("arguments", .array (Expr.toJsons arguments)), ("line", .number line)])
  | .binary op left right line =>
      .tagged "Binary" (.object [("left", left.toJson), ("operator", .string op.name),
        ("right", right.toJson), ("line", .number line)])
  | .unary op operand line =>
      .tagged "Unary" (.object [("operator", .string op.name), ("operand", operand.toJson),
        ("line", .number line)])

def Expr.toJsons : List Expr → List Json
  | [] => []
  | e :: es => e.toJson :: Expr.toJsons es

/-- The guarded alternatives. -/
def Arms.branchesToJson : Arms → List Json
  | .done | .otherwise _ => []
  | .guarded condition body rest =>
      .object [("condition", condition.toJson), ("body", body.toJson)] :: rest.branchesToJson

/-- The alternative without a guard; the absence of one is not the literal null. -/
def Arms.lastToJson : Arms → Json
  | .done => .null
  | .otherwise body => body.toJson
  | .guarded _ _ rest => rest.lastToJson

end

end ExprLang
