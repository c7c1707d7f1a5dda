import ExprLang.Expr
import ExprLang.Text.Decimal
import ExprLang.Text.Sexp

/-!
The printed form of an expression: every node a list that starts with its
operator or keyword, every leaf as it is written in a program.
-/

namespace ExprLang

/-- A parameter is its name, behind the word for constants if it is one. -/
def Param.words (p : Param) : List Sexp :=
  if p.constant then [.word "const", .word p.name] else [.word p.name]

mutual

/-- The printed form as lists of words. -/
def Expr.toSexp : Expr → Sexp
  | .number n => .word (Decimal.ofInt n.toInt)
  | .bool b => .word (if b then "true" else "false")
  | .null => .word "null"
  | .identifier name _ => .word name
  | .declare name constant value _ =>
      .list [.word (if constant then "const" else "let"), .word name, value.toSexp]
  | .assign name value _ => .list [.word "=", .word name, value.toSexp]
  | .sequence items => .list (.word "seq" :: Expr.toSexps items)
  | .block body => .list [.word "block", body.toSexp]
  | .choice arms => .list (.word "if" :: arms.toSexps)
  | .loop condition body _ => .list [.word "while", condition.toSexp, body.toSexp]
  | .function params body _ =>
      .list [.word "func", .list (params.flatMap Param.words), body.toSexp]
  | .call callee arguments _ => .list (.word "call" :: callee.toSexp :: Expr.toSexps arguments)
  | .binary op left right _ => .list [.word op.symbol, left.toSexp, right.toSexp]
  | .unary op operand _ => .list [.word op.symbol, operand.toSexp]

def Expr.toSexps : List Expr → List Sexp
  | [] => []
  | e :: es => e.toSexp :: Expr.toSexps es

/-- A guard and its body are a list of two; the last body follows a word. -/
def Arms.toSexps : Arms → List Sexp
  | .done => []
  | .otherwise body => [.list [.word "else", body.toSexp]]
  | .guarded condition body rest => .list [condition.toSexp, body.toSexp] :: rest.toSexps

end

/-- The printed form as text. -/
def Expr.printed (e : Expr) : String := e.toSexp.text

end ExprLang
