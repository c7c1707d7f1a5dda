/-!
Parenthesised lists of words, the form in which expressions are shown.
-/

namespace ExprLang

/-- A word or a list. -/
inductive Sexp where
  | word (s : String)
  | list (items : List Sexp)
  deriving BEq, Repr

namespace Sexp

mutual

/-- Items stand between parentheses, one space apart. -/
def text : Sexp → String
  | .word s => s
  | .list items => "(" ++ String.intercalate " " (texts items) ++ ")"

def texts : List Sexp → List String
  | [] => []
  | x :: xs => x.text :: texts xs

end

end Sexp

end ExprLang
