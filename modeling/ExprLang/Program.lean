import ExprLang.Expr.Parser
import ExprLang.Machine
import ExprLang.Token.Lexer

/-!
Programs: a text is read as a whole before any of it is evaluated.
-/

namespace ExprLang

/-- The expression that a text is. A character that starts no token comes before
any fault of the grammar. -/
def Expr.ofSource (source : String) : Except Fault Expr := do
  Expr.ofTokens (← Token.ofSource source)

/-- A state with one scope, the root, nothing written and no call in progress. -/
def State.fresh : State := ⟨⟨Store.empty.add .root, ""⟩, 0⟩

/-- The number of the root scope in a fresh state. -/
def State.rootScope : ScopeId := 0

/-- Evaluates a program in a fresh state. -/
def Expr.run (limits : Limits) (e : Expr) : Option Machine.Outcome :=
  e.eval limits Machine.patience State.rootScope .fresh

/-- Reads and evaluates a program in a scope of a state; a program that cannot be
read changes nothing. -/
def State.evalSource (limits : Limits) (source : String) (s : ScopeId) (state : State) :
    Option Machine.Outcome :=
  match Expr.ofSource source with
  | .error f => some ⟨.error f, state⟩
  | .ok e => e.eval limits Machine.patience s state

end ExprLang
