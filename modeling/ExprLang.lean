import ExprLang.Main
import ExprLang.Session
import ExprLang.Proofs.Grammar.Derivation
import ExprLang.Proofs.Grammar.Reading
import ExprLang.Proofs.Grammar.Completeness
import ExprLang.Proofs.Grammar.Soundness
import ExprLang.Proofs.Grammar.EndMark
import ExprLang.Proofs.Grammar.Recognition
import ExprLang.Proofs.Evaluation.Rules
import ExprLang.Proofs.Evaluation.Simulation
import ExprLang.Proofs.Evaluation.Adequacy
import ExprLang.Proofs.Evaluation.Course
import ExprLang.Proofs.Store.Evolution
import ExprLang.Proofs.Store.Lookup
import ExprLang.Proofs.Store.Constants
import ExprLang.Proofs.Store.Growth
import ExprLang.Proofs.Evaluation.Frame
import ExprLang.Proofs.Evaluation.Output
import ExprLang.Proofs.Evaluation.Faults
import ExprLang.Proofs.Value.Operators
import ExprLang.Proofs.Value.Arithmetic
import ExprLang.Proofs.Evaluation.DepthLimit
import ExprLang.Proofs.Evaluation.Termination
import ExprLang.Proofs.Evaluation.Territory
import ExprLang.Proofs.Evaluation.Isolation
import ExprLang.Proofs.Grammar.Height
import ExprLang.Proofs.Grammar.Nesting
import ExprLang.Proofs.Token.Spelling
import ExprLang.Proofs.Token.Decomposition
import ExprLang.Proofs.Lines.Evaluation
import ExprLang.Proofs.Lines.Reading
import ExprLang.Proofs.Lines.Layout
import ExprLang.Proofs.Program.Composition
import ExprLang.Proofs.Program.Stages
import ExprLang.Proofs.Evaluation.Detour
import ExprLang.Proofs.Evaluation.Integrity
import ExprLang.Proofs.Evaluation.Irrelevance
import ExprLang.Proofs.Store.ScopeGraph
import ExprLang.Proofs.Text.Decimal
import ExprLang.Proofs.Text.Sexp
import ExprLang.Proofs.Text.Utf8
import ExprLang.Proofs.Session.Recovery
import ExprLang.Proofs.Command.Agreement
import ExprLang.Proofs.Expr.Nodes
import ExprLang.Proofs.Expr.Source
import ExprLang.Proofs.Grammar.Shape
import ExprLang.Proofs.Expr.Printed
import ExprLang.Proofs.Grammar.Ebnf
import ExprLang.Proofs.Grammar.Prediction
import ExprLang.Proofs.Grammar.FirstError
import ExprLang.Proofs.Store.Visibility
import ExprLang.Proofs.Grammar.Precedence
import ExprLang.Proofs.Evaluation.Parameters
import ExprLang.Proofs.Program.Literals
import ExprLang.Proofs.Text.Json
import ExprLang.Proofs.Expr.Document
import ExprLang.Proofs.Reader.Discipline
