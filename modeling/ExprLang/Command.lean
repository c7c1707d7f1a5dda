import ExprLang.Command.Usage
import ExprLang.Expr.Document
import ExprLang.Expr.Printed
import ExprLang.Program
import ExprLang.Text.Quoted
import ExprLang.Text.Utf8

/-!
The commands: what each one prints, and the status it ends with.
-/

namespace ExprLang

/-- A token as an object of its four parts. -/
def Token.toJson (t : Token) : Json :=
  .object [("kind", .string t.kind.label), ("lexeme", .string t.lexeme),
    ("line", .number t.line), ("column", .number t.column)]

namespace Command

/-- What a command leaves behind. -/
structure Report where
  status : Nat
  output : String
  errors : String
  deriving DecidableEq, Repr

/-- The status after a fault in reading a program. -/
def statusStatic : Nat := 65

/-- The status after a fault in evaluating one. -/
def statusRuntime : Nat := 70

/-- The line that reports a fault. -/
def diagnostic (f : Fault) : String := "Error[" ++ f.kind ++ "]: " ++ f.message ++ "\n"

/-- The report of a command that could not begin, for a cause. -/
def Report.failed (what cause : String) : Report :=
  ⟨1, "", "Error: " ++ what ++ "\n\nCaused by:\n    " ++ cause ++ "\n"⟩

/-- A report of one fault. -/
def Report.ofFault (status : Nat) (output : String) (f : Fault) : Report :=
  ⟨status, output, diagnostic f⟩

/-- Lists every token, and every character that starts none. -/
def tokenize (source : String) (json : Bool) : Report :=
  let items := Token.items source
  let lines := items.filterMap fun
    | .ok t => some ((if json then t.toJson.compact else t.text) ++ "\n")
    | .error _ => none
  let errors := items.filterMap fun
    | .ok _ => none
    | .error f => some (diagnostic f)
  ⟨if errors.isEmpty then 0 else statusStatic, String.join lines, String.join errors⟩

/-- Shows the expression that a text is. -/
def parse (source : String) (json : Bool) : Report :=
  match Expr.ofSource source with
  | .error f => .ofFault statusStatic "" f
  | .ok e => ⟨0, (if json then e.toJson.indented else e.printed) ++ "\n", ""⟩

/-- Evaluates the program that a text is, and shows its value behind its output; none
if it is given up on as too long. -/
def run (source : String) (limits : Limits) : Option Report :=
  match Expr.ofSource source with
  | .error f => some (.ofFault statusStatic "" f)
  | .ok e => do
    let o ← e.run limits
    match o.result with
    | .error f => return .ofFault statusRuntime o.state.output f
    | .ok v => return ⟨0, o.state.output ++ v.text ++ "\n", ""⟩

/-- What the command prints that is given no file. -/
def idleText : String := "No input filepath was provided. Exiting...\n"

/-- The file that a task is about. -/
def Task.file? : Task → Option String
  | .idle => none
  | .run file | .tokenize file _ | .parse file _ => some file

/-- Performs a task. `content` are the bytes of its file, none if there is no such
file; `writable` tells whether the output takes what is written to it. -/
def perform (i : Invocation) (content : Option (List UInt8)) (writable : Bool) : Option Report :=
  match i.task.file?, content with
  | none, _ => some ⟨0, idleText, ""⟩
  | some file, none =>
    some (.failed ("Failed to open file " ++ Quoted.quote file)
      "No such file or directory (os error 2)")
  | some _, some bytes =>
    match Utf8.decode bytes with
    | .error f => some (.failed "Source is not valid UTF-8" f.message)
    | .ok source =>
      match i.task with
      | .idle => some ⟨0, idleText, ""⟩
      | .tokenize _ json => some (tokenize source json)
      | .parse _ json => some (parse source json)
      | .run _ => run source ⟨i.depth?.getD Limits.usual.depth, writable⟩

end Command

end ExprLang
