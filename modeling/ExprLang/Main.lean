import ExprLang.Command

/-!
The command line program.
-/

namespace ExprLang.Command

/-- The file that a log goes to. -/
def logName : String := "flug.log"

def versionText : String := "flug 0.1.0\n"

def helpText : String :=
  "flug language interpreter\n\n"
    ++ "Usage: flug [OPTIONS] [FILENAME]\n"
    ++ "       flug [OPTIONS] run <FILENAME>\n"
    ++ "       flug [OPTIONS] tokenize [--json] <FILENAME>\n"
    ++ "       flug [OPTIONS] parse [--json] <FILENAME>\n\n"
    ++ "Options:\n"
    ++ "      --log                    Enable logging to flug.log\n"
    ++ "      --max-depth <MAX_DEPTH>  Deepest nesting of user function calls [default: 10000]\n"
    ++ "  -h, --help                   Print help\n"
    ++ "  -V, --version                Print version\n"

/-- The bytes of a file, none if it cannot be read. -/
def readBytes (file : String) : IO (Option (List UInt8)) := do
  try return some (← IO.FS.readBinFile file).toList catch _ => return none

/-- Prints a report; gives its status. -/
def deliver (r : Report) : IO UInt32 := do
  let out ← IO.getStdout
  out.putStr r.output
  out.flush
  (← IO.getStderr).putStr r.errors
  return r.status.toUInt32

/-- Performs a task on the file it names. If the output takes nothing, the task is
performed as one that cannot write. -/
def invoke (i : Invocation) : IO UInt32 := do
  if i.log then IO.FS.writeFile logName ""
  let content ←
    match i.task.file? with
    | some file => readBytes file
    | none => pure none
  let report (writable : Bool) : Report :=
    (perform i content writable).getD ⟨statusRuntime, "", ""⟩
  try deliver (report true)
  catch _ =>
    let r := report false
    (← IO.getStderr).putStr r.errors
    return r.status.toUInt32

end ExprLang.Command

open ExprLang.Command in
/-- Reads the command line and does what it asks for. -/
def main (args : List String) : IO UInt32 := do
  match Usage.read args with
  | .invoke i => invoke i
  | .help => deliver ⟨0, helpText, ""⟩
  | .version => deliver ⟨0, versionText, ""⟩
  | .wrong => deliver ⟨2, "", helpText⟩
