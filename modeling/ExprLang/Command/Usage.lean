import ExprLang.Text.Decimal

/-!
Reading a command line:

    [options] [FILE]
    [options] run FILE
    [options] tokenize FILE [--json]
    [options] parse FILE [--json]

with the options `--log` and `--max-depth N` (or `--max-depth=N`) anywhere. Every
option stands at most once before the name of a command and once behind it. What
follows `--` is no option and no command.
-/

namespace ExprLang.Command

/-- The commands that have a name. -/
inductive Verb where
  | run | tokenize | parse
  deriving DecidableEq, Repr

/-- The command of a given name. -/
def Verb.ofName? : String → Option Verb
  | "run" => some .run
  | "tokenize" => some .tokenize
  | "parse" => some .parse
  | _ => none

/-- What is to be done with which file. -/
inductive Task where
  /-- Nothing, as no file was named. -/
  | idle
  | run (file : String)
  | tokenize (file : String) (json : Bool)
  | parse (file : String) (json : Bool)
  deriving DecidableEq, Repr

/-- A command line that makes sense. -/
structure Invocation where
  task : Task
  /-- Whether a log is asked for. -/
  log : Bool
  /-- The most calls in progress, if it is given. -/
  depth? : Option Nat
  deriving DecidableEq, Repr

/-- What a command line asks for. -/
inductive Usage where
  | invoke (i : Invocation)
  | help
  | version
  | wrong
  deriving DecidableEq, Repr

/-- What stands on one side of the name of a command. -/
structure Side where
  file? : Option String
  json : Bool
  log : Bool
  depth? : Option Nat

def Side.empty : Side := ⟨none, false, false, none⟩

/-- The side with one more word that is no option; a file is named only once. -/
def Side.withFile? (side : Side) (word : String) : Option Side :=
  if word.isEmpty || side.file?.isSome then none else some { side with file? := some word }

/-- The side with a limit of calls, given only once. -/
def Side.withDepth? (side : Side) (number : String) : Option Side :=
  if side.depth?.isSome then none
  else (Decimal.natural? number).map fun n => { side with depth? := some n }

/-- The whole of what stands before and behind the name of a command. What is given
behind it counts more. -/
def conclude (outer : Side) (verb? : Option Verb) (inner : Side) : Usage :=
  let make (task : Task) : Usage :=
    .invoke ⟨task, outer.log || inner.log, inner.depth?.or outer.depth?⟩
  match verb?, inner.file? with
  | none, none => make .idle
  | none, some file => make (.run file)
  | some _, none => .wrong
  | some .run, some file => make (.run file)
  | some .tokenize, some file => make (.tokenize file inner.json)
  | some .parse, some file => make (.parse file inner.json)

/-- The number behind the equal sign of an option for the limit of calls. -/
def depthValue? (word : String) : Option String :=
  let key := "--max-depth=".toList
  if key.isPrefixOf word.toList then some (String.ofList (word.toList.drop key.length)) else none

/-- Reads words that are no options and no commands. -/
def readPlain (outer : Side) (verb? : Option Verb) (side : Side) : List String → Usage
  | [] => conclude outer verb? side
  | word :: rest =>
    match side.withFile? word with
    | some side => readPlain outer verb? side rest
    | none => .wrong

/-- Reads words behind what is read already: all that stands before the command, the
command, and `side`, the words behind it. Without a command, `side` is all. -/
def readWords (outer : Side) (verb? : Option Verb) (side : Side) : List String → Usage
  | [] => conclude outer verb? side
  | "--" :: rest => readPlain outer verb? side rest
  | "--log" :: rest =>
    if side.log then .wrong else readWords outer verb? { side with log := true } rest
  | "--json" :: rest =>
    if side.json || verb? = none || verb? = some .run then .wrong
    else readWords outer verb? { side with json := true } rest
  | ["--max-depth"] => .wrong
  | "--max-depth" :: number :: rest =>
    match side.withDepth? number with
    | some side => readWords outer verb? side rest
    | none => .wrong
  | "-h" :: _ | "--help" :: _ => .help
  | word :: rest =>
    if verb? = none && (word == "-V" || word == "--version") then .version
    else if verb? = none && word == "help" then .help
    else
      match depthValue? word with
      | some number =>
        match side.withDepth? number with
        | some side => readWords outer verb? side rest
        | none => .wrong
      | none =>
        if word.toList.head? = some '-' && word != "-" then .wrong
        else
          match verb?, Verb.ofName? word with
          | none, some verb => readWords side (some verb) .empty rest
          | _, _ =>
            match side.withFile? word with
            | some side => readWords outer verb? side rest
            | none => .wrong

/-- What the words of a command line ask for. -/
def Usage.read (words : List String) : Usage := readWords .empty none .empty words

end ExprLang.Command
