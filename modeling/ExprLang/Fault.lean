import ExprLang.Operator

/-!
What can go wrong, by cause: while reading text, while reading tokens, while
evaluating. `Fault.message` is the only place that holds the wording.
-/

namespace ExprLang

/-- The type of a value, as diagnostics name it. -/
inductive Shape where
  | number | boolean | null | function | builtin
  deriving DecidableEq, Repr

def Shape.name : Shape → String
  | .number => "number"
  | .boolean => "boolean"
  | .null => "null"
  | .function => "function"
  | .builtin => "built-in function"

/-- What a braced body belongs to. -/
inductive BlockOwner where
  | function
  /-- The keyword in front of the body, as it was written. -/
  | keyword (word : String)
  deriving DecidableEq, Repr

/-- What the grammar asked for at the token where reading stopped. -/
inductive Expected where
  /-- A program, where there is no token at all. -/
  | program
  /-- An end mark as the last token. -/
  | endMark
  /-- Another item or the end, behind a complete program. -/
  | endOfProgram
  | expression
  | nameAfter (keyword : String)
  | equalAfter (keyword : String)
  | openAfter (keyword : String)
  | closeCondition (keyword : String)
  | parameterName
  | closeParameters
  | arrow
  | openBlock (owner : BlockOwner)
  | closeBlock (owner : BlockOwner)
  | closeArguments
  | closeGroup
  | closeBraces
  /-- A number within 64 bits. -/
  | wordNumber
  deriving DecidableEq, Repr

/-- What demands something of its operands. -/
inductive Operation where
  | binary (op : BinaryOp)
  | unary (op : UnaryOp)
  /-- The guard of a loop. -/
  | loop
  | call
  deriving DecidableEq, Repr

/-- What an operation takes. -/
inductive Wanted where
  | shape (s : Shape)
  /-- The operands that can be compared for equality. -/
  | numberOrBoolean
  deriving DecidableEq, Repr

/-- What was called. -/
inductive Callee where
  | builtin (b : Builtin)
  /-- A function, known by the line its literal starts on. -/
  | function (line : Nat)
  deriving DecidableEq, Repr

/-- Why a text is not read or an evaluation does not end with a value. -/
inductive Fault where
  | unexpectedCharacter (character : Char) (line column : Nat)
  /-- `found` is the lexeme of the offending token, none for an end mark. -/
  | syntaxError (expected : Expected) (found : Option String) (line : Nat)
  /-- `target` names the node to the left of an equal sign. -/
  | invalidTarget (target : String) (line : Nat)
  | undefinedVariable (name : String) (line : Nat)
  | assignToConstant (name : String) (line : Nat)
  | typeMismatch (operation : Operation) (wanted : Wanted) (found : Shape) (line : Nat)
  | arityMismatch (callee : Callee) (wanted given : Nat) (line : Nat)
  | divisionByZero (line : Nat)
  | modulusByZero (line : Nat)
  /-- Nesting, of the program or of its calls, reached the limit. -/
  | tooDeep (limit : Nat)
  /-- The output takes no more. -/
  | outputFull
  deriving DecidableEq, Repr

def BlockOwner.text : BlockOwner → String
  | .function => "function body"
  | .keyword word => "'" ++ word ++ "'"

def Expected.text : Expected → String
  | .program => "expected an expression"
  | .endMark => "token stream must end with EOF"
  | .endOfProgram => "expected ';' or end of input"
  | .expression => "expected expression"
  | .nameAfter k => "expected identifier after '" ++ k ++ "'"
  | .equalAfter k => "expected '=' after '" ++ k ++ "' declaration"
  | .openAfter k => "expected '(' after '" ++ k ++ "'"
  | .closeCondition k => "expected ')' after '" ++ k ++ "' condition"
  | .parameterName => "expected parameter name"
  | .closeParameters => "expected ')' after parameter list"
  | .arrow => "expected '=>' after parameter list"
  | .openBlock owner => "expected '\x7b' to begin " ++ owner.text ++ " block"
  | .closeBlock owner => "expected '\x7d' to close " ++ owner.text ++ " block"
  | .closeArguments => "expected ')' after arguments"
  | .closeGroup => "expected ')' after expression"
  | .closeBraces => "expected '\x7d' to close block"
  | .wordNumber => "number literal does not fit in a 64-bit integer"

def Operation.text : Operation → String
  | .binary op => op.symbol
  | .unary op => op.symbol
  | .loop => "while"
  | .call => "call"

def Wanted.text : Wanted → String
  | .shape s => s.name
  | .numberOrBoolean => "number or boolean"

def Callee.text : Callee → String
  | .builtin b => b.name
  | .function line => "function defined on line " ++ toString line

/-- How a diagnostic refers to the token it is about. -/
def foundText : Option String → String
  | none => "end of input"
  | some lexeme => "'" ++ lexeme ++ "'"

namespace Fault

/-- The name of the kind of fault, which starts a diagnostic. -/
def kind : Fault → String
  | .unexpectedCharacter .. => "UnexpectedCharacter"
  | .syntaxError .. => "SyntaxError"
  | .invalidTarget .. => "InvalidAssignmentTarget"
  | .undefinedVariable .. => "UndefinedVariable"
  | .assignToConstant .. => "AssignToConstant"
  | .typeMismatch .. => "TypeMismatch"
  | .arityMismatch .. => "ArityMismatch"
  | .divisionByZero .. => "DivisionByZero"
  | .modulusByZero .. => "ModulusByZero"
  | .tooDeep .. => "StackOverflow"
  | .outputFull => "Io"

private def onLine (line : Nat) (text : String) : String :=
  "[line " ++ toString line ++ "] " ++ text

/-- The wording of a fault. Names and characters stand in it as they are. -/
def message : Fault → String
  | .unexpectedCharacter c line column =>
      "[line " ++ toString line ++ ", column " ++ toString column
        ++ "] Unexpected character '" ++ c.toString ++ "'"
  | .syntaxError expected found line =>
      onLine line ("Syntax error at " ++ foundText found ++ ": " ++ expected.text)
  | .invalidTarget target line => onLine line ("Invalid assignment target: " ++ target)
  | .undefinedVariable name line => onLine line ("Undefined variable '" ++ name ++ "'")
  | .assignToConstant name line => onLine line ("Cannot reassign constant '" ++ name ++ "'")
  | .typeMismatch operation wanted found line =>
      onLine line ("Operator '" ++ operation.text ++ "' expected " ++ wanted.text
        ++ " but found " ++ found.name)
  | .arityMismatch callee wanted given line =>
      onLine line ("'" ++ callee.text ++ "' expected " ++ toString wanted
        ++ " arguments but got " ++ toString given)
  | .divisionByZero line => onLine line "Division by zero"
  | .modulusByZero line => onLine line "Modulus by zero"
  | .tooDeep limit => "Maximum recursion depth of " ++ toString limit ++ " exceeded"
  | .outputFull => "No space left on device (os error 28)"

/-- The kinds of fault that belong to reading a program. Exceeded nesting is not
one of them, since reading and evaluating share that kind. -/
def isStatic : Fault → Bool
  | .unexpectedCharacter .. | .syntaxError .. | .invalidTarget .. => true
  | _ => false

end Fault

end ExprLang
