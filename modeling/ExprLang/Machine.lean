import ExprLang.Store
import ExprLang.Value.Operation

/-!
Evaluation, by a machine that keeps what is left to do on a stack of frames. A
step looks at one node or hands one value or one fault to the frame on top; it never
waits for another step, so neither deep expressions nor deep calls need room besides
the stack of frames.

Every operand, guard, alternative, turn of a loop, value of a declaration or an
assignment, callee and argument is evaluated in a new scope inside the current
one. The items of a sequence share the current one.

The calls in progress are counted: a call adds one when its body begins, and the frame
it leaves behind takes one away when a value or a fault comes out of the body.
-/

namespace ExprLang

/-- What bounds an evaluation. -/
structure Limits where
  /-- The most calls of functions that may be in progress at a time. -/
  depth : Nat
  /-- Whether the output takes what is written to it. -/
  writable : Bool
  deriving DecidableEq, Repr

/-- The limits that hold where none are given. -/
def Limits.usual : Limits := ⟨10000, true⟩

/-- What evaluation changes: the scopes, and what has been written. -/
structure World where
  store : Store
  output : String

/-- The state of an evaluator: its world, and the number of calls in progress. -/
structure State extends World where
  calls : Nat

namespace Machine

/-- What is to be done with a value once it is there. -/
inductive Frame where
  | declare (name : String) (constant : Bool) (line : Nat) (scope : ScopeId)
  | assign (name : String) (line : Nat) (scope : ScopeId)
  /-- Forget the value and evaluate the next expression. -/
  | andThen (next : Expr) (scope : ScopeId)
  | guard (body : Expr) (rest : Arms) (scope : ScopeId)
  | loopGuard (condition body : Expr) (line : Nat) (scope : ScopeId)
  | callee (arguments : List Expr) (line : Nat) (scope : ScopeId)
  /-- The value is an argument; those `before` it have theirs, the last one first. -/
  | argument (callee : Value) (before : List Value) (rest : List Expr) (line : Nat)
      (scope : ScopeId)
  | left (op : BinaryOp) (right : Expr) (line : Nat) (scope : ScopeId)
  | right (op : BinaryOp) (left : Value) (line : Nat)
  | operand (op : UnaryOp) (line : Nat)
  /-- The call whose body was evaluated is no longer in progress. -/
  | leave

/-- What the machine is about. -/
inductive Control where
  | eval (e : Expr) (scope : ScopeId)
  /-- A value for the frame on top. -/
  | give (v : Value)
  /-- A fault on its way out. -/
  | fail (f : Fault)

structure Config where
  control : Control
  frames : List Frame
  state : State

/-- How an evaluation ends. What it wrote and bound stays, also after a fault. -/
structure Outcome where
  result : Except Fault Value
  state : State

/-- What a step leads to. -/
inductive Step where
  | next (c : Config)
  | done (o : Outcome)

namespace Config

def eval (e : Expr) (s : ScopeId) (frames : List Frame) (store : Store) (output : String)
    (calls : Nat) : Config :=
  ⟨.eval e s, frames, ⟨⟨store, output⟩, calls⟩⟩

/-- Goes on with an expression in a new scope inside another. -/
def evalInside (e : Expr) (s : ScopeId) (frames : List Frame) (store : Store) (output : String)
    (calls : Nat) : Config :=
  let inner := store.size
  eval e inner frames (store.child s) output calls

def give (v : Value) (frames : List Frame) (store : Store) (output : String) (calls : Nat) :
    Config :=
  ⟨.give v, frames, ⟨⟨store, output⟩, calls⟩⟩

def fail (f : Fault) (frames : List Frame) (store : Store) (output : String) (calls : Nat) :
    Config :=
  ⟨.fail f, frames, ⟨⟨store, output⟩, calls⟩⟩

/-- Goes on with a value, if there is one. -/
def answer (r : Except Fault Value) (frames : List Frame) (store : Store) (output : String)
    (calls : Nat) : Config :=
  match r with
  | .ok v => give v frames store output calls
  | .error f => fail f frames store output calls

/-- Goes on with a value after a change of the store, if the change was allowed. -/
def giveStored (v : Value) (change : Store × Option Fault) (frames : List Frame)
    (output : String) (calls : Nat) : Config :=
  match change with
  | (store, none) => give v frames store output calls
  | (store, some f) => fail f frames store output calls

end Config

/-- Binds parameters to arguments in one scope, from left to right, up to the first
that the scope refuses. -/
def bindParams (st : Store) (s : ScopeId) (line : Nat) :
    List (Param × Value) → Store × Option Fault
  | [] => (st, none)
  | (p, v) :: rest =>
    match st.define s p.name v p.constant line with
    | (st, none) => bindParams st s line rest
    | (st, some f) => (st, some f)

/-- Calls a value. The number of arguments is checked first, then the number of
calls in progress; then parameters are bound, in a new scope inside the captured
one, and the body is evaluated there. -/
def apply (limits : Limits) (callee : Value) (args : List Value) (line : Nat)
    (frames : List Frame) (store : Store) (output : String) (calls : Nat) : Config :=
  match callee with
  | .builtin .outNumber =>
    match args with
    | [v] =>
      if limits.writable then .give .null frames store (output ++ v.text ++ "\n") calls
      else .fail .outputFull frames store output calls
    | args =>
      .fail (.arityMismatch (.builtin .outNumber) Builtin.outNumber.arity args.length line)
        frames store output calls
  | .closure c =>
    if args.length ≠ c.params.length then
      .fail (.arityMismatch (.function c.line) c.params.length args.length line)
        frames store output calls
    else if limits.depth ≤ calls then .fail (.tooDeep limits.depth) frames store output calls
    else
      let inner := store.size
      match bindParams (store.child c.scope) inner line (c.params.zip args) with
      | (store, none) => .eval c.body inner (.leave :: frames) store output (calls + 1)
      | (store, some f) => .fail f frames store output calls
  | other =>
    .fail (.typeMismatch .call (.shape .function) other.shape line) frames store output calls

/-- Evaluates the next argument, or calls once all are there. -/
def applyAfter (limits : Limits) (callee : Value) (before : List Value) (rest : List Expr)
    (line : Nat) (s : ScopeId) (frames : List Frame) (store : Store) (output : String)
    (calls : Nat) : Config :=
  match rest with
  | [] => apply limits callee before.reverse line frames store output calls
  | e :: rest =>
    .evalInside e s (.argument callee before rest line s :: frames) store output calls

/-- The first step into an expression. -/
def enter (e : Expr) (s : ScopeId) (frames : List Frame) (store : Store) (output : String)
    (calls : Nat) : Config :=
  match e with
  | .number n => .give (.number n) frames store output calls
  | .bool b => .give (.bool b) frames store output calls
  | .null => .give .null frames store output calls
  | .identifier name line => .answer (store.get s name line) frames store output calls
  | .declare name constant value line =>
      .evalInside value s (.declare name constant line s :: frames) store output calls
  | .assign name value line =>
      .evalInside value s (.assign name line s :: frames) store output calls
  | .sequence [] => .give .null frames store output calls
  | .sequence [item] => .eval item s frames store output calls
  | .sequence (item :: rest) =>
      .eval item s (.andThen (.sequence rest) s :: frames) store output calls
  | .block body => .evalInside body s frames store output calls
  | .choice .done => .give (.bool false) frames store output calls
  | .choice (.otherwise body) => .evalInside body s frames store output calls
  | .choice (.guarded condition body rest) =>
      .evalInside condition s (.guard body rest s :: frames) store output calls
  | .loop condition body line =>
      .evalInside condition s (.loopGuard condition body line s :: frames) store output calls
  | .function params body line =>
      .give (.closure ⟨params, body, line, s⟩) frames store output calls
  | .call callee arguments line =>
      .evalInside callee s (.callee arguments line s :: frames) store output calls
  | .binary op left right line =>
      .evalInside left s (.left op right line s :: frames) store output calls
  | .unary op operand line =>
      .evalInside operand s (.operand op line :: frames) store output calls

/-- Hands a value to a frame. -/
def resume (limits : Limits) (v : Value) (frame : Frame) (frames : List Frame) (store : Store)
    (output : String) (calls : Nat) : Config :=
  match frame with
  | .declare name constant line s =>
      .giveStored v (store.define s name v constant line) frames output calls
  | .assign name line s => .giveStored v (store.assign s name v line) frames output calls
  | .andThen next s => .eval next s frames store output calls
  | .guard body rest s =>
    match v with
    | .bool true => .evalInside body s frames store output calls
    | _ => .eval (.choice rest) s frames store output calls
  | .loopGuard condition body line s =>
    match v with
    | .bool true =>
        .evalInside body s (.andThen (.loop condition body line) s :: frames) store output calls
    | .bool false => .give (.bool false) frames store output calls
    | other =>
        .fail (.typeMismatch .loop (.shape .boolean) other.shape line) frames store output calls
  | .callee arguments line s => applyAfter limits v [] arguments line s frames store output calls
  | .argument callee before rest line s =>
      applyAfter limits callee (v :: before) rest line s frames store output calls
  | .left op right line s => .evalInside right s (.right op v line :: frames) store output calls
  | .right op left line => .answer (op.apply line left v) frames store output calls
  | .operand op line => .answer (op.apply line v) frames store output calls
  | .leave => .give v frames store output (calls - 1)

/-- The calls in progress after a fault came out of a frame. -/
def Frame.callsAfter (calls : Nat) : Frame → Nat
  | .leave => calls - 1
  | _ => calls

/-- One step. -/
def step (limits : Limits) (c : Config) : Step :=
  match c with
  | ⟨.eval e s, frames, ⟨⟨store, output⟩, calls⟩⟩ => .next (enter e s frames store output calls)
  | ⟨.give v, [], state⟩ => .done ⟨.ok v, state⟩
  | ⟨.give v, frame :: frames, ⟨⟨store, output⟩, calls⟩⟩ =>
    .next (resume limits v frame frames store output calls)
  | ⟨.fail f, [], state⟩ => .done ⟨.error f, state⟩
  | ⟨.fail f, frame :: frames, ⟨⟨store, output⟩, calls⟩⟩ =>
    .next (.fail f frames store output (frame.callsAfter calls))

/-- At most `n` steps; none if they do not reach the end. -/
def run (limits : Limits) : Nat → Config → Option Outcome
  | 0, _ => none
  | n + 1, c =>
    match step limits c with
    | .next c => run limits n c
    | .done o => some o

/-- The machine at the start of an evaluation. -/
def start (e : Expr) (s : ScopeId) (state : State) : Config := ⟨.eval e s, [], state⟩

/-- More steps than any computer takes: two to the power of 62. -/
def patience : Nat := 4611686018427387904

end Machine

/-- Evaluates an expression in a scope; none if it takes more than `n` steps. -/
def Expr.eval (limits : Limits) (n : Nat) (e : Expr) (s : ScopeId) (state : State) :
    Option Machine.Outcome :=
  Machine.run limits n (Machine.start e s state)

end ExprLang
