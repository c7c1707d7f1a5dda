import ExprLang.Program

/-!
Sessions: a series of steps on one store. A step that fails leaves all that it
did before, and the session goes on.
-/

namespace ExprLang

/-- A store that is worked on step by step. -/
structure Session where
  limits : Limits
  store : Store
  /-- The calls in progress. -/
  calls : Nat
  /-- The scopes that steps refer to by their index; the first is the root. -/
  scopes : Array ScopeId
  /-- Everything written so far. -/
  output : String

namespace Session

/-- What a step does. Scopes are given by index. -/
inductive Step where
  /-- Evaluates a program in a scope. -/
  | eval (scope : Nat) (source : String)
  /-- Makes a scope without bindings that is inside no other. -/
  | new
  /-- Makes another root scope. -/
  | root
  /-- Makes `count` scopes, each inside the one before and the first inside `scope`,
  and refers to the innermost; to `scope` again if `count` is zero. -/
  | child (scope count : Nat)
  /-- Gives up an index. -/
  | drop (scope : Nat)
  | define (scope : Nat) (name : String) (value : Value) (constant : Bool) (line : Nat)
  | assign (scope : Nat) (name : String) (value : Value) (line : Nat)
  | get (scope : Nat) (name : String) (line : Nat)
  /-- Compares the values of two names. -/
  | same (scope : Nat) (first second : String)

/-- What a step answers, unless it fails. -/
inductive Reply where
  | value (v : Value)
  /-- The index of the scope it made. -/
  | scope (index : Nat)
  | done
  | same (answer : Bool)

/-- The answer of a step, and what it wrote. -/
structure Answer where
  reply : Except Fault Reply
  output : String

/-- A session with its root scope. -/
def start (limits : Limits) : Session :=
  ⟨limits, State.fresh.store, State.fresh.calls, #[State.rootScope], ""⟩

/-- A store with `count` scopes nested in a given scope, and the innermost. -/
def nest (store : Store) (s : ScopeId) : Nat → Store × ScopeId
  | 0 => (store, s)
  | count + 1 =>
    let inner := store.size
    nest (store.child s) inner count

/-- Takes a scope up among those that steps refer to. -/
def refer (session : Session) (store : Store) (s : ScopeId) : Session × Answer :=
  ({ session with store, scopes := session.scopes.push s },
    ⟨.ok (.scope session.scopes.size), ""⟩)

/-- Keeps a store after a change that may have been refused. -/
def keep (session : Session) : Store × Option Fault → Session × Answer
  | (store, none) => ({ session with store }, ⟨.ok .done, ""⟩)
  | (store, some f) => ({ session with store }, ⟨.error f, ""⟩)

/-- Performs a step; none if it refers to a scope that is not there or is given up
on as too long. -/
def perform? (session : Session) (step : Step) : Option (Session × Answer) :=
  match step with
  | .eval scope source => do
    let s ← session.scopes[scope]?
    let o ← State.evalSource session.limits source s ⟨⟨session.store, ""⟩, session.calls⟩
    let own := o.state.output
    return ({ session with
        store := o.state.store, calls := o.state.calls, output := session.output ++ own },
      ⟨o.result.map .value, own⟩)
  | .new => some (session.refer (session.store.add (.empty none)) session.store.size)
  | .root => some (session.refer (session.store.add .root) session.store.size)
  | .child scope count => do
    let s ← session.scopes[scope]?
    let (store, inner) := nest session.store s count
    return session.refer store inner
  | .drop _ => some (session, ⟨.ok .done, ""⟩)
  | .define scope name value constant line => do
    let s ← session.scopes[scope]?
    return session.keep (session.store.define s name value constant line)
  | .assign scope name value line => do
    let s ← session.scopes[scope]?
    return session.keep (session.store.assign s name value line)
  | .get scope name line => do
    let s ← session.scopes[scope]?
    return (session, ⟨(session.store.get s name line).map .value, ""⟩)
  | .same scope first second => do
    let s ← session.scopes[scope]?
    let reply := do
      let a ← session.store.get s first 1
      let b ← session.store.get s second 1
      return .same (a == b)
    return (session, ⟨reply, ""⟩)

/-- Performs steps in order, as far as they can be performed. -/
def performAll? (session : Session) : List Step → Option (Session × List Answer)
  | [] => some (session, [])
  | step :: steps => do
    let (session, answer) ← session.perform? step
    let (session, answers) ← session.performAll? steps
    return (session, answer :: answers)

end Session

end ExprLang
