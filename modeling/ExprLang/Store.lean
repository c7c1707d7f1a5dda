import ExprLang.Value

/-!
Scopes. A store numbers its scopes in the order of their creation. A scope's
parent is fixed when the scope is made, and exists by then, so that a walk
outward meets smaller and smaller numbers.
-/

namespace ExprLang

/-- What a name stands for. -/
structure Binding where
  value : Value
  constant : Bool
  deriving Repr

/-- The names bound in one place of a program, and the scope around it. -/
structure Scope where
  parent : Option ScopeId
  bindings : List (String × Binding)
  deriving Repr

namespace Scope

/-- The binding of a name in the scope itself. -/
def find? (scope : Scope) (name : String) : Option Binding := scope.bindings.lookup name

/-- Bindings with a new one in place of the old one of that name, if there is one. -/
def replace (name : String) (b : Binding) : List (String × Binding) → List (String × Binding)
  | [] => [(name, b)]
  | (other, old) :: rest =>
    if other == name then (name, b) :: rest else (other, old) :: replace name b rest

/-- The scope with a name bound anew. -/
def bind (scope : Scope) (name : String) (b : Binding) : Scope :=
  { scope with bindings := replace name b scope.bindings }

/-- A scope without bindings. -/
def empty (parent : Option ScopeId) : Scope := ⟨parent, []⟩

/-- A scope that is inside no other and holds the built-in functions as constants. -/
def root : Scope :=
  ⟨none, [(Builtin.outNumber.name, ⟨.builtin .outNumber, true⟩)]⟩

end Scope

/-- All scopes, each at its number. -/
structure Store where
  scopes : Array Scope
  deriving Repr

namespace Store

def empty : Store := ⟨#[]⟩

/-- The number that the next scope gets. -/
def size (st : Store) : Nat := st.scopes.size

/-- The store with one more scope. -/
def add (st : Store) (scope : Scope) : Store := ⟨st.scopes.push scope⟩

/-- The store with an empty scope inside `parent`, numbered `st.size`. -/
def child (st : Store) (parent : ScopeId) : Store := st.add (.empty (some parent))

/-- The binding of a name in one scope itself. -/
def local? (st : Store) (s : ScopeId) (name : String) : Option Binding :=
  st.scopes[s]?.bind fun scope => scope.find? name

/-- The nearest scope, from `s` outward, that binds a name, and the binding. -/
def resolve? (st : Store) (name : String) (s : ScopeId) : Option (ScopeId × Binding) :=
  match st.scopes[s]? with
  | none => none
  | some scope =>
    match scope.find? name with
    | some b => some (s, b)
    | none =>
      match scope.parent with
      | none => none
      | some p => if p < s then resolve? st name p else none
termination_by s

/-- The store with a name bound anew in one scope. -/
def bind (st : Store) (s : ScopeId) (name : String) (b : Binding) : Store :=
  ⟨st.scopes.modify s fun scope => scope.bind name b⟩

/-- The value of a name, looked up outward. -/
def get (st : Store) (s : ScopeId) (name : String) (line : Nat) : Except Fault Value :=
  match st.resolve? name s with
  | some (_, b) => .ok b.value
  | none => .error (.undefinedVariable name line)

/-- Binds a name in one scope, whatever scopes around it hold. Only a constant of
this very scope is in the way; then the store stays as it is. -/
def define (st : Store) (s : ScopeId) (name : String) (value : Value) (constant : Bool)
    (line : Nat) : Store × Option Fault :=
  if (st.local? s name).any Binding.constant then (st, some (.assignToConstant name line))
  else (st.bind s name ⟨value, constant⟩, none)

/-- Gives the nearest binding of a name a new value. It binds no new name, and where
there is no binding or a constant one the store stays as it is. -/
def assign (st : Store) (s : ScopeId) (name : String) (value : Value) (line : Nat) :
    Store × Option Fault :=
  match st.resolve? name s with
  | none => (st, some (.undefinedVariable name line))
  | some (holder, b) =>
    if b.constant then (st, some (.assignToConstant name line))
    else (st.bind holder name ⟨value, false⟩, none)

end Store

end ExprLang
