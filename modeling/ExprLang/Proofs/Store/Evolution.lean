import ExprLang.Proofs.Evaluation.Simulation
import ExprLang.Session
import Mathlib.Logic.Relation

/-!
How a store comes about. Whatever happens to a store, it is a series of new scopes,
definitions and assignments, so that an invariant of these three holds throughout.

* `Machine.step_evolves`: the steps of the machine;
* `Expr.eval_evolves`: whole evaluations, also those that fail;
* `Session.performAll?_evolves`: sessions;
* `History.evolves`: all of these in any order.
-/

namespace ExprLang

namespace Store

/-- The ways to change a store. A refused definition or assignment changes nothing. -/
inductive Change : Store → Store → Prop where
  | add (st : Store) (scope : Scope) : Change st (st.add scope)
  | define (st : Store) (s : ScopeId) (name : String) (value : Value) (constant : Bool)
      (line : Nat) : Change st (st.define s name value constant line).1
  | assign (st : Store) (s : ScopeId) (name : String) (value : Value) (line : Nat) :
      Change st (st.assign s name value line).1

/-- One store comes from another by changes. -/
def Evolves : Store → Store → Prop := Relation.ReflTransGen Change

theorem Evolves.refl (st : Store) : st.Evolves st := Relation.ReflTransGen.refl

theorem Evolves.trans {st st' st'' : Store} (h : st.Evolves st') (h' : st'.Evolves st'') :
    st.Evolves st'' :=
  Relation.ReflTransGen.trans h h'

theorem Change.evolves {st st' : Store} (h : Change st st') : st.Evolves st' :=
  Relation.ReflTransGen.single h

theorem evolves_child (st : Store) (s : ScopeId) : st.Evolves (st.child s) :=
  (Change.add st _).evolves

end Store

open Store

/-! ## Evaluation -/

namespace Machine

variable {limits : Limits}

theorem answer_store (r : Except Fault Value) (frames : List Frame) (st : Store)
    (output : String) (calls : Nat) :
    (Config.answer r frames st output calls).state.store = st := by
  cases r <;> rfl

theorem giveStored_store (v : Value) (change : Store × Option Fault) (frames : List Frame)
    (output : String) (calls : Nat) :
    (Config.giveStored v change frames output calls).state.store = change.1 := by
  obtain ⟨st, fault?⟩ := change
  cases fault? <;> rfl

theorem bindParams_evolves (st : Store) (s : ScopeId) (line : Nat) (ps : List (Param × Value)) :
    st.Evolves (bindParams st s line ps).1 := by
  induction ps generalizing st with
  | nil => exact .refl st
  | cons pv ps ih =>
    obtain ⟨p, v⟩ := pv
    have hdefine := (Change.define st s p.name v p.constant line).evolves
    rw [bindParams]
    split
    · next st' heq =>
      rw [heq] at hdefine
      exact hdefine.trans (ih st')
    · next st' f heq =>
      rw [heq] at hdefine
      exact hdefine

theorem apply_evolves (callee : Value) (args : List Value) (line : Nat) (frames : List Frame)
    (st : Store) (output : String) (calls : Nat) :
    st.Evolves (apply limits callee args line frames st output calls).state.store := by
  unfold apply
  split
  · split
    · split <;> exact .refl st
    · exact .refl st
  · next c =>
    split
    · exact .refl st
    · split
      · exact .refl st
      · have hbind := (evolves_child st c.scope).trans
          (bindParams_evolves (st.child c.scope) st.size line (c.params.zip args))
        dsimp only
        split
        · next heq =>
          rw [heq] at hbind
          exact hbind
        · next heq =>
          rw [heq] at hbind
          exact hbind
  · exact .refl st

theorem applyAfter_evolves (callee : Value) (before : List Value) (rest : List Expr) (line : Nat)
    (s : ScopeId) (frames : List Frame) (st : Store) (output : String) (calls : Nat) :
    st.Evolves (applyAfter limits callee before rest line s frames st output
      calls).state.store := by
  cases rest with
  | nil => exact apply_evolves ..
  | cons e rest => exact evolves_child st s

/-- Entering an expression makes one new scope at most. -/
theorem enter_evolves (e : Expr) (s : ScopeId) (frames : List Frame) (st : Store)
    (output : String) (calls : Nat) :
    st.Evolves (enter e s frames st output calls).state.store := by
  cases e with
  | number n => exact .refl st
  | bool b => exact .refl st
  | null => exact .refl st
  | function params body line => exact .refl st
  | identifier name line =>
    rw [enter, answer_store]
    exact .refl st
  | sequence items =>
    match items with
    | [] => exact .refl st
    | [_] => exact .refl st
    | _ :: _ :: _ => exact .refl st
  | choice arms =>
    cases arms with
    | done => exact .refl st
    | otherwise body => exact evolves_child st s
    | guarded condition body rest => exact evolves_child st s
  | declare name constant value line => exact evolves_child st s
  | assign name value line => exact evolves_child st s
  | block body => exact evolves_child st s
  | loop condition body line => exact evolves_child st s
  | call callee arguments line => exact evolves_child st s
  | binary op left right line => exact evolves_child st s
  | unary op operand line => exact evolves_child st s

theorem resume_evolves (v : Value) (frame : Frame) (frames : List Frame) (st : Store)
    (output : String) (calls : Nat) :
    st.Evolves (resume limits v frame frames st output calls).state.store := by
  cases frame with
  | declare name constant line s =>
    rw [resume, giveStored_store]
    exact (Change.define ..).evolves
  | assign name line s =>
    rw [resume, giveStored_store]
    exact (Change.assign ..).evolves
  | andThen next s => exact .refl st
  | guard body rest s =>
    dsimp only [resume]
    split
    · exact evolves_child st s
    · exact .refl st
  | loopGuard condition body line s =>
    dsimp only [resume]
    split
    · exact evolves_child st s
    · exact .refl st
    · exact .refl st
  | callee arguments line s => exact applyAfter_evolves ..
  | argument callee before rest line s => exact applyAfter_evolves ..
  | left op right line s => exact evolves_child st s
  | right op left line =>
    rw [resume, answer_store]
    exact .refl st
  | operand op line =>
    rw [resume, answer_store]
    exact .refl st
  | leave => exact .refl st

theorem step_evolves {c c' : Config} (h : step limits c = .next c') :
    c.state.store.Evolves c'.state.store := by
  unfold step at h
  split at h
  · cases h
    exact enter_evolves ..
  · cases h
  · cases h
    exact resume_evolves ..
  · cases h
  · cases h
    exact .refl _

theorem run_evolves {n : Nat} {c : Config} {o : Outcome} (h : run limits n c = some o) :
    c.state.store.Evolves o.state.store := by
  induction n generalizing c with
  | zero => cases h
  | succ n ih =>
    rw [run] at h
    split at h
    · next hstep => exact (step_evolves hstep).trans (ih h)
    · next hstep =>
      cases h
      unfold step at hstep
      split at hstep <;> cases hstep <;> exact .refl _

end Machine

theorem Expr.eval_evolves {limits : Limits} {n : Nat} {e : Expr} {s : ScopeId} {state : State}
    {o : Machine.Outcome} (h : e.eval limits n s state = some o) :
    state.store.Evolves o.state.store :=
  Machine.run_evolves h

/-! ## Sessions -/

namespace Session

theorem nest_evolves (st : Store) (s : ScopeId) (count : Nat) :
    st.Evolves (nest st s count).1 := by
  induction count generalizing st s with
  | zero => exact .refl st
  | succ count ih => exact (evolves_child st s).trans (ih ..)

theorem keep_store (session : Session) (change : Store × Option Fault) :
    (session.keep change).1.store = change.1 := by
  obtain ⟨st, fault?⟩ := change
  cases fault? <;> rfl

theorem evalSource_evolves {limits : Limits} {source : String} {s : ScopeId} {state : State}
    {o : Machine.Outcome} (h : state.evalSource limits source s = some o) :
    state.store.Evolves o.state.store := by
  unfold State.evalSource at h
  split at h
  · cases h
    exact .refl _
  · exact Expr.eval_evolves h

theorem perform?_evolves {session session' : Session} {step : Step} {answer : Answer}
    (h : session.perform? step = some (session', answer)) :
    session.store.Evolves session'.store := by
  cases step with
  | eval scope source =>
    obtain ⟨s, -, h⟩ := Option.bind_eq_some_iff.mp h
    obtain ⟨o, ho, h⟩ := Option.bind_eq_some_iff.mp h
    cases h
    exact evalSource_evolves ho
  | new =>
    cases h
    exact (Change.add ..).evolves
  | root =>
    cases h
    exact (Change.add ..).evolves
  | child scope count =>
    obtain ⟨s, -, h⟩ := Option.bind_eq_some_iff.mp h
    cases h
    exact nest_evolves ..
  | drop scope =>
    cases h
    exact .refl _
  | define scope name value constant line =>
    obtain ⟨s, -, h⟩ := Option.bind_eq_some_iff.mp h
    have hstore := keep_store session (session.store.define s name value constant line)
    rw [Option.some.inj h] at hstore
    rw [hstore]
    exact (Change.define ..).evolves
  | assign scope name value line =>
    obtain ⟨s, -, h⟩ := Option.bind_eq_some_iff.mp h
    have hstore := keep_store session (session.store.assign s name value line)
    rw [Option.some.inj h] at hstore
    rw [hstore]
    exact (Change.assign ..).evolves
  | get scope name line =>
    obtain ⟨s, -, h⟩ := Option.bind_eq_some_iff.mp h
    cases h
    exact .refl _
  | same scope first second =>
    obtain ⟨s, -, h⟩ := Option.bind_eq_some_iff.mp h
    cases h
    exact .refl _

theorem performAll?_evolves {session session' : Session} {steps : List Step}
    {answers : List Answer} (h : session.performAll? steps = some (session', answers)) :
    session.store.Evolves session'.store := by
  induction steps generalizing session answers with
  | nil =>
    cases h
    exact .refl _
  | cons step steps ih =>
    obtain ⟨⟨next, answer⟩, hstep, h⟩ := Option.bind_eq_some_iff.mp h
    obtain ⟨⟨last, more⟩, hsteps, h⟩ := Option.bind_eq_some_iff.mp h
    cases h
    exact (perform?_evolves hstep).trans (ih hsteps)

end Session

/-! ## Everything that can happen -/

/-- What can happen to a store: an evaluation of any expression in any scope, a step of
one that is still going on, and the operations of the store themselves. -/
inductive Event : Store → Store → Prop where
  | evaluation {limits : Limits} {n : Nat} {e : Expr} {s : ScopeId} {state : State}
      {o : Machine.Outcome} (h : e.eval limits n s state = some o) :
      Event state.store o.state.store
  | step {limits : Limits} {c c' : Machine.Config} (h : Machine.step limits c = .next c') :
      Event c.state.store c'.state.store
  | new (st : Store) : Event st (st.add (.empty none))
  | root (st : Store) : Event st (st.add .root)
  | child (st : Store) (s : ScopeId) : Event st (st.child s)
  | define (st : Store) (s : ScopeId) (name : String) (value : Value) (constant : Bool)
      (line : Nat) : Event st (st.define s name value constant line).1
  | assign (st : Store) (s : ScopeId) (name : String) (value : Value) (line : Nat) :
      Event st (st.assign s name value line).1

/-- Any number of events, in any order. -/
def History : Store → Store → Prop := Relation.ReflTransGen Event

theorem Event.evolves {st st' : Store} (h : Event st st') : st.Evolves st' := by
  cases h with
  | evaluation h => exact Expr.eval_evolves h
  | step h => exact Machine.step_evolves h
  | new | root => exact (Change.add ..).evolves
  | child => exact evolves_child ..
  | define => exact (Change.define ..).evolves
  | assign => exact (Change.assign ..).evolves

theorem History.evolves {st st' : Store} (h : History st st') : st.Evolves st' := by
  induction h with
  | refl => exact .refl st
  | tail _ hevent ih => exact ih.trans hevent.evolves

end ExprLang
