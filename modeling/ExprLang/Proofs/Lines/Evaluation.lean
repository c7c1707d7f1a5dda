import ExprLang.Proofs.Lines.Relabel
import ExprLang.Proofs.Store.Lookup

/-!
Lines have no influence on an evaluation. Whatever the machine does with an expression, it
does with other lines in it too, and the lines of what comes out are other ones alike. The
machine hands lines on and never looks at them, so that each of its operations commutes
with a replacement of lines.

* `Store.resolve?_relabel`, `Store.define_relabel`, `Store.assign_relabel`: the store;
* `step_relabel`, `run_relabel`: a step and a run;
* `Expr.eval_relabel`: whole evaluations.
-/

namespace ExprLang

variable (f : Nat → Nat)

/-! ## Stores -/

namespace Store

@[simp] theorem size_relabel (st : Store) : (st.relabel f).size = st.size := Array.size_map

theorem add_relabel (st : Store) (scope : Scope) :
    (st.add scope).relabel f = (st.relabel f).add (scope.relabel f) := by
  simp only [relabel, add, Array.map_push]

theorem child_relabel (st : Store) (s : ScopeId) :
    (st.child s).relabel f = (st.relabel f).child s :=
  add_relabel f st _

theorem find?_relabel (scope : Scope) (x : String) :
    (scope.relabel f).find? x = (scope.find? x).map (Binding.relabel f) := by
  obtain ⟨parent, bindings⟩ := scope
  unfold Scope.find? Scope.relabel
  induction bindings with
  | nil => rfl
  | cons entry bindings ih =>
    obtain ⟨name, b⟩ := entry
    simp only [List.map_cons, Scope.lookup_entry] at ih ⊢
    split
    · rfl
    · exact ih

theorem local?_relabel (st : Store) (s : ScopeId) (x : String) :
    (st.relabel f).local? s x = (st.local? s x).map (Binding.relabel f) := by
  unfold local? relabel
  rw [Array.getElem?_map]
  cases st.scopes[s]? with
  | none => rfl
  | some scope => exact find?_relabel f scope x

theorem parent?_relabel (st : Store) (s : ScopeId) : (st.relabel f).parent? s = st.parent? s := by
  unfold parent? relabel
  rw [Array.getElem?_map]
  cases st.scopes[s]? <;> rfl

theorem resolve?_relabel (st : Store) (x : String) (s : ScopeId) :
    (st.relabel f).resolve? x s =
      (st.resolve? x s).map fun found => (found.1, found.2.relabel f) := by
  induction s using Nat.strongRecOn with
  | _ s ih =>
    cases hlocal : st.local? s x with
    | some b =>
      have hlocal' : (st.relabel f).local? s x = some (b.relabel f) := by
        rw [local?_relabel, hlocal, Option.map_some]
      rw [resolve?_of_local? hlocal, resolve?_of_local? hlocal']
      rfl
    | none =>
      have hlocal' : (st.relabel f).local? s x = none := by
        rw [local?_relabel, hlocal, Option.map_none]
      rw [resolve?_outward hlocal, resolve?_outward hlocal', parent?_relabel]
      cases st.parent? s with
      | none => rfl
      | some p =>
        dsimp only [Option.bind_some]
        split
        · next hlt => exact ih p hlt
        · rfl

theorem replace_relabel (name : String) (b : Binding) (bs : List (String × Binding)) :
    (Scope.replace name b bs).map (fun entry => (entry.1, entry.2.relabel f)) =
      Scope.replace name (b.relabel f) (bs.map fun entry => (entry.1, entry.2.relabel f)) := by
  induction bs with
  | nil => rfl
  | cons entry bs ih =>
    obtain ⟨other, old⟩ := entry
    simp only [Scope.replace, List.map_cons]
    split
    · rfl
    · rw [List.map_cons, ih]

theorem bind_relabel (st : Store) (s : ScopeId) (name : String) (b : Binding) :
    (st.bind s name b).relabel f = (st.relabel f).bind s name (b.relabel f) := by
  have hscope : ∀ scope : Scope,
      (scope.bind name b).relabel f = (scope.relabel f).bind name (b.relabel f) := by
    intro scope
    simp only [Scope.bind, Scope.relabel, replace_relabel]
  unfold bind relabel
  congr 1
  refine Array.ext (by simp) fun i hi hi' => ?_
  simp only [Array.getElem_map, Array.getElem_modify]
  split
  · exact hscope _
  · rfl

/-- A change of a store, with other lines in the store and in the fault. -/
def relabelChange (f : Nat → Nat) (change : Store × Option Fault) : Store × Option Fault :=
  (change.1.relabel f, change.2.map (Fault.relabel f))

theorem get_relabel (st : Store) (s : ScopeId) (name : String) (line : Nat) :
    (st.relabel f).get s name (f line) = relabelResult f (st.get s name line) := by
  unfold get
  rw [resolve?_relabel]
  cases st.resolve? name s <;> rfl

theorem define_relabel (st : Store) (s : ScopeId) (name : String) (v : Value) (constant : Bool)
    (line : Nat) :
    (st.relabel f).define s name (v.relabel f) constant (f line) =
      relabelChange f (st.define s name v constant line) := by
  have hconstant : ((st.relabel f).local? s name).any Binding.constant =
      (st.local? s name).any Binding.constant := by
    rw [local?_relabel]
    cases st.local? s name <;> rfl
  unfold define
  rw [hconstant]
  split
  · rfl
  · simp only [relabelChange, bind_relabel]
    rfl

theorem assign_relabel (st : Store) (s : ScopeId) (name : String) (v : Value) (line : Nat) :
    (st.relabel f).assign s name (v.relabel f) (f line) =
      relabelChange f (st.assign s name v line) := by
  unfold assign
  rw [resolve?_relabel]
  cases st.resolve? name s with
  | none => rfl
  | some found =>
    obtain ⟨t, b⟩ := found
    have hconstant : (b.relabel f).constant = b.constant := rfl
    simp only [Option.map_some, hconstant]
    split
    · rfl
    · simp only [relabelChange, bind_relabel]
      rfl

end Store

/-! ## Operators -/

namespace BinaryOp

variable (op : BinaryOp) (line : Nat) (a b : Value)

theorem onNumbers_relabel {g h : Int64 → Int64 → Except Fault Value}
    (hgh : ∀ m n, g m n = relabelResult f (h m n)) :
    op.onNumbers (f line) (a.relabel f) (b.relabel f) g =
      relabelResult f (op.onNumbers line a b h) := by
  cases a with
  | number m =>
    cases b with
    | number n => exact hgh m n
    | _ => rfl
  | _ => rfl

theorem onBools_relabel (g : Bool → Bool → Bool) :
    op.onBools (f line) (a.relabel f) (b.relabel f) g =
      relabelResult f (op.onBools line a b g) := by
  cases a with
  | bool p => cases b <;> rfl
  | _ => rfl

theorem equality_relabel :
    op.equality (f line) (a.relabel f) (b.relabel f) =
      (op.equality line a b).mapError (Fault.relabel f) := by
  cases a with
  | number m => cases b <;> rfl
  | bool p => cases b <;> rfl
  | _ => rfl

theorem apply_relabel :
    op.apply (f line) (a.relabel f) (b.relabel f) = relabelResult f (op.apply line a b) := by
  cases op with
  | add | subtract | multiply | less | lessEqual | greater | greaterEqual =>
    exact onNumbers_relabel f _ line a b fun _ _ => rfl
  | divide | modulus =>
    refine onNumbers_relabel f _ line a b fun m n => ?_
    split <;> rfl
  | equal | notEqual =>
    unfold apply
    dsimp only
    rw [equality_relabel]
    cases equality _ line a b <;> rfl
  | and | or => exact onBools_relabel f _ line a b _

end BinaryOp

theorem UnaryOp.apply_relabel (op : UnaryOp) (line : Nat) (v : Value) :
    op.apply (f line) (v.relabel f) = relabelResult f (op.apply line v) := by
  cases op <;> cases v <;> rfl

/-! ## The machine -/

namespace Machine

open Store

theorem bindParams_relabel (st : Store) (s : ScopeId) (line : Nat) (ps : List (Param × Value)) :
    bindParams (st.relabel f) s (f line) (ps.map fun pv => (pv.1, pv.2.relabel f)) =
      relabelChange f (bindParams st s line ps) := by
  induction ps generalizing st with
  | nil => rfl
  | cons pv ps ih =>
    obtain ⟨p, v⟩ := pv
    rw [List.map_cons, bindParams, bindParams, define_relabel]
    obtain ⟨st', fault?⟩ := st.define s p.name v p.constant line
    cases fault? with
    | none => exact ih st'
    | some fault => rfl

section Steps

variable {limits : Limits} (frames : List Frame) (st : Store) (output : String) (calls : Nat)

theorem answer_relabel (r : Except Fault Value) :
    Config.answer (relabelResult f r) (frames.map (Frame.relabel f)) (st.relabel f) output calls =
      (Config.answer r frames st output calls).relabel f := by
  cases r <;> rfl

theorem giveStored_relabel (v : Value) (change : Store × Option Fault) :
    Config.giveStored (v.relabel f) (relabelChange f change) (frames.map (Frame.relabel f))
        output calls =
      (Config.giveStored v change frames output calls).relabel f := by
  obtain ⟨st', fault?⟩ := change
  cases fault? <;> rfl

theorem evalInside_relabel (e : Expr) (s : ScopeId) :
    Config.evalInside (e.relabel f) s (frames.map (Frame.relabel f)) (st.relabel f) output calls =
      (Config.evalInside e s frames st output calls).relabel f := by
  simp only [Config.evalInside, Config.eval, Config.relabel, Control.relabel, State.relabel,
    size_relabel, child_relabel]

theorem apply_closure_relabel (c : Closure) (args : List Value) (line : Nat) :
    apply limits (.closure (c.relabel f)) (args.map (Value.relabel f)) (f line)
        (frames.map (Frame.relabel f)) (st.relabel f) output calls =
      (apply limits (.closure c) args line frames st output calls).relabel f := by
  have hzip : (c.relabel f).params.zip (args.map (Value.relabel f)) =
      (c.params.zip args).map fun pv => (pv.1, pv.2.relabel f) := by
    rw [List.zip_map_right]
    rfl
  have hbind : bindParams ((st.relabel f).child (c.relabel f).scope) (st.relabel f).size (f line)
        ((c.relabel f).params.zip (args.map (Value.relabel f))) =
      relabelChange f (bindParams (st.child c.scope) st.size line (c.params.zip args)) := by
    rw [hzip, size_relabel, ← bindParams_relabel, child_relabel]
    rfl
  have hparams : (c.relabel f).params.length = c.params.length := rfl
  simp only [apply, hbind, List.length_map, hparams]
  split
  · rfl
  · split
    · rfl
    · obtain ⟨st', fault?⟩ := bindParams (st.child c.scope) st.size line (c.params.zip args)
      cases fault? with
      | none =>
        simp only [relabelChange, Option.map_none, size_relabel]
        rfl
      | some fault => rfl

theorem apply_relabel (callee : Value) (args : List Value) (line : Nat) :
    apply limits (callee.relabel f) (args.map (Value.relabel f)) (f line)
        (frames.map (Frame.relabel f)) (st.relabel f) output calls =
      (apply limits callee args line frames st output calls).relabel f := by
  cases callee with
  | closure c => exact apply_closure_relabel ..
  | builtin b =>
    cases b with
    | outNumber =>
      have hcallee : (Value.builtin .outNumber).relabel f = .builtin .outNumber := rfl
      rw [hcallee]
      match args with
      | [] => rfl
      | [v] =>
        simp only [apply, List.map_cons, List.map_nil, Value.text_relabel]
        split <;> rfl
      | _ :: _ :: _ =>
        simp only [apply, List.map_cons, List.length_cons, List.length_map]
        rfl
  | _ => rfl

theorem applyAfter_relabel (callee : Value) (values : List Value) (rest : List Expr)
    (line : Nat) (s : ScopeId) :
    applyAfter limits (callee.relabel f) (values.map (Value.relabel f))
        (rest.map (Expr.relabel f)) (f line) s (frames.map (Frame.relabel f)) (st.relabel f)
        output calls =
      (applyAfter limits callee values rest line s frames st output calls).relabel f := by
  cases rest with
  | nil =>
    simp only [applyAfter, List.map_nil, ← List.map_reverse]
    exact apply_relabel ..
  | cons e rest => exact evalInside_relabel f (.argument callee values rest line s :: frames) ..

theorem enter_relabel (e : Expr) (s : ScopeId) :
    enter (e.relabel f) s (frames.map (Frame.relabel f)) (st.relabel f) output calls =
      (enter e s frames st output calls).relabel f := by
  cases e with
  | number _ | bool _ | null | function _ _ _ => rfl
  | identifier name line =>
    simp only [Expr.relabel, enter, get_relabel]
    exact answer_relabel ..
  | declare name constant value line =>
    exact evalInside_relabel f (.declare name constant line s :: frames) ..
  | assign name value line => exact evalInside_relabel f (.assign name line s :: frames) ..
  | sequence items =>
    match items with
    | [] => rfl
    | [_] => rfl
    | _ :: _ :: _ => rfl
  | block body => exact evalInside_relabel ..
  | choice arms =>
    cases arms with
    | done => rfl
    | otherwise body => exact evalInside_relabel ..
    | guarded condition body rest => exact evalInside_relabel f (.guard body rest s :: frames) ..
  | loop condition body line =>
    exact evalInside_relabel f (.loopGuard condition body line s :: frames) ..
  | call callee arguments line =>
    simp only [Expr.relabel, enter, Expr.relabelAll_eq_map]
    exact evalInside_relabel f (.callee arguments line s :: frames) ..
  | binary op left right line => exact evalInside_relabel f (.left op right line s :: frames) ..
  | unary op operand line => exact evalInside_relabel f (.operand op line :: frames) ..

theorem resume_relabel (v : Value) (frame : Frame) :
    resume limits (v.relabel f) (frame.relabel f) (frames.map (Frame.relabel f)) (st.relabel f)
        output calls =
      (resume limits v frame frames st output calls).relabel f := by
  cases frame with
  | declare name constant line s =>
    simp only [Frame.relabel, resume, define_relabel]
    exact giveStored_relabel ..
  | assign name line s =>
    simp only [Frame.relabel, resume, assign_relabel]
    exact giveStored_relabel ..
  | andThen next s => rfl
  | guard body rest s =>
    cases v with
    | bool b =>
      cases b with
      | true => exact evalInside_relabel ..
      | false => rfl
    | _ => rfl
  | loopGuard condition body line s =>
    cases v with
    | bool b =>
      cases b with
      | true => exact evalInside_relabel f (.andThen (.loop condition body line) s :: frames) ..
      | false => rfl
    | _ => rfl
  | callee arguments line s => exact applyAfter_relabel f frames st output calls v [] ..
  | argument callee values rest line s =>
    exact applyAfter_relabel f frames st output calls callee (v :: values) ..
  | left op right line s => exact evalInside_relabel f (.right op v line :: frames) ..
  | right op left line =>
    simp only [Frame.relabel, resume, BinaryOp.apply_relabel]
    exact answer_relabel ..
  | operand op line =>
    simp only [Frame.relabel, resume, UnaryOp.apply_relabel]
    exact answer_relabel ..
  | leave => rfl

end Steps

variable {limits : Limits}

theorem step_relabel (c : Config) : step limits (c.relabel f) = (step limits c).relabel f := by
  obtain ⟨control, frames, ⟨⟨st, output⟩, calls⟩⟩ := c
  cases control with
  | eval e s => exact congrArg Step.next (enter_relabel ..)
  | give v =>
    cases frames with
    | nil => rfl
    | cons frame frames => exact congrArg Step.next (resume_relabel ..)
  | fail fault =>
    cases frames with
    | nil => rfl
    | cons frame frames => cases frame <;> rfl

theorem run_relabel (n : Nat) (c : Config) :
    run limits n (c.relabel f) = (run limits n c).map (Outcome.relabel f) := by
  induction n generalizing c with
  | zero => rfl
  | succ n ih =>
    rw [run, run, step_relabel]
    cases step limits c with
    | next c' => exact ih c'
    | done o => rfl

end Machine

/-- An evaluation with other lines in the expression and in the state. -/
theorem Expr.eval_relabel (limits : Limits) (n : Nat) (e : Expr) (s : ScopeId) (state : State) :
    (e.relabel f).eval limits n s (state.relabel f) =
      (e.eval limits n s state).map (Machine.Outcome.relabel f) :=
  Machine.run_relabel f n (Machine.start e s state)

end ExprLang
