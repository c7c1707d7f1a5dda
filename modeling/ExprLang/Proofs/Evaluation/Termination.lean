import ExprLang.Proofs.Evaluation.Adequacy
import ExprLang.Proofs.Evaluation.Region
import ExprLang.Program

/-!
Programs without loops end. A part of an expression is smaller than the expression, and
the body of a called function, which may be any expression at all that a scope holds, has
one more call in progress. So the calls that are still allowed and the size of the
expression get smaller in the lexicographic order. All along no closure with a loop
comes up, since an evaluation without loops makes none and finds none.

* `ends_call`: calls end if bodies do, with one more call in progress;
* `total_of_bodies`: expressions end if bodies do, with one more call in progress;
* `loopFree_ends`: the property of whole evaluations.
-/

namespace ExprLang

/-- A part is smaller than the whole. -/
theorem Expr.Part.sizeOf_lt {e e' : Expr} (h : Part e e') : sizeOf e < sizeOf e' := by
  cases h with
  | argument h =>
    have hmem := List.sizeOf_lt_of_mem h
    simp only [Expr.call.sizeOf_spec]
    omega
  | _ => simp <;> omega

/-! ## Without loops -/

/-- No node of an expression is a loop, also not in the body of a function literal. -/
def Expr.LoopFree (e : Expr) : Prop := ∀ condition body line, ¬ Occurs (.loop condition body line) e

/-- No closure that a scope holds has a loop in its body. -/
def Store.LoopFree (st : Store) : Prop :=
  ∀ s x b c, st.local? s x = some b → b.value = .closure c → c.body.LoopFree

namespace Expr

theorem LoopFree.part {e e' : Expr} (h : Part e e') (he' : e'.LoopFree) : e.LoopFree :=
  fun condition body line ho => he' condition body line (ho.tail h)

/-- What is no loop and has no loop in a part has no loop. -/
theorem loopFree_of_parts {e : Expr} (hnode : ∀ condition body line, e ≠ .loop condition body line)
    (hparts : ∀ e', Part e' e → e'.LoopFree) : e.LoopFree := by
  intro condition body line ho
  rcases Relation.ReflTransGen.cases_tail ho with heq | ⟨e', ho', hpart⟩
  · exact hnode condition body line heq
  · exact hparts e' hpart condition body line ho'

theorem not_loopFree_loop {condition body : Expr} {line : Nat} :
    ¬ (Expr.loop condition body line).LoopFree :=
  fun h => h condition body line .refl

end Expr

/-- All scopes, and the code without loops. -/
def Region.loopFree : Region where
  scopes _ := True
  code := Expr.LoopFree
  base := 0
  new _ _ := trivial
  part := Expr.LoopFree.part

theorem Region.closed_loopFree {st : Store} : loopFree.Closed st ↔ st.LoopFree := by
  constructor
  · intro h s x b c hb hc
    have hvalue : loopFree.Holds b.value := h.value s x b trivial hb
    rw [hc] at hvalue
    exact hvalue.2
  · intro h
    refine ⟨Nat.zero_le _, fun _ _ _ _ => trivial, fun s x b _ hb => ?_⟩
    cases hc : b.value with
    | closure c => exact ⟨trivial, h s x b c hb hc⟩
    | _ => trivial

/-! ## What ends -/

/-- The rules derive a result. -/
def Ends (limits : Limits) (d : Nat) (s : ScopeId) (t : Task) (w : World) : Prop :=
  ∃ r w', Evaluates limits d s t w r w'

/-- An expression ends wherever no closure with a loop is around. -/
def Total (limits : Limits) (d : Nat) (e : Expr) : Prop :=
  ∀ s w, w.store.LoopFree → Ends limits d s (.expr e) w

/-- Bodies end of functions that are called with so many calls in progress. -/
def BodiesEnd (limits : Limits) (d : Nat) : Prop :=
  d < limits.depth → ∀ e : Expr, e.LoopFree → Total limits (d + 1) e

variable {limits : Limits} {d line : Nat}

theorem Store.LoopFree.child {st : Store} (h : st.LoopFree) (s : ScopeId) :
    (st.child s).LoopFree :=
  Region.closed_loopFree.mp ((Region.closed_loopFree.mpr h).child trivial)

theorem Evaluates.keeps_loopFree {s : ScopeId} {t : Task} {w w' : World}
    {r : Except Fault t.Result} (h : Evaluates limits d s t w r w')
    (ht : Region.loopFree.Admits t) (hw : w.store.LoopFree) :
    w'.store.LoopFree ∧ Region.loopFree.Gives t r := by
  obtain ⟨hclosed, hgives⟩ := h.closed trivial ht (Region.closed_loopFree.mpr hw)
  exact ⟨Region.closed_loopFree.mp hclosed, hgives⟩

/-- A part in a scope of its own ends, and what it leaves has no loops. -/
theorem Total.inside {e : Expr} (h : Total limits d e) (he : e.LoopFree) (s : ScopeId)
    {w : World} (hw : w.store.LoopFree) :
    ∃ r w₁, Evaluates limits d w.fresh (.expr e) (w.inside s) r w₁ ∧
      w₁.store.LoopFree ∧ Region.loopFree.Gives (.expr e) r := by
  obtain ⟨r, w₁, hpart⟩ := h w.fresh (w.inside s) (hw.child s)
  obtain ⟨hw₁, hr⟩ := hpart.keeps_loopFree he (hw.child s)
  exact ⟨r, w₁, hpart, hw₁, hr⟩

/-! ## Calls -/

theorem ends_builtin (b : Builtin) (args : List Value) (s : ScopeId) (w : World) :
    Ends limits d s (.call (.builtin b) args line) w := by
  by_cases harity : args.length = b.arity
  · cases b with
    | outNumber =>
      obtain ⟨v, rfl⟩ := List.length_eq_one_iff.mp harity
      cases hwritable : limits.writable with
      | true => exact ⟨_, _, .written hwritable⟩
      | false => exact ⟨_, _, .outputFull hwritable⟩
  · exact ⟨_, _, .builtinArity harity⟩

/-- A call of a closure ends if a body ends with one more call in progress. -/
theorem ends_closure (hbody : BodiesEnd limits d)
    {c : Closure} {args : List Value} (ht : Region.loopFree.Admits (.call (.closure c) args line))
    (s : ScopeId) {w : World} (hw : w.store.LoopFree) :
    Ends limits d s (.call (.closure c) args line) w := by
  by_cases harity : args.length = c.params.length
  · rcases Nat.lt_or_ge d limits.depth with hdepth | hdepth
    · obtain ⟨⟨st, fault?⟩, hbind⟩ : ∃ p, Machine.bindParams (w.inside c.scope).store w.fresh line
        (c.params.zip args) = p := ⟨_, rfl⟩
      have hst : Region.loopFree.Closed st :=
        (Region.closed_loopFree.mpr (hw.child c.scope)).bindParams
          (Region.holds_arguments ht.2) hbind
      cases fault? with
      | none =>
        obtain ⟨r, w₁, hcalled⟩ := hbody hdepth c.body ht.1.2 w.fresh { w with store := st }
          (Region.closed_loopFree.mp hst)
        exact ⟨r, w₁, .body harity hdepth hbind hcalled⟩
      | some f => exact ⟨_, _, .parametersFail harity hdepth hbind⟩
    · exact ⟨_, _, .tooDeep harity hdepth⟩
  · exact ⟨_, _, .functionArity harity⟩

/-- Calls end if bodies do, with one more call in progress. -/
theorem ends_call (hbody : BodiesEnd limits d)
    {callee : Value} {args : List Value} (ht : Region.loopFree.Admits (.call callee args line))
    (s : ScopeId) {w : World} (hw : w.store.LoopFree) :
    Ends limits d s (.call callee args line) w := by
  cases callee with
  | closure c => exact ends_closure hbody ht s hw
  | builtin b => exact ends_builtin b args s w
  | number _ | bool _ | null => exact ⟨_, _, .notCallable (by simp) (by simp)⟩

/-! ## Expressions -/

theorem ends_arguments {es : List Expr} (hes : ∀ e ∈ es, e.LoopFree)
    (ih : ∀ e ∈ es, Total limits d e) (s : ScopeId) {w : World} (hw : w.store.LoopFree) :
    Ends limits d s (.arguments es) w := by
  induction es generalizing w with
  | nil => exact ⟨_, _, .noArguments⟩
  | cons e es ihes =>
    obtain ⟨r, w₁, hfirst, hw₁, -⟩ := (ih e (.head _)).inside (hes e (.head _)) s hw
    cases r with
    | error f => exact ⟨_, _, .argumentFails hfirst⟩
    | ok v =>
      obtain ⟨rs, w₂, hmore⟩ := ihes (fun e he => hes e (.tail _ he))
        (fun e he => ih e (.tail _ he)) hw₁
      exact ⟨_, _, .argument hfirst hmore⟩

/-- An expression without loops whose parts end. -/
structure PartsEnd (limits : Limits) (d : Nat) (e : Expr) : Prop where
  loopFree : e.LoopFree
  total : ∀ e', Expr.Part e' e → Total limits d e'

namespace PartsEnd

/-- A part in a scope of its own ends, and what it leaves has no loops. -/
theorem inside {e e' : Expr} (h : PartsEnd limits d e) (hpart : Expr.Part e' e) (s : ScopeId)
    {w : World} (hw : w.store.LoopFree) :
    ∃ r w₁, Evaluates limits d w.fresh (.expr e') (w.inside s) r w₁ ∧
      w₁.store.LoopFree ∧ Region.loopFree.Gives (.expr e') r :=
  (h.total e' hpart).inside (h.loopFree.part hpart) s hw

theorem declare {name : String} {constant : Bool} {value : Expr}
    (h : PartsEnd limits d (.declare name constant value line)) :
    Total limits d (.declare name constant value line) := by
  intro s w hw
  obtain ⟨r, w₁, hvalue, -, -⟩ := h.inside .declared s hw
  cases r with
  | error f => exact ⟨_, _, .declareFails hvalue⟩
  | ok v => exact ⟨_, _, .declare hvalue rfl⟩

theorem assign {name : String} {value : Expr} (h : PartsEnd limits d (.assign name value line)) :
    Total limits d (.assign name value line) := by
  intro s w hw
  obtain ⟨r, w₁, hvalue, -, -⟩ := h.inside .assigned s hw
  cases r with
  | error f => exact ⟨_, _, .assignFails hvalue⟩
  | ok v => exact ⟨_, _, .assign hvalue rfl⟩

theorem sequence {items : List Expr} (h : PartsEnd limits d (.sequence items)) :
    Total limits d (.sequence items) := by
  intro s w hw
  match items, h with
  | [], _ => exact ⟨_, _, .noItems⟩
  | [item], h =>
    obtain ⟨r, w₁, hitem⟩ := h.total item .item s w hw
    exact ⟨r, w₁, .lastItem hitem⟩
  | item :: next :: items, h =>
    obtain ⟨r, w₁, hitem⟩ := h.total item .item s w hw
    cases r with
    | error f => exact ⟨_, _, .itemFails hitem⟩
    | ok v =>
      have hw₁ : w₁.store.LoopFree := (hitem.keeps_loopFree (h.loopFree.part .item) hw).1
      obtain ⟨r, w₂, hitems⟩ := h.total (.sequence (next :: items)) .items s w₁ hw₁
      exact ⟨r, w₂, .item hitem hitems⟩

theorem choice {arms : Arms} (h : PartsEnd limits d (.choice arms)) :
    Total limits d (.choice arms) := by
  intro s w hw
  cases arms with
  | done => exact ⟨_, _, .noArms⟩
  | otherwise body =>
    obtain ⟨r, w₁, hbody, -, -⟩ := h.inside .otherwise s hw
    exact ⟨r, w₁, .otherwise hbody⟩
  | guarded condition body rest =>
    obtain ⟨r, w₁, hguard, hw₁, -⟩ := h.inside .guard s hw
    cases r with
    | error f => exact ⟨_, _, .armFails hguard⟩
    | ok v =>
      by_cases hv : v = .bool true
      · subst hv
        obtain ⟨r, w₂, hbody, -, -⟩ := h.inside .arm s hw₁
        exact ⟨r, w₂, .armTaken hguard hbody⟩
      · obtain ⟨r, w₂, hrest⟩ := h.total (.choice rest) .arms s w₁ hw₁
        exact ⟨r, w₂, .armSkipped hguard hv hrest⟩

theorem binary {op : BinaryOp} {left right : Expr}
    (h : PartsEnd limits d (.binary op left right line)) :
    Total limits d (.binary op left right line) := by
  intro s w hw
  obtain ⟨r, w₁, hleft, hw₁, -⟩ := h.inside .left s hw
  cases r with
  | error f => exact ⟨_, _, .leftFails hleft⟩
  | ok a =>
    obtain ⟨r, w₂, hright, -, -⟩ := h.inside .right s hw₁
    cases r with
    | error f => exact ⟨_, _, .rightFails hleft hright⟩
    | ok b => exact ⟨_, _, .binary hleft hright⟩

theorem unary {op : UnaryOp} {operand : Expr} (h : PartsEnd limits d (.unary op operand line)) :
    Total limits d (.unary op operand line) := by
  intro s w hw
  obtain ⟨r, w₁, hoperand, -, -⟩ := h.inside .operand s hw
  cases r with
  | error f => exact ⟨_, _, .operandFails hoperand⟩
  | ok v => exact ⟨_, _, .unary hoperand⟩

theorem call (hbody : BodiesEnd limits d) {callee : Expr} {arguments : List Expr}
    (h : PartsEnd limits d (.call callee arguments line)) :
    Total limits d (.call callee arguments line) := by
  intro s w hw
  obtain ⟨r, w₁, hcallee, hw₁, hv⟩ := h.inside .callee s hw
  cases r with
  | error f => exact ⟨_, _, .calleeFails hcallee⟩
  | ok v =>
    have hes : ∀ e ∈ arguments, e.LoopFree := fun e hmem => h.loopFree.part (.argument hmem)
    obtain ⟨r, w₂, harguments⟩ :=
      ends_arguments hes (fun e hmem => h.total e (.argument hmem)) s hw₁
    obtain ⟨hw₂, hvs⟩ := harguments.keeps_loopFree hes hw₁
    cases r with
    | error f => exact ⟨_, _, .argumentsFail hcallee harguments⟩
    | ok vs =>
      obtain ⟨r, w₃, hcall⟩ : Ends limits d s (.call v vs line) w₂ :=
        ends_call hbody ⟨hv v rfl, hvs vs rfl⟩ s hw₂
      exact ⟨r, w₃, .call hcallee harguments hcall⟩

end PartsEnd

/-- Expressions end if bodies of functions do, with one more call in progress. -/
theorem total_of_bodies (hbody : BodiesEnd limits d) (e : Expr)
    (he : e.LoopFree) : Total limits d e := by
  induction hsize : sizeOf e using Nat.strongRecOn generalizing e with
  | _ size ih =>
    have h : PartsEnd limits d e := ⟨he, fun e' hpart =>
      ih (sizeOf e') (hsize ▸ hpart.sizeOf_lt) e' (he.part hpart) rfl⟩
    cases e with
    | number n => exact fun s w _ => ⟨_, _, .number⟩
    | bool b => exact fun s w _ => ⟨_, _, .bool⟩
    | null => exact fun s w _ => ⟨_, _, .null⟩
    | identifier name line => exact fun s w _ => ⟨_, _, .identifier⟩
    | function params body line => exact fun s w _ => ⟨_, _, .function⟩
    | declare name constant value line => exact h.declare
    | assign name value line => exact h.assign
    | sequence items => exact h.sequence
    | block body =>
      intro s w hw
      obtain ⟨r, w₁, hblock, -, -⟩ := h.inside .block s hw
      exact ⟨r, w₁, .block hblock⟩
    | choice arms => exact h.choice
    | loop condition body line => exact absurd he Expr.not_loopFree_loop
    | call callee arguments line => exact h.call hbody
    | binary op left right line => exact h.binary
    | unary op operand line => exact h.unary

/-- Expressions without loops end, by induction on the calls that are still allowed. -/
theorem total_of_loopFree (limits : Limits) (d : Nat) (e : Expr) (he : e.LoopFree) :
    Total limits d e := by
  induction hroom : limits.depth - d using Nat.strongRecOn generalizing d e with
  | _ room ih =>
    refine total_of_bodies (fun hdepth e he => ?_) e he
    exact ih (limits.depth - (d + 1)) (by omega) (d + 1) e he rfl

/-- Where neither an expression nor a closure that a scope holds has a loop in it, an
evaluation ends, and no closure in the store or in the result has a loop in it then. -/
theorem loopFree_ends (limits : Limits) {e : Expr} (he : e.LoopFree) (s : ScopeId)
    {state : State} (hstate : state.store.LoopFree) :
    ∃ n o, e.eval limits n s state = some o ∧ o.state.store.LoopFree ∧
      ∀ c, o.result = .ok (.closure c) → c.body.LoopFree := by
  obtain ⟨w, d⟩ := state
  obtain ⟨r, w', h⟩ := total_of_loopFree limits d e he s w hstate
  obtain ⟨n, hn⟩ := eval_of_evaluates h
  obtain ⟨hstore, hresult⟩ := h.keeps_loopFree he hstate
  exact ⟨n, _, hn, hstore, fun c hc => (hresult _ hc).2⟩

/-- A root scope with the function `f = func() => { f() }`, captured there. -/
def selfCaller : State :=
  let f : Closure := ⟨[], .call (.identifier "f" 1) [] 1, 1, State.rootScope⟩
  ⟨⟨State.fresh.store.bind State.rootScope "f" ⟨.closure f, true⟩, ""⟩, 0⟩

/-- A function that does nothing but call itself ends too. -/
theorem loopFree_ends_self_caller :
    (Expr.call (.identifier "f" 1) [] 1).LoopFree ∧ selfCaller.store.LoopFree ∧
      ∃ n o, (Expr.call (.identifier "f" 1) [] 1).eval .usual n State.rootScope selfCaller =
        some o := by
  have hname : (Expr.identifier "f" 1).LoopFree :=
    Expr.loopFree_of_parts (fun _ _ _ h => by cases h) fun _ hpart => by cases hpart
  have hcall : (Expr.call (.identifier "f" 1) [] 1).LoopFree := by
    refine Expr.loopFree_of_parts (fun _ _ _ h => by cases h) fun _ hpart => ?_
    cases hpart with
    | callee => exact hname
    | argument h => cases h
  have hstore : selfCaller.store.LoopFree := by
    intro s x b c hb hc
    have hlocal := Store.local?_bind State.fresh.store State.rootScope s "f" x
    rw [selfCaller, hlocal] at hb
    split at hb
    · cases hb
      cases hc
      exact hcall
    · -- What else the root scope holds is no closure.
      rw [State.fresh, Store.local?_add] at hb
      split at hb
      · simp only [Scope.find?, Scope.root, List.lookup_cons] at hb
        split at hb
        · cases hb
          cases hc
        · cases hb
      · simp [Store.local?, Store.empty] at hb
  obtain ⟨n, o, ho, -, -⟩ := loopFree_ends .usual hcall State.rootScope hstore
  exact ⟨hcall, hstore, n, o, ho⟩

end ExprLang
