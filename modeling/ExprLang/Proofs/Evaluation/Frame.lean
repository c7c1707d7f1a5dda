import ExprLang.Proofs.Evaluation.Adequacy
import ExprLang.Proofs.Evaluation.Region
import ExprLang.Proofs.Store.Growth
import ExprLang.Program

/-!
What an evaluation leaves alone. It declares names in its own scope only, namely those of
the declarations that stand in that very scope, and changes values by assignment only, for
names that are assigned to in its expression or in closures it can get at. Everything else
about the scopes that existed before stays, also if the evaluation fails half-way.

* `Framed`: the changes that are allowed, a relation that composes;
* `Evaluates.framed`: every task stays in its frame;
* `eval_frame`: the law for whole evaluations.
-/

namespace ExprLang

/-- The names that an expression declares in the scope where it is evaluated. -/
inductive Expr.Declares (x : String) : Expr → Prop where
  | declare {constant value line} : Declares x (.declare x constant value line)
  | item {items e} (he : e ∈ items) (h : Declares x e) : Declares x (.sequence items)

/-- The names that a task declares in the scope where it is evaluated. -/
def Task.Declares : Task → String → Prop
  | .expr e, x => e.Declares x
  | .arguments _, _ => False
  | .call _ _ _, _ => False

@[simp] theorem Expr.declares_declare {x name : String} {constant : Bool} {value : Expr}
    {line : Nat} : (Expr.declare name constant value line).Declares x ↔ x = name := by
  constructor
  · intro h
    cases h
    rfl
  · rintro rfl
    exact .declare

@[simp] theorem Expr.declares_sequence {x : String} {e : Expr} {es : List Expr} :
    (Expr.sequence (e :: es)).Declares x ↔ e.Declares x ∨ (Expr.sequence es).Declares x := by
  constructor
  · intro h
    cases h with
    | item he h =>
      rcases List.mem_cons.mp he with rfl | he
      · exact .inl h
      · exact .inr (.item he h)
  · rintro (h | h)
    · exact .item (.head _) h
    · cases h with
      | item he h => exact .item (.tail _ he) h

@[simp] theorem Expr.not_declares_nil {x : String} : ¬ (Expr.sequence []).Declares x := by
  intro h
  cases h with
  | item he => cases he

/-! ## Frames -/

/-- The scopes keep their parents and names. Names are bound anew only where they are
declared, and otherwise a variable may get another value only if it is assigned to. -/
structure Framed (declared : ScopeId → String → Prop) (assigned : String → Prop)
    (st st' : Store) : Prop where
  grows : st.Extends st'
  constancy : ∀ s < st.size, ∀ x, ¬ declared s x →
    (st'.local? s x).map Binding.constant = (st.local? s x).map Binding.constant
  value : ∀ s x b b', st.local? s x = some b → st'.local? s x = some b' → b'.value ≠ b.value →
    declared s x ∨ (b.constant = false ∧ assigned x)

namespace Framed

variable {declared declared' : ScopeId → String → Prop} {assigned : String → Prop}
  {st st' st'' : Store} {s : ScopeId} {name : String} {v : Value} {constant : Bool} {line : Nat}
  {fault? : Option Fault}

theorem refl (st : Store) : Framed declared assigned st st where
  grows := .refl st
  constancy _ _ _ _ := rfl
  value s x b b' hb hb' hne := by
    rw [hb] at hb'
    cases hb'
    exact absurd rfl hne

theorem trans (h : Framed declared assigned st st') (h' : Framed declared assigned st' st'') :
    Framed declared assigned st st'' where
  grows := h.grows.trans h'.grows
  constancy s hs x hx :=
    (h'.constancy s (Nat.lt_of_lt_of_le hs h.grows.size_le) x hx).trans (h.constancy s hs x hx)
  value s x b b'' hb hb'' hne := by
    obtain ⟨b', hb'⟩ := Option.isSome_iff_exists.mp (h.grows.bound s x (by rw [hb]; rfl))
    by_cases hx : declared s x
    · exact .inl hx
    -- In between the binding is as constant as before, and one of the halves changed it.
    have hconstant := h.constancy s (Store.lt_size_of_local? hb) x hx
    rw [hb, hb'] at hconstant
    have hconstant : b'.constant = b.constant := Option.some.inj hconstant
    by_cases hfirst : b'.value = b.value
    · rw [← hfirst] at hne
      rcases h'.value s x b' b'' hb' hb'' hne with hd | ⟨hvariable, ha⟩
      · exact .inl hd
      · rw [hconstant] at hvariable
        exact .inr ⟨hvariable, ha⟩
    · exact h.value s x b b' hb hb' hfirst

/-- Only declarations in scopes that existed before count. -/
theorem restrict (h : Framed declared assigned st st')
    (hold : ∀ s < st.size, ∀ x, declared s x → declared' s x) :
    Framed declared' assigned st st' where
  grows := h.grows
  constancy s hs x hx := h.constancy s hs x fun hd => hx (hold s hs x hd)
  value s x b b' hb hb' hne :=
    (h.value s x b b' hb hb' hne).imp (hold s (Store.lt_size_of_local? hb) x) id

theorem child (st : Store) (s : ScopeId) : Framed declared assigned st (st.child s) := by
  have hold : ∀ u < st.size, ∀ x, (st.child s).local? u x = st.local? u x := by
    intro u hu x
    rw [Store.child, Store.local?_add, if_neg (Nat.ne_of_lt hu)]
  refine ⟨Store.extends_add st _, fun u hu x _ => by rw [hold u hu x], ?_⟩
  intro u x b b' hb hb' hne
  rw [hold u (Store.lt_size_of_local? hb) x, hb] at hb'
  cases hb'
  exact absurd rfl hne

/-- What is evaluated in a scope of its own declares nothing outside it. -/
theorem inside (h : Framed declared' assigned (st.child s) st')
    (hnew : ∀ u x, declared' u x → u = st.size) : Framed declared assigned st st' :=
  ((child st s).trans h).restrict fun u hu x hx => absurd (hnew u x hx) (Nat.ne_of_lt hu)

theorem bind {b₀ : Binding} (hdeclared : declared s name ∨
    ∃ b, st.local? s name = some b ∧ b₀.constant = b.constant ∧ b.constant = false ∧
      assigned name) :
    Framed declared assigned st (st.bind s name b₀) := by
  refine ⟨Store.extends_bind .., fun u hu x hx => ?_, fun u x b b' hb hb' hne => ?_⟩
  · rw [Store.local?_bind]
    split
    · next h =>
      obtain ⟨rfl, rfl, -⟩ := h
      rcases hdeclared with hd | ⟨b, hb, hconstant, -, -⟩
      · exact absurd hd hx
      · rw [hb]
        exact congrArg some hconstant
    · rfl
  · rw [Store.local?_bind] at hb'
    split at hb'
    · next h =>
      obtain ⟨rfl, rfl, -⟩ := h
      refine hdeclared.imp id fun ⟨b₁, hb₁, _, hvariable, ha⟩ => ?_
      rw [hb] at hb₁
      cases hb₁
      exact ⟨hvariable, ha⟩
    · rw [hb] at hb'
      cases hb'
      exact absurd rfl hne

theorem define (hdefine : st.define s name v constant line = (st', fault?)) :
    Framed (fun u x => u = s ∧ x = name) assigned st st' :=
  Store.define_preserves hdefine (refl st) fun _ => bind (.inl ⟨rfl, rfl⟩)

theorem assign (hname : assigned name)
    (hassign : st.assign s name v line = (st', fault?)) : Framed declared assigned st st' :=
  Store.assign_preserves hassign (refl st) fun _ b hresolve hvariable =>
    bind (.inr ⟨b, Store.local?_of_resolve? hresolve, hvariable.symm, hvariable, hname⟩)

theorem bindParams {ps : List (Param × Value)}
    (hbind : Machine.bindParams st s line ps = (st', fault?)) :
    Framed (fun u _ => u = s) assigned st st' := by
  induction ps generalizing st with
  | nil =>
    cases hbind
    exact refl _
  | cons pv ps ih =>
    obtain ⟨p, v⟩ := pv
    rw [Machine.bindParams] at hbind
    split at hbind
    · next hdefine => exact ((define hdefine).restrict fun _ _ _ h => h.1).trans (ih hbind)
    · next hdefine =>
      cases hbind
      exact (define hdefine).restrict fun _ _ _ h => h.1

end Framed

/-! ## Evaluation -/

section Evaluation

variable {R : Region} {assigned : String → Prop} {limits : Limits} {d : Nat} {s : ScopeId}
  {w w' : World}

theorem Evaluates.closed_inside {e : Expr} {r : Except Fault Value}
    (h : Evaluates limits d w.fresh (.expr e) (w.inside s) r w') (hs : R.scopes s)
    (he : R.code e) (hw : R.Closed w.store) : R.Closed w'.store ∧ R.Gives (.expr e) r :=
  h.closed hw.scopes_size he (hw.child hs)

/-- A part that is evaluated in a scope of its own, by the induction hypothesis for it. -/
theorem framed_part {declared : ScopeId → String → Prop} {e : Expr}
    (ih : R.scopes w.fresh → R.code e → R.Closed (w.inside s).store →
      Framed (fun u x => u = w.fresh ∧ e.Declares x) assigned (w.inside s).store w'.store)
    (hs : R.scopes s) (he : R.code e) (hw : R.Closed w.store) :
    Framed declared assigned w.store w'.store :=
  (ih hw.scopes_size he (hw.child hs)).inside fun _ _ h => h.1

/-- A task changes only what the code that it can get at may change. -/
theorem Evaluates.framed (hcode : ∀ e, R.code e → ∀ x, e.Assigns x → assigned x) {t : Task}
    {r : Except Fault t.Result} (h : Evaluates limits d s t w r w') (hs : R.scopes s)
    (ht : R.Admits t) (hw : R.Closed w.store) :
    Framed (fun u x => u = s ∧ t.Declares x) assigned w.store w'.store := by
  induction h with
  | number | bool | null | identifier | function | noItems | noArms | noArguments | notCallable
  | builtinArity | written | outputFull | functionArity | tooDeep => exact .refl _
  | declare _ hdefine ih =>
    refine (framed_part ih hs (R.part .declared ht) hw).trans
      ((Framed.define hdefine).restrict fun u _ x hx => ?_)
    obtain ⟨rfl, rfl⟩ := hx
    exact ⟨rfl, .declare⟩
  | declareFails _ ih => exact framed_part ih hs (R.part .declared ht) hw
  | assign _ hassign ih =>
    exact (framed_part ih hs (R.part .assigned ht) hw).trans
      (.assign (hcode _ ht _ (Expr.assigns_assign ..)) hassign)
  | assignFails _ ih => exact framed_part ih hs (R.part .assigned ht) hw
  | lastItem _ ih =>
    exact (ih hs (R.part .item ht) hw).restrict fun _ _ _ h => ⟨h.1, .item (.head _) h.2⟩
  | item hitem _ ih ihitems =>
    have hw₁ := (hitem.closed hs (R.part .item ht) hw).1
    exact ((ih hs (R.part .item ht) hw).restrict
        fun _ _ _ h => ⟨h.1, Expr.declares_sequence.mpr (.inl h.2)⟩).trans
      ((ihitems hs (R.part .items ht) hw₁).restrict
        fun _ _ _ h => ⟨h.1, Expr.declares_sequence.mpr (.inr h.2)⟩)
  | itemFails _ ih =>
    exact (ih hs (R.part .item ht) hw).restrict
      fun _ _ _ h => ⟨h.1, Expr.declares_sequence.mpr (.inl h.2)⟩
  | block _ ih => exact framed_part ih hs (R.part .block ht) hw
  | otherwise _ ih => exact framed_part ih hs (R.part .otherwise ht) hw
  | armTaken hguard _ ih ihbody =>
    have hw₁ := (hguard.closed_inside hs (R.part .guard ht) hw).1
    exact (framed_part ih hs (R.part .guard ht) hw).trans
      (framed_part ihbody hs (R.part .arm ht) hw₁)
  | armSkipped hguard _ _ ih ihrest =>
    have hw₁ := (hguard.closed_inside hs (R.part .guard ht) hw).1
    refine (framed_part ih hs (R.part .guard ht) hw).trans
      ((ihrest hs (R.part .arms ht) hw₁).restrict fun u _ x hx => ?_)
    cases hx.2
  | armFails _ ih => exact framed_part ih hs (R.part .guard ht) hw
  | turn hguard hbody _ ih ihbody ihloop =>
    have hw₁ := (hguard.closed_inside hs (R.part .loopGuard ht) hw).1
    have hw₂ := (hbody.closed_inside hs (R.part .loopBody ht) hw₁).1
    exact (framed_part ih hs (R.part .loopGuard ht) hw).trans
      ((framed_part ihbody hs (R.part .loopBody ht) hw₁).trans (ihloop hs ht hw₂))
  | turnFails hguard _ ih ihbody =>
    have hw₁ := (hguard.closed_inside hs (R.part .loopGuard ht) hw).1
    exact (framed_part ih hs (R.part .loopGuard ht) hw).trans
      (framed_part ihbody hs (R.part .loopBody ht) hw₁)
  | loopEnds _ ih | loopMismatch _ _ ih | loopFails _ ih =>
    exact framed_part ih hs (R.part .loopGuard ht) hw
  | call hcallee harguments _ ih iharguments ihcall =>
    obtain ⟨hw₁, hv⟩ := hcallee.closed_inside hs (R.part .callee ht) hw
    have hes : R.Admits (.arguments _) := fun e he => R.part (.argument he) ht
    obtain ⟨hw₂, hvs⟩ := harguments.closed hs hes hw₁
    exact (framed_part ih hs (R.part .callee ht) hw).trans
      (((iharguments hs hes hw₁).restrict fun _ _ _ h => h.2.elim).trans
        ((ihcall hs ⟨hv _ rfl, hvs _ rfl⟩ hw₂).restrict fun _ _ _ h => h.2.elim))
  | argumentsFail hcallee _ ih iharguments =>
    have hw₁ := (hcallee.closed_inside hs (R.part .callee ht) hw).1
    exact (framed_part ih hs (R.part .callee ht) hw).trans
      ((iharguments hs (fun e he => R.part (.argument he) ht) hw₁).restrict
        fun _ _ _ h => h.2.elim)
  | calleeFails _ ih => exact framed_part ih hs (R.part .callee ht) hw
  | binary hleft _ ih ihright | rightFails hleft _ ih ihright =>
    have hw₁ := (hleft.closed_inside hs (R.part .left ht) hw).1
    exact (framed_part ih hs (R.part .left ht) hw).trans
      (framed_part ihright hs (R.part .right ht) hw₁)
  | leftFails _ ih => exact framed_part ih hs (R.part .left ht) hw
  | unary _ ih | operandFails _ ih =>
    exact framed_part ih hs (R.part .operand ht) hw
  | argument hfirst _ ih ihmore =>
    have hw₁ := (hfirst.closed_inside hs (ht _ (.head _)) hw).1
    exact (framed_part ih hs (ht _ (.head _)) hw).trans
      ((ihmore hs (fun e he => ht e (.tail _ he)) hw₁).restrict fun _ _ _ h => h.2.elim)
  | argumentFails _ ih => exact framed_part ih hs (ht _ (.head _)) hw
  | parametersFail _ _ hbind => exact (Framed.bindParams hbind).inside fun _ _ h => h
  | body _ _ hbind _ ih =>
    -- The captured scope may well be inside `s`; what counts is that the call's own is new.
    have hst := (hw.child ht.1.1).bindParams (Region.holds_arguments ht.2) hbind
    exact ((Framed.bindParams hbind).trans ((ih hw.scopes_size ht.1.2 hst).restrict
      fun _ _ _ h => h.1)).inside fun _ _ h => h

theorem Evaluates.extends {e : Expr} {r : Except Fault Value}
    (h : Evaluates limits d s (.expr e) w r w') : w.store.Extends w'.store := by
  obtain ⟨n, hn⟩ := eval_of_evaluates h
  exact (Expr.eval_evolves hn).extends

/-- An evaluation that succeeds has bound all that it declares. -/
theorem Evaluates.declares_bound {t : Task} {r : Except Fault t.Result}
    (h : Evaluates limits d s t w r w') (hs : s < w.store.size) {x : String} (hx : t.Declares x)
    {v : t.Result} (hr : r = .ok v) : (w'.store.local? s x).isSome := by
  induction h with
  | @declare _ s w _ _ _ _ _ w₁ _ fault? hvalue hdefine =>
    cases hx
    cases fault? with
    | none =>
      have hsize : s < w₁.store.size :=
        Nat.lt_of_lt_of_le hs ((Store.extends_add ..).trans hvalue.extends).size_le
      rw [(Store.local?_define hsize hdefine).1]
      rfl
    | some f => cases hr
  | lastItem _ ih =>
    rcases Expr.declares_sequence.mp hx with hx | hx
    · exact ih hs hx hr
    · exact absurd hx Expr.not_declares_nil
  | item hitem hitems ih ihitems =>
    rcases Expr.declares_sequence.mp hx with hx | hx
    · exact hitems.extends.bound _ _ (ih hs hx rfl)
    · exact ihitems (Nat.lt_of_lt_of_le hs hitem.extends.size_le) hx hr
  | noItems => exact absurd hx Expr.not_declares_nil
  | declareFails | itemFails => cases hr
  | _ => cases hx

end Evaluation

/-- The law. No scope that existed before an evaluation loses a name or its parent. Apart
from the declarations of the expression, which bind names in its scope and have all done so
on success, names stay as constant as they were, and only variables that are assigned to
get other values, in the expression or in the body of a closure that can be got at. What
can be looked up from a scope can be looked up for ever. -/
theorem eval_frame {limits : Limits} {n : Nat} {e : Expr} {env : ScopeId} {state : State}
    {o : Machine.Outcome} (henv : env < state.store.size)
    (h : e.eval limits n env state = some o) :
    (∀ s < state.store.size, o.state.store.parent? s = state.store.parent? s ∧
      ∀ x, (state.store.local? s x).isSome → (o.state.store.local? s x).isSome) ∧
    (∀ s < state.store.size, ∀ x, ¬ (s = env ∧ e.Declares x) →
      (o.state.store.local? s x).map Binding.constant =
        (state.store.local? s x).map Binding.constant) ∧
    (∀ v, o.result = .ok v → ∀ x, e.Declares x → (o.state.store.local? env x).isSome) ∧
    (∀ s x b b', state.store.local? s x = some b → o.state.store.local? s x = some b' →
      b'.value ≠ b.value →
        (s = env ∧ e.Declares x) ∨
          (b.constant = false ∧
            (e.Assigns x ∨ ∃ c, state.store.ReachesClosure env c ∧ c.body.Assigns x))) ∧
    (∀ s x, (state.store.resolve? x s).isSome →
      ∀ st, History o.state.store st → (st.resolve? x s).isSome) := by
  obtain ⟨-, he⟩ := evaluates_of_eval h
  -- The code of the region is what assigns to no other names than the law allows.
  let assigned (x : String) : Prop :=
    e.Assigns x ∨ ∃ c, state.store.ReachesClosure env c ∧ c.body.Assigns x
  let R : Region := .reachable state.store env (fun e' => ∀ x, e'.Assigns x → assigned x)
    fun hpart hcode x hx => hcode x (hpart.assigns hx)
  have hclosed : R.Closed state.store :=
    Region.closed_reachable fun c hc x hx => .inr ⟨c, hc, hx⟩
  have hframed : Framed (fun s x => s = env ∧ e.Declares x) assigned state.store o.state.store :=
    he.framed (R := R) (fun _ hcode => hcode) (.inl .self) (fun x hx => .inl hx) hclosed
  refine ⟨fun s hs => ⟨hframed.grows.parent s hs, hframed.grows.bound s⟩, hframed.constancy,
    fun v hv x hx => he.declares_bound henv hx hv, hframed.value, fun s x hx st hst => ?_⟩
  exact (hframed.grows.trans hst.evolves.extends).resolvable hx

/-- `let a = (func() => { let y = 5; x = y })(); { let b = 2; !b }`. -/
def halfFinished : Expr :=
  .sequence [
    .declare "a" false (.call (.function [] (.sequence [.declare "y" false (.number 5) 1,
      .assign "x" (.identifier "y" 1) 1]) 1) [] 1) 1,
    .block (.sequence [.declare "b" false (.number 2) 1, .unary .not (.identifier "b" 1) 1])]

/-- A root scope with a variable `x`. -/
def oneVariable : State := ⟨⟨State.fresh.store.bind State.rootScope "x" ⟨.number 1, false⟩, ""⟩, 0⟩

/-- The program assigns to `x` and fails in its block. Then `x` still is a variable, and
the names `y` of the call and `b` of the block have not come out. -/
theorem eval_frame_half_finished :
    ∃ o, (State.rootScope < oneVariable.store.size ∧
        halfFinished.eval .usual 40 State.rootScope oneVariable = some o) ∧
      o.result.isOk = false ∧
      (o.state.store.local? State.rootScope "x").map Binding.constant = some false ∧
      o.state.store.local? State.rootScope "y" = none ∧
      o.state.store.local? State.rootScope "b" = none := by
  have hroot : State.rootScope < oneVariable.store.size := by decide
  have hfails : (halfFinished.eval .usual 40 State.rootScope oneVariable).any
      (fun o => !o.result.isOk) = true := by decide +kernel
  obtain ⟨o, ho, hfault⟩ := (Option.any_eq_true ..).mp hfails
  obtain ⟨-, hconstancy, -⟩ := eval_frame hroot ho
  have hkept : ∀ x, x ≠ "a" → (o.state.store.local? State.rootScope x).map Binding.constant =
      (oneVariable.store.local? State.rootScope x).map Binding.constant := by
    intro x hx
    refine hconstancy _ hroot x fun ⟨_, hdeclares⟩ => ?_
    simp only [halfFinished, Expr.declares_sequence, Expr.declares_declare,
      Expr.not_declares_nil, or_false] at hdeclares
    rcases hdeclares with h | h
    · exact hx h
    · cases h
  refine ⟨o, ⟨hroot, ho⟩, by simpa using hfault, hkept "x" (by decide), ?_, ?_⟩
  · exact Option.map_eq_none_iff.mp (hkept "y" (by decide))
  · exact Option.map_eq_none_iff.mp (hkept "b" (by decide))

end ExprLang
