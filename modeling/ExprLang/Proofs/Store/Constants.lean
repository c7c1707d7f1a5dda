import ExprLang.Proofs.Store.Evolution
import ExprLang.Proofs.Store.Lookup

/-!
Constants. A scope that binds a name as a constant keeps that binding, whatever is
evaluated, defined or assigned from then on, in whatever scope, and whether it succeeds
or not. A change of a store keeps constants, and everything that happens is a series of
changes.

* `Evolves.keepsConstants`: constants stay behind any series of changes;
* `constant_parameter_bound`: a call that comes to its body has bound its constants;
* `constants_kept`: the property of sessions, of root scopes and of parameters.
-/

namespace ExprLang

namespace Store

/-- Every constant is still there, with its value. -/
def KeepsConstants (st st' : Store) : Prop :=
  ∀ s x v, st.local? s x = some ⟨v, true⟩ → st'.local? s x = some ⟨v, true⟩

theorem KeepsConstants.trans {st st' st'' : Store} (h : st.KeepsConstants st')
    (h' : st'.KeepsConstants st'') : st.KeepsConstants st'' :=
  fun s x v hx => h' s x v (h s x v hx)

theorem keepsConstants_add (st : Store) (scope : Scope) : st.KeepsConstants (st.add scope) := by
  intro s x v hx
  have hlt := lt_size_of_local? hx
  rw [local?_add, if_neg (Nat.ne_of_lt hlt)]
  exact hx

/-- A binding may be replaced if it is no constant. -/
theorem keepsConstants_bind {st : Store} {s : ScopeId} {name : String}
    (hfree : ∀ b, st.local? s name = some b → b.constant = false) (b : Binding) :
    st.KeepsConstants (st.bind s name b) := by
  intro u x v hx
  rw [local?_bind]
  split
  · next h =>
    obtain ⟨rfl, rfl, -⟩ := h
    cases hfree _ hx
  · exact hx

theorem KeepsConstants.refl (st : Store) : st.KeepsConstants st := fun _ _ _ hx => hx

theorem Change.keepsConstants {st st' : Store} (h : Change st st') : st.KeepsConstants st' := by
  cases h with
  | add scope => exact keepsConstants_add st scope
  | define s name value constant line =>
    exact define_preserves rfl (.refl st) fun hfree => keepsConstants_bind hfree _
  | assign s name value line =>
    refine assign_preserves rfl (.refl st) fun t b hresolve hvariable => ?_
    refine keepsConstants_bind (fun b' hb' => ?_) _
    rw [local?_of_resolve? hresolve] at hb'
    cases hb'
    exact hvariable

theorem Evolves.keepsConstants {st st' : Store} (h : st.Evolves st') : st.KeepsConstants st' := by
  induction h with
  | refl => exact .refl st
  | tail _ hchange ih => exact ih.trans hchange.keepsConstants

end Store

open Store

/-! ## Parameters -/

namespace Machine

/-- A constant parameter has its argument once all parameters are bound. A later one of
the same name would have been refused. -/
theorem bindParams_constant {st st' : Store} {s : ScopeId} {line : Nat}
    {ps : List (Param × Value)} (hs : s < st.size) (h : bindParams st s line ps = (st', none))
    {p : Param} {v : Value} (hp : (p, v) ∈ ps) (hconstant : p.constant = true) :
    st'.local? s p.name = some ⟨v, true⟩ := by
  induction ps generalizing st with
  | nil => cases hp
  | cons pv ps ih =>
    obtain ⟨q, u⟩ := pv
    rw [bindParams] at h
    split at h
    · next st₁ hdefine =>
      obtain ⟨hlocal, hsize⟩ := local?_define hs hdefine
      rcases List.mem_cons.mp hp with hq | hp
      · cases hq
        have hkept := (bindParams_evolves st₁ s line ps).keepsConstants
        rw [h] at hkept
        rw [hconstant] at hlocal
        exact hkept _ _ _ hlocal
      · exact ih (hsize.symm ▸ hs) h hp
    · cases h

/-- A call that comes to its body has bound its constant parameters in the new scope. -/
theorem constant_parameter_bound {limits : Limits} {c : Closure} {args : List Value}
    {line : Nat} {frames frames' : List Frame} {store st : Store} {output output' : String}
    {calls calls' : Nat} {e : Expr} {s : ScopeId}
    (h : apply limits (.closure c) args line frames store output calls =
      .eval e s frames' st output' calls')
    {p : Param} {v : Value} (hp : (p, v) ∈ c.params.zip args) (hconstant : p.constant = true) :
    st.local? s p.name = some ⟨v, true⟩ := by
  by_cases harity : args.length = c.params.length
  · rcases Nat.lt_or_ge calls limits.depth with hdepth | hdepth
    · obtain ⟨⟨st', fault?⟩, hbind⟩ : ∃ q, bindParams (store.child c.scope) store.size line
        (c.params.zip args) = q := ⟨_, rfl⟩
      cases fault? with
      | none =>
        rw [apply_body harity hdepth hbind] at h
        cases h
        exact bindParams_constant (by simp) hbind hp hconstant
      | some f =>
        rw [apply_refused harity hdepth hbind] at h
        cases h
    · rw [apply_too_deep harity hdepth] at h
      cases h
  · rw [apply_closure_arity harity] at h
    cases h

end Machine

/-! ## The property -/

theorem local?_root (st : Store) :
    (st.add .root).local? st.size Builtin.outNumber.name =
      some ⟨.builtin .outNumber, true⟩ := by
  rw [local?_add, if_pos rfl]
  rfl

/-- Constants never change: in any store under any events, in a session under any further
steps; the built-in function of a root scope, from the making of the scope on; and a
constant parameter, from the moment when the call comes to its body, for every lookup
that ends in the scope of the call. -/
theorem constants_kept :
    (∀ st st', History st st' → st.KeepsConstants st') ∧
    (∀ (session session' : Session) steps answers,
      session.performAll? steps = some (session', answers) →
        session.store.KeepsConstants session'.store) ∧
    (∀ (st st' : Store), History (st.add .root) st' →
      st'.local? st.size Builtin.outNumber.name = some ⟨.builtin .outNumber, true⟩) ∧
    (∀ limits steps session answers,
      (Session.start limits).performAll? steps = some (session, answers) →
        session.store.local? State.rootScope Builtin.outNumber.name =
          some ⟨.builtin .outNumber, true⟩) ∧
    (∀ limits c args line frames store output calls s st calls',
      Machine.apply limits (.closure c) args line frames store output calls =
          .eval c.body s (.leave :: frames) st output calls' →
        ∀ p v, (p, v) ∈ c.params.zip args → p.constant = true → ∀ st', History st st' →
          st'.local? s p.name = some ⟨v, true⟩ ∧
            ∀ u b, st'.resolve? p.name u = some (s, b) → b = ⟨v, true⟩) := by
  refine ⟨fun st st' h => h.evolves.keepsConstants, fun session session' steps answers h =>
    (Session.performAll?_evolves h).keepsConstants, fun st st' h => ?_,
    fun limits steps session answers h => ?_, ?_⟩
  · exact h.evolves.keepsConstants _ _ _ (local?_root st)
  · exact (Session.performAll?_evolves h).keepsConstants _ _ _ (local?_root Store.empty)
  · intro limits c args line frames store output calls s st calls' h p v hp hconstant st' hst'
    have hlocal : st'.local? s p.name = some ⟨v, true⟩ :=
      hst'.evolves.keepsConstants _ _ _ (Machine.constant_parameter_bound h hp hconstant)
    refine ⟨hlocal, fun u b hb => ?_⟩
    rw [local?_of_resolve? hb] at hlocal
    cases hlocal
    rfl

/-- A call of `func(const p) => { let p = 2 }` with 1: its body fails, and `p` stays 1. -/
theorem constants_kept_redeclared :
    ∃ (c : Closure) (st : Store) (o : Machine.Outcome),
      Machine.apply .usual (.closure c) [.number 1] 1 [] (Store.empty.add .root) "" 0 =
          .eval c.body 1 [.leave] st "" 1 ∧
        c.body.eval .usual 9 1 ⟨⟨st, ""⟩, 1⟩ = some o ∧
        o.result = .error (.assignToConstant "p" 1) ∧
        o.state.store.local? 1 "p" = some ⟨.number 1, true⟩ := by
  let c : Closure := ⟨[⟨"p", true⟩], .declare "p" false (.number 2) 1, 1, 0⟩
  let st : Store := ((Store.empty.add .root).child 0).bind 1 "p" ⟨.number 1, true⟩
  have hcall : Machine.apply .usual (.closure c) [.number 1] 1 [] (Store.empty.add .root) "" 0 =
    .eval c.body 1 [.leave] st "" 1 := rfl
  obtain ⟨o, ho⟩ : ∃ o, c.body.eval .usual 9 1 ⟨⟨st, ""⟩, 1⟩ = some o := ⟨_, rfl⟩
  have hbound := constants_kept.2.2.2.2 _ _ _ _ _ _ _ _ _ _ _ hcall ⟨"p", true⟩ (.number 1)
    (.head _) rfl _ (.single (.evaluation ho))
  refine ⟨c, st, o, hcall, ho, ?_, hbound.1⟩
  cases ho
  rfl

end ExprLang
