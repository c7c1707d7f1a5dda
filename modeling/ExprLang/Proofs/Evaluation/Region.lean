import ExprLang.Proofs.Evaluation.Rules
import ExprLang.Proofs.Store.Lookup
import ExprLang.Proofs.Value.Operators
import Mathlib.Logic.Relation

/-!
What an evaluation can get at. A region is a set of scopes and a set of expressions. It is
closed in a store if the parents of its scopes are in it, and of the closures that its
scopes hold the captured scopes and the bodies. An evaluation that starts in a closed
region stays in it: whatever it binds, returns or calls belongs to the region
(`Evaluates.closed`). New scopes belong to every region.
-/

namespace ExprLang

/-! ## Parts of expressions -/

namespace Expr

/-- `Part e e'`: a node `e` is evaluated or captured as a part of the node `e'`. What is
left of a sequence or of a conditional is a part too. -/
inductive Part : Expr → Expr → Prop where
  | declared {name constant value line} : Part value (.declare name constant value line)
  | assigned {name value line} : Part value (.assign name value line)
  | item {item items} : Part item (.sequence (item :: items))
  | items {item items} : Part (.sequence items) (.sequence (item :: items))
  | block {body} : Part body (.block body)
  | otherwise {body} : Part body (.choice (.otherwise body))
  | guard {condition body rest} : Part condition (.choice (.guarded condition body rest))
  | arm {condition body rest} : Part body (.choice (.guarded condition body rest))
  | arms {condition body rest} : Part (.choice rest) (.choice (.guarded condition body rest))
  | loopGuard {condition body line} : Part condition (.loop condition body line)
  | loopBody {condition body line} : Part body (.loop condition body line)
  | functionBody {params body line} : Part body (.function params body line)
  | callee {callee arguments line} : Part callee (.call callee arguments line)
  | argument {callee arguments line e} (h : e ∈ arguments) :
      Part e (.call callee arguments line)
  | left {op left right line} : Part left (.binary op left right line)
  | right {op left right line} : Part right (.binary op left right line)
  | operand {op operand line} : Part operand (.unary op operand line)

/-- A node occurs in an expression, at its top or anywhere below. -/
def Occurs (node e : Expr) : Prop := Relation.ReflTransGen Part node e

/-- A name is the target of an assignment in an expression. -/
def Assigns (e : Expr) (name : String) : Prop :=
  ∃ value line, Occurs (.assign name value line) e

theorem Part.assigns {e e' : Expr} (h : Part e e') {name : String} (ha : e.Assigns name) :
    e'.Assigns name := by
  obtain ⟨value, line, ho⟩ := ha
  exact ⟨value, line, ho.tail h⟩

theorem assigns_assign (name : String) (value : Expr) (line : Nat) :
    (Expr.assign name value line).Assigns name :=
  ⟨value, line, .refl⟩

end Expr

/-! ## Regions -/

/-- Scopes and expressions. The scopes from `base` on are new ones. -/
structure Region where
  scopes : ScopeId → Prop
  code : Expr → Prop
  base : Nat
  new : ∀ s, base ≤ s → scopes s
  part : ∀ {e e'}, Expr.Part e e' → code e' → code e

namespace Region

variable (R : Region)

/-- A value that leads nowhere outside the region. -/
def Holds : Value → Prop
  | .closure c => R.scopes c.scope ∧ R.code c.body
  | _ => True

/-- A store in which nothing leads from the region to the outside. -/
structure Closed (st : Store) : Prop where
  base_le : R.base ≤ st.size
  parent : ∀ s p, R.scopes s → st.parent? s = some p → R.scopes p
  value : ∀ s x b, R.scopes s → st.local? s x = some b → R.Holds b.value

/-- A task that belongs to the region. -/
def Admits : Task → Prop
  | .expr e => R.code e
  | .arguments es => ∀ e ∈ es, R.code e
  | .call callee args _ => R.Holds callee ∧ ∀ v ∈ args, R.Holds v

/-- A result that belongs to the region. -/
def Gives : (t : Task) → Except Fault t.Result → Prop
  | .expr _, r => ∀ v, r = .ok v → R.Holds v
  | .arguments _, r => ∀ vs, r = .ok vs → ∀ v ∈ vs, R.Holds v
  | .call _ _ _, r => ∀ v, r = .ok v → R.Holds v

variable {R} {st : Store} {s t : ScopeId} {v : Value}

theorem gives_error (t : Task) (f : Fault) : R.Gives t (.error f) := by
  cases t <;> intro v h <;> cases h

theorem holds_unless {fault? : Option Fault} (hv : R.Holds v) :
    ∀ u, v.unless fault? = .ok u → R.Holds u := by
  intro u hu
  cases fault? with
  | none =>
    cases hu
    exact hv
  | some f => cases hu

theorem Closed.scopes_size (h : R.Closed st) : R.scopes st.size := R.new _ h.base_le

theorem Closed.child (h : R.Closed st) (hs : R.scopes s) : R.Closed (st.child s) where
  base_le := Nat.le_trans h.base_le (by simp)
  parent u p hu hp := by
    rw [Store.child, Store.parent?_add] at hp
    split at hp
    · cases hp
      exact hs
    · exact h.parent u p hu hp
  value u x b hu hb := by
    rw [Store.child, Store.local?_add] at hb
    split at hb
    · cases hb
    · exact h.value u x b hu hb

theorem Closed.bind (h : R.Closed st) {name : String} {b : Binding} (hb : R.Holds b.value) :
    R.Closed (st.bind s name b) where
  base_le := by
    rw [Store.size_bind]
    exact h.base_le
  parent u p hu hp := by
    rw [Store.parent?_bind] at hp
    exact h.parent u p hu hp
  value u x b' hu hb' := by
    rw [Store.local?_bind] at hb'
    split at hb'
    · cases hb'
      exact hb
    · exact h.value u x b' hu hb'

variable {st' : Store} {fault? : Option Fault} {name : String} {constant : Bool} {line : Nat}

theorem Closed.define (h : R.Closed st) (hv : R.Holds v)
    (hdefine : st.define s name v constant line = (st', fault?)) : R.Closed st' :=
  Store.define_preserves hdefine h fun _ => h.bind hv

theorem Closed.assign (h : R.Closed st) (hv : R.Holds v)
    (hassign : st.assign s name v line = (st', fault?)) : R.Closed st' :=
  Store.assign_preserves hassign h fun _ _ _ _ => h.bind hv

theorem Closed.bindParams (h : R.Closed st) {ps : List (Param × Value)}
    (hps : ∀ pv ∈ ps, R.Holds pv.2) (hbind : Machine.bindParams st s line ps = (st', fault?)) :
    R.Closed st' := by
  induction ps generalizing st with
  | nil =>
    cases hbind
    exact h
  | cons pv ps ih =>
    obtain ⟨p, v⟩ := pv
    have hv : R.Holds v := hps _ (.head _)
    rw [Machine.bindParams] at hbind
    split at hbind
    · next hdefine => exact ih (h.define hv hdefine) (fun pv hpv => hps pv (.tail _ hpv)) hbind
    · next hdefine =>
      cases hbind
      exact h.define hv hdefine

theorem Closed.get (h : R.Closed st) (hs : R.scopes s) {name : String} {line : Nat}
    (hv : st.get s name line = .ok v) : R.Holds v := by
  unfold Store.get at hv
  split at hv
  · next hresolve =>
    cases hv
    obtain ⟨ht, hlocal⟩ := Store.resolve?_eq_some hresolve hs h.parent
    exact h.value _ _ _ ht hlocal
  · cases hv

/-- No operator gives a closure. -/
theorem holds_answer {operation : Operation} {line : Nat} {r : Except Fault Value}
    (h : operation.Answers line r) : ∀ v, r = .ok v → R.Holds v := by
  intro v hv
  cases h <;> cases hv <;> trivial

theorem holds_arguments {ps : List Param} {args : List Value} (hargs : ∀ v ∈ args, R.Holds v) :
    ∀ pv ∈ ps.zip args, R.Holds pv.2 :=
  fun pv hpv => hargs pv.2 (List.of_mem_zip hpv).2

end Region

/-! ## What a scope can get at -/

/-- The scopes that can be got at from a scope: those around it, those captured by the
closures it holds, and so on. -/
inductive Store.Reaches (st : Store) (s : ScopeId) : ScopeId → Prop where
  | self : Reaches st s s
  | parent {t p} (h : Reaches st s t) (hp : st.parent? t = some p) : Reaches st s p
  | captured {t x b c} (h : Reaches st s t) (hb : st.local? t x = some b)
      (hc : b.value = .closure c) : Reaches st s c.scope

/-- A closure that can be got at from a scope. -/
def Store.ReachesClosure (st : Store) (s : ScopeId) (c : Closure) : Prop :=
  ∃ t x b, st.Reaches s t ∧ st.local? t x = some b ∧ b.value = .closure c

namespace Region

/-- All that can be got at from a scope, and the new scopes. -/
def reachable (st : Store) (s : ScopeId) (code : Expr → Prop)
    (part : ∀ {e e'}, Expr.Part e e' → code e' → code e) : Region where
  scopes u := st.Reaches s u ∨ st.size ≤ u
  code := code
  base := st.size
  new _ hu := .inr hu
  part := part

theorem closed_reachable {st : Store} {s : ScopeId} {code : Expr → Prop}
    {part : ∀ {e e'}, Expr.Part e e' → code e' → code e}
    (hcode : ∀ c, st.ReachesClosure s c → code c.body) :
    (reachable st s code part).Closed st where
  base_le := Nat.le_refl _
  parent u p hu hp := by
    rcases hu with hu | hu
    · exact .inl (hu.parent hp)
    · exact absurd (Store.lt_size_of_parent? hp) (Nat.not_lt.mpr hu)
  value u x b hu hb := by
    rcases hu with hu | hu
    · cases hv : b.value with
      | closure c => exact ⟨.inl (hu.captured hb hv), hcode c ⟨u, x, b, hu, hb, hv⟩⟩
      | _ => trivial
    · exact absurd (Store.lt_size_of_local? hb) (Nat.not_lt.mpr hu)

end Region

open Region

/-- An evaluation that starts in a closed region stays in it. -/
theorem Evaluates.closed {R : Region} {limits : Limits} {d : Nat} {s : ScopeId} {t : Task}
    {w w' : World} {r : Except Fault t.Result} (h : Evaluates limits d s t w r w')
    (hs : R.scopes s) (ht : R.Admits t) (hw : R.Closed w.store) :
    R.Closed w'.store ∧ R.Gives t r := by
  induction h with
  | number | bool | null | noItems | noArms =>
    refine ⟨hw, fun v hv => ?_⟩
    cases hv
    trivial
  | identifier => exact ⟨hw, fun v hv => hw.get hs hv⟩
  | function =>
    refine ⟨hw, fun v hv => ?_⟩
    cases hv
    exact ⟨hs, R.part .functionBody ht⟩
  | declare _ hdefine ih =>
    obtain ⟨hw₁, hv⟩ := ih hw.scopes_size (R.part .declared ht) (hw.child hs)
    exact ⟨hw₁.define (hv _ rfl) hdefine, holds_unless (hv _ rfl)⟩
  | assign _ hassign ih =>
    obtain ⟨hw₁, hv⟩ := ih hw.scopes_size (R.part .assigned ht) (hw.child hs)
    exact ⟨hw₁.assign (hv _ rfl) hassign, holds_unless (hv _ rfl)⟩
  | declareFails _ ih =>
    exact ⟨(ih hw.scopes_size (R.part .declared ht) (hw.child hs)).1, gives_error _ _⟩
  | assignFails _ ih =>
    exact ⟨(ih hw.scopes_size (R.part .assigned ht) (hw.child hs)).1, gives_error _ _⟩
  | lastItem _ ih => exact ih hs (R.part .item ht) hw
  | item _ _ ih ihitems =>
    exact ihitems hs (R.part .items ht) (ih hs (R.part .item ht) hw).1
  | itemFails _ ih => exact ⟨(ih hs (R.part .item ht) hw).1, gives_error _ _⟩
  | block _ ih => exact ih hw.scopes_size (R.part .block ht) (hw.child hs)
  | otherwise _ ih => exact ih hw.scopes_size (R.part .otherwise ht) (hw.child hs)
  | armTaken _ _ ih ihbody =>
    have hw₁ := (ih hw.scopes_size (R.part .guard ht) (hw.child hs)).1
    exact ihbody hw₁.scopes_size (R.part .arm ht) (hw₁.child hs)
  | armSkipped _ _ _ ih ihrest =>
    have hw₁ := (ih hw.scopes_size (R.part .guard ht) (hw.child hs)).1
    exact ihrest hs (R.part .arms ht) hw₁
  | armFails _ ih =>
    exact ⟨(ih hw.scopes_size (R.part .guard ht) (hw.child hs)).1, gives_error _ _⟩
  | turn _ _ _ ih ihbody ihloop =>
    have hw₁ := (ih hw.scopes_size (R.part .loopGuard ht) (hw.child hs)).1
    have hw₂ := (ihbody hw₁.scopes_size (R.part .loopBody ht) (hw₁.child hs)).1
    exact ihloop hs ht hw₂
  | turnFails _ _ ih ihbody =>
    have hw₁ := (ih hw.scopes_size (R.part .loopGuard ht) (hw.child hs)).1
    exact ⟨(ihbody hw₁.scopes_size (R.part .loopBody ht) (hw₁.child hs)).1, gives_error _ _⟩
  | loopEnds _ ih =>
    refine ⟨(ih hw.scopes_size (R.part .loopGuard ht) (hw.child hs)).1, fun v hv => ?_⟩
    cases hv
    trivial
  | loopMismatch _ _ ih =>
    exact ⟨(ih hw.scopes_size (R.part .loopGuard ht) (hw.child hs)).1, gives_error _ _⟩
  | loopFails _ ih =>
    exact ⟨(ih hw.scopes_size (R.part .loopGuard ht) (hw.child hs)).1, gives_error _ _⟩
  | call _ _ _ ih iharguments ihcall =>
    obtain ⟨hw₁, hv⟩ := ih hw.scopes_size (R.part .callee ht) (hw.child hs)
    obtain ⟨hw₂, hvs⟩ := iharguments hs (fun e he => R.part (.argument he) ht) hw₁
    exact ihcall hs ⟨hv _ rfl, hvs _ rfl⟩ hw₂
  | argumentsFail _ _ ih iharguments =>
    have hw₁ := (ih hw.scopes_size (R.part .callee ht) (hw.child hs)).1
    exact ⟨(iharguments hs (fun e he => R.part (.argument he) ht) hw₁).1, gives_error _ _⟩
  | calleeFails _ ih =>
    exact ⟨(ih hw.scopes_size (R.part .callee ht) (hw.child hs)).1, gives_error _ _⟩
  | binary _ _ ih ihright =>
    have hw₁ := (ih hw.scopes_size (R.part .left ht) (hw.child hs)).1
    have hw₂ := (ihright hw₁.scopes_size (R.part .right ht) (hw₁.child hs)).1
    exact ⟨hw₂, holds_answer (BinaryOp.apply_answers ..)⟩
  | rightFails _ _ ih ihright =>
    have hw₁ := (ih hw.scopes_size (R.part .left ht) (hw.child hs)).1
    exact ⟨(ihright hw₁.scopes_size (R.part .right ht) (hw₁.child hs)).1, gives_error _ _⟩
  | leftFails _ ih =>
    exact ⟨(ih hw.scopes_size (R.part .left ht) (hw.child hs)).1, gives_error _ _⟩
  | unary _ ih =>
    have hw₁ := (ih hw.scopes_size (R.part .operand ht) (hw.child hs)).1
    exact ⟨hw₁, holds_answer (UnaryOp.apply_answers ..)⟩
  | operandFails _ ih =>
    exact ⟨(ih hw.scopes_size (R.part .operand ht) (hw.child hs)).1, gives_error _ _⟩
  | noArguments =>
    refine ⟨hw, fun vs hvs v hv => ?_⟩
    cases hvs
    cases hv
  | @argument _ _ _ _ _ v _ r _ _ _ ih ihmore =>
    obtain ⟨hw₁, hv⟩ := ih hw.scopes_size (ht _ (.head _)) (hw.child hs)
    obtain ⟨hw₂, hvs⟩ := ihmore hs (fun e he => ht e (.tail _ he)) hw₁
    refine ⟨hw₂, fun us hus u hu => ?_⟩
    cases r with
    | ok vs =>
      cases hus
      rcases List.mem_cons.mp hu with rfl | hu
      · exact hv _ rfl
      · exact hvs _ rfl u hu
    | error f => cases hus
  | argumentFails _ ih =>
    exact ⟨(ih hw.scopes_size (ht _ (.head _)) (hw.child hs)).1, gives_error _ _⟩
  | notCallable | builtinArity | outputFull | functionArity | tooDeep =>
    exact ⟨hw, gives_error _ _⟩
  | written =>
    refine ⟨hw, fun v hv => ?_⟩
    cases hv
    trivial
  | parametersFail _ _ hbind =>
    exact ⟨(hw.child ht.1.1).bindParams (holds_arguments ht.2) hbind, gives_error _ _⟩
  | body _ _ hbind _ ih =>
    exact ih hw.scopes_size ht.1.2 ((hw.child ht.1.1).bindParams (holds_arguments ht.2) hbind)

end ExprLang
