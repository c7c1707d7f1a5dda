import ExprLang.Proofs.Evaluation.Output
import ExprLang.Proofs.Evaluation.Region
import ExprLang.Proofs.Evaluation.Territory
import ExprLang.Program

/-!
Isolation. What an evaluation cannot get at from its scope has no influence on it, and is
not changed by it. Two machines in the same closed territory whose stores agree there take
the same steps, whatever the stores hold elsewhere.

* `Agree.resolve?`, `Agree.assign`: operations of two stores that agree;
* `Covers.step_alike`, `Covers.run_alike`: the machine on two such stores;
* `eval_isolated`: the property of whole evaluations.
-/

namespace ExprLang

namespace Territory

variable {T : Territory} {st st₂ : Store} {s u : ScopeId} {v : Value} {name : String}
  {constant : Bool} {line : Nat}

/-! ## Two stores -/

/-- Two stores with equally many scopes and the same scopes in the territory. -/
structure Agree (T : Territory) (st st₂ : Store) : Prop where
  size : st₂.size = st.size
  same : ∀ u, T.Scopes st.size u → st.SameAt st₂ u

/-- Changes with the same fault, if any, to stores that agree. -/
inductive AgreeChange (T : Territory) : Store × Option Fault → Store × Option Fault → Prop where
  | mk {st st₂ fault?} (h : T.Agree st st₂) : AgreeChange T (st, fault?) (st₂, fault?)

namespace Agree

theorem child (h : T.Agree st st₂) (s : ScopeId) : T.Agree (st.child s) (st₂.child s) where
  size := by rw [Store.size_child, Store.size_child, h.size]
  same u hu := by
    rw [Store.size_child] at hu
    by_cases hlast : u = st.size
    · constructor
      · simp only [Store.child, Store.parent?_add, h.size, if_pos hlast]
      · intro x
        simp only [Store.child, Store.local?_add, h.size, if_pos hlast]
    · have hsame := h.same u (hu.of_succ hlast)
      have hlast₂ : u ≠ st₂.size := h.size ▸ hlast
      exact ((Store.SameAt.add _ hlast).symm.trans hsame).trans (.add _ hlast₂)

theorem bind (h : T.Agree st st₂) (s : ScopeId) (name : String) (b : Binding) :
    T.Agree (st.bind s name b) (st₂.bind s name b) where
  size := by rw [Store.size_bind, Store.size_bind, h.size]
  same u hu := by
    rw [Store.size_bind] at hu
    have hsame := h.same u hu
    constructor
    · rw [Store.parent?_bind, Store.parent?_bind, hsame.parent]
    · intro x
      rw [Store.local?_bind, Store.local?_bind, h.size, hsame.bindings]

theorem define (h : T.Agree st st₂) (hs : T.Scopes st.size s) :
    T.AgreeChange (st.define s name v constant line) (st₂.define s name v constant line) := by
  unfold Store.define
  rw [(h.same s hs).bindings]
  split
  · exact ⟨h⟩
  · exact ⟨h.bind ..⟩

/-- The walk outward stays in the territory, where it finds the same. -/
theorem resolve? (h : T.Agree st st₂) (hst : T.Closed st) (hs : T.Scopes st.size s)
    (x : String) : st₂.resolve? x s = st.resolve? x s := by
  induction s using Nat.strongRecOn with
  | _ s ih =>
    have hsame := h.same s hs
    cases hlocal : st.local? s x with
    | some b =>
      have hlocal₂ : st₂.local? s x = some b := (hsame.bindings x).trans hlocal
      rw [Store.resolve?_of_local? hlocal, Store.resolve?_of_local? hlocal₂]
    | none =>
      have hlocal₂ : st₂.local? s x = none := (hsame.bindings x).trans hlocal
      rw [Store.resolve?_outward hlocal, Store.resolve?_outward hlocal₂, hsame.parent]
      cases hparent : st.parent? s with
      | none => rfl
      | some p =>
        show (if p < s then st₂.resolve? x p else none) = if p < s then st.resolve? x p else none
        split
        · next hlt => exact ih p hlt (hst.parent s p hs hparent)
        · rfl

theorem get (h : T.Agree st st₂) (hst : T.Closed st) (hs : T.Scopes st.size s) :
    st₂.get s name line = st.get s name line := by
  unfold Store.get
  rw [h.resolve? hst hs]

theorem assign (h : T.Agree st st₂) (hst : T.Closed st) (hs : T.Scopes st.size s) :
    T.AgreeChange (st.assign s name v line) (st₂.assign s name v line) := by
  unfold Store.assign
  rw [h.resolve? hst hs]
  split
  · exact ⟨h⟩
  · split
    · exact ⟨h⟩
    · exact ⟨h.bind ..⟩

theorem bindParams (h : T.Agree st st₂) (hs : T.Scopes st.size s) (ps : List (Param × Value)) :
    T.AgreeChange (Machine.bindParams st s line ps) (Machine.bindParams st₂ s line ps) := by
  induction ps generalizing st st₂ with
  | nil => exact ⟨h⟩
  | cons pv ps ih =>
    obtain ⟨p, v⟩ := pv
    have hchange : T.AgreeChange (st.define s p.name v p.constant line)
        (st₂.define s p.name v p.constant line) := h.define hs
    rw [Machine.bindParams, Machine.bindParams]
    generalize hdefine : st.define s p.name v p.constant line = change at hchange ⊢
    generalize st₂.define s p.name v p.constant line = change₂ at hchange ⊢
    obtain @⟨st', st₂', fault?, hstores⟩ := hchange
    cases fault? with
    | none =>
      have hsize : st'.size = st.size := Store.size_define hdefine
      exact ih hstores (hsize ▸ hs)
    | some f => exact ⟨hstores⟩

end Agree

/-! ## Two machines -/

open Machine

/-- Two states that differ in nothing that belongs to the territory. -/
structure AlikeStates (T : Territory) (state state₂ : State) : Prop where
  output : state₂.output = state.output
  calls : state₂.calls = state.calls
  stores : T.Agree state.store state₂.store

/-- Two configurations that differ in nothing that belongs to the territory. -/
structure Alike (T : Territory) (c c₂ : Config) : Prop where
  control : c₂.control = c.control
  frames : c₂.frames = c.frames
  states : T.AlikeStates c.state c₂.state

/-- Two outcomes that differ in nothing that belongs to the territory. -/
structure EndAlike (T : Territory) (o o₂ : Outcome) : Prop where
  result : o₂.result = o.result
  states : T.AlikeStates o.state o₂.state

/-- Two steps that lead to configurations or outcomes alike. -/
inductive StepAlike (T : Territory) : Step → Step → Prop where
  | next {c c₂} (h : T.Alike c c₂) : StepAlike T (.next c) (.next c₂)
  | done {o o₂} (h : T.EndAlike o o₂) : StepAlike T (.done o) (.done o₂)

namespace Agree

variable {limits : Limits} {frames : List Frame} {output : String} {calls : Nat}

theorem alike (h : T.Agree st st₂) (control : Control) :
    T.Alike ⟨control, frames, ⟨⟨st, output⟩, calls⟩⟩ ⟨control, frames, ⟨⟨st₂, output⟩, calls⟩⟩ :=
  ⟨rfl, rfl, rfl, rfl, h⟩

/-- The next scope has the same number on both sides. -/
theorem alike_evalInside (h : T.Agree st st₂) (e : Expr) (s : ScopeId) :
    T.Alike (.evalInside e s frames st output calls)
      (.evalInside e s frames st₂ output calls) := by
  unfold Config.evalInside
  rw [h.size]
  exact (h.child s).alike _

theorem alike_answer (h : T.Agree st st₂) (r : Except Fault Value) :
    T.Alike (.answer r frames st output calls) (.answer r frames st₂ output calls) := by
  cases r <;> exact h.alike _

theorem alike_giveStored {change change₂ : Store × Option Fault}
    (h : T.AgreeChange change change₂) :
    T.Alike (.giveStored v change frames output calls)
      (.giveStored v change₂ frames output calls) := by
  obtain @⟨st, st₂, fault?, hstores⟩ := h
  cases fault? <;> exact hstores.alike _

theorem alike_apply (h : T.Agree st st₂) (hst : T.Closed st) (callee : Value)
    (args : List Value) :
    T.Alike (apply limits callee args line frames st output calls)
      (apply limits callee args line frames st₂ output calls) := by
  unfold apply
  split
  · split
    · split
      · exact h.alike _
      · exact h.alike _
    · exact h.alike _
  · next c =>
    split
    · exact h.alike _
    · split
      · exact h.alike _
      · dsimp only
        rw [h.size]
        have hlast : T.Scopes (st.child c.scope).size st.size := by
          rw [Store.size_child]
          exact scopes_last hst.base_le
        have hchange : T.AgreeChange
            (Machine.bindParams (st.child c.scope) st.size line (c.params.zip args))
            (Machine.bindParams (st₂.child c.scope) st.size line (c.params.zip args)) :=
          (h.child c.scope).bindParams hlast _
        generalize Machine.bindParams (st.child c.scope) st.size line (c.params.zip args) =
          change at hchange ⊢
        generalize Machine.bindParams (st₂.child c.scope) st.size line (c.params.zip args) =
          change₂ at hchange ⊢
        obtain @⟨st', st₂', fault?, hstores⟩ := hchange
        cases fault? <;> exact hstores.alike _
  · exact h.alike _

theorem alike_applyAfter (h : T.Agree st st₂) (hst : T.Closed st) (callee : Value)
    (before : List Value) (rest : List Expr) (s : ScopeId) :
    T.Alike (applyAfter limits callee before rest line s frames st output calls)
      (applyAfter limits callee before rest line s frames st₂ output calls) := by
  cases rest with
  | nil => exact h.alike_apply hst ..
  | cons e rest => exact h.alike_evalInside e s

/-- Only a name makes a difference between stores at first sight. -/
theorem alike_enter (h : T.Agree st st₂) (hst : T.Closed st) (hs : T.Scopes st.size s)
    (e : Expr) :
    T.Alike (enter e s frames st output calls) (enter e s frames st₂ output calls) := by
  cases e with
  | identifier name line =>
    show T.Alike (.answer (st.get s name line) frames st output calls)
      (.answer (st₂.get s name line) frames st₂ output calls)
    rw [h.get hst hs]
    exact h.alike_answer _
  | sequence items =>
    match items with
    | [] => exact h.alike _
    | [_] => exact h.alike _
    | _ :: _ :: _ => exact h.alike _
  | choice arms =>
    cases arms with
    | done => exact h.alike _
    | otherwise body => exact h.alike_evalInside ..
    | guarded condition body rest => exact h.alike_evalInside ..
  | number n => exact h.alike _
  | bool b => exact h.alike _
  | null => exact h.alike _
  | function params body line => exact h.alike _
  | _ => exact h.alike_evalInside ..

theorem alike_resume (h : T.Agree st st₂) (hst : T.Closed st) (v : Value) {frame : Frame}
    (hframe : T.HoldsFrame st.size frame) :
    T.Alike (resume limits v frame frames st output calls)
      (resume limits v frame frames st₂ output calls) := by
  cases frame with
  | declare name constant line s => exact alike_giveStored (h.define hframe)
  | assign name line s => exact alike_giveStored (h.assign hst hframe)
  | andThen next s => exact h.alike _
  | guard body rest s =>
    dsimp only [resume]
    split
    · exact h.alike_evalInside ..
    · exact h.alike _
  | loopGuard condition body line s =>
    dsimp only [resume]
    split
    · exact h.alike_evalInside ..
    · exact h.alike _
    · exact h.alike _
  | callee arguments line s => exact h.alike_applyAfter hst ..
  | argument callee before rest line s => exact h.alike_applyAfter hst ..
  | left op right line s => exact h.alike_evalInside ..
  | right op left line => exact h.alike_answer _
  | operand op line => exact h.alike_answer _
  | leave => exact h.alike _

end Agree

section Runs

variable {limits : Limits} {c c₂ : Config}

/-- A step does the same to configurations alike. -/
theorem Covers.step_alike (hc : T.Covers c) (h : T.Alike c c₂) :
    T.StepAlike (Machine.step limits c) (Machine.step limits c₂) := by
  obtain ⟨control, frames, ⟨⟨st, output⟩, calls⟩⟩ := c
  obtain ⟨control₂, frames₂, ⟨⟨st₂, output₂⟩, calls₂⟩⟩ := c₂
  obtain ⟨hcontrol, hframes, houtput, hcalls, hstores⟩ := h
  cases hcontrol
  cases hframes
  cases houtput
  cases hcalls
  cases control with
  | eval e s => exact .next (hstores.alike_enter hc.store hc.control e)
  | give v =>
    cases frames with
    | nil => exact .done ⟨rfl, rfl, rfl, hstores⟩
    | cons frame frames => exact .next (hstores.alike_resume hc.store v (hc.frames _ (.head _)))
  | fail f =>
    cases frames with
    | nil => exact .done ⟨rfl, rfl, rfl, hstores⟩
    | cons frame frames => exact .next (hstores.alike _)

/-- So does a run: both end, and alike, or neither ends in the given number of steps. -/
theorem Covers.run_alike (hc : T.Covers c) (h : T.Alike c c₂) (n : Nat) :
    Option.Rel T.EndAlike (Machine.run limits n c) (Machine.run limits n c₂) := by
  induction n generalizing c c₂ with
  | zero => exact .none
  | succ n ih =>
    have halike : T.StepAlike (Machine.step limits c) (Machine.step limits c₂) :=
      hc.step_alike h
    rw [Machine.run, Machine.run]
    cases hstep : Machine.step limits c with
    | next c' =>
      rw [hstep] at halike
      generalize Machine.step limits c₂ = step₂ at halike ⊢
      cases halike with
      | next h' => exact ih (hc.step hstep).covers h'
    | done o =>
      rw [hstep] at halike
      generalize Machine.step limits c₂ = step₂ at halike ⊢
      cases halike with
      | done h' => exact .some h'

end Runs

/-! ## What can be got at -/

/-- The scopes that can be got at from a scope, and those that are made from then on. -/
def reachable (st : Store) (s : ScopeId) : Territory := ⟨st.Reaches s, st.size⟩

theorem scopes_reachable : (reachable st s).Scopes st.size u ↔ st.Reaches s u := by
  constructor
  · rintro (h | ⟨hge, hlt⟩)
    · exact h
    · exact absurd hge (Nat.not_le.mpr hlt)
  · exact .inl

theorem closed_reachable (st : Store) (s : ScopeId) : (reachable st s).Closed st where
  base_le := Nat.le_refl _
  parent u p hu hp := .inl ((scopes_reachable.mp hu).parent hp)
  value u x b hu hb := by
    cases hv : b.value with
    | closure c => exact .inl ((scopes_reachable.mp hu).captured hb hv)
    | _ => trivial

theorem covers_start (e : Expr) (s : ScopeId) (state : State) :
    (reachable state.store s).Covers (start e s state) where
  store := closed_reachable state.store s
  control := .inl .self
  frames := List.forall_mem_nil _

end Territory

open Machine Territory

/-- Isolation. An evaluation leaves the scopes alone that cannot be got at from its own. Its
result, and all scopes and bindings that it could get at or has made, lead to such scopes
only. In a state that has the same scopes, differs only in what cannot be got at and has as
many calls in progress it ends with the same result, has written the same and leaves the
same in all these scopes; or it does not end either. -/
theorem eval_isolated (limits : Limits) (n : Nat) (e : Expr) (env : ScopeId) (state : State) :
    (∀ o, e.eval limits n env state = some o →
      (∀ u < state.store.size, ¬ state.store.Reaches env u →
        state.store.SameAt o.state.store u) ∧
      (∀ c, o.result = .ok (.closure c) →
        (reachable state.store env).Scopes o.state.store.size c.scope) ∧
      (∀ u, (reachable state.store env).Scopes o.state.store.size u →
        (∀ p, o.state.store.parent? u = some p →
          (reachable state.store env).Scopes o.state.store.size p) ∧
        (∀ x b c, o.state.store.local? u x = some b → b.value = .closure c →
          (reachable state.store env).Scopes o.state.store.size c.scope))) ∧
    (∀ other : State, other.calls = state.calls → other.store.size = state.store.size →
      (∀ u, state.store.Reaches env u → state.store.SameAt other.store u) →
      Option.Rel
        (fun o o' => o'.result = o.result ∧
          (∃ written, o.state.output = state.output ++ written ∧
            o'.state.output = other.output ++ written) ∧
          o'.state.calls = o.state.calls ∧ o'.state.store.size = o.state.store.size ∧
          (∀ u, (reachable state.store env).Scopes o.state.store.size u →
            o.state.store.SameAt o'.state.store u))
        (e.eval limits n env state) (e.eval limits n env other)) := by
  constructor
  · intro o ho
    obtain ⟨hclosed, hresult, hspares⟩ := (covers_start e env state).run ho
    refine ⟨hspares, fun c hc => hresult _ hc, fun u hu => ⟨fun p hp => ?_, ?_⟩⟩
    · exact hclosed.parent u p hu hp
    · intro x b c hb hc
      have hholds := hclosed.value u x b hu hb
      rw [hc] at hholds
      exact hholds
  · intro other hcalls hsize hsame
    obtain ⟨⟨st, output⟩, calls⟩ := state
    obtain ⟨⟨st', output'⟩, calls'⟩ := other
    cases hcalls
    have hagree : (reachable st env).Agree st st' :=
      ⟨hsize, fun u hu => hsame u (scopes_reachable.mp hu)⟩
    have hruns : Option.Rel (reachable st env).EndAlike
        (e.eval limits n env ⟨⟨st, ""⟩, calls⟩) (e.eval limits n env ⟨⟨st', ""⟩, calls⟩) :=
      (covers_start e env ⟨⟨st, ""⟩, calls⟩).run_alike (hagree.alike _) n
    -- What was written before is put in front afterwards, on either side its own.
    have hbehind := fun st output => Expr.eval_behind limits n e env st output "" calls
    simp only [String.append_empty] at hbehind
    rw [hbehind st output, hbehind st' output']
    generalize e.eval limits n env ⟨⟨st, ""⟩, calls⟩ = run at hruns ⊢
    generalize e.eval limits n env ⟨⟨st', ""⟩, calls⟩ = run' at hruns ⊢
    cases hruns with
    | none => exact .none
    | @some o o' h =>
      obtain ⟨hresult, houtput, hcalls, hsize, hsame⟩ := h
      have hwritten : output' ++ o'.state.output = output' ++ o.state.output := by rw [houtput]
      exact .some ⟨hresult, ⟨o.state.output, rfl, hwritten⟩, hcalls, hsize, hsame⟩

/-- `func() => { count = count + 1 }`, made in a scope with the number 1. -/
def bump : Closure :=
  ⟨[], .assign "count" (.binary .add (.identifier "count" 1) (.number 1) 1) 1, 1, 1⟩

/-- A root scope with a function that counts in a scope of its own, and a scope that nothing
leads to. -/
def besideHidden (hidden : Int64) : State where
  store := ⟨#[
    ⟨none, [("bump", ⟨.closure bump, true⟩)]⟩,
    ⟨some 0, [("count", ⟨.number 0, false⟩)]⟩,
    ⟨some 0, [("hidden", ⟨.number hidden, false⟩)]⟩]⟩
  output := ""
  calls := 0

theorem besideHidden_local? {hidden : Int64} {u : ScopeId} (hu : u = 0 ∨ u = 1) {x : String}
    {b : Binding} (hb : (besideHidden hidden).store.local? u x = some b) {c : Closure}
    (hc : b.value = .closure c) : c.scope = 1 := by
  rcases hu with rfl | rfl
  · simp only [besideHidden, Store.local?, Scope.find?, List.getElem?_toArray,
      List.getElem?_cons_zero, Option.bind_some, Scope.lookup_entry, List.lookup_nil] at hb
    split at hb
    · cases hb
      cases hc
      rfl
    · cases hb
  · simp only [besideHidden, Store.local?, Scope.find?, List.getElem?_toArray,
      List.getElem?_cons_succ, List.getElem?_cons_zero, Option.bind_some, Scope.lookup_entry,
      List.lookup_nil] at hb
    split at hb
    · cases hb
      cases hc
    · cases hb

theorem besideHidden_reaches {hidden : Int64} {u : ScopeId}
    (h : (besideHidden hidden).store.Reaches 0 u) : u = 0 ∨ u = 1 := by
  induction h with
  | self => exact .inl rfl
  | parent _ hp ih =>
    rcases ih with rfl | rfl
    · cases hp
    · cases hp
      exact .inl rfl
  | captured _ hb hc ih => exact .inr (besideHidden_local? ih hb hc)

/-- `bump()`. -/
def bumped : Expr := .call (.identifier "bump" 1) [] 1

/-- The call of the function ends alike whatever the hidden scope holds, and leaves that
scope alone. -/
theorem eval_isolated_beside_hidden :
    ∃ o o', bumped.eval .usual 30 0 (besideHidden 1) = some o ∧
      bumped.eval .usual 30 0 (besideHidden 7) = some o' ∧
      o'.result = o.result ∧ o.state.store.SameAt o'.state.store 1 ∧
      o.state.store.local? 2 "hidden" = some ⟨.number 1, false⟩ := by
  have hends : (bumped.eval .usual 30 0 (besideHidden 1)).isSome = true := by decide +kernel
  obtain ⟨o, ho⟩ := Option.isSome_iff_exists.mp hends
  obtain ⟨halone, halike⟩ := eval_isolated .usual 30 bumped 0 (besideHidden 1)
  have hsame : ∀ u, (besideHidden 1).store.Reaches 0 u →
      (besideHidden 1).store.SameAt (besideHidden 7).store u := by
    intro u hu
    rcases besideHidden_reaches hu with rfl | rfl
    · exact ⟨rfl, fun _ => rfl⟩
    · exact ⟨rfl, fun _ => rfl⟩
  have hbump : (besideHidden 1).store.local? 0 "bump" = some ⟨.closure bump, true⟩ := rfl
  have hcounter : (besideHidden 1).store.Reaches 0 1 := .captured .self hbump rfl
  have hhidden : ¬ (besideHidden 1).store.Reaches 0 2 := by
    intro h
    rcases besideHidden_reaches h with h | h <;> cases h
  have hrel := halike (besideHidden 7) rfl rfl hsame
  rw [ho] at hrel
  generalize bumped.eval .usual 30 0 (besideHidden 7) = run at hrel ⊢
  cases hrel with
  | @some _ o' h =>
    obtain ⟨hresult, -, -, -, hstores⟩ := h
    refine ⟨o, o', ho, rfl, hresult, hstores 1 (.inl hcounter), ?_⟩
    rw [((halone o ho).1 2 (by decide) hhidden).bindings]
    rfl

end ExprLang
