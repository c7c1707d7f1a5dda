import ExprLang.Proofs.Evaluation.Detour
import ExprLang.Proofs.Evaluation.Integrity
import Mathlib

/-!
Scopes that do not matter. An expression that declares nothing is evaluated in a scope, and from
the same state in a scope right inside it which binds no name that the expression uses. The two
evaluations end alike or not at all, and no program that is run in the outer scope afterwards can
tell one from the other (`irrelevant_scope`), whatever closures over either scope are around by
then. In particular `{ e }` and `e` are interchangeable.
-/

namespace ExprLang

/-! ## What is seen of an evaluation -/

/-- A value without the scope that it captured. -/
def Value.unscoped : Value → Value
  | .closure c => .closure { c with scope := 0 }
  | v => v

/-- What is shown of a value does not depend on a captured scope. -/
@[simp] theorem Value.text_unscoped (v : Value) : v.unscoped.text = v.text := by
  cases v <;> rfl

@[simp] theorem Value.detail_unscoped (v : Value) : v.unscoped.detail = v.detail := by
  cases v <;> rfl

namespace Machine

/-- The result of an evaluation and all that has been written. Of a closure only the literal is
seen. -/
def Outcome.seen (o : Outcome) : Except Fault Value × String :=
  (o.result.map Value.unscoped, o.state.output)

/-- What is seen of programs that are run one after the other in one scope, up to the first that
takes more than `n` steps. A program that fails is followed by the next. -/
def transcript (limits : Limits) (n : Nat) (s : ScopeId) :
    List Expr → State → List (Except Fault Value × String)
  | [], _ => []
  | e :: programs, state =>
    match e.eval limits n s state with
    | none => []
    | some o => o.seen :: transcript limits n s programs o.state

/-- Two outcomes that no program run in a scope afterwards tells apart. -/
structure Outcome.Indistinguishable (env : ScopeId) (o o₂ : Outcome) : Prop where
  seen : o.seen = o₂.seen
  later : ∀ limits n programs,
    transcript limits n env programs o.state = transcript limits n env programs o₂.state

end Machine

open Machine

namespace Detour

variable {J : Detour} {W : Stage} {st st₂ : Store} {o o₂ : Outcome}

theorem Same.unscoped {v v₂ : Value} (h : J.Same W v v₂) : v.unscoped = v₂.unscoped := by
  cases h <;> rfl

theorem EndAlike.seen (h : J.EndAlike o o₂) : o.seen = o₂.seen := by
  obtain ⟨-, hresult⟩ := h
  cases hresult with
  | ok hv => simp only [Outcome.seen, Except.map, hv.unscoped]
  | error => rfl

/-- Nothing is declared in `inner` by a program that is run in `outer`. -/
theorem Linked.eval_outer (h : J.Linked W st st₂) (limits : Limits) (n : Nat) (e : Expr)
    (output : String) (calls : Nat) :
    Option.Rel J.EndAlike (e.eval limits n J.outer ⟨⟨st, output⟩, calls⟩)
      (e.eval limits n J.outer ⟨⟨st₂, output⟩, calls⟩) := by
  have hstands : J.Stands W e J.outer J.outer :=
    ⟨h.meets_outer _, fun heq => absurd heq (Nat.ne_of_lt J.outer_lt_inner)⟩
  have hstart : J.Alike (start e J.outer ⟨⟨st, output⟩, calls⟩)
      (start e J.outer ⟨⟨st₂, output⟩, calls⟩) := .mk h (.eval hstands) .nil
  exact hstart.run n

theorem EndAlike.transcript (h : J.EndAlike o o₂) (limits : Limits) (n : Nat)
    (programs : List Expr) :
    transcript limits n J.outer programs o.state =
      transcript limits n J.outer programs o₂.state := by
  -- Each program leaves outcomes that are alike again, and the next one starts from their states.
  induction programs generalizing o o₂ with
  | nil => rfl
  | cons e programs ih =>
    obtain ⟨hstores, -⟩ := h
    rw [Machine.transcript, Machine.transcript]
    rcases rel_cases (hstores.eval_outer limits n e _ _) with
      ⟨hrun, hrun₂⟩ | ⟨o, o₂, hrun, hrun₂, halike⟩
    · rw [hrun, hrun₂]
    · rw [hrun, hrun₂]
      dsimp only
      rw [halike.seen, ih halike]

theorem EndAlike.indistinguishable (h : J.EndAlike o o₂) : o.Indistinguishable J.outer o₂ :=
  ⟨h.seen, h.transcript⟩

/-! ## The start of the detour -/

theorem number_of_lt {u : Nat} (hu : u < J.base) : J.number u = u := if_pos hu

theorem same_self (hbase : J.base ≤ W.size) (haway : ∀ u, ¬ W.away u) {v : Value}
    (hv : ∀ c, v = .closure c → c.scope < J.base) : J.Same W v v := by
  cases v with
  | closure c =>
    have hlt : c.scope < J.base := hv c rfl
    have hmeets : J.Meets W (J.Free c.body) c.scope (J.number c.scope) :=
      .plain (.inl hlt) (Nat.lt_of_lt_of_le hlt hbase) (haway _)
    rw [number_of_lt hlt] at hmeets
    exact .closure hmeets
  | number n => exact .number
  | bool b => exact .bool
  | null => exact .null
  | builtin b => exact .builtin

/-- At first the scopes of the second run are those of the first, but for the extra ones, and no
scope is away. -/
theorem linked_start (hbase : J.base = st₂.size) (hsize : st.size = st₂.size + J.extra)
    (hsame : ∀ u < st₂.size, st₂.SameAt st u) (hintact : st₂.Intact)
    (hinner : st.outward? J.inner = some J.outer)
    (hhidden : ∀ x, ¬ J.hidden x → st.local? J.inner x = none) :
    J.Linked ⟨fun _ => False, st.size⟩ st st₂ where
  stage := rfl
  size := hsize
  base_le := by omega
  away_new _ := False.elim
  inner := hinner
  hidden := hhidden
  outward free u hu hmeets := by
    have hlt : u < J.base := by
      have hold : u < st.size := hmeets.lt (Store.lt_size_of_outward? hinner) fun _ => False.elim
      unfold Shared at hu
      omega
    rw [number_of_lt hlt, Store.outward?, Store.outward?, (hsame u (hbase ▸ hlt)).parent]
    cases hp : (st₂.parent? u).filter (· < u) with
    | none => exact .none
    | some p =>
      have hpu : p < u := (Store.outward?_eq_some.mp hp).2
      have hpbase : p < J.base := Nat.lt_trans hpu hlt
      have hnext : J.Meets ⟨fun _ => False, st.size⟩ free p (J.number p) :=
        .plain (.inl hpbase) (by show p < st.size; omega) id
      rw [number_of_lt hpbase] at hnext
      exact .some hnext
  bindings u x hu hlt := by
    have hbelow : u < J.base := by
      unfold Shared at hu
      omega
    rw [number_of_lt hbelow, (hsame u (hbase ▸ hbelow)).bindings]
    cases hb : st₂.local? u x with
    | none => exact .none
    | some b =>
      refine .some ⟨rfl, same_self (by show J.base ≤ st.size; omega) (fun _ => id) ?_⟩
      intro c hc
      rw [hbase]
      exact hintact.captured_lt u x b c hb hc

/-- An evaluation in `inner` against one in `outer`. -/
theorem Linked.eval_inner (h : J.Linked W st st₂) {e : Expr} (hquiet : e.Quiet)
    (hfree : J.Free e) (limits : Limits) (n : Nat) (output : String) (calls : Nat) :
    Option.Rel (Outcome.Indistinguishable J.outer)
      (e.eval limits n J.inner ⟨⟨st, output⟩, calls⟩)
      (e.eval limits n J.outer ⟨⟨st₂, output⟩, calls⟩) := by
  have hstart : J.Alike (start e J.inner ⟨⟨st, output⟩, calls⟩)
      (start e J.outer ⟨⟨st₂, output⟩, calls⟩) :=
    .mk h (.eval ⟨.inner hfree, fun _ => hquiet⟩) .nil
  rcases rel_cases (hstart.run n) with ⟨hrun, hrun₂⟩ | ⟨o, o₂, hrun, hrun₂, halike⟩
  · rw [Expr.eval, Expr.eval, hrun, hrun₂]
    exact .none
  · rw [Expr.eval, Expr.eval, hrun, hrun₂]
    exact .some halike.indistinguishable

end Detour

/-! ## The result -/

section Scopes

variable {e : Expr} {env c : Nat} {st : Store} (limits : Limits) (n : Nat)
  (hquiet : e.Quiet) (hintact : st.Intact) (output : String) (calls : Nat)
include hquiet hintact

/-- An evaluation in a scope right inside another, with all scopes in either run. -/
theorem eval_inside (hparent : st.parent? c = some env)
    (hbound : ∀ x, e.Uses x → st.local? c x = none) :
    Option.Rel (Outcome.Indistinguishable env) (e.eval limits n c ⟨⟨st, output⟩, calls⟩)
      (e.eval limits n env ⟨⟨st, output⟩, calls⟩) := by
  have hc : c < st.size := Store.lt_size_of_parent? hparent
  have henv : env < c := hintact.ordered c env hparent
  -- The names that the scope binds are hidden from the expression, and no scope is extra.
  let J : Detour :=
    { inner := c, outer := env, base := st.size, extra := 0
      hidden := fun x => st.local? c x ≠ none
      outer_lt_inner := henv
      outer_lt_base := Nat.lt_trans henv hc
      inner_lt := hc }
  have hlinked : J.Linked ⟨fun _ => False, st.size⟩ st st :=
    Detour.linked_start rfl rfl (fun u _ => .refl st u) hintact
      (Store.outward?_eq_some.mpr ⟨hparent, henv⟩) (fun _ => not_not.mp)
  have hfree : J.Free e := fun x hx => not_not.mpr (hbound x hx)
  exact hlinked.eval_inner hquiet hfree limits n output calls

/-- A block has a scope that the evaluation without it lacks. -/
theorem eval_block (henv : env < st.size) :
    Option.Rel (Outcome.Indistinguishable env)
      ((Expr.block e).eval limits (n + 1) env ⟨⟨st, output⟩, calls⟩)
      (e.eval limits n env ⟨⟨st, output⟩, calls⟩) := by
  -- The first step makes the extra scope, where no name is hidden.
  let J : Detour :=
    { inner := st.size, outer := env, base := st.size, extra := 1
      hidden := fun _ => False
      outer_lt_inner := henv
      outer_lt_base := henv
      inner_lt := Nat.lt_succ_self _ }
  have hinner : (st.child env).outward? st.size = some env := by
    rw [Store.outward?_child henv, if_pos rfl]
  have hunbound : ∀ x, (st.child env).local? st.size x = none := by
    intro x
    rw [Store.child, Store.local?_add, if_pos rfl]
    rfl
  have hlinked : J.Linked ⟨fun _ => False, (st.child env).size⟩ (st.child env) st :=
    Detour.linked_start rfl (Store.size_child ..) (fun u hu => .add _ (Nat.ne_of_lt hu)) hintact
      hinner (fun x _ => hunbound x)
  exact hlinked.eval_inner hquiet (fun _ _ => id) limits n output calls

end Scopes

/-- Irrelevance. An expression that declares nothing in its own scope is evaluated in `env`, and
in a scope inside `env` that binds no name which the expression uses: the one outcome is there in
as many steps as the other, and no program run in `env` afterwards tells them apart. The same
holds of the expression as a block, which takes one step more. A fresh state is intact, and so is
all that evaluations make of it. -/
theorem irrelevant_scope (limits : Limits) (n : Nat) (e : Expr) (hquiet : ∀ x, ¬ e.Declares x)
    (env : ScopeId) (state : State) (hintact : state.store.Intact)
    (henv : env < state.store.size) :
    (∀ c, state.store.parent? c = some env →
      (∀ x, e.Uses x → state.store.local? c x = none) →
      Option.Rel (Outcome.Indistinguishable env) (e.eval limits n c state)
        (e.eval limits n env state)) ∧
    Option.Rel (Outcome.Indistinguishable env) ((Expr.block e).eval limits (n + 1) env state)
      (e.eval limits n env state) :=
  ⟨fun _ hparent hbound => eval_inside limits n hquiet hintact _ _ hparent hbound,
    eval_block limits n hquiet hintact _ _ henv⟩

/-- `f = func() => { x = x + 1 }`. -/
def install : Expr :=
  .assign "f" (.function [] (.assign "x" (.binary .add (.identifier "x" 1) (.number 1) 1) 1) 1) 1

/-- A root scope with `x` and `f`, and a scope inside it with `y`. -/
def aside : State where
  store :=
    let root := (State.fresh.store.bind 0 "x" ⟨.number 1, false⟩).bind 0 "f" ⟨.null, false⟩
    (root.child 0).bind 1 "y" ⟨.number 7, false⟩
  output := ""
  calls := 0

theorem intact_aside : aside.store.Intact := by
  have hx : (State.fresh.store.bind 0 "x" ⟨.number 1, false⟩).Intact :=
    Store.intact_fresh.bind (by decide) fun _ hc => nomatch hc
  have hroot : ((State.fresh.store.bind 0 "x" ⟨.number 1, false⟩).bind 0 "f"
      ⟨.null, false⟩).Intact := hx.bind (by decide) fun _ hc => nomatch hc
  exact (hroot.child (by decide)).bind (by decide) fun _ hc => nomatch hc

theorem install_uses {x : String} (h : install.Uses x) : x = "f" ∨ x = "x" := by
  rcases h.cases with ⟨_, heq⟩ | ⟨_, _, heq⟩ | ⟨_, ⟨⟩, h⟩
  · cases heq
  · cases heq
    exact .inl rfl
  -- In the literal, and then in its body.
  rcases h.cases with ⟨_, heq⟩ | ⟨_, _, heq⟩ | ⟨_, ⟨⟩, h⟩
  · cases heq
  · cases heq
  rcases h.cases with ⟨_, heq⟩ | ⟨_, _, heq⟩ | ⟨_, ⟨⟩, h⟩
  · cases heq
  · cases heq
    exact .inr rfl
  rcases h.cases with ⟨_, heq⟩ | ⟨_, _, heq⟩ | ⟨_, ⟨⟩, h⟩
  · cases heq
  · cases heq
  · rcases h.cases with ⟨_, heq⟩ | ⟨_, _, heq⟩ | ⟨_, ⟨⟩, _⟩
    · cases heq
      exact .inr rfl
    · cases heq
  · rcases h.cases with ⟨_, heq⟩ | ⟨_, _, heq⟩ | ⟨_, ⟨⟩, _⟩
    · cases heq
    · cases heq

/-- The function that is installed has a scope inside that of `y`, or right inside the root
scope. It counts in either case. -/
theorem irrelevant_scope_install :
    Option.Rel (Outcome.Indistinguishable 0) (install.eval .usual 10 1 aside)
      (install.eval .usual 10 0 aside) ∧
    Option.Rel (Outcome.Indistinguishable 0) ((Expr.block install).eval .usual 11 0 aside)
      (install.eval .usual 10 0 aside) ∧
    ((install.eval .usual 10 1 aside).map fun o => (o.state.store.parent? 2,
      transcript .usual 20 0 [.call (.identifier "f" 1) [] 1, .identifier "x" 1] o.state)) =
        some (some 1, [(.ok (.number 2), ""), (.ok (.number 2), "")]) ∧
    ((install.eval .usual 10 0 aside).map fun o => o.state.store.parent? 2) = some (some 0) := by
  have hquiet : ∀ x, ¬ install.Declares x := fun _ h => by cases h
  have hunused : ∀ x, install.Uses x → aside.store.local? 1 x = none := by
    intro x hx
    rcases install_uses hx with rfl | rfl <;> rfl
  obtain ⟨hinside, hblock⟩ :=
    irrelevant_scope .usual 10 install hquiet 0 aside intact_aside (by decide)
  exact ⟨hinside 1 rfl hunused, hblock, by cbv, by cbv⟩

end ExprLang
