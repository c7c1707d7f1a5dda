import ExprLang.Proofs.Evaluation.Frame
import ExprLang.Proofs.Evaluation.Region
import Mathlib.Data.List.Forall2

/-!
Two runs that differ by a scope. One run works in a scope `outer`, the other in a scope `inner`
right inside it, and the names that `inner` binds, the hidden ones, are none that matter. Scopes
that come into being later correspond one to one. Where the walk outward takes the second run
straight to `outer`, it takes the first run there by way of `inner`: such a scope is away. Closures
may have captured scopes away and `inner` itself, so that the difference outlasts the runs.

* `Meets`: two scopes from which the same is found, under any name or under any name that is not
  hidden;
* `Linked`: two stores whose scopes correspond;
* `Linked.resolve?`, `Linked.child`, `Linked.define`, `Linked.assign`: the operations of stores;
* `Alike.step`, `Alike.run`: the machine takes the same steps in both runs.
-/

namespace ExprLang

/-! ## Names in expressions -/

namespace Expr

/-- A name is looked up somewhere in an expression, for its value or to be assigned to. -/
def Uses (e : Expr) (x : String) : Prop := (∃ line, Occurs (.identifier x line) e) ∨ e.Assigns x

theorem Part.uses {e e' : Expr} (h : Part e e') {x : String} (hx : e.Uses x) : e'.Uses x := by
  rcases hx with ⟨line, hoccurs⟩ | hassigns
  · exact .inl ⟨line, hoccurs.tail h⟩
  · exact .inr (h.assigns hassigns)

/-- Where a name is used: at the top of an expression or in a part of it. -/
theorem Uses.cases {e : Expr} {x : String} (h : e.Uses x) :
    (∃ line, e = .identifier x line) ∨ (∃ value line, e = .assign x value line) ∨
      ∃ part, Part part e ∧ part.Uses x := by
  rcases h with ⟨line, hoccurs⟩ | ⟨value, line, hoccurs⟩
  · rcases Relation.ReflTransGen.cases_tail hoccurs with heq | ⟨part, hoccurs, hpart⟩
    · exact .inl ⟨line, heq⟩
    · exact .inr (.inr ⟨part, hpart, .inl ⟨line, hoccurs⟩⟩)
  · rcases Relation.ReflTransGen.cases_tail hoccurs with heq | ⟨part, hoccurs, hpart⟩
    · exact .inr (.inl ⟨value, line, heq⟩)
    · exact .inr (.inr ⟨part, hpart, .inr ⟨value, line, hoccurs⟩⟩)

/-- An expression that declares nothing in the scope where it is evaluated. -/
def Quiet (e : Expr) : Prop := ∀ x, ¬ e.Declares x

theorem Quiet.head {e : Expr} {es : List Expr} (h : (Expr.sequence (e :: es)).Quiet) : e.Quiet :=
  fun x hx => h x (Expr.declares_sequence.mpr (.inl hx))

theorem Quiet.tail {e : Expr} {es : List Expr} (h : (Expr.sequence (e :: es)).Quiet) :
    (Expr.sequence es).Quiet :=
  fun x hx => h x (Expr.declares_sequence.mpr (.inr hx))

theorem quiet_choice (arms : Arms) : (Expr.choice arms).Quiet := fun _ h => by cases h

theorem quiet_loop (condition body : Expr) (line : Nat) :
    (Expr.loop condition body line).Quiet := fun _ h => by cases h

end Expr

/-- Two results that correspond, none or some. -/
theorem rel_cases {α β : Type} {R : α → β → Prop} {a : Option α} {b : Option β}
    (h : Option.Rel R a b) :
    (a = none ∧ b = none) ∨ ∃ x y, a = some x ∧ b = some y ∧ R x y := by
  cases h with
  | none => exact .inl ⟨rfl, rfl⟩
  | some h => exact .inr ⟨_, _, rfl, rfl, h⟩

/-! ## The walk outward -/

namespace Store

variable {st : Store} {s u p : ScopeId} {x : String}

/-- The scope that the walk outward goes on with. -/
def outward? (st : Store) (s : ScopeId) : Option ScopeId := (st.parent? s).filter (· < s)

theorem outward?_eq_some : st.outward? s = some p ↔ st.parent? s = some p ∧ p < s := by
  simp [outward?, Option.filter_eq_some_iff]

theorem resolve?_of_unbound (h : st.local? s x = none) :
    st.resolve? x s = (st.outward? s).bind (st.resolve? x) := by
  rw [resolve?_outward h, outward?]
  cases st.parent? s with
  | none => rfl
  | some p =>
    by_cases hp : p < s
    · simp [Option.filter_some, hp]
    · simp [Option.filter_some, hp]

theorem outward?_child (h : s < st.size) (u : ScopeId) :
    (st.child s).outward? u = if u = st.size then some s else st.outward? u := by
  unfold outward? child
  rw [parent?_add]
  split
  · next hu => simp [Scope.empty, hu, h]
  · rfl

theorem outward?_bind (s u : ScopeId) (name : String) (b : Binding) :
    (st.bind s name b).outward? u = st.outward? u := by
  rw [outward?, parent?_bind, outward?]

theorem lt_size_of_outward? (h : st.outward? s = some p) : s < st.size :=
  lt_size_of_parent? (outward?_eq_some.mp h).1

end Store

/-! ## Scopes -/

/-- Where two runs part. Scopes below `base` are common to both. The first run has `extra` more
scopes there, which the second one lacks. -/
structure Detour where
  inner : Nat
  outer : Nat
  base : Nat
  extra : Nat
  hidden : String → Prop
  outer_lt_inner : outer < inner
  outer_lt_base : outer < base
  inner_lt : inner < base + extra

/-- How far two runs have come: which scopes of the first run are away, and how many scopes it
has. -/
structure Stage where
  away : ScopeId → Prop
  size : Nat

/-- A later stage. The older scopes are away or not as before. -/
structure Stage.Le (W W' : Stage) : Prop where
  size_le : W.size ≤ W'.size
  away_iff : ∀ u < W.size, W'.away u ↔ W.away u

/-- One more scope, which is away or not. -/
def Stage.grow (W : Stage) (far : Prop) : Stage :=
  ⟨fun u => W.away u ∨ u = W.size ∧ far, W.size + 1⟩

theorem Stage.le_grow (W : Stage) (far : Prop) : W.Le (W.grow far) where
  size_le := Nat.le_succ _
  away_iff u hu := by simp [grow, Nat.ne_of_lt hu]

namespace Detour

variable {J : Detour} {W W' : Stage} {st st₂ : Store} {s s₂ t u v : Nat} {free free' : Prop}
  {x name : String} {line : Nat} {constant : Bool}

/-- A scope of the first run that the second run has too. -/
def Shared (J : Detour) (u : Nat) : Prop := u < J.base ∨ J.base + J.extra ≤ u

/-- The number that a shared scope has in the second run. -/
def number (J : Detour) (u : Nat) : Nat := if u < J.base then u else u - J.extra

theorem number_lt_number (hu : J.Shared u) (hv : J.Shared v) :
    J.number u < J.number v ↔ u < v := by
  unfold Shared at hu hv
  unfold number
  split <;> split <;> omega

theorem number_inj (hu : J.Shared u) (hv : J.Shared v) : J.number u = J.number v ↔ u = v := by
  have huv := number_lt_number hu hv
  have hvu := number_lt_number hv hu
  omega

theorem number_outer (J : Detour) : J.number J.outer = J.outer := if_pos J.outer_lt_base

theorem shared_outer (J : Detour) : J.Shared J.outer := .inl J.outer_lt_base

/-- An expression that uses no hidden name. -/
def Free (J : Detour) (e : Expr) : Prop := ∀ x, e.Uses x → ¬ J.hidden x

theorem Free.part {e e' : Expr} (h : J.Free e') (hpart : Expr.Part e e') : J.Free e :=
  fun x hx => h x (hpart.uses hx)

/-- Two scopes from which the same is found. `free` says that hidden names do not matter. -/
inductive Meets (J : Detour) (W : Stage) (free : Prop) : ScopeId → ScopeId → Prop where
  | plain {s : ScopeId} (hshared : J.Shared s) (hlt : s < W.size) (hs : ¬ W.away s) :
      Meets J W free s (J.number s)
  | away {s : ScopeId} (hs : W.away s) (hfree : free) : Meets J W free s (J.number s)
  | inner (hfree : free) : Meets J W free J.inner J.outer

theorem Meets.imp (h : J.Meets W free s s₂) (himp : free → free') : J.Meets W free' s s₂ := by
  cases h with
  | plain hshared hlt hs => exact .plain hshared hlt hs
  | away hs hfree => exact .away hs (himp hfree)
  | inner hfree => exact .inner (himp hfree)

/-- Values that differ in captured scopes at most, from which their code finds the same. -/
inductive Same (J : Detour) (W : Stage) : Value → Value → Prop where
  | number {n : Int64} : Same J W (.number n) (.number n)
  | bool {b : Bool} : Same J W (.bool b) (.bool b)
  | null : Same J W .null .null
  | builtin {b : Builtin} : Same J W (.builtin b) (.builtin b)
  | closure {params : List Param} {body : Expr} {line : Nat} {s s₂ : ScopeId}
      (h : J.Meets W (J.Free body) s s₂) :
      Same J W (.closure ⟨params, body, line, s⟩) (.closure ⟨params, body, line, s₂⟩)

structure SameBinding (J : Detour) (W : Stage) (b b₂ : Binding) : Prop where
  constant : b.constant = b₂.constant
  value : J.Same W b.value b₂.value

inductive SameResult (J : Detour) (W : Stage) : Except Fault Value → Except Fault Value → Prop where
  | ok {v v₂ : Value} (h : J.Same W v v₂) : SameResult J W (.ok v) (.ok v₂)
  | error {f : Fault} : SameResult J W (.error f) (.error f)

theorem Meets.mono (h : J.Meets W free s s₂) (hs : s < W.size) (hle : W.Le W') :
    J.Meets W' free s s₂ := by
  cases h with
  | plain hshared hlt haway =>
    exact .plain hshared (Nat.lt_of_lt_of_le hlt hle.size_le) (mt (hle.away_iff s hs).mp haway)
  | away haway hfree => exact .away ((hle.away_iff s hs).mpr haway) hfree
  | inner hfree => exact .inner hfree

theorem Meets.lt (h : J.Meets W free s s₂) (hinner : J.inner < W.size)
    (haway : ∀ u, W.away u → u < W.size) : s < W.size := by
  cases h with
  | plain _ hlt _ => exact hlt
  | away hs _ => exact haway s hs
  | inner _ => exact hinner

theorem Meets.free_of_away (h : J.Meets W free s s₂) (hs : W.away s) : free := by
  cases h with
  | plain _ _ haway => exact absurd hs haway
  | away _ hfree => exact hfree
  | inner hfree => exact hfree

theorem Meets.of_le (h : J.Meets W' free s s₂) (hs : s < W.size) (hle : W.Le W') :
    J.Meets W free s s₂ := by
  cases h with
  | plain hshared _ haway => exact .plain hshared hs (mt (hle.away_iff s hs).mpr haway)
  | away haway hfree => exact .away ((hle.away_iff s hs).mp haway) hfree
  | inner hfree => exact .inner hfree

/-! ## Stores -/

/-- Two stores whose shared scopes correspond: they hold the same, and outward of two scopes from
which the same is found there are two more, or none. -/
structure Linked (J : Detour) (W : Stage) (st st₂ : Store) : Prop where
  stage : W.size = st.size
  size : st.size = st₂.size + J.extra
  base_le : J.base + J.extra ≤ st.size
  away_new : ∀ u, W.away u → J.base + J.extra ≤ u ∧ u < st.size
  inner : st.outward? J.inner = some J.outer
  hidden : ∀ x, ¬ J.hidden x → st.local? J.inner x = none
  outward : ∀ free u, J.Shared u → J.Meets W free u (J.number u) →
    Option.Rel (J.Meets W free) (st.outward? u) (st₂.outward? (J.number u))
  bindings : ∀ u x, J.Shared u → u < st.size →
    Option.Rel (J.SameBinding W) (st.local? u x) (st₂.local? (J.number u) x)

/-- Changes with the same fault, if any, to stores that correspond. -/
inductive SameChange (J : Detour) (W : Stage) :
    Store × Option Fault → Store × Option Fault → Prop where
  | mk {st st₂ : Store} {fault? : Option Fault} (h : J.Linked W st st₂) :
      SameChange J W (st, fault?) (st₂, fault?)

namespace Linked

variable (h : J.Linked W st st₂)
include h

theorem inner_lt_size : J.inner < st.size := Nat.lt_of_lt_of_le J.inner_lt h.base_le

theorem outer_lt_size : J.outer < st.size := Nat.lt_trans J.outer_lt_inner h.inner_lt_size

theorem outer_lt_size₂ : J.outer < st₂.size := by
  have hbase := h.base_le
  have hsize := h.size
  have houter := J.outer_lt_base
  omega

theorem number_lt_size (hs : J.Shared s) (hlt : s < st.size) : J.number s < st₂.size := by
  have hbase := h.base_le
  have hsize := h.size
  unfold Shared at hs
  unfold number
  split <;> omega

theorem not_away_of_lt (hu : u < J.base) : ¬ W.away u := fun haway => by
  have hnew := (h.away_new u haway).1
  omega

theorem shared_away (hu : W.away u) : J.Shared u := .inr (h.away_new u hu).1

theorem meets_outer (free : Prop) : J.Meets W free J.outer J.outer := by
  have houter : J.Meets W free J.outer (J.number J.outer) :=
    .plain J.shared_outer (h.stage ▸ h.outer_lt_size) (h.not_away_of_lt J.outer_lt_base)
  rwa [J.number_outer] at houter

theorem lt_size (hs : J.Meets W free s s₂) : s < st.size ∧ s₂ < st₂.size := by
  cases hs with
  | plain hshared hlt _ =>
    rw [h.stage] at hlt
    exact ⟨hlt, h.number_lt_size hshared hlt⟩
  | away haway _ =>
    have hlt := (h.away_new s haway).2
    exact ⟨hlt, h.number_lt_size (h.shared_away haway) hlt⟩
  | inner _ => exact ⟨h.inner_lt_size, h.outer_lt_size₂⟩

/-- Only the ends of the detour are no counterparts of each other. -/
theorem shared_of_meets (hs : J.Meets W free s s₂) (hinner : s ≠ J.inner) :
    J.Shared s ∧ s₂ = J.number s := by
  cases hs with
  | plain hshared _ _ => exact ⟨hshared, rfl⟩
  | away haway _ => exact ⟨h.shared_away haway, rfl⟩
  | inner _ => exact absurd rfl hinner

/-! ### Looking up -/

/-- The same is found from two scopes, in a scope and its counterpart. -/
theorem resolve? (hs : J.Meets W (¬ J.hidden x) s s₂) :
    Option.Rel (fun found found₂ => (J.Shared found.1 ∧ found.1 < st.size) ∧
        found₂.1 = J.number found.1 ∧ J.SameBinding W found.2 found₂.2)
      (st.resolve? x s) (st₂.resolve? x s₂) := by
  induction s using Nat.strongRecOn generalizing s₂ with
  | _ s ih =>
    -- The walk from a scope and its counterpart, away or not.
    have hboth : J.Shared s → J.Meets W (¬ J.hidden x) s (J.number s) → s < st.size →
        Option.Rel (fun found found₂ => (J.Shared found.1 ∧ found.1 < st.size) ∧
          found₂.1 = J.number found.1 ∧ J.SameBinding W found.2 found₂.2)
          (st.resolve? x s) (st₂.resolve? x (J.number s)) := by
      intro hshared hmeets hlt
      rcases rel_cases (h.bindings s x hshared hlt) with ⟨hb, hb₂⟩ | ⟨b, b₂, hb, hb₂, hsame⟩
      · rw [Store.resolve?_of_unbound hb, Store.resolve?_of_unbound hb₂]
        rcases rel_cases (h.outward _ s hshared hmeets) with ⟨hp, hp₂⟩ | ⟨p, p₂, hp, hp₂, hnext⟩
        · rw [hp, hp₂]
          exact .none
        · rw [hp, hp₂]
          exact ih p (Store.outward?_eq_some.mp hp).2 hnext
      · rw [Store.resolve?_of_local? hb, Store.resolve?_of_local? hb₂]
        exact .some ⟨⟨hshared, hlt⟩, rfl, hsame⟩
    cases hs with
    | plain hshared hlt haway => exact hboth hshared (.plain hshared hlt haway) (h.stage ▸ hlt)
    | away haway hfree =>
      exact hboth (h.shared_away haway) (.away haway hfree) (h.away_new s haway).2
    | inner hfree =>
      -- The first run passes through `inner`, which does not bind the name.
      rw [Store.resolve?_of_unbound (h.hidden x hfree), h.inner]
      exact ih J.outer J.outer_lt_inner (h.meets_outer _)

theorem get (hs : J.Meets W (¬ J.hidden name) s s₂) :
    J.SameResult W (st.get s name line) (st₂.get s₂ name line) := by
  unfold Store.get
  rcases rel_cases (h.resolve? hs) with ⟨hr, hr₂⟩ | ⟨⟨t, b⟩, ⟨t₂, b₂⟩, hr, hr₂, -, -, hsame⟩
  · rw [hr, hr₂]
    exact .error
  · rw [hr, hr₂]
    exact .ok hsame.value

/-! ### Changes -/

theorem meets_mono (hs : J.Meets W free s s₂) (hle : W.Le W') : J.Meets W' free s s₂ :=
  hs.mono (h.stage ▸ (h.lt_size hs).1) hle

theorem same_mono {v v₂ : Value} (hv : J.Same W v v₂) (hle : W.Le W') : J.Same W' v v₂ := by
  cases hv with
  | closure hs => exact .closure (h.meets_mono hs hle)
  | number => exact .number
  | bool => exact .bool
  | null => exact .null
  | builtin => exact .builtin

theorem number_size : J.number st.size = st₂.size := by
  have hbase := h.base_le
  have hsize := h.size
  unfold number
  split <;> omega

theorem shared_size : J.Shared st.size := .inr h.base_le

/-- New scopes inside two scopes from which the same is found. The new scope is away if the first
of these is away or is `inner`. -/
theorem grow {far : Prop} (hs : s < st.size) (hs₂ : s₂ < st₂.size)
    (hnear : ¬ far → J.Shared s ∧ ¬ W.away s ∧ s₂ = J.number s)
    (hfar : far → W.away s ∧ s₂ = J.number s ∨ s = J.inner ∧ s₂ = J.outer) :
    J.Linked (W.grow far) (st.child s) (st₂.child s₂) := by
  have hle := W.le_grow far
  have hstage := h.stage
  -- Outward of the new scopes.
  have hnew : ∀ free, J.Meets (W.grow far) free st.size (J.number st.size) →
      J.Meets (W.grow far) free s s₂ := by
    intro free hmeets
    by_cases hf : far
    · have hfree : free := hmeets.free_of_away (.inr ⟨hstage.symm, hf⟩)
      rcases hfar hf with ⟨haway, rfl⟩ | ⟨rfl, rfl⟩
      · exact .away (.inl haway) hfree
      · exact .inner hfree
    · obtain ⟨hshared, haway, rfl⟩ := hnear hf
      exact h.meets_mono (.plain hshared (hstage ▸ hs) haway) hle
  exact
    { stage := by rw [Store.size_child, ← hstage]; rfl
      size := by rw [Store.size_child, Store.size_child, h.size, Nat.add_right_comm]
      base_le := by
        rw [Store.size_child]
        exact Nat.le_succ_of_le h.base_le
      away_new := by
        rw [Store.size_child]
        rintro u (hu | ⟨rfl, -⟩)
        · exact ⟨(h.away_new u hu).1, Nat.lt_succ_of_lt (h.away_new u hu).2⟩
        · rw [hstage]
          exact ⟨h.base_le, Nat.lt_succ_self _⟩
      inner := by
        rw [Store.outward?_child hs, if_neg (Nat.ne_of_lt h.inner_lt_size), h.inner]
      hidden := by
        intro x hx
        rw [Store.child, Store.local?_add, if_neg (Nat.ne_of_lt h.inner_lt_size), h.hidden x hx]
      outward := by
        intro free u hu hmeets
        rw [Store.outward?_child hs, Store.outward?_child hs₂, ← h.number_size]
        by_cases hlast : u = st.size
        · subst hlast
          rw [if_pos rfl, if_pos rfl]
          exact .some (hnew free hmeets)
        · rw [if_neg hlast, if_neg (mt (number_inj hu h.shared_size).mp hlast)]
          have hlt : u < st.size := by
            have hinner : J.inner < (W.grow far).size :=
              Nat.lt_succ_of_lt (hstage ▸ h.inner_lt_size)
            have hold : u < W.size + 1 := hmeets.lt hinner fun v hv => by
              rcases hv with hv | ⟨rfl, -⟩
              · exact Nat.lt_succ_of_lt (hstage ▸ (h.away_new v hv).2)
              · exact Nat.lt_succ_self _
            omega
          rcases rel_cases (h.outward free u hu (hmeets.of_le (hstage ▸ hlt) hle)) with
            ⟨hp, hp₂⟩ | ⟨p, p₂, hp, hp₂, hnext⟩
          · rw [hp, hp₂]
            exact .none
          · rw [hp, hp₂]
            exact .some (h.meets_mono hnext hle)
      bindings := by
        intro u x hu hlt
        rw [Store.size_child] at hlt
        rw [Store.child, Store.child, Store.local?_add, Store.local?_add, ← h.number_size]
        by_cases hlast : u = st.size
        · subst hlast
          rw [if_pos rfl, if_pos rfl]
          exact .none
        · rw [if_neg hlast, if_neg (mt (number_inj hu h.shared_size).mp hlast)]
          rcases rel_cases (h.bindings u x hu (by omega)) with
            ⟨hb, hb₂⟩ | ⟨b, b₂, hb, hb₂, hsame⟩
          · rw [hb, hb₂]
            exact .none
          · rw [hb, hb₂]
            exact .some ⟨hsame.constant, h.same_mono hsame.value hle⟩ }

/-- A new scope on either side, and what can be done there. -/
theorem child (hs : J.Meets W free s s₂) :
    ∃ W', W.Le W' ∧ J.Linked W' (st.child s) (st₂.child s₂) ∧
      J.Meets W' free st.size st₂.size := by
  obtain ⟨hlt, hlt₂⟩ := h.lt_size hs
  have hfar : ∀ far : Prop, (far → free) →
      J.Meets (W.grow far) free st.size st₂.size := by
    intro far hfree
    have hsize : st.size < (W.grow far).size := by
      rw [← h.stage]
      exact Nat.lt_succ_self _
    rw [← h.number_size]
    by_cases hf : far
    · exact .away (.inr ⟨h.stage.symm, hf⟩) (hfree hf)
    · refine .plain h.shared_size hsize ?_
      rintro (haway | ⟨-, hf'⟩)
      · exact Nat.lt_irrefl _ (h.away_new _ haway).2
      · exact hf hf'
  cases hs with
  | plain hshared _ haway =>
    exact ⟨W.grow False, W.le_grow False,
      h.grow hlt hlt₂ (fun _ => ⟨hshared, haway, rfl⟩) False.elim, hfar False False.elim⟩
  | away haway hfree =>
    exact ⟨W.grow True, W.le_grow True,
      h.grow hlt hlt₂ (fun hn => absurd trivial hn) (fun _ => .inl ⟨haway, rfl⟩),
      hfar True fun _ => hfree⟩
  | inner hfree =>
    exact ⟨W.grow True, W.le_grow True,
      h.grow hlt hlt₂ (fun hn => absurd trivial hn) (fun _ => .inr ⟨rfl, rfl⟩),
      hfar True fun _ => hfree⟩

theorem size_ne_inner : st.size ≠ J.inner := Nat.ne_of_gt h.inner_lt_size

/-- A name bound anew in a scope and its counterpart. In `inner` only hidden names are bound. -/
theorem bind {b b₂ : Binding} (ht : J.Shared t) (hlt : t < st.size)
    (hinner : t = J.inner → J.hidden name) (hb : J.SameBinding W b b₂) :
    J.Linked W (st.bind t name b) (st₂.bind (J.number t) name b₂) where
  stage := by rw [Store.size_bind, h.stage]
  size := by rw [Store.size_bind, Store.size_bind, h.size]
  base_le := by
    rw [Store.size_bind]
    exact h.base_le
  away_new u hu := by
    rw [Store.size_bind]
    exact h.away_new u hu
  inner := by rw [Store.outward?_bind, h.inner]
  hidden x hx := by
    rw [Store.local?_bind, if_neg, h.hidden x hx]
    rintro ⟨heq, rfl, -⟩
    exact hx (hinner heq.symm)
  outward free u hu hmeets := by
    rw [Store.outward?_bind, Store.outward?_bind]
    exact h.outward free u hu hmeets
  bindings u x hu hlt' := by
    rw [Store.size_bind] at hlt'
    rw [Store.local?_bind, Store.local?_bind]
    by_cases hat : u = t ∧ x = name
    · obtain ⟨rfl, rfl⟩ := hat
      rw [if_pos ⟨rfl, rfl, hlt⟩, if_pos ⟨rfl, rfl, h.number_lt_size ht hlt⟩]
      exact .some hb
    · have hat₂ : ¬ (J.number u = J.number t ∧ x = name) := by
        rw [number_inj hu ht]
        exact hat
      rw [if_neg fun hc => hat ⟨hc.1, hc.2.1⟩, if_neg fun hc => hat₂ ⟨hc.1, hc.2.1⟩]
      exact h.bindings u x hu hlt'

theorem define (hs : J.Meets W free s s₂) (hinner : s ≠ J.inner) {v v₂ : Value}
    (hv : J.Same W v v₂) :
    J.SameChange W (st.define s name v constant line) (st₂.define s₂ name v₂ constant line) := by
  obtain ⟨hshared, rfl⟩ := h.shared_of_meets hs hinner
  have hlt := (h.lt_size hs).1
  have hconstant : (st.local? s name).any Binding.constant =
      (st₂.local? (J.number s) name).any Binding.constant := by
    rcases rel_cases (h.bindings s name hshared hlt) with ⟨hb, hb₂⟩ | ⟨b, b₂, hb, hb₂, hsame⟩
    · rw [hb, hb₂]
    · rw [hb, hb₂, Option.any_some, Option.any_some, hsame.constant]
  unfold Store.define
  rw [hconstant]
  split
  · exact ⟨h⟩
  · exact ⟨h.bind hshared hlt (fun heq => absurd heq hinner) ⟨rfl, hv⟩⟩

theorem assign (hs : J.Meets W (¬ J.hidden name) s s₂) {v v₂ : Value} (hv : J.Same W v v₂) :
    J.SameChange W (st.assign s name v line) (st₂.assign s₂ name v₂ line) := by
  unfold Store.assign
  rcases rel_cases (h.resolve? hs) with
    ⟨hr, hr₂⟩ | ⟨⟨t, b⟩, ⟨t₂, b₂⟩, hr, hr₂, ⟨hshared, hlt⟩, hnumber, hsame⟩
  · rw [hr, hr₂]
    exact ⟨h⟩
  · rw [hr, hr₂]
    dsimp only at hnumber hshared hlt hsame ⊢
    subst hnumber
    rw [hsame.constant]
    split
    · exact ⟨h⟩
    · refine ⟨h.bind hshared hlt (fun heq => ?_) ⟨rfl, hv⟩⟩
      subst heq
      by_contra hfree
      have hbound := Store.local?_of_resolve? hr
      rw [h.hidden name hfree] at hbound
      cases hbound

omit h in
theorem bindParams (h : J.Linked W st st₂) (hs : J.Meets W free s s₂) (hinner : s ≠ J.inner)
    {ps ps₂ : List (Param × Value)}
    (hps : List.Forall₂ (fun pv pv₂ => pv.1 = pv₂.1 ∧ J.Same W pv.2 pv₂.2) ps ps₂) :
    J.SameChange W (Machine.bindParams st s line ps) (Machine.bindParams st₂ s₂ line ps₂) := by
  induction hps generalizing st st₂ with
  | nil => exact ⟨h⟩
  | @cons pv pv₂ ps ps₂ hpv _ ih =>
    obtain ⟨p, v⟩ := pv
    obtain ⟨p₂, v₂⟩ := pv₂
    obtain ⟨rfl, hv⟩ := hpv
    have hchange : J.SameChange W (st.define s p.name v p.constant line)
        (st₂.define s₂ p.name v₂ p.constant line) := h.define hs hinner hv
    rw [Machine.bindParams, Machine.bindParams]
    generalize st.define s p.name v p.constant line = change at hchange ⊢
    generalize st₂.define s₂ p.name v₂ p.constant line = change₂ at hchange ⊢
    obtain @⟨st', st₂', fault?, hstores⟩ := hchange
    cases fault? with
    | none => exact ih hstores
    | some f => exact ⟨hstores⟩

end Linked

/-! ## Operators -/

theorem Same.text {v v₂ : Value} (h : J.Same W v v₂) : v₂.text = v.text := by
  cases h <;> rfl

/-- An operator looks at no closure. -/
theorem Same.binary {a a₂ b b₂ : Value} (ha : J.Same W a a₂) (hb : J.Same W b b₂) (op : BinaryOp)
    (line : Nat) : op.apply line a₂ b₂ = op.apply line a b := by
  cases ha with
  | closure => cases op <;> rfl
  | _ =>
    cases hb with
    | closure => cases op <;> rfl
    | _ => rfl

theorem Same.unary {v v₂ : Value} (h : J.Same W v v₂) (op : UnaryOp) (line : Nat) :
    op.apply line v₂ = op.apply line v := by
  cases h with
  | closure => cases op <;> rfl
  | _ => rfl

theorem sameResult_of_answers {operation : Operation} {r : Except Fault Value}
    (h : operation.Answers line r) : J.SameResult W r r := by
  cases h with
  | number n => exact .ok .number
  | bool b => exact .ok .bool
  | mismatch _ _ | divisionByZero | modulusByZero => exact .error

/-! ## The machine -/

open Machine

/-- Two scopes in which the same code can be evaluated. In `inner` it has to be quiet, or it
would bind names there that are not hidden. -/
structure Stands (J : Detour) (W : Stage) (e : Expr) (s s₂ : ScopeId) : Prop where
  meets : J.Meets W (J.Free e) s s₂
  quiet : s = J.inner → e.Quiet

inductive SameFrame (J : Detour) (W : Stage) : Frame → Frame → Prop where
  | declare {name : String} {constant : Bool} {line : Nat} {s s₂ : ScopeId}
      (h : J.Meets W True s s₂) (hinner : s ≠ J.inner) :
      SameFrame J W (.declare name constant line s) (.declare name constant line s₂)
  | assign {name : String} {line : Nat} {s s₂ : ScopeId}
      (h : J.Meets W (¬ J.hidden name) s s₂) :
      SameFrame J W (.assign name line s) (.assign name line s₂)
  | andThen {next : Expr} {s s₂ : ScopeId} (h : J.Stands W next s s₂) :
      SameFrame J W (.andThen next s) (.andThen next s₂)
  | guard {body : Expr} {rest : Arms} {s s₂ : ScopeId}
      (h : J.Meets W (J.Free body ∧ J.Free (.choice rest)) s s₂) :
      SameFrame J W (.guard body rest s) (.guard body rest s₂)
  | loopGuard {condition body : Expr} {line : Nat} {s s₂ : ScopeId}
      (h : J.Meets W (J.Free (.loop condition body line)) s s₂) :
      SameFrame J W (.loopGuard condition body line s) (.loopGuard condition body line s₂)
  | callee {arguments : List Expr} {line : Nat} {s s₂ : ScopeId}
      (h : J.Meets W (∀ e ∈ arguments, J.Free e) s s₂) :
      SameFrame J W (.callee arguments line s) (.callee arguments line s₂)
  | argument {callee callee₂ : Value} {before before₂ : List Value} {rest : List Expr}
      {line : Nat} {s s₂ : ScopeId} (hcallee : J.Same W callee callee₂)
      (hbefore : List.Forall₂ (J.Same W) before before₂)
      (h : J.Meets W (∀ e ∈ rest, J.Free e) s s₂) :
      SameFrame J W (.argument callee before rest line s) (.argument callee₂ before₂ rest line s₂)
  | left {op : BinaryOp} {right : Expr} {line : Nat} {s s₂ : ScopeId}
      (h : J.Meets W (J.Free right) s s₂) :
      SameFrame J W (.left op right line s) (.left op right line s₂)
  | right {op : BinaryOp} {v v₂ : Value} {line : Nat} (h : J.Same W v v₂) :
      SameFrame J W (.right op v line) (.right op v₂ line)
  | operand {op : UnaryOp} {line : Nat} : SameFrame J W (.operand op line) (.operand op line)
  | leave : SameFrame J W .leave .leave

inductive SameControl (J : Detour) (W : Stage) : Control → Control → Prop where
  | eval {e : Expr} {s s₂ : ScopeId} (h : J.Stands W e s s₂) :
      SameControl J W (.eval e s) (.eval e s₂)
  | give {v v₂ : Value} (h : J.Same W v v₂) : SameControl J W (.give v) (.give v₂)
  | fail {f : Fault} : SameControl J W (.fail f) (.fail f)

/-- Two configurations at some stage of the runs. -/
inductive Alike (J : Detour) : Config → Config → Prop where
  | mk {W : Stage} {control control₂ : Control} {frames frames₂ : List Frame} {st st₂ : Store}
      {output : String} {calls : Nat} (hstores : J.Linked W st st₂)
      (hcontrol : J.SameControl W control control₂)
      (hframes : List.Forall₂ (J.SameFrame W) frames frames₂) :
      Alike J ⟨control, frames, ⟨⟨st, output⟩, calls⟩⟩ ⟨control₂, frames₂, ⟨⟨st₂, output⟩, calls⟩⟩

/-- Two outcomes. -/
inductive EndAlike (J : Detour) : Outcome → Outcome → Prop where
  | mk {W : Stage} {r r₂ : Except Fault Value} {st st₂ : Store} {output : String} {calls : Nat}
      (hstores : J.Linked W st st₂) (hresult : J.SameResult W r r₂) :
      EndAlike J ⟨r, ⟨⟨st, output⟩, calls⟩⟩ ⟨r₂, ⟨⟨st₂, output⟩, calls⟩⟩

inductive StepAlike (J : Detour) : Step → Step → Prop where
  | next {c c₂ : Config} (h : J.Alike c c₂) : StepAlike J (.next c) (.next c₂)
  | done {o o₂ : Outcome} (h : J.EndAlike o o₂) : StepAlike J (.done o) (.done o₂)

section Steps

variable {limits : Limits} {frames frames₂ : List Frame} {output : String} {calls : Nat} {e : Expr}
  (h : J.Linked W st st₂)
include h

theorem Linked.sameFrame_mono {frame frame₂ : Frame} (hframe : J.SameFrame W frame frame₂)
    (hle : W.Le W') : J.SameFrame W' frame frame₂ := by
  cases hframe with
  | declare hs hinner => exact .declare (h.meets_mono hs hle) hinner
  | assign hs => exact .assign (h.meets_mono hs hle)
  | andThen hs => exact .andThen ⟨h.meets_mono hs.meets hle, hs.quiet⟩
  | guard hs => exact .guard (h.meets_mono hs hle)
  | loopGuard hs => exact .loopGuard (h.meets_mono hs hle)
  | callee hs => exact .callee (h.meets_mono hs hle)
  | argument hcallee hbefore hs =>
    exact .argument (h.same_mono hcallee hle) (hbefore.imp fun _ _ hv => h.same_mono hv hle)
      (h.meets_mono hs hle)
  | left hs => exact .left (h.meets_mono hs hle)
  | right hv => exact .right (h.same_mono hv hle)
  | operand => exact .operand
  | leave => exact .leave

theorem Linked.frames_mono (hframes : List.Forall₂ (J.SameFrame W) frames frames₂)
    (hle : W.Le W') : List.Forall₂ (J.SameFrame W') frames frames₂ :=
  hframes.imp fun _ _ hframe => h.sameFrame_mono hframe hle

variable (hframes : List.Forall₂ (J.SameFrame W) frames frames₂)
include hframes

theorem alike_eval (hs : J.Stands W e s s₂) :
    J.Alike (.eval e s frames st output calls) (.eval e s₂ frames₂ st₂ output calls) :=
  .mk h (.eval hs) hframes

theorem alike_give {v v₂ : Value} (hv : J.Same W v v₂) :
    J.Alike (.give v frames st output calls) (.give v₂ frames₂ st₂ output calls) :=
  .mk h (.give hv) hframes

theorem alike_fail (f : Fault) :
    J.Alike (.fail f frames st output calls) (.fail f frames₂ st₂ output calls) :=
  .mk h .fail hframes

theorem alike_answer {r r₂ : Except Fault Value} (hr : J.SameResult W r r₂) :
    J.Alike (.answer r frames st output calls) (.answer r₂ frames₂ st₂ output calls) := by
  cases hr with
  | ok hv => exact alike_give h hframes hv
  | error => exact alike_fail h hframes _

/-- In a new scope there is no restriction on what is declared. -/
theorem alike_evalInside (hs : J.Meets W (J.Free e) s s₂) :
    J.Alike (.evalInside e s frames st output calls)
      (.evalInside e s₂ frames₂ st₂ output calls) := by
  obtain ⟨W', hle, hchild, hnew⟩ := h.child hs
  exact alike_eval hchild (h.frames_mono hframes hle)
    ⟨hnew, fun heq => absurd heq h.size_ne_inner⟩

omit h in
theorem alike_giveStored {v v₂ : Value} (hv : J.Same W v v₂) {change change₂ : Store × Option Fault}
    (hchange : J.SameChange W change change₂) :
    J.Alike (.giveStored v change frames output calls)
      (.giveStored v₂ change₂ frames₂ output calls) := by
  obtain @⟨st, st₂, fault?, hstores⟩ := hchange
  cases fault? with
  | none => exact alike_give hstores hframes hv
  | some f => exact alike_fail hstores hframes f

omit h hframes in
theorem sameParams {args args₂ : List Value} (hargs : List.Forall₂ (J.Same W) args args₂)
    (params : List Param) :
    List.Forall₂ (fun pv pv₂ => pv.1 = pv₂.1 ∧ J.Same W pv.2 pv₂.2) (params.zip args)
      (params.zip args₂) := by
  induction hargs generalizing params with
  | nil =>
    rw [List.zip_nil_right]
    exact .nil
  | cons hv _ ih =>
    cases params with
    | nil => exact .nil
    | cons p params => exact .cons ⟨rfl, hv⟩ (ih params)

theorem alike_closure {params : List Param} {body : Expr} {l : Nat}
    (hs : J.Meets W (J.Free body) s s₂) {args args₂ : List Value}
    (hargs : List.Forall₂ (J.Same W) args args₂) :
    J.Alike (apply limits (.closure ⟨params, body, l, s⟩) args line frames st output calls)
      (apply limits (.closure ⟨params, body, l, s₂⟩) args₂ line frames₂ st₂ output calls) := by
  unfold apply
  dsimp only
  rw [← hargs.length_eq]
  split
  · exact alike_fail h hframes _
  · split
    · exact alike_fail h hframes _
    · obtain ⟨W', hle, hchild, hnew⟩ := h.child hs
      have hframes' := h.frames_mono hframes hle
      have hps := sameParams (hargs.imp fun _ _ hv => h.same_mono hv hle) params
      have hchange : J.SameChange W'
          (Machine.bindParams (st.child s) st.size line (params.zip args))
          (Machine.bindParams (st₂.child s₂) st₂.size line (params.zip args₂)) :=
        hchild.bindParams hnew h.size_ne_inner hps
      generalize Machine.bindParams (st.child s) st.size line (params.zip args) = change
        at hchange ⊢
      generalize Machine.bindParams (st₂.child s₂) st₂.size line (params.zip args₂) = change₂
        at hchange ⊢
      obtain @⟨st', st₂', fault?, hstores⟩ := hchange
      cases fault? with
      | none =>
        exact alike_eval hstores (.cons .leave hframes')
          ⟨hnew, fun heq => absurd heq h.size_ne_inner⟩
      | some f => exact alike_fail hstores hframes' f

theorem alike_apply {callee callee₂ : Value} (hcallee : J.Same W callee callee₂)
    {args args₂ : List Value} (hargs : List.Forall₂ (J.Same W) args args₂) :
    J.Alike (apply limits callee args line frames st output calls)
      (apply limits callee₂ args₂ line frames₂ st₂ output calls) := by
  cases hcallee with
  | closure hs => exact alike_closure h hframes hs hargs
  | @builtin b =>
    cases b with
    | outNumber =>
      have hlength := hargs.length_eq
      cases hargs with
      | nil => exact alike_fail h hframes _
      | cons hv hrest =>
        cases hrest with
        | nil =>
          simp only [apply, hv.text]
          split
          · exact alike_give h hframes .null
          · exact alike_fail h hframes _
        | cons _ _ =>
          simp only [apply, hlength]
          exact alike_fail h hframes _
  | number | bool | null => exact alike_fail h hframes _

theorem alike_applyAfter {callee callee₂ : Value} (hcallee : J.Same W callee callee₂)
    {before before₂ : List Value} (hbefore : List.Forall₂ (J.Same W) before before₂)
    {rest : List Expr} (hs : J.Meets W (∀ e ∈ rest, J.Free e) s s₂) :
    J.Alike (applyAfter limits callee before rest line s frames st output calls)
      (applyAfter limits callee₂ before₂ rest line s₂ frames₂ st₂ output calls) := by
  cases rest with
  | nil => exact alike_apply h hframes hcallee (List.forall₂_reverse_iff.mpr hbefore)
  | cons e rest =>
    have hframe : J.SameFrame W (.argument callee before rest line s)
        (.argument callee₂ before₂ rest line s₂) :=
      .argument hcallee hbefore (hs.imp fun hall e he => hall e (.tail _ he))
    exact alike_evalInside h (.cons hframe hframes) (hs.imp fun hall => hall e (.head _))

theorem alike_sequence {items : List Expr} (hs : J.Stands W (.sequence items) s s₂) :
    J.Alike (enter (.sequence items) s frames st output calls)
      (enter (.sequence items) s₂ frames₂ st₂ output calls) := by
  have hitem : ∀ {item items}, J.Stands W (.sequence (item :: items)) s s₂ →
      J.Stands W item s s₂ := fun hs =>
    ⟨hs.meets.imp fun hfree => hfree.part .item, fun heq => (hs.quiet heq).head⟩
  match items with
  | [] => exact alike_give h hframes .null
  | [_] => exact alike_eval h hframes (hitem hs)
  | _ :: next :: rest =>
    have hframe : J.SameFrame W (.andThen (.sequence (next :: rest)) s)
        (.andThen (.sequence (next :: rest)) s₂) :=
      .andThen ⟨hs.meets.imp fun hfree => hfree.part .items, fun heq => (hs.quiet heq).tail⟩
    exact alike_eval h (.cons hframe hframes) (hitem hs)

theorem alike_choice {arms : Arms} (hs : J.Meets W (J.Free (.choice arms)) s s₂) :
    J.Alike (enter (.choice arms) s frames st output calls)
      (enter (.choice arms) s₂ frames₂ st₂ output calls) := by
  cases arms with
  | done => exact alike_give h hframes .bool
  | otherwise body => exact alike_evalInside h hframes (hs.imp fun hfree => hfree.part .otherwise)
  | guarded condition body rest =>
    have hframe : J.SameFrame W (.guard body rest s) (.guard body rest s₂) :=
      .guard (hs.imp fun hfree => ⟨hfree.part .arm, hfree.part .arms⟩)
    exact alike_evalInside h (.cons hframe hframes) (hs.imp fun hfree => hfree.part .guard)

/-- The first step into an expression. -/
theorem alike_enter (hs : J.Stands W e s s₂) :
    J.Alike (enter e s frames st output calls) (enter e s₂ frames₂ st₂ output calls) := by
  have hmeets := hs.meets
  cases e with
  | number n => exact alike_give h hframes .number
  | bool b => exact alike_give h hframes .bool
  | null => exact alike_give h hframes .null
  | identifier name line =>
    have hname : J.Free (.identifier name line) → ¬ J.hidden name :=
      fun hfree => hfree name (.inl ⟨line, .refl⟩)
    exact alike_answer h hframes (h.get (hmeets.imp hname))
  | declare name constant value line =>
    have hinner : s ≠ J.inner := fun heq => hs.quiet heq name .declare
    have hframe : J.SameFrame W (.declare name constant line s) (.declare name constant line s₂) :=
      .declare (hmeets.imp fun _ => trivial) hinner
    exact alike_evalInside h (.cons hframe hframes) (hmeets.imp fun hfree => hfree.part .declared)
  | assign name value line =>
    have hframe : J.SameFrame W (.assign name line s) (.assign name line s₂) :=
      .assign (hmeets.imp fun hfree => hfree name (.inr (Expr.assigns_assign ..)))
    exact alike_evalInside h (.cons hframe hframes) (hmeets.imp fun hfree => hfree.part .assigned)
  | sequence items => exact alike_sequence h hframes hs
  | block body => exact alike_evalInside h hframes (hmeets.imp fun hfree => hfree.part .block)
  | choice arms => exact alike_choice h hframes hmeets
  | loop condition body line =>
    have hframe : J.SameFrame W (.loopGuard condition body line s)
        (.loopGuard condition body line s₂) := .loopGuard hmeets
    exact alike_evalInside h (.cons hframe hframes) (hmeets.imp fun hfree => hfree.part .loopGuard)
  | function params body line =>
    exact alike_give h hframes (.closure (hmeets.imp fun hfree => hfree.part .functionBody))
  | call callee arguments line =>
    have hframe : J.SameFrame W (.callee arguments line s) (.callee arguments line s₂) :=
      .callee (hmeets.imp fun hfree e he => hfree.part (.argument he))
    exact alike_evalInside h (.cons hframe hframes) (hmeets.imp fun hfree => hfree.part .callee)
  | binary op left right line =>
    have hframe : J.SameFrame W (.left op right line s) (.left op right line s₂) :=
      .left (hmeets.imp fun hfree => hfree.part .right)
    exact alike_evalInside h (.cons hframe hframes) (hmeets.imp fun hfree => hfree.part .left)
  | unary op operand line =>
    exact alike_evalInside h (.cons .operand hframes) (hmeets.imp fun hfree => hfree.part .operand)

theorem alike_guard {v v₂ : Value} (hv : J.Same W v v₂) {body : Expr} {rest : Arms}
    (hs : J.Meets W (J.Free body ∧ J.Free (.choice rest)) s s₂) :
    J.Alike (resume limits v (.guard body rest s) frames st output calls)
      (resume limits v₂ (.guard body rest s₂) frames₂ st₂ output calls) := by
  have hskip : J.Alike (.eval (.choice rest) s frames st output calls)
      (.eval (.choice rest) s₂ frames₂ st₂ output calls) :=
    alike_eval h hframes ⟨hs.imp fun hfree => hfree.2, fun _ => Expr.quiet_choice rest⟩
  cases hv with
  | @bool b =>
    cases b with
    | true => exact alike_evalInside h hframes (hs.imp fun hfree => hfree.1)
    | false => exact hskip
  | number | null | builtin | closure _ => exact hskip

theorem alike_loopGuard {v v₂ : Value} (hv : J.Same W v v₂) {condition body : Expr}
    (hs : J.Meets W (J.Free (.loop condition body line)) s s₂) :
    J.Alike (resume limits v (.loopGuard condition body line s) frames st output calls)
      (resume limits v₂ (.loopGuard condition body line s₂) frames₂ st₂ output calls) := by
  cases hv with
  | @bool b =>
    cases b with
    | true =>
      have hframe : J.SameFrame W (.andThen (.loop condition body line) s)
          (.andThen (.loop condition body line) s₂) :=
        .andThen ⟨hs, fun _ => Expr.quiet_loop condition body line⟩
      exact alike_evalInside h (.cons hframe hframes) (hs.imp fun hfree => hfree.part .loopBody)
    | false => exact alike_give h hframes .bool
  | number | null | builtin | closure _ => exact alike_fail h hframes _

theorem alike_resume {v v₂ : Value} (hv : J.Same W v v₂) {frame frame₂ : Frame}
    (hframe : J.SameFrame W frame frame₂) :
    J.Alike (resume limits v frame frames st output calls)
      (resume limits v₂ frame₂ frames₂ st₂ output calls) := by
  cases hframe with
  | declare hs hinner => exact alike_giveStored hframes hv (h.define hs hinner hv)
  | assign hs => exact alike_giveStored hframes hv (h.assign hs hv)
  | andThen hs => exact alike_eval h hframes hs
  | guard hs => exact alike_guard h hframes hv hs
  | loopGuard hs => exact alike_loopGuard h hframes hv hs
  | callee hs => exact alike_applyAfter h hframes hv .nil hs
  | argument hcallee hbefore hs => exact alike_applyAfter h hframes hcallee (.cons hv hbefore) hs
  | left hs => exact alike_evalInside h (.cons (.right hv) hframes) hs
  | right hleft =>
    dsimp only [resume]
    rw [hleft.binary hv]
    exact alike_answer h hframes (sameResult_of_answers (BinaryOp.apply_answers ..))
  | operand =>
    dsimp only [resume]
    rw [hv.unary]
    exact alike_answer h hframes (sameResult_of_answers (UnaryOp.apply_answers ..))
  | leave => exact alike_give h hframes hv

omit h hframes in
theorem SameFrame.callsAfter {frame frame₂ : Frame} (hframe : J.SameFrame W frame frame₂) :
    frame₂.callsAfter calls = frame.callsAfter calls := by
  cases hframe <;> rfl

end Steps

variable {limits : Limits} {c c₂ : Config}

/-- A step leads to configurations that are alike again, perhaps at a later stage. -/
theorem Alike.step (h : J.Alike c c₂) :
    J.StepAlike (Machine.step limits c) (Machine.step limits c₂) := by
  obtain ⟨hstores, hcontrol, hframes⟩ := h
  cases hcontrol with
  | eval hs => exact .next (alike_enter hstores hframes hs)
  | give hv =>
    cases hframes with
    | nil => exact .done (.mk hstores (.ok hv))
    | cons hframe hframes => exact .next (alike_resume hstores hframes hv hframe)
  | fail =>
    cases hframes with
    | nil => exact .done (.mk hstores .error)
    | cons hframe hframes =>
      dsimp only [Machine.step]
      rw [hframe.callsAfter]
      exact .next (alike_fail hstores hframes _)

/-- Both runs end, and alike, or neither ends in the given number of steps. -/
theorem Alike.run (h : J.Alike c c₂) (n : Nat) :
    Option.Rel J.EndAlike (Machine.run limits n c) (Machine.run limits n c₂) := by
  induction n generalizing c c₂ with
  | zero => exact .none
  | succ n ih =>
    have hstep : J.StepAlike (Machine.step limits c) (Machine.step limits c₂) := h.step
    rw [Machine.run, Machine.run]
    generalize Machine.step limits c = next at hstep ⊢
    generalize Machine.step limits c₂ = next₂ at hstep ⊢
    cases hstep with
    | next h' => exact ih h'
    | done h' => exact .some h'

end Detour

end ExprLang
