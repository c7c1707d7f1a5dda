import ExprLang.Program
import ExprLang.Proofs.Evaluation.Simulation
import ExprLang.Proofs.Store.Lookup
import Mathlib.Data.List.Induction
import Mathlib.Order.Bounds.Basic

/-!
Parameters of one name. A call binds its parameters from left to right in a new scope, so that a
later one takes the place of an earlier one of its name, unless that is a constant. Which of the two
happens can be said of the list of parameters alone (`Repeats`), and so can what the scope holds in
the end (`lastBinding?`).

* `bindParams_from`: binding more parameters behind those that are bound already;
* `isFree_iff`, `isLeast_of_taken`: the same by positions;
* `parameters_bound`: the property of calls.
-/

namespace ExprLang

/-! ## Lists of parameters -/

/-- The parameter at `j` repeats the name of a constant one before it, at `i`. -/
def Repeats (params : List Param) (i j : Nat) : Prop :=
  i < j ∧ ∃ p q, params[i]? = some p ∧ params[j]? = some q ∧ p.name = q.name ∧ p.constant = true

/-- The name is that of a constant parameter. -/
def Taken (params : List Param) (x : String) : Prop :=
  ∃ p ∈ params, p.name = x ∧ p.constant = true

/-- No parameter has the name of a constant one before it. -/
def IsFree (params : List Param) : Prop :=
  params.Pairwise fun p q => p.constant = true → p.name ≠ q.name

instance (params : List Param) : Decidable (IsFree params) :=
  inferInstanceAs (Decidable (List.Pairwise _ _))

/-- The last binding that parameters with their arguments have for a name. -/
def lastBinding? (ps : List (Param × Value)) (x : String) : Option Binding :=
  (ps.reverse.find? fun pv => pv.1.name = x).map fun pv => ⟨pv.2, pv.1.constant⟩

theorem taken_concat {params : List Param} {p : Param} {x : String} :
    Taken (params ++ [p]) x ↔ Taken params x ∨ p.name = x ∧ p.constant = true := by
  simp only [Taken, List.mem_append, List.mem_singleton, or_and_right, exists_or, exists_eq_left]

theorem isFree_concat {params : List Param} {p : Param} :
    IsFree (params ++ [p]) ↔ IsFree params ∧ ¬ Taken params p.name := by
  simp only [IsFree, Taken, List.pairwise_append, List.pairwise_singleton, List.mem_singleton,
    true_and, forall_eq, not_exists, not_and]
  refine and_congr_right fun _ => forall₂_congr fun q _ => ?_
  exact ⟨fun h hname hconstant => h hconstant hname, fun h hconstant hname => h hname hconstant⟩

theorem lastBinding?_concat (ps : List (Param × Value)) (p : Param) (v : Value) (x : String) :
    lastBinding? (ps ++ [(p, v)]) x =
      if p.name = x then some ⟨v, p.constant⟩ else lastBinding? ps x := by
  rw [lastBinding?, List.reverse_concat, List.find?_cons]
  by_cases hx : p.name = x <;> simp [hx, lastBinding?]

/-- Where no constant is repeated, the last parameter of a name is constant if any is. -/
theorem taken_iff_lastBinding? {ps : List (Param × Value)} (h : IsFree (ps.map Prod.fst))
    (x : String) :
    Taken (ps.map Prod.fst) x ↔ ∃ b, lastBinding? ps x = some b ∧ b.constant = true := by
  induction ps using List.reverseRecOn with
  | nil => simp [Taken, lastBinding?]
  | append_singleton ps pv ih =>
    obtain ⟨p, v⟩ := pv
    rw [List.map_append, List.map_singleton] at h ⊢
    obtain ⟨hfree, hnot⟩ := isFree_concat.mp h
    rw [taken_concat, lastBinding?_concat]
    by_cases hx : p.name = x
    · subst hx
      simp [hnot]
    · simp [hx, ih hfree]

/-! ## Binding -/

namespace Machine

variable {st₀ st : Store} {s : ScopeId}

/-- The store differs in one scope, where the parameters have been bound. -/
structure Binds (s : ScopeId) (ps : List (Param × Value)) (st₀ st : Store) : Prop where
  size : st.size = st₀.size
  parent : st.parent? s = st₀.parent? s
  others : ∀ u ≠ s, st.scopes[u]? = st₀.scopes[u]?
  bound : ∀ x, st.local? s x = lastBinding? ps x

theorem Binds.concat {ps : List (Param × Value)} (h : Binds s ps st₀ st) (hs : s < st₀.size)
    (p : Param) (v : Value) :
    Binds s (ps ++ [(p, v)]) st₀ (st.bind s p.name ⟨v, p.constant⟩) where
  size := (st.size_bind ..).trans h.size
  parent := (st.parent?_bind ..).trans h.parent
  others u hu := by
    rw [← h.others u hu]
    unfold Store.bind
    rw [Array.getElem?_modify, if_neg hu.symm]
  bound x := by
    rw [Store.local?_bind, lastBinding?_concat, h.size, h.bound]
    by_cases hx : p.name = x
    · simp [hx, hs]
    · simp [hx, Ne.symm hx]

/-- Binding goes on up to the first parameter whose name is that of a constant one before it, or
else to the end. -/
theorem bindParams_from {done : List (Param × Value)} (h : Binds s done st₀ st)
    (hs : s < st₀.size) (hfree : IsFree (done.map Prod.fst)) (line : Nat)
    (rest : List (Param × Value)) :
    (∃ st', IsFree ((done ++ rest).map Prod.fst) ∧ bindParams st s line rest = (st', none) ∧
      Binds s (done ++ rest) st₀ st') ∨
    ∃ front p v back st', rest = front ++ (p, v) :: back ∧
      IsFree ((done ++ front).map Prod.fst) ∧ Taken ((done ++ front).map Prod.fst) p.name ∧
      bindParams st s line rest = (st', some (.assignToConstant p.name line)) ∧
      Binds s (done ++ front) st₀ st' := by
  induction rest generalizing done st with
  | nil =>
    rw [List.append_nil]
    exact .inl ⟨st, hfree, rfl, h⟩
  | cons pv rest ih =>
    obtain ⟨p, v⟩ := pv
    have htaken := taken_iff_lastBinding? hfree p.name
    rw [← h.bound] at htaken
    rcases st.define_cases s p.name v p.constant line with
      ⟨b, hb, hconstant, hdefine⟩ | ⟨hvariable, hdefine⟩
    · refine .inr ⟨[], p, v, rest, st, rfl, ?_⟩
      rw [List.append_nil]
      exact ⟨hfree, htaken.mpr ⟨b, hb, hconstant⟩, by rw [bindParams, hdefine], h⟩
    · have hnot : ¬ Taken (done.map Prod.fst) p.name := by
        intro hp
        obtain ⟨b, hb, hconstant⟩ := htaken.mp hp
        rw [hvariable b hb] at hconstant
        cases hconstant
      have hfree' : IsFree ((done ++ [(p, v)]).map Prod.fst) := by
        rw [List.map_append]
        exact isFree_concat.mpr ⟨hfree, hnot⟩
      have hstep : bindParams st s line ((p, v) :: rest) =
          bindParams (st.bind s p.name ⟨v, p.constant⟩) s line rest := by
        rw [bindParams, hdefine]
      have hshift (more : List (Param × Value)) :
          done ++ (p, v) :: more = done ++ [(p, v)] ++ more := by simp
      rw [hstep]
      rcases ih (h.concat hs p v) hfree' with hdone | ⟨front, q, u, back, st', rfl, hmore⟩
      · rw [hshift]
        exact .inl hdone
      · rw [← hshift] at hmore
        exact .inr ⟨(p, v) :: front, q, u, back, st', rfl, hmore⟩

end Machine

/-! ## Positions -/

theorem isFree_iff {params : List Param} : IsFree params ↔ ∀ i j, ¬ Repeats params i j := by
  rw [IsFree, List.pairwise_iff_getElem]
  constructor
  · rintro h i j ⟨hij, p, q, hp, hq, hname, hconstant⟩
    obtain ⟨hi, rfl⟩ := List.getElem?_eq_some_iff.mp hp
    obtain ⟨hj, rfl⟩ := List.getElem?_eq_some_iff.mp hq
    exact h i j hi hj hij hconstant hname
  · intro h i j hi hj hij hconstant hname
    exact h i j ⟨hij, _, _, List.getElem?_eq_getElem hi, List.getElem?_eq_getElem hj, hname,
      hconstant⟩

/-- Where the first constant is repeated. -/
theorem isLeast_of_taken {front : List Param} {p : Param} (hfree : IsFree front)
    (htaken : Taken front p.name) (back : List Param) :
    IsLeast {j | ∃ i, Repeats (front ++ p :: back) i j} front.length := by
  constructor
  · obtain ⟨q, hq, hname, hconstant⟩ := htaken
    obtain ⟨i, hi, rfl⟩ := List.mem_iff_getElem.mp hq
    exact ⟨i, hi, _, p, List.getElem?_append_left hi ▸ List.getElem?_eq_getElem hi, by simp, hname,
      hconstant⟩
  · rintro j ⟨i, hij, q, r, hq, hr, hsame⟩
    refine Nat.le_of_not_lt fun hj => isFree_iff.mp hfree i j ⟨hij, q, r, ?_, ?_, hsame⟩
    · rwa [List.getElem?_append_left (Nat.lt_trans hij hj)] at hq
    · rwa [List.getElem?_append_left hj] at hr

section Last

variable {ps : List (Param × Value)} {p : Param} {v : Value}

theorem isSome_lastBinding? (ps : List (Param × Value)) (x : String) :
    (lastBinding? ps x).isSome ↔ x ∈ ps.map fun pv => pv.1.name := by
  simp [lastBinding?]

theorem lastBinding?_of_last {j : Nat} (h : ps[j]? = some (p, v))
    (hlast : ∀ k q u, j < k → ps[k]? = some (q, u) → q.name ≠ p.name) :
    lastBinding? ps p.name = some ⟨v, p.constant⟩ := by
  induction ps using List.reverseRecOn with
  | nil => cases h
  | append_singleton ps pv ih =>
    obtain ⟨r, w⟩ := pv
    rw [lastBinding?_concat]
    rcases Nat.lt_or_ge j ps.length with hj | hj
    · have hr : r.name ≠ p.name := hlast ps.length r w hj List.getElem?_concat_length
      rw [if_neg hr]
      rw [List.getElem?_append_left hj] at h
      exact ih h fun k q u hk hq => hlast k q u hk
        (List.getElem?_append_left (List.getElem?_eq_some_iff.mp hq).1 ▸ hq)
    · have hend : j = ps.length := by
        have hlt := (List.getElem?_eq_some_iff.mp h).1
        rw [List.length_append, List.length_singleton] at hlt
        exact Nat.le_antisymm (Nat.le_of_lt_succ hlt) hj
      rw [hend, List.getElem?_concat_length] at h
      cases h
      exact if_pos rfl

end Last

namespace Machine

/-- A new scope inside the captured one holds the parameters, each name with the argument and the
constancy of the last parameter that has it. Nothing else is different. -/
structure Entered (c : Closure) (args : List Value) (store st : Store) : Prop where
  size : st.size = store.size + 1
  parent : st.parent? store.size = some c.scope
  kept : ∀ u < store.size, st.scopes[u]? = store.scopes[u]?
  names : ∀ x, (st.local? store.size x).isSome ↔ x ∈ c.params.map Param.name
  last : ∀ (j : Nat) (p : Param) (v : Value), c.params[j]? = some p → args[j]? = some v →
    (∀ (k : Nat) (q : Param), j < k → c.params[k]? = some q → q.name ≠ p.name) →
    st.local? store.size p.name = some ⟨v, p.constant⟩

variable {store st : Store} {c : Closure} {args : List Value}

theorem Binds.kept {ps : List (Param × Value)} (h : Binds store.size ps (store.child c.scope) st) :
    ∀ u < store.size, st.scopes[u]? = store.scopes[u]? := by
  intro u hu
  rw [h.others u (Nat.ne_of_lt hu), Store.child, Store.add, Array.getElem?_push]
  exact if_neg (Nat.ne_of_lt hu)

theorem Binds.entered (harity : args.length = c.params.length)
    (h : Binds store.size (c.params.zip args) (store.child c.scope) st) :
    Entered c args store st where
  size := h.size.trans (store.size_child c.scope)
  parent := by
    rw [h.parent, Store.child, Store.parent?_add, if_pos rfl]
    rfl
  kept := h.kept
  names x := by
    have hnames : (c.params.zip args).map (fun pv => pv.1.name) = c.params.map Param.name := by
      rw [← Function.comp_def Param.name Prod.fst, ← List.map_map,
        List.map_fst_zip (Nat.le_of_eq harity.symm)]
    rw [h.bound, isSome_lastBinding?, hnames]
  last j p v hp hv hlast := by
    rw [h.bound]
    refine lastBinding?_of_last (List.getElem?_zip_eq_some.mpr ⟨hp, hv⟩) fun k q u hk hq => ?_
    exact hlast k q hk (List.getElem?_zip_eq_some.mp hq).1

/-! ## Calls -/

variable (limits : Limits) (line : Nat) (frames : List Frame) (output : String) {calls : Nat}

theorem binds_child (store : Store) (s : ScopeId) :
    Binds store.size [] (store.child s) (store.child s) where
  size := rfl
  parent := rfl
  others _ _ := rfl
  bound x := by
    rw [Store.child, Store.local?_add, if_pos rfl]
    rfl

/-- A call with the right number of arguments below the limit either comes to its body, with all
parameters bound, or is refused at the first parameter whose name is taken. -/
theorem apply_closure_cases (harity : args.length = c.params.length) (hdepth : calls < limits.depth)
    (store : Store) :
    (∃ st, (∀ i j, ¬ Repeats c.params i j) ∧ Entered c args store st ∧
      apply limits (.closure c) args line frames store output calls =
        .eval c.body store.size (.leave :: frames) st output (calls + 1)) ∨
    ∃ j p st, IsLeast {j | ∃ i, Repeats c.params i j} j ∧ c.params[j]? = some p ∧
      (∀ u < store.size, st.scopes[u]? = store.scopes[u]?) ∧
      apply limits (.closure c) args line frames store output calls =
        .fail (.assignToConstant p.name line) frames st output calls := by
  have hparams : (c.params.zip args).map Prod.fst = c.params :=
    List.map_fst_zip (Nat.le_of_eq harity.symm)
  have hsize : store.size < (store.child c.scope).size := by simp
  rcases bindParams_from (binds_child store c.scope) hsize .nil line (c.params.zip args) with
    ⟨st, hfree, hbind, hbinds⟩ | ⟨front, p, v, back, st, hzip, hfree, htaken, hbind, hbinds⟩
  · rw [List.nil_append] at hfree hbinds
    rw [hparams] at hfree
    exact .inl ⟨st, isFree_iff.mp hfree, hbinds.entered harity,
      apply_body harity hdepth hbind⟩
  · rw [List.nil_append] at hfree htaken hbinds
    have hsplit : c.params = front.map Prod.fst ++ p :: back.map Prod.fst := by
      rw [← hparams, hzip, List.map_append, List.map_cons]
    have hleast := isLeast_of_taken hfree htaken (back.map Prod.fst)
    rw [← hsplit] at hleast
    refine .inr ⟨_, p, st, hleast, ?_, hbinds.kept, apply_refused harity hdepth hbind⟩
    rw [hsplit, List.getElem?_append_right (Nat.le_refl _), Nat.sub_self, List.getElem?_cons_zero]

end Machine

open Machine

/-- What is called has to be a function, then the number of arguments has to be right, then the
number of calls in progress below the limit; until then no scope is made. Then the call is refused
exactly if a parameter repeats the name of a constant one before it. The fault names the first
parameter that does so and has the line of the call; the body is not entered, nothing is written,
and all scopes that there were are as before. Otherwise the body is entered, in a new scope inside
the captured one, which holds the names of the parameters and no others: each with the argument and
the constancy of the last parameter of that name. -/
theorem parameters_bound (limits : Limits) (line : Nat) (frames : List Frame) (store : Store)
    (output : String) (calls : Nat) :
    (∀ callee args, (∀ c, callee ≠ .closure c) → (∀ b, callee ≠ .builtin b) →
      apply limits callee args line frames store output calls =
        .fail (.typeMismatch .call (.shape .function) callee.shape line) frames store output
          calls) ∧
    (∀ b args, args.length ≠ Builtin.arity b →
      apply limits (.builtin b) args line frames store output calls =
        .fail (.arityMismatch (.builtin b) b.arity args.length line) frames store output calls) ∧
    ∀ c args,
      (args.length ≠ c.params.length →
        apply limits (.closure c) args line frames store output calls =
          .fail (.arityMismatch (.function c.line) c.params.length args.length line) frames store
            output calls) ∧
      (args.length = c.params.length → limits.depth ≤ calls →
        apply limits (.closure c) args line frames store output calls =
          .fail (.tooDeep limits.depth) frames store output calls) ∧
      (args.length = c.params.length → calls < limits.depth →
        ((∃ name line' st, apply limits (.closure c) args line frames store output calls =
            .fail (.assignToConstant name line') frames st output calls) ↔
          ∃ i j, Repeats c.params i j) ∧
        ((∃ i j, Repeats c.params i j) → ∃ j p st,
          IsLeast {j | ∃ i, Repeats c.params i j} j ∧ c.params[j]? = some p ∧
          (∀ u < store.size, st.scopes[u]? = store.scopes[u]?) ∧
          apply limits (.closure c) args line frames store output calls =
            .fail (.assignToConstant p.name line) frames st output calls) ∧
        ((∀ i j, ¬ Repeats c.params i j) → ∃ st, Entered c args store st ∧
          apply limits (.closure c) args line frames store output calls =
            .eval c.body store.size (.leave :: frames) st output (calls + 1))) := by
  refine ⟨fun callee args hfunction hbuiltin => apply_other hfunction hbuiltin,
    fun b args harity => apply_builtin_arity harity, fun c args =>
      ⟨apply_closure_arity, apply_too_deep, fun harity hdepth => ?_⟩⟩
  rcases apply_closure_cases limits line frames output harity hdepth store with
    ⟨st, hfree, hentered, happly⟩ | ⟨j, p, st, hleast, hp, hkept, happly⟩
  · rw [happly]
    refine ⟨⟨?_, ?_⟩, ?_, fun _ => ⟨st, hentered, rfl⟩⟩
    · rintro ⟨name, line', st', h⟩
      cases h
    · rintro ⟨i, j, hrepeats⟩
      exact absurd hrepeats (hfree i j)
    · rintro ⟨i, j, hrepeats⟩
      exact absurd hrepeats (hfree i j)
  · rw [happly]
    obtain ⟨i, hrepeats⟩ := hleast.1
    refine ⟨⟨fun _ => ⟨i, j, hrepeats⟩, fun _ => ⟨p.name, line, st, rfl⟩⟩,
      fun _ => ⟨j, p, st, hleast, hp, hkept, rfl⟩, fun hnot => absurd hrepeats (hnot i j)⟩

/-- `func(x, y, const x) => { x }` -/
def replacing : Closure :=
  ⟨[⟨"x", false⟩, ⟨"y", false⟩, ⟨"x", true⟩], .identifier "x" 1, 1, 0⟩

/-- `func(const x, y, y, x, const x) => { null }` -/
def repeating : Closure :=
  ⟨[⟨"x", true⟩, ⟨"y", false⟩, ⟨"y", false⟩, ⟨"x", false⟩, ⟨"x", true⟩], .null, 1, 0⟩

/-- The first function is called with 4, 5 and 6, and its body finds 6 as a constant; the second one
is refused at its fourth parameter. -/
theorem parameters_bound_repeating :
    (3 = replacing.params.length ∧ 5 = repeating.params.length ∧ 0 < Limits.usual.depth ∧
      (∀ i j, ¬ Repeats replacing.params i j) ∧ ∃ i j, Repeats repeating.params i j) ∧
    (∃ st, apply .usual (.closure replacing) [.number 4, .number 5, .number 6] 7 []
        State.fresh.store "" 0 = .eval replacing.body 1 [.leave] st "" 1 ∧
      st.local? 1 "x" = some ⟨.number 6, true⟩ ∧ st.parent? 1 = some 0) ∧
    ∃ st, apply .usual (.closure repeating) (.replicate 5 .null) 7 [] State.fresh.store "" 0 =
        .fail (.assignToConstant "x" 7) [] st "" 0 ∧
      IsLeast {j | ∃ i, Repeats repeating.params i j} 3 := by
  have hdepth : 0 < Limits.usual.depth := by decide
  have hfree : ∀ i j, ¬ Repeats replacing.params i j := isFree_iff.mp (by decide)
  have hrepeats : Repeats repeating.params 0 3 := ⟨by decide, _, _, rfl, rfl, rfl, rfl⟩
  have hleast : IsLeast {j | ∃ i, Repeats repeating.params i j} 3 := by
    have hfront : IsFree (repeating.params.take 3) := by decide
    exact isLeast_of_taken (p := ⟨"x", false⟩) hfront ⟨⟨"x", true⟩, List.mem_cons_self, rfl, rfl⟩
      (repeating.params.drop 4)
  have hcalls := (parameters_bound .usual 7 [] State.fresh.store "" 0).2.2
  refine ⟨⟨rfl, rfl, hdepth, hfree, 0, 3, hrepeats⟩, ?_, ?_⟩
  · obtain ⟨st, hentered, happly⟩ :=
      ((hcalls replacing [.number 4, .number 5, .number 6]).2.2 rfl hdepth).2.2 hfree
    have hx : ∀ (k : Nat) (q : Param), 2 < k → replacing.params[k]? = some q → q.name ≠ "x" := by
      intro k q hk hq
      rw [List.getElem?_eq_none hk] at hq
      cases hq
    exact ⟨st, happly, hentered.last 2 ⟨"x", true⟩ (.number 6) rfl rfl hx, hentered.parent⟩
  · obtain ⟨j, p, st, hj, hp, -, happly⟩ :=
      ((hcalls repeating (.replicate 5 .null)).2.2 rfl hdepth).2.1 ⟨0, 3, hrepeats⟩
    obtain rfl := hj.unique hleast
    cases hp
    exact ⟨st, happly, hleast⟩

end ExprLang
