import ExprLang.Program
import ExprLang.Proofs.Evaluation.Territory

/-!
Stores without loose ends: a scope's parent is older than the scope, and a scope that a stored
closure captured exists. A fresh store is intact, and an evaluation in a scope that exists leaves
an intact store intact, also one that fails (`Intact.eval`).
-/

namespace ExprLang

namespace Store

variable {st : Store} {s : ScopeId} {name : String} {v : Value} {line : Nat}

/-- Walks outward go to older scopes. -/
def Ordered (st : Store) : Prop := ∀ u p, st.parent? u = some p → p < u

theorem Ordered.child (h : st.Ordered) (hs : s < st.size) : (st.child s).Ordered := by
  intro u p hp
  rw [Store.child, parent?_add] at hp
  split at hp
  · next hu =>
    cases hp
    exact hu ▸ hs
  · exact h u p hp

theorem Ordered.bind (h : st.Ordered) {b : Binding} : (st.bind s name b).Ordered := by
  intro u p hp
  rw [parent?_bind] at hp
  exact h u p hp

theorem Ordered.define (h : st.Ordered) {constant : Bool} :
    (st.define s name v constant line).1.Ordered :=
  define_preserves rfl h fun _ => h.bind

theorem Ordered.assign (h : st.Ordered) : (st.assign s name v line).1.Ordered :=
  assign_preserves rfl h fun _ _ _ _ => h.bind

theorem Ordered.bindParams (h : st.Ordered) {ps : List (Param × Value)} :
    (Machine.bindParams st s line ps).1.Ordered := by
  induction ps generalizing st with
  | nil => exact h
  | cons pv ps ih =>
    obtain ⟨p, v⟩ := pv
    have hdefine : (st.define s p.name v p.constant line).1.Ordered := h.define
    rw [Machine.bindParams]
    split
    · next heq =>
      rw [heq] at hdefine
      exact ih hdefine
    · next heq =>
      rw [heq] at hdefine
      exact hdefine

end Store

/-- The territory that has every scope there is. -/
def Territory.whole : Territory := ⟨fun _ => False, 0⟩

theorem Territory.scopes_whole {n : Nat} {u : ScopeId} : whole.Scopes n u ↔ u < n := by
  simp [Scopes, whole]

/-! ## The machine -/

namespace Machine

open Territory

variable {limits : Limits} {frames : List Frame} {st : Store} {s : ScopeId} {output : String}
  {calls line : Nat} {v : Value}

theorem ordered_giveStored {change : Store × Option Fault} (h : change.1.Ordered) :
    (Config.giveStored v change frames output calls).state.store.Ordered := by
  obtain ⟨st, fault?⟩ := change
  cases fault? <;> exact h

theorem ordered_answer (h : st.Ordered) (r : Except Fault Value) :
    (Config.answer r frames st output calls).state.store.Ordered := by
  cases r <;> exact h

theorem ordered_apply (h : st.Ordered) {callee : Value} (hcallee : whole.Holds st.size callee)
    (args : List Value) :
    (apply limits callee args line frames st output calls).state.store.Ordered := by
  unfold apply
  split
  · split
    · split <;> exact h
    · exact h
  · next c =>
    split
    · exact h
    · split
      · exact h
      · have hbind : (bindParams (st.child c.scope) st.size line (c.params.zip args)).1.Ordered :=
          (h.child (scopes_whole.mp hcallee)).bindParams
        dsimp only
        split
        · next heq =>
          rw [heq] at hbind
          exact hbind
        · next heq =>
          rw [heq] at hbind
          exact hbind
  · exact h

theorem ordered_applyAfter (h : st.Ordered) {callee : Value}
    (hcallee : whole.Holds st.size callee) (before : List Value) (rest : List Expr)
    (hs : s < st.size) :
    (applyAfter limits callee before rest line s frames st output
      calls).state.store.Ordered := by
  cases rest with
  | nil => exact ordered_apply h hcallee _
  | cons e rest => exact h.child hs

theorem ordered_enter (h : st.Ordered) (e : Expr) (hs : s < st.size) :
    (enter e s frames st output calls).state.store.Ordered := by
  cases e with
  | number _ | bool _ | null | function _ _ _ => exact h
  | identifier name line => exact ordered_answer h _
  | sequence items =>
    match items with
    | [] | [_] | _ :: _ :: _ => exact h
  | choice arms =>
    cases arms with
    | done => exact h
    | otherwise _ | guarded _ _ _ => exact h.child hs
  | declare _ _ _ _ | assign _ _ _ | block _ | loop _ _ _ | call _ _ _ | binary _ _ _ _
  | unary _ _ _ => exact h.child hs

theorem ordered_resume (h : st.Ordered) (hv : whole.Holds st.size v) {frame : Frame}
    (hframe : whole.HoldsFrame st.size frame) :
    (resume limits v frame frames st output calls).state.store.Ordered := by
  cases frame with
  | declare name constant line s => exact ordered_giveStored h.define
  | assign name line s => exact ordered_giveStored h.assign
  | andThen next s => exact h
  | guard body rest s =>
    dsimp only [resume]
    split
    · exact h.child (scopes_whole.mp hframe)
    · exact h
  | loopGuard condition body line s =>
    dsimp only [resume]
    split
    · exact h.child (scopes_whole.mp hframe)
    · exact h
    · exact h
  | callee arguments line s => exact ordered_applyAfter h hv [] arguments (scopes_whole.mp hframe)
  | argument callee before rest line s =>
    exact ordered_applyAfter h hframe.1 _ rest (scopes_whole.mp hframe.2.2)
  | left op right line s => exact h.child (scopes_whole.mp hframe)
  | right op left line => exact ordered_answer h _
  | operand op line => exact ordered_answer h _
  | leave => exact h

/-- A step makes a new scope in one that exists, if any. -/
theorem ordered_step {c c' : Config} (h : c.state.store.Ordered) (hc : whole.Covers c)
    (hstep : step limits c = .next c') : c'.state.store.Ordered := by
  obtain ⟨control, frames, ⟨⟨st, output⟩, calls⟩⟩ := c
  obtain ⟨-, hcontrol, hframes⟩ := hc
  cases control with
  | eval e s =>
    cases hstep
    exact ordered_enter h e (scopes_whole.mp hcontrol)
  | give v =>
    cases frames with
    | nil => cases hstep
    | cons frame frames =>
      cases hstep
      exact ordered_resume h hcontrol (List.forall_mem_cons.mp hframes).1
  | fail f =>
    cases frames with
    | nil => cases hstep
    | cons frame frames =>
      cases hstep
      exact h

theorem ordered_run {n : Nat} {c : Config} {o : Outcome} (h : c.state.store.Ordered)
    (hc : whole.Covers c) (hrun : run limits n c = some o) : o.state.store.Ordered := by
  induction n generalizing c with
  | zero => cases hrun
  | succ n ih =>
    rw [run] at hrun
    split at hrun
    · next hstep => exact ih (ordered_step h hc hstep) (hc.step hstep).covers hrun
    · next hstep =>
      cases hrun
      unfold step at hstep
      split at hstep <;> cases hstep <;> exact h

end Machine

/-! ## Intact stores -/

namespace Store

open Territory

variable {st : Store}

/-- Parents are older than their children, and what closures captured exists. -/
structure Intact (st : Store) : Prop where
  ordered : st.Ordered
  captured_lt : ∀ u x b c, st.local? u x = some b → b.value = .closure c → c.scope < st.size

theorem intact_iff : st.Intact ↔ st.Ordered ∧ whole.Closed st := by
  constructor
  · intro h
    refine ⟨h.ordered, Nat.zero_le _, fun u p _ hp => ?_, fun u x b _ hb => ?_⟩
    · exact scopes_whole.mpr (Nat.lt_trans (h.ordered u p hp) (lt_size_of_parent? hp))
    · cases hv : b.value with
      | closure c => exact scopes_whole.mpr (h.captured_lt u x b c hb hv)
      | _ => trivial
  · rintro ⟨hordered, hclosed⟩
    refine ⟨hordered, fun u x b c hb hc => ?_⟩
    have hholds := hclosed.value u x b (scopes_whole.mpr (lt_size_of_local? hb)) hb
    rw [hc] at hholds
    exact scopes_whole.mp hholds

theorem intact_fresh : State.fresh.store.Intact where
  ordered u p hp := by
    rw [State.fresh, parent?_add] at hp
    split at hp <;> cases hp
  captured_lt u x b c hb hc := by
    rw [State.fresh, local?_add] at hb
    split at hb
    · simp only [Scope.root, Scope.find?, Scope.lookup_entry, List.lookup_nil] at hb
      split at hb <;> cases hb
      cases hc
    · cases hb

theorem Intact.child (h : st.Intact) {s : ScopeId} (hs : s < st.size) : (st.child s).Intact := by
  obtain ⟨hordered, hclosed⟩ := intact_iff.mp h
  exact intact_iff.mpr ⟨hordered.child hs, (hclosed.child (scopes_whole.mpr hs)).closed⟩

theorem Intact.bind (h : st.Intact) {s : ScopeId} (hs : s < st.size) {name : String}
    {b : Binding} (hb : ∀ c, b.value = .closure c → c.scope < st.size) :
    (st.bind s name b).Intact := by
  obtain ⟨hordered, hclosed⟩ := intact_iff.mp h
  have hholds : whole.Holds st.size b.value := by
    cases hv : b.value with
    | closure c => exact scopes_whole.mpr (hb c hv)
    | _ => trivial
  exact intact_iff.mpr
    ⟨hordered.bind, (hclosed.bind (scopes_whole.mpr hs) hholds).closed⟩

/-- A scope that exists is all that an evaluation needs. -/
theorem Intact.eval {state : State} (h : state.store.Intact) {limits : Limits} {n : Nat} {e : Expr}
    {s : ScopeId} (hs : s < state.store.size) {o : Machine.Outcome}
    (heval : e.eval limits n s state = some o) :
    o.state.store.Intact ∧
      ∀ c, o.result = .ok (.closure c) → c.scope < o.state.store.size := by
  obtain ⟨hordered, hclosed⟩ := intact_iff.mp h
  have hstart : whole.Covers (Machine.start e s state) :=
    ⟨hclosed, scopes_whole.mpr hs, List.forall_mem_nil _⟩
  obtain ⟨hclosed', hresult, -⟩ := hstart.run heval
  exact ⟨intact_iff.mpr ⟨Machine.ordered_run hordered hstart heval, hclosed'⟩,
    fun c hc => scopes_whole.mp (hresult _ hc)⟩

end Store

end ExprLang
