import ExprLang.Machine
import ExprLang.Proofs.Store.Lookup
import ExprLang.Proofs.Value.Operators

/-!
Where the machine can go. A territory has some scopes of a store and all that come into
being later. It is closed if the parents of its scopes are in it, and the scopes that its
closures captured. A machine that starts in a closed territory never leaves it: every
scope that it works in, every value that it holds and every frame that waits belong to the
territory (`Covers.step`, `Covers.run`), and it changes no scope outside (`Spares`).

Unlike a region, a territory grows with the store, so that what belongs to it is an old
scope or one that exists by now.
-/

namespace ExprLang

/-- A scope has the same parent and the same bindings in two stores. -/
structure Store.SameAt (st st' : Store) (u : ScopeId) : Prop where
  parent : st'.parent? u = st.parent? u
  bindings : ∀ x, st'.local? u x = st.local? u x

namespace Store.SameAt

variable {st st' st'' : Store} {u : ScopeId}

theorem refl (st : Store) (u : ScopeId) : st.SameAt st u := ⟨rfl, fun _ => rfl⟩

theorem symm (h : st.SameAt st' u) : st'.SameAt st u :=
  ⟨h.parent.symm, fun x => (h.bindings x).symm⟩

theorem trans (h : st.SameAt st' u) (h' : st'.SameAt st'' u) : st.SameAt st'' u :=
  ⟨h'.parent.trans h.parent, fun x => (h'.bindings x).trans (h.bindings x)⟩

theorem add (scope : Scope) (hu : u ≠ st.size) : st.SameAt (st.add scope) u where
  parent := by rw [parent?_add, if_neg hu]
  bindings x := by rw [local?_add, if_neg hu]

theorem bind {s : ScopeId} (name : String) (b : Binding) (hu : u ≠ s) :
    st.SameAt (st.bind s name b) u where
  parent := by rw [parent?_bind]
  bindings x := by rw [local?_bind, if_neg fun h => hu h.1]

end Store.SameAt

/-- Some scopes that were there when a store had `base` scopes, and those made since. -/
structure Territory where
  old : ScopeId → Prop
  base : Nat

namespace Territory

variable {T : Territory} {st st' st'' : Store} {s u : ScopeId} {m n : Nat} {v : Value}

/-- The scopes of a territory when a store has `size` scopes. -/
def Scopes (T : Territory) (size : Nat) (u : ScopeId) : Prop := T.old u ∨ T.base ≤ u ∧ u < size

theorem Scopes.mono (h : T.Scopes m u) (hle : m ≤ n) : T.Scopes n u :=
  h.imp id fun h => ⟨h.1, Nat.lt_of_lt_of_le h.2 hle⟩

theorem scopes_last (hbase : T.base ≤ n) : T.Scopes (n + 1) n := .inr ⟨hbase, Nat.lt_succ_self n⟩

theorem Scopes.of_succ (h : T.Scopes (n + 1) u) (hu : u ≠ n) : T.Scopes n u :=
  h.imp id fun h => ⟨h.1, Nat.lt_of_le_of_ne (Nat.le_of_lt_succ h.2) hu⟩

/-- A value that leads nowhere outside the territory. -/
def Holds (T : Territory) (size : Nat) : Value → Prop
  | .closure c => T.Scopes size c.scope
  | _ => True

theorem Holds.mono (h : T.Holds m v) (hle : m ≤ n) : T.Holds n v := by
  cases v with
  | closure c => exact Scopes.mono h hle
  | _ => trivial

theorem holds_answer {operation : Operation} {line : Nat} {r : Except Fault Value}
    (h : operation.Answers line r) : ∀ v, r = .ok v → T.Holds n v := by
  intro v hv
  cases h <;> cases hv <;> trivial

/-! ## Stores -/

/-- A store in which nothing leads from the territory to the outside. -/
structure Closed (T : Territory) (st : Store) : Prop where
  base_le : T.base ≤ st.size
  parent : ∀ u p, T.Scopes st.size u → st.parent? u = some p → T.Scopes st.size p
  value : ∀ u x b, T.Scopes st.size u → st.local? u x = some b → T.Holds st.size b.value

/-- The old scopes outside the territory stay as they are. -/
def Spares (T : Territory) (st st' : Store) : Prop :=
  ∀ u < T.base, ¬ T.old u → st.SameAt st' u

theorem Spares.refl (st : Store) : T.Spares st st := fun u _ _ => .refl st u

theorem Spares.trans (h : T.Spares st st') (h' : T.Spares st' st'') : T.Spares st st'' :=
  fun u hu hold => (h u hu hold).trans (h' u hu hold)

/-- A change of a store within the territory. -/
structure Moves (T : Territory) (st st' : Store) : Prop where
  closed : T.Closed st'
  size_le : st.size ≤ st'.size
  spares : T.Spares st st'

theorem Moves.trans (h : T.Moves st st') (h' : T.Moves st' st'') : T.Moves st st'' where
  closed := h'.closed
  size_le := Nat.le_trans h.size_le h'.size_le
  spares := h.spares.trans h'.spares

namespace Closed

variable {fault? : Option Fault} {name : String} {constant : Bool} {line : Nat}

theorem refl (h : T.Closed st) : T.Moves st st := ⟨h, Nat.le_refl _, .refl st⟩

theorem child (h : T.Closed st) (hs : T.Scopes st.size s) : T.Moves st (st.child s) where
  closed :=
    { base_le := Nat.le_trans h.base_le (by simp)
      parent := by
        intro u p hu hp
        rw [Store.size_child] at hu ⊢
        rw [Store.child, Store.parent?_add] at hp
        split at hp
        · cases hp
          exact hs.mono (Nat.le_succ _)
        · next hne => exact (h.parent u p (hu.of_succ hne) hp).mono (Nat.le_succ _)
      value := by
        intro u x b hu hb
        rw [Store.size_child] at hu ⊢
        rw [Store.child, Store.local?_add] at hb
        split at hb
        · cases hb
        · next hne => exact (h.value u x b (hu.of_succ hne) hb).mono (Nat.le_succ _) }
  size_le := by simp
  spares u hu _ := .add _ (Nat.ne_of_lt (Nat.lt_of_lt_of_le hu h.base_le))

theorem bind (h : T.Closed st) (hs : T.Scopes st.size s) {b : Binding}
    (hb : T.Holds st.size b.value) : T.Moves st (st.bind s name b) where
  closed :=
    { base_le := by
        rw [Store.size_bind]
        exact h.base_le
      parent := by
        intro u p hu hp
        rw [Store.size_bind] at hu ⊢
        rw [Store.parent?_bind] at hp
        exact h.parent u p hu hp
      value := by
        intro u x b' hu hb'
        rw [Store.size_bind] at hu ⊢
        rw [Store.local?_bind] at hb'
        split at hb'
        · cases hb'
          exact hb
        · exact h.value u x b' hu hb' }
  size_le := by simp
  spares u hu hold := by
    refine .bind name b fun heq => ?_
    subst heq
    rcases hs with hs | hs
    · exact hold hs
    · omega

theorem define (h : T.Closed st) (hs : T.Scopes st.size s) (hv : T.Holds st.size v)
    (hdefine : st.define s name v constant line = (st', fault?)) : T.Moves st st' :=
  Store.define_preserves hdefine h.refl fun _ => h.bind hs hv

/-- The walk outward ends in the territory. -/
theorem resolve? (h : T.Closed st) (hs : T.Scopes st.size s) {x : String} {t : ScopeId}
    {b : Binding} (hresolve : st.resolve? x s = some (t, b)) :
    T.Scopes st.size t ∧ st.local? t x = some b :=
  Store.resolve?_eq_some hresolve hs h.parent

theorem assign (h : T.Closed st) (hs : T.Scopes st.size s) (hv : T.Holds st.size v)
    (hassign : st.assign s name v line = (st', fault?)) : T.Moves st st' :=
  Store.assign_preserves hassign h.refl fun _ _ hresolve _ => h.bind (h.resolve? hs hresolve).1 hv

theorem get (h : T.Closed st) (hs : T.Scopes st.size s) :
    ∀ v, st.get s name line = .ok v → T.Holds st.size v := by
  intro v hv
  unfold Store.get at hv
  split at hv
  · next hresolve =>
    cases hv
    obtain ⟨ht, hlocal⟩ := h.resolve? hs hresolve
    exact h.value _ _ _ ht hlocal
  · cases hv

theorem bindParams (h : T.Closed st) (hs : T.Scopes st.size s) {ps : List (Param × Value)}
    (hps : ∀ pv ∈ ps, T.Holds st.size pv.2)
    (hbind : Machine.bindParams st s line ps = (st', fault?)) : T.Moves st st' := by
  induction ps generalizing st with
  | nil =>
    cases hbind
    exact h.refl
  | cons pv ps ih =>
    obtain ⟨p, v⟩ := pv
    have hv : T.Holds st.size v := hps _ (.head _)
    rw [Machine.bindParams] at hbind
    split at hbind
    · next hdefine =>
      have hmoves := h.define hs hv hdefine
      exact hmoves.trans (ih hmoves.closed (hs.mono hmoves.size_le)
        (fun pv hpv => (hps pv (.tail _ hpv)).mono hmoves.size_le) hbind)
    · next hdefine =>
      cases hbind
      exact h.define hs hv hdefine

end Closed

/-! ## Configurations -/

open Machine

/-- A frame that leads nowhere outside the territory. -/
def HoldsFrame (T : Territory) (size : Nat) : Frame → Prop
  | .declare _ _ _ s | .assign _ _ s | .andThen _ s | .guard _ _ s | .loopGuard _ _ _ s
  | .callee _ _ s | .left _ _ _ s => T.Scopes size s
  | .argument callee before _ _ s =>
    T.Holds size callee ∧ (∀ v ∈ before, T.Holds size v) ∧ T.Scopes size s
  | .right _ v _ => T.Holds size v
  | .operand .. | .leave => True

def HoldsFrames (T : Territory) (size : Nat) (frames : List Frame) : Prop :=
  ∀ frame ∈ frames, T.HoldsFrame size frame

def HoldsControl (T : Territory) (size : Nat) : Control → Prop
  | .eval _ s => T.Scopes size s
  | .give v => T.Holds size v
  | .fail _ => True

/-- Everything in a configuration belongs to the territory. -/
structure Covers (T : Territory) (c : Config) : Prop where
  store : T.Closed c.state.store
  control : T.HoldsControl c.state.store.size c.control
  frames : T.HoldsFrames c.state.store.size c.frames

/-- What the machine may go on with from a store. -/
structure Allows (T : Territory) (st : Store) (c : Config) : Prop where
  covers : T.Covers c
  spares : T.Spares st c.state.store

theorem HoldsFrame.mono {frame : Frame} (h : T.HoldsFrame m frame) (hle : m ≤ n) :
    T.HoldsFrame n frame := by
  cases frame with
  | argument callee before rest line s =>
    exact ⟨h.1.mono hle, fun v hv => (h.2.1 v hv).mono hle, h.2.2.mono hle⟩
  | right op v line => exact Holds.mono h hle
  | operand op line => trivial
  | leave => trivial
  | _ => exact Scopes.mono h hle

theorem HoldsFrames.mono {frames : List Frame} (h : T.HoldsFrames m frames) (hle : m ≤ n) :
    T.HoldsFrames n frames :=
  fun frame hframe => (h frame hframe).mono hle

theorem HoldsFrames.cons {frame : Frame} {frames : List Frame} (hframe : T.HoldsFrame n frame)
    (h : T.HoldsFrames n frames) : T.HoldsFrames n (frame :: frames) :=
  List.forall_mem_cons.mpr ⟨hframe, h⟩

section Steps

variable {limits : Limits} {frames : List Frame} {output : String} {calls line : Nat} {e : Expr}

theorem allows_eval (hst : T.Closed st) (hs : T.Scopes st.size s)
    (hframes : T.HoldsFrames st.size frames) :
    T.Allows st (.eval e s frames st output calls) :=
  ⟨⟨hst, hs, hframes⟩, .refl st⟩

theorem allows_evalInside (hst : T.Closed st) (hs : T.Scopes st.size s)
    (hframes : T.HoldsFrames st.size frames) :
    T.Allows st (.evalInside e s frames st output calls) := by
  have hmoves := hst.child hs
  refine ⟨⟨hmoves.closed, ?_, hframes.mono hmoves.size_le⟩, hmoves.spares⟩
  show T.Scopes (st.child s).size st.size
  rw [Store.size_child]
  exact scopes_last hst.base_le

theorem allows_give (hst : T.Closed st) (hv : T.Holds st.size v)
    (hframes : T.HoldsFrames st.size frames) : T.Allows st (.give v frames st output calls) :=
  ⟨⟨hst, hv, hframes⟩, .refl st⟩

theorem allows_fail (hst : T.Closed st) (f : Fault) (hframes : T.HoldsFrames st.size frames) :
    T.Allows st (.fail f frames st output calls) :=
  ⟨⟨hst, trivial, hframes⟩, .refl st⟩

theorem allows_answer (hst : T.Closed st) {r : Except Fault Value}
    (hr : ∀ v, r = .ok v → T.Holds st.size v) (hframes : T.HoldsFrames st.size frames) :
    T.Allows st (.answer r frames st output calls) := by
  cases r with
  | ok v => exact allows_give hst (hr v rfl) hframes
  | error f => exact allows_fail hst f hframes

theorem allows_giveStored {fault? : Option Fault} (hmoves : T.Moves st st')
    (hv : T.Holds st.size v) (hframes : T.HoldsFrames st.size frames) :
    T.Allows st (.giveStored v (st', fault?) frames output calls) := by
  cases fault? with
  | none =>
    exact ⟨⟨hmoves.closed, hv.mono hmoves.size_le, hframes.mono hmoves.size_le⟩, hmoves.spares⟩
  | some f => exact ⟨⟨hmoves.closed, trivial, hframes.mono hmoves.size_le⟩, hmoves.spares⟩

theorem allows_closure (hst : T.Closed st) {c : Closure} (hc : T.Scopes st.size c.scope)
    {args : List Value} (hargs : ∀ v ∈ args, T.Holds st.size v)
    (hframes : T.HoldsFrames st.size frames) :
    T.Allows st (apply limits (.closure c) args line frames st output calls) := by
  unfold apply
  dsimp only
  split
  · exact allows_fail hst _ hframes
  · split
    · exact allows_fail hst _ hframes
    · have hchild := hst.child hc
      have hlast : T.Scopes (st.child c.scope).size st.size := by
        rw [Store.size_child]
        exact scopes_last hst.base_le
      have hps : ∀ pv ∈ c.params.zip args, T.Holds (st.child c.scope).size pv.2 :=
        fun pv hpv => (hargs pv.2 (List.of_mem_zip hpv).2).mono hchild.size_le
      split
      · next hbind =>
        have hparams := hchild.closed.bindParams hlast hps hbind
        have hmoves := hchild.trans hparams
        exact ⟨⟨hmoves.closed, hlast.mono hparams.size_le,
          .cons trivial (hframes.mono hmoves.size_le)⟩, hmoves.spares⟩
      · next hbind =>
        have hmoves := hchild.trans (hchild.closed.bindParams hlast hps hbind)
        exact ⟨⟨hmoves.closed, trivial, hframes.mono hmoves.size_le⟩, hmoves.spares⟩

theorem allows_apply (hst : T.Closed st) {callee : Value} (hcallee : T.Holds st.size callee)
    {args : List Value} (hargs : ∀ v ∈ args, T.Holds st.size v)
    (hframes : T.HoldsFrames st.size frames) :
    T.Allows st (apply limits callee args line frames st output calls) := by
  cases callee with
  | closure c => exact allows_closure hst hcallee hargs hframes
  | builtin b =>
    unfold apply
    dsimp only
    split
    · split
      · exact allows_give hst (v := .null) trivial hframes
      · exact allows_fail hst _ hframes
    · exact allows_fail hst _ hframes
  | number _ | bool _ | null => exact allows_fail hst _ hframes

theorem allows_applyAfter (hst : T.Closed st) {callee : Value}
    (hcallee : T.Holds st.size callee) {before : List Value}
    (hbefore : ∀ v ∈ before, T.Holds st.size v) (rest : List Expr) (hs : T.Scopes st.size s)
    (hframes : T.HoldsFrames st.size frames) :
    T.Allows st (applyAfter limits callee before rest line s frames st output calls) := by
  cases rest with
  | nil =>
    exact allows_apply hst hcallee (fun v hv => hbefore v (List.mem_reverse.mp hv)) hframes
  | cons e rest =>
    have hframe : T.HoldsFrame st.size (.argument callee before rest line s) :=
      ⟨hcallee, hbefore, hs⟩
    exact allows_evalInside hst hs (hframes.cons hframe)

/-- The first step into an expression. -/
theorem allows_enter (hst : T.Closed st) (hs : T.Scopes st.size s)
    (hframes : T.HoldsFrames st.size frames) : T.Allows st (enter e s frames st output calls) := by
  cases e with
  | number n => exact allows_give hst (v := .number n) trivial hframes
  | bool b => exact allows_give hst (v := .bool b) trivial hframes
  | null => exact allows_give hst (v := .null) trivial hframes
  | identifier name line => exact allows_answer hst (hst.get hs) hframes
  | function params body line =>
    exact allows_give hst (v := .closure ⟨params, body, line, s⟩) hs hframes
  | sequence items =>
    match items with
    | [] => exact allows_give hst (v := .null) trivial hframes
    | [_] => exact allows_eval hst hs hframes
    | _ :: next :: rest =>
      have hframe : T.HoldsFrame st.size (.andThen (.sequence (next :: rest)) s) := hs
      exact allows_eval hst hs (hframes.cons hframe)
  | block body => exact allows_evalInside hst hs hframes
  | choice arms =>
    cases arms with
    | done => exact allows_give hst (v := .bool false) trivial hframes
    | otherwise body => exact allows_evalInside hst hs hframes
    | guarded condition body rest =>
      have hframe : T.HoldsFrame st.size (.guard body rest s) := hs
      exact allows_evalInside hst hs (hframes.cons hframe)
  | declare name constant value line =>
    have hframe : T.HoldsFrame st.size (.declare name constant line s) := hs
    exact allows_evalInside hst hs (hframes.cons hframe)
  | assign name value line =>
    have hframe : T.HoldsFrame st.size (.assign name line s) := hs
    exact allows_evalInside hst hs (hframes.cons hframe)
  | loop condition body line =>
    have hframe : T.HoldsFrame st.size (.loopGuard condition body line s) := hs
    exact allows_evalInside hst hs (hframes.cons hframe)
  | call callee arguments line =>
    have hframe : T.HoldsFrame st.size (.callee arguments line s) := hs
    exact allows_evalInside hst hs (hframes.cons hframe)
  | binary op left right line =>
    have hframe : T.HoldsFrame st.size (.left op right line s) := hs
    exact allows_evalInside hst hs (hframes.cons hframe)
  | unary op operand line =>
    have hframe : T.HoldsFrame st.size (.operand op line) := trivial
    exact allows_evalInside hst hs (hframes.cons hframe)

theorem allows_resume (hst : T.Closed st) (hv : T.Holds st.size v) {frame : Frame}
    (hframe : T.HoldsFrame st.size frame) (hframes : T.HoldsFrames st.size frames) :
    T.Allows st (resume limits v frame frames st output calls) := by
  cases frame with
  | declare name constant line s =>
    exact allows_giveStored (hst.define hframe hv rfl) hv hframes
  | assign name line s => exact allows_giveStored (hst.assign hframe hv rfl) hv hframes
  | andThen next s => exact allows_eval hst hframe hframes
  | guard body rest s =>
    dsimp only [resume]
    split
    · exact allows_evalInside hst hframe hframes
    · exact allows_eval hst hframe hframes
  | loopGuard condition body line s =>
    dsimp only [resume]
    split
    · have hagain : T.HoldsFrame st.size (.andThen (.loop condition body line) s) := hframe
      exact allows_evalInside hst hframe (hframes.cons hagain)
    · exact allows_give hst (v := .bool false) trivial hframes
    · exact allows_fail hst _ hframes
  | callee arguments line s =>
    exact allows_applyAfter hst hv (List.forall_mem_nil _) arguments hframe hframes
  | argument callee before rest line s =>
    exact allows_applyAfter hst hframe.1 (List.forall_mem_cons.mpr ⟨hv, hframe.2.1⟩) rest
      hframe.2.2 hframes
  | left op right line s =>
    have hright : T.HoldsFrame st.size (.right op v line) := hv
    exact allows_evalInside hst hframe (hframes.cons hright)
  | right op left line =>
    exact allows_answer hst (holds_answer (BinaryOp.apply_answers ..)) hframes
  | operand op line =>
    exact allows_answer hst (holds_answer (UnaryOp.apply_answers ..)) hframes
  | leave => exact allows_give hst hv hframes

/-- One step stays in the territory. -/
theorem Covers.step {c c' : Config} (h : T.Covers c) (hstep : step limits c = .next c') :
    T.Allows c.state.store c' := by
  obtain ⟨control, frames, ⟨⟨st, output⟩, calls⟩⟩ := c
  obtain ⟨hst, hcontrol, hframes⟩ := h
  cases control with
  | eval e s =>
    cases hstep
    exact allows_enter hst hcontrol hframes
  | give v =>
    cases frames with
    | nil => cases hstep
    | cons frame frames =>
      cases hstep
      obtain ⟨hframe, hframes⟩ := List.forall_mem_cons.mp hframes
      exact allows_resume hst hcontrol hframe hframes
  | fail f =>
    cases frames with
    | nil => cases hstep
    | cons frame frames =>
      cases hstep
      exact allows_fail hst f (List.forall_mem_cons.mp hframes).2

/-- So does a whole run. -/
theorem Covers.run {c : Config} {o : Outcome} (h : T.Covers c)
    (hrun : Machine.run limits n c = some o) :
    T.Closed o.state.store ∧ (∀ v, o.result = .ok v → T.Holds o.state.store.size v) ∧
      T.Spares c.state.store o.state.store := by
  induction n generalizing c with
  | zero => cases hrun
  | succ n ih =>
    rw [Machine.run] at hrun
    cases hstep : Machine.step limits c with
    | next c' =>
      rw [hstep] at hrun
      have hnext := h.step hstep
      obtain ⟨hclosed, hresult, hspares⟩ := ih hnext.covers hrun
      exact ⟨hclosed, hresult, hnext.spares.trans hspares⟩
    | done o' =>
      rw [hstep] at hrun
      cases hrun
      obtain ⟨control, frames, state⟩ := c
      cases control with
      | eval e s => cases hstep
      | give v =>
        cases frames with
        | nil =>
          cases hstep
          refine ⟨h.store, fun u hu => ?_, .refl _⟩
          cases hu
          exact h.control
        | cons frame frames => cases hstep
      | fail f =>
        cases frames with
        | nil =>
          cases hstep
          exact ⟨h.store, fun u hu => (by cases hu), .refl _⟩
        | cons frame frames => cases hstep

end Steps

end Territory

end ExprLang
