import ExprLang.Proofs.Evaluation.Integrity
import ExprLang.Proofs.Store.Growth
import Mathlib

/-!
The graph of scopes. Closures make it cyclic: a scope may hold a closure that captured that very
scope. Its links from a scope to the scope around it are not: whatever is done in a session with
the scopes and values that it knows, and however far an evaluation has come, a walk outward ends.

* `Ordered.exists_walk`, `Walk.nodup`: a walk outward ends, and meets no scope twice;
* `Walk.resolve?_eq`: a name is looked up along that walk;
* `Reachable.intact`: the invariant, over every series of steps;
* `scope_graph_sound`: the property.
-/

namespace ExprLang

namespace Store

variable {st st' : Store} {s u p : ScopeId} {us : List ScopeId} {name x : String} {v : Value}

/-! ## Walks outward -/

/-- `st.Walk s us`: from the scope `s` outward there are the scopes `us`, in this order, and the
last of them is inside no other. -/
inductive Walk (st : Store) : ScopeId → List ScopeId → Prop where
  | last {s : ScopeId} (hs : s < st.size) (hparent : st.parent? s = none) : Walk st s [s]
  | outward {s p : ScopeId} {us : List ScopeId} (hparent : st.parent? s = some p)
      (hrest : Walk st p us) : Walk st s (s :: us)

theorem Walk.lt_size (h : st.Walk s us) : ∀ u ∈ us, u < st.size := by
  induction h with
  | last hs => simpa using hs
  | outward hparent _ ih => exact List.forall_mem_cons.mpr ⟨lt_size_of_parent? hparent, ih⟩

/-- A walk outward goes to older and older scopes. -/
theorem Walk.le_start (h : st.Walk s us) (hordered : st.Ordered) : ∀ u ∈ us, u ≤ s := by
  induction h with
  | last => simp
  | outward hparent _ ih =>
    have hlt := hordered _ _ hparent
    exact List.forall_mem_cons.mpr
      ⟨Nat.le_refl _, fun u hu => Nat.le_trans (ih u hu) (Nat.le_of_lt hlt)⟩

theorem Walk.nodup (h : st.Walk s us) (hordered : st.Ordered) : us.Nodup := by
  induction h with
  | last => simp
  | outward hparent hrest ih =>
    refine List.nodup_cons.mpr ⟨fun hmem => ?_, ih⟩
    exact absurd (hordered _ _ hparent) (Nat.not_lt.mpr (hrest.le_start hordered _ hmem))

/-- Where parents are older than their children, every walk outward ends. -/
theorem Ordered.exists_walk (h : st.Ordered) (hs : s < st.size) : ∃ us, st.Walk s us := by
  induction s using Nat.strongRecOn with
  | _ s ih =>
    cases hparent : st.parent? s with
    | none => exact ⟨[s], .last hs hparent⟩
    | some p =>
      have hlt := h s p hparent
      obtain ⟨us, hwalk⟩ := ih p hlt (Nat.lt_trans hlt hs)
      exact ⟨s :: us, .outward hparent hwalk⟩

/-- The first of some scopes that binds a name, with the binding. -/
def firstOf (st : Store) (x : String) (us : List ScopeId) : Option (ScopeId × Binding) :=
  us.findSome? fun u => (st.local? u x).map fun b => (u, b)

/-- A lookup takes the walk outward, scope by scope, up to the first that binds the name. -/
theorem Walk.resolve?_eq (h : st.Walk s us) (hordered : st.Ordered) (x : String) :
    st.resolve? x s = st.firstOf x us := by
  induction h with
  | @last s _ hparent =>
    cases hlocal : st.local? s x with
    | some b => simp [resolve?_of_local? hlocal, firstOf, hlocal]
    | none => simp [resolve?_outward hlocal, firstOf, hlocal, hparent]
  | @outward s p us hparent _ ih =>
    cases hlocal : st.local? s x with
    | some b => simp [resolve?_of_local? hlocal, firstOf, hlocal]
    | none =>
      have hskip : st.firstOf x (s :: us) = st.firstOf x us := by simp [firstOf, hlocal]
      rw [resolve?_outward hlocal, hparent, Option.bind_some, if_pos (hordered s p hparent), ih,
        hskip]

/-! ## What a session can do -/

/-- The scope that a closure captured exists. -/
def Knows (st : Store) (v : Value) : Prop := ∀ c, v = .closure c → c.scope < st.size

theorem Knows.mono (h : st.Knows v) (hle : st.size ≤ st'.size) : st'.Knows v :=
  fun c hc => Nat.lt_of_lt_of_le (h c hc) hle

theorem Intact.knows (h : st.Intact) {b : Binding} (hb : st.local? u x = some b) :
    st.Knows b.value :=
  fun c hc => h.captured_lt u x b c hb hc

theorem Intact.add (h : st.Intact) {scope : Scope}
    (hparent : ∀ p, scope.parent = some p → p < st.size)
    (hvalue : ∀ x b, scope.find? x = some b → st.Knows b.value) : (st.add scope).Intact where
  ordered u p hp := by
    rw [parent?_add] at hp
    split at hp
    · next hu => exact hu ▸ hparent p hp
    · exact h.ordered u p hp
  captured_lt u x b c hb hc := by
    rw [local?_add] at hb
    rw [size_add]
    split at hb
    · exact Nat.lt_succ_of_lt (hvalue x b hb c hc)
    · exact Nat.lt_succ_of_lt (h.captured_lt u x b c hb hc)

theorem Intact.root (h : st.Intact) : (st.add .root).Intact := by
  refine h.add (fun p hp => by cases hp) fun x b hb c hc => ?_
  simp only [Scope.root, Scope.find?, Scope.lookup_entry, List.lookup_nil] at hb
  split at hb
  · cases hb
    cases hc
  · cases hb

theorem Intact.define (h : st.Intact) (hs : s < st.size) (hv : st.Knows v) {constant : Bool}
    {line : Nat} : (st.define s name v constant line).1.Intact :=
  define_preserves rfl h fun _ => h.bind hs hv

theorem Intact.assign (h : st.Intact) (hv : st.Knows v) {line : Nat} :
    (st.assign s name v line).1.Intact :=
  assign_preserves rfl h fun _ _ hresolve _ =>
    h.bind (lt_size_of_local? (local?_of_resolve? hresolve)) hv

theorem Intact.get (h : st.Intact) {line : Nat} (hget : st.get s name line = .ok v) :
    st.Knows v := by
  unfold Store.get at hget
  split at hget
  · next t b hresolve =>
    cases hget
    exact h.knows (local?_of_resolve? hresolve)
  · cases hget

end Store

open Store Territory

namespace Machine

/-- The machine comes from one configuration to another. -/
def Comes (limits : Limits) : Config → Config → Prop :=
  Relation.ReflTransGen fun c c' => step limits c = .next c'

/-- The store of an evaluation in progress is intact. -/
theorem Comes.intact {limits : Limits} {e : Expr} {s : ScopeId} {state : State} {c : Config}
    (h : Comes limits (start e s state) c) (hst : state.store.Intact)
    (hs : s < state.store.size) : c.state.store.Intact := by
  obtain ⟨hordered, hclosed⟩ := intact_iff.mp hst
  have hstart : whole.Covers (start e s state) :=
    ⟨hclosed, scopes_whole.mpr hs, List.forall_mem_nil _⟩
  have hinvariant : c.state.store.Ordered ∧ whole.Covers c := by
    induction h with
    | refl => exact ⟨hordered, hstart⟩
    | tail _ hstep ih =>
      exact ⟨ordered_step ih.1 ih.2 hstep, (ih.2.step hstep).covers⟩
  exact intact_iff.mpr ⟨hinvariant.1, hinvariant.2.1⟩

theorem Comes.evolves {limits : Limits} {c c' : Config} (h : Comes limits c c') :
    c.state.store.Evolves c'.state.store := by
  induction h with
  | refl => exact .refl _
  | tail _ hstep ih => exact ih.trans (step_evolves hstep)

end Machine

/-- What a session can do to a store: with scopes that are there, and with values that were
found in the store or are no closures. Evaluations may end in a value or in a fault, or be still
in progress. -/
inductive Deed : Store → Store → Prop where
  | new (st : Store) : Deed st (st.add (.empty none))
  | root (st : Store) : Deed st (st.add .root)
  | child {st : Store} {s : ScopeId} (hs : s < st.size) : Deed st (st.child s)
  | define {st : Store} {s : ScopeId} {v : Value} (hs : s < st.size) (hv : st.Knows v)
      (name : String) (constant : Bool) (line : Nat) :
      Deed st (st.define s name v constant line).1
  | assign {st : Store} {s : ScopeId} {v : Value} (hs : s < st.size) (hv : st.Knows v)
      (name : String) (line : Nat) : Deed st (st.assign s name v line).1
  | evaluation {limits : Limits} {n : Nat} {e : Expr} {s : ScopeId} {state : State}
      {o : Machine.Outcome} (hs : s < state.store.size)
      (h : e.eval limits n s state = some o) : Deed state.store o.state.store
  | progress {limits : Limits} {e : Expr} {s : ScopeId} {state : State} {c : Machine.Config}
      (hs : s < state.store.size) (h : Machine.Comes limits (Machine.start e s state) c) :
      Deed state.store c.state.store

/-- Any number of deeds, in any order. -/
def Deeds : Store → Store → Prop := Relation.ReflTransGen Deed

/-- Stores that a session can come to. -/
def Reachable (st : Store) : Prop := Deeds State.fresh.store st

theorem Deed.intact {st st' : Store} (h : Deed st st') (hst : st.Intact) : st'.Intact := by
  cases h with
  | new =>
    exact hst.add (fun p hp => by cases hp) fun x b hb => by simp [Scope.empty, Scope.find?] at hb
  | root => exact hst.root
  | child hs => exact hst.child hs
  | define hs hv => exact hst.define hs hv
  | assign hs hv => exact hst.assign hv
  | evaluation hs h => exact (hst.eval hs h).1
  | progress hs h => exact h.intact hst hs

theorem Deed.evolves {st st' : Store} (h : Deed st st') : st.Evolves st' := by
  cases h with
  | new | root => exact (Change.add ..).evolves
  | child => exact evolves_child ..
  | define => exact (Change.define ..).evolves
  | assign => exact (Change.assign ..).evolves
  | evaluation _ h => exact Expr.eval_evolves h
  | progress _ h => exact h.evolves

theorem Deeds.evolves {st st' : Store} (h : Deeds st st') : st.Evolves st' := by
  induction h with
  | refl => exact .refl st
  | tail _ hdeed ih => exact ih.trans hdeed.evolves

theorem Reachable.intact {st : Store} (h : Reachable st) : st.Intact := by
  induction h with
  | refl => exact intact_fresh
  | tail _ hdeed ih => exact hdeed.intact ih

/-! ## Sessions -/

namespace Session

/-- A step that brings no closure from elsewhere. -/
def Step.Known (st : Store) : Step → Prop
  | .define _ _ v _ _ | .assign _ _ v _ => st.Knows v
  | _ => True

/-- Sessions, from their start on. -/
inductive Comes (limits : Limits) : Session → Prop where
  | start : Comes limits (.start limits)
  | step {session session' : Session} {step : Step} {answer : Answer}
      (h : Comes limits session) (hknown : step.Known session.store)
      (hstep : session.perform? step = some (session', answer)) : Comes limits session'

/-- The scopes that a session refers to are there, in a store that a session can come to. -/
structure Sound (session : Session) : Prop where
  store : Reachable session.store
  scopes : ∀ s ∈ session.scopes, s < session.store.size

theorem sound_start (limits : Limits) : (start limits).Sound := by
  refine ⟨.refl, fun s hs => ?_⟩
  obtain rfl : s = State.rootScope := by simpa [start] using hs
  exact Nat.zero_lt_one

theorem nest_deeds {st : Store} {s : ScopeId} (hs : s < st.size) (count : Nat) :
    Deeds st (nest st s count).1 ∧ (nest st s count).2 < (nest st s count).1.size := by
  induction count generalizing st s with
  | zero => exact ⟨.refl, hs⟩
  | succ count ih =>
    have hinner : st.size < (st.child s).size := by simp
    obtain ⟨hdeeds, hlt⟩ := ih hinner
    exact ⟨.head (.child hs) hdeeds, hlt⟩

/-- More deeds leave the scopes that a session refers to where they are. -/
theorem Sound.later {session : Session} (h : session.Sound) {st : Store}
    (hst : Deeds session.store st) : ∀ s ∈ session.scopes, s < st.size :=
  fun s hs => Nat.lt_of_lt_of_le (h.scopes s hs) hst.evolves.extends.size_le

theorem Sound.refer {session : Session} (h : session.Sound) {st : Store} {s : ScopeId}
    (hst : Deeds session.store st) (hs : s < st.size) : (session.refer st s).1.Sound := by
  refine ⟨h.store.trans hst, fun u hu => ?_⟩
  rcases Array.mem_push.mp hu with hu | rfl
  · exact h.later hst u hu
  · exact hs

theorem Sound.keep {session : Session} (h : session.Sound) {change : Store × Option Fault}
    (hst : Deed session.store change.1) :
    (session.keep change).1.Sound ∧ ∀ v, (session.keep change).2.reply ≠ .ok (.value v) := by
  have hdeeds : Deeds session.store change.1 := .single hst
  obtain ⟨st, fault?⟩ := change
  cases fault? <;>
    exact ⟨⟨h.store.trans hdeeds, h.later hdeeds⟩, fun v hv => by cases hv⟩

theorem eq_ok_of_map_value {r : Except Fault Value} {v : Value}
    (h : r.map Reply.value = .ok (.value v)) : r = .ok v := by
  cases r with
  | error f => cases h
  | ok w =>
    cases h
    rfl

theorem evalSource_sound {limits : Limits} {source : String} {s : ScopeId} {state : State}
    {o : Machine.Outcome} (hst : state.store.Intact) (hs : s < state.store.size)
    (h : state.evalSource limits source s = some o) :
    Deeds state.store o.state.store ∧ ∀ v, o.result = .ok v → o.state.store.Knows v := by
  unfold State.evalSource at h
  split at h
  · cases h
    exact ⟨.refl, fun v hv => by cases hv⟩
  · exact ⟨.single (.evaluation hs h), fun v hv c hc => (hst.eval hs h).2 c (hc ▸ hv)⟩

/-- A step leaves a session sound, and a closure that it answers with captured a scope that is
there. -/
theorem Sound.perform? {session session' : Session} {step : Step} {answer : Answer}
    (h : session.Sound) (hknown : step.Known session.store)
    (hstep : session.perform? step = some (session', answer)) :
    session'.Sound ∧ ∀ v, answer.reply = .ok (.value v) → session'.store.Knows v := by
  cases step with
  | eval scope source =>
    obtain ⟨s, hs, hstep⟩ := Option.bind_eq_some_iff.mp hstep
    obtain ⟨o, ho, hstep⟩ := Option.bind_eq_some_iff.mp hstep
    obtain ⟨hdeeds, hresult⟩ :=
      evalSource_sound h.store.intact (h.scopes s (Array.mem_of_getElem? hs)) ho
    cases hstep
    exact ⟨⟨h.store.trans hdeeds, h.later hdeeds⟩,
      fun v hv => hresult v (eq_ok_of_map_value hv)⟩
  | new =>
    cases hstep
    exact ⟨h.refer (.single (.new _)) (by simp), fun v hv => by cases hv⟩
  | root =>
    cases hstep
    exact ⟨h.refer (.single (.root _)) (by simp), fun v hv => by cases hv⟩
  | child scope count =>
    obtain ⟨s, hs, hstep⟩ := Option.bind_eq_some_iff.mp hstep
    obtain ⟨hdeeds, hlt⟩ := nest_deeds (h.scopes s (Array.mem_of_getElem? hs)) count
    cases hstep
    exact ⟨h.refer hdeeds hlt, fun v hv => by cases hv⟩
  | drop scope =>
    cases hstep
    exact ⟨h, fun v hv => by cases hv⟩
  | define scope name value constant line =>
    obtain ⟨s, hs, hstep⟩ := Option.bind_eq_some_iff.mp hstep
    have hkeep := h.keep
      (.define (h.scopes s (Array.mem_of_getElem? hs)) hknown name constant line)
    rw [Option.some.inj hstep] at hkeep
    exact ⟨hkeep.1, fun v hv => absurd hv (hkeep.2 v)⟩
  | assign scope name value line =>
    obtain ⟨s, hs, hstep⟩ := Option.bind_eq_some_iff.mp hstep
    have hkeep := h.keep (.assign (h.scopes s (Array.mem_of_getElem? hs)) hknown name line)
    rw [Option.some.inj hstep] at hkeep
    exact ⟨hkeep.1, fun v hv => absurd hv (hkeep.2 v)⟩
  | get scope name line =>
    obtain ⟨s, -, hstep⟩ := Option.bind_eq_some_iff.mp hstep
    cases hstep
    exact ⟨h, fun v hv => h.store.intact.get (eq_ok_of_map_value hv)⟩
  | same scope first second =>
    obtain ⟨s, -, hstep⟩ := Option.bind_eq_some_iff.mp hstep
    cases hstep
    refine ⟨h, fun v hv => ?_⟩
    cases hfirst : session.store.get s first 1 with
    | error f =>
      rw [hfirst] at hv
      cases hv
    | ok a =>
      cases hsecond : session.store.get s second 1 with
      | error f =>
        rw [hfirst, hsecond] at hv
        cases hv
      | ok b =>
        rw [hfirst, hsecond] at hv
        cases hv

theorem Comes.sound {limits : Limits} {session : Session} (h : Comes limits session) :
    session.Sound := by
  induction h with
  | start => exact sound_start limits
  | step _ hknown hstep ih => exact (ih.perform? hknown hstep).1

end Session

/-! ## The property -/

/-- What is sound about the scopes of a store: walks outward end in a scope that is inside no
other and meet no scope twice; a lookup, with which `Store.get` and `Store.assign` begin, takes
just that walk up to the first scope that binds the name; a parent is older than its child; and
every closure captured a scope that is there. -/
structure Store.SoundGraph (st : Store) : Prop where
  walk : ∀ s < st.size, ∃ us, st.Walk s us ∧ us.Nodup ∧ (∀ u ∈ us, u < st.size) ∧
    ∀ x, st.resolve? x s = st.firstOf x us
  parent_lt : ∀ s p, st.parent? s = some p → p < s
  held : ∀ u x b, st.local? u x = some b → st.Knows b.value

theorem Store.Intact.soundGraph {st : Store} (h : st.Intact) : st.SoundGraph where
  walk s hs := by
    obtain ⟨us, hwalk⟩ := h.ordered.exists_walk hs
    exact ⟨us, hwalk, hwalk.nodup h.ordered, hwalk.lt_size, hwalk.resolve?_eq h.ordered⟩
  parent_lt := h.ordered
  held _ _ _ := h.knows

/-- The graph of scopes is sound in every store that a session can come to, in the middle of an
evaluation too. What is done later moves no scope to another parent. Closures that are looked up
or returned captured scopes that are there. All this holds of the steps of a session, and the
scopes that these refer to are there. -/
theorem scope_graph_sound :
    (∀ st, Reachable st → st.SoundGraph ∧
      (∀ st', Deeds st st' → ∀ s < st.size, st'.parent? s = st.parent? s) ∧
      (∀ s x line v, st.get s x line = .ok v → st.Knows v) ∧
      (∀ limits n e s output calls o, s < st.size →
        Expr.eval limits n e s ⟨⟨st, output⟩, calls⟩ = some o →
          ∀ v, o.result = .ok v → o.state.store.Knows v)) ∧
    (∀ limits session, Session.Comes limits session →
      Reachable session.store ∧ (∀ s ∈ session.scopes, s < session.store.size) ∧
      (∀ step session' answer, step.Known session.store →
        session.perform? step = some (session', answer) →
          ∀ v, answer.reply = .ok (.value v) → session'.store.Knows v)) := by
  refine ⟨fun st hst => ⟨hst.intact.soundGraph, fun st' hst' => hst'.evolves.extends.parent,
    fun s x line v => hst.intact.get, ?_⟩, fun limits session h => ?_⟩
  · intro limits n e s output calls o hs heval v hv c hc
    have hstate : (State.mk ⟨st, output⟩ calls).store.Intact := hst.intact
    exact (hstate.eval hs heval).2 c (hc ▸ hv)
  · exact ⟨h.sound.store, h.sound.scopes, fun step session' answer hknown hstep =>
      (h.sound.perform? hknown hstep).2⟩

/-- `let f = (let g = 1; func(v) => { g = v }); f(f)`: the call stores the closure in the scope
that it captured. -/
def knot : Expr :=
  .sequence [
    .declare "f" false (.sequence [.declare "g" false (.number 1) 1,
      .function [⟨"v", false⟩] (.assign "g" (.identifier "v" 1) 1) 1]) 1,
    .call (.identifier "f" 1) [.identifier "f" 1] 1]

/-- The closure of this program, over the scope of its literal. -/
def knotted : Closure := ⟨[⟨"v", false⟩], .assign "g" (.identifier "v" 1) 1, 1, 1⟩

theorem knot_eval : (knot.eval .usual 99 State.rootScope .fresh).map
      (fun o => (o.result, o.state.store.local? 1 "g")) =
    some (.ok (.closure knotted), some ⟨.closure knotted, false⟩) := by
  cbv

/-- The closure is held by the scope that it captured, and the walk outward from there ends. In a
session, the steps around one that is refused. -/
theorem scope_graph_sound_knot :
    (∃ o : Machine.Outcome,
      knot.eval .usual 99 State.rootScope .fresh = some o ∧ o.result = .ok (.closure knotted) ∧
      o.state.store.local? knotted.scope "g" = some ⟨.closure knotted, false⟩ ∧
      o.state.store.SoundGraph ∧ ∃ us, o.state.store.Walk knotted.scope us ∧ us.Nodup) ∧
    ∃ session answer, (Session.start .usual).perform? (.assign 0 "outn" .null 1) =
        some (session, answer) ∧ session.store.SoundGraph := by
  constructor
  · obtain ⟨o, ho, hview⟩ := Option.map_eq_some_iff.mp knot_eval
    obtain ⟨hresult, hlocal⟩ := Prod.mk.inj hview
    have hroot : State.rootScope < State.fresh.store.size := Nat.zero_lt_one
    have hgraph := (scope_graph_sound.1 o.state.store (.single (.evaluation hroot ho))).1
    obtain ⟨us, hwalk, hnodup, -⟩ := hgraph.walk 1 (hgraph.held _ _ _ hlocal knotted rfl)
    exact ⟨o, ho, hresult, hlocal, hgraph, us, hwalk, hnodup⟩
  · have hstep : (Session.start .usual).perform? (.assign 0 "outn" .null 1) = some _ := rfl
    have hknown : Session.Step.Known (Session.start .usual).store (.assign 0 "outn" .null 1) :=
      fun c hc => by cases hc
    have hcomes : Session.Comes .usual _ := .step .start hknown hstep
    exact ⟨_, _, hstep, (scope_graph_sound.1 _ (scope_graph_sound.2 _ _ hcomes).1).1⟩

end ExprLang
