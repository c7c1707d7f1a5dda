import ExprLang.Proofs.Store.ScopeGraph

/-!
Which scope a name belongs to, and who notices a change. Scopes share their parents, so that one
binding can be in sight of many of them, and each may have another binding of the name in front
of it. A lookup from a scope meets the scopes on its walk outward up to the first that binds the
name, and no others (`Sees`); a new value is noticed from where its scope is met.

* `resolve?_eq_some_iff`, `resolve?_eq_none_iff`: lookups against walks outward;
* `resolve?_of_seen`: a lookup depends on the scopes that it meets;
* `rereads_bind`: from where a new binding is read;
* `scope_operations`: definitions and assignments, together with lookups behind them.
-/

namespace ExprLang

namespace Store

variable {st st' : Store} {s t u p : ScopeId} {us : List ScopeId} {x y : String} {v : Value}
  {b : Binding}

/-! ## The scopes that a lookup meets -/

/-- `t` is on the walk outward from `u`, and no scope in front of it binds the name. -/
def Sees (st : Store) (x : String) (u t : ScopeId) : Prop :=
  ∃ nearer farther, st.Walk u (nearer ++ t :: farther) ∧ ∀ w ∈ nearer, st.local? w x = none

/-- `t` is the nearest scope on the walk outward from `u` that binds the name. -/
def Nearest (st : Store) (x : String) (u t : ScopeId) (b : Binding) : Prop :=
  st.Sees x u t ∧ st.local? t x = some b

theorem Walk.bind (h : st.Walk s us) (t : ScopeId) (x : String) (b : Binding) :
    (st.bind t x b).Walk s us := by
  induction h with
  | last hs hparent => exact .last (by simpa using hs) (by simpa using hparent)
  | outward hparent _ ih => exact .outward (by simpa using hparent) ih

theorem local?_of_size_le (h : st.size ≤ u) : st.local? u x = none := by
  rw [local?, Array.getElem?_eq_none h]
  rfl

theorem sees_self (h : st.Ordered) (hu : u < st.size) (x : String) : st.Sees x u u := by
  obtain ⟨us, hwalk⟩ := h.exists_walk hu
  cases hwalk with
  | last hs hparent => exact ⟨[], [], .last hs hparent, List.forall_mem_nil _⟩
  | outward hparent hrest => exact ⟨[], _, .outward hparent hrest, List.forall_mem_nil _⟩

/-- Through a scope that does not bind the name its parent's sight is its own. -/
theorem Sees.outward (h : st.Sees x p t) (hparent : st.parent? u = some p)
    (hu : st.local? u x = none) : st.Sees x u t := by
  obtain ⟨nearer, farther, hwalk, hnearer⟩ := h
  exact ⟨u :: nearer, farther, .outward hparent hwalk, List.forall_mem_cons.mpr ⟨hu, hnearer⟩⟩

theorem lt_size_of_resolve? (h : st.resolve? x u = some (t, b)) : u < st.size := by
  rcases Nat.lt_or_ge u st.size with hlt | hge
  · exact hlt
  · rw [resolve?, Array.getElem?_eq_none hge] at h
    cases h

theorem resolve?_eq_some_iff (h : st.Ordered) :
    st.resolve? x u = some (t, b) ↔ st.Nearest x u t b := by
  constructor
  · intro hresolve
    obtain ⟨us, hwalk⟩ := h.exists_walk (lt_size_of_resolve? hresolve)
    rw [hwalk.resolve?_eq h, firstOf, List.findSome?_eq_some_iff] at hresolve
    obtain ⟨nearer, w, farther, rfl, hw, hnearer⟩ := hresolve
    obtain ⟨b', hb', heq⟩ := Option.map_eq_some_iff.mp hw
    cases heq
    exact ⟨⟨nearer, farther, hwalk, fun w hw => Option.map_eq_none_iff.mp (hnearer w hw)⟩, hb'⟩
  · rintro ⟨⟨nearer, farther, hwalk, hnearer⟩, hb⟩
    rw [hwalk.resolve?_eq h, firstOf, List.findSome?_eq_some_iff]
    exact ⟨nearer, t, farther, rfl, by rw [hb]; rfl, fun w hw => by rw [hnearer w hw]; rfl⟩

theorem resolve?_eq_none_iff (h : st.Ordered) (hu : u < st.size) :
    st.resolve? x u = none ↔ ∃ us, st.Walk u us ∧ ∀ w ∈ us, st.local? w x = none := by
  constructor
  · intro hresolve
    obtain ⟨us, hwalk⟩ := h.exists_walk hu
    rw [hwalk.resolve?_eq h, firstOf, List.findSome?_eq_none_iff] at hresolve
    exact ⟨us, hwalk, fun w hw => Option.map_eq_none_iff.mp (hresolve w hw)⟩
  · rintro ⟨us, hwalk, hnone⟩
    rw [hwalk.resolve?_eq h, firstOf, List.findSome?_eq_none_iff]
    exact fun w hw => Option.map_eq_none_iff.mpr (hnone w hw)

/-- Stores with the same walks outward give a lookup the same answer, if the scopes that it meets
in one of them bind the name alike. -/
theorem resolve?_of_seen (h : st.Ordered) (hparent : ∀ w, st'.parent? w = st.parent? w)
    (hseen : ∀ w, st.Sees x u w → st'.local? w x = st.local? w x)
    (hsize : st'.size = st.size) : st'.resolve? x u = st.resolve? x u := by
  induction u using Nat.strongRecOn with
  | _ u ih =>
    have hlocal : st'.local? u x = st.local? u x := by
      rcases Nat.lt_or_ge u st.size with hlt | hge
      · exact hseen u (sees_self h hlt x)
      · rw [local?_of_size_le hge, local?_of_size_le (hsize ▸ hge)]
    cases hu : st.local? u x with
    | some b => rw [resolve?_of_local? hu, resolve?_of_local? (hlocal.trans hu)]
    | none =>
      rw [resolve?_outward hu, resolve?_outward (hlocal.trans hu), hparent]
      cases hp : st.parent? u with
      | none => rfl
      | some p =>
        have hlt : p < u := h u p hp
        simp only [Option.bind_some, if_pos hlt]
        exact ih p hlt fun w hw => hseen w (hw.outward hp hu)

/-! ## Who notices a change -/

/-- From the scopes in `P` the name is read as `v`. All else is read as before. -/
structure Rereads (st st' : Store) (x : String) (v : Value) (P : ScopeId → Prop) : Prop where
  seen : ∀ u line, P u → st'.get u x line = .ok v
  others : ∀ u y line, ¬ (y = x ∧ P u) → st'.get u y line = st.get u y line

theorem Rereads.congr {P Q : ScopeId → Prop} (h : Rereads st st' x v P) (hPQ : ∀ u, P u ↔ Q u) :
    Rereads st st' x v Q := by
  have heq : P = Q := funext fun u => propext (hPQ u)
  exact heq ▸ h

theorem get_of_resolve? {line : Nat} (h : st.resolve? x u = some (t, b)) :
    st.get u x line = .ok b.value := by
  rw [get, h]

/-- A new binding is read from where its scope is met. -/
theorem rereads_bind (h : st.Ordered) (ht : t < st.size) (x : String) (v : Value)
    (constant : Bool) :
    Rereads st (st.bind t x ⟨v, constant⟩) x v fun u => st.Sees x u t where
  seen u line hsees := by
    obtain ⟨nearer, farther, hwalk, hnearer⟩ := hsees
    -- The scope itself is not among those in front of it.
    have hfront : ∀ w ∈ nearer, w ≠ t := by
      intro w hw hwt
      have hnodup := (List.nodup_append.mp (hwalk.nodup h)).2.2
      exact hnodup w hw t (by simp) hwt
    have hnearest : (st.bind t x ⟨v, constant⟩).Nearest x u t ⟨v, constant⟩ := by
      refine ⟨⟨nearer, farther, hwalk.bind t x _, fun w hw => ?_⟩, ?_⟩
      · rw [local?_bind, if_neg fun hwt => hfront w hw hwt.1]
        exact hnearer w hw
      · rw [local?_bind, if_pos ⟨rfl, rfl, ht⟩]
    exact get_of_resolve? ((resolve?_eq_some_iff h.bind).mpr hnearest)
  others u y line hother := by
    have hsame : (st.bind t x ⟨v, constant⟩).resolve? y u = st.resolve? y u := by
      refine resolve?_of_seen h (fun w => parent?_bind ..) (fun w hw => ?_) (size_bind ..)
      rw [local?_bind, if_neg]
      rintro ⟨rfl, rfl, -⟩
      exact hother ⟨rfl, hw⟩
    rw [get, hsame, get]

/-! ## Assignments and definitions -/

/-- Every scope binds the names it has bound, constants as constants and variables as
variables. -/
def SameNames (st st' : Store) : Prop :=
  ∀ w y, (st'.local? w y).map Binding.constant = (st.local? w y).map Binding.constant

theorem sameNames_bind (hb : st.local? t x = some b) (v : Value) :
    SameNames st (st.bind t x ⟨v, b.constant⟩) := by
  intro w y
  rw [local?_bind]
  split
  · next h =>
    obtain ⟨rfl, rfl, -⟩ := h
    rw [hb]
    rfl
  · rfl

/-- What comes of an assignment is decided by the nearest binding of the name. -/
theorem assign_outcome (h : st.Ordered) (hs : s < st.size) (x : String) (v : Value) (line : Nat) :
    ((st.assign s x v line).2 = none ↔ ∃ t b, st.Nearest x s t b ∧ b.constant = false) ∧
    ((st.assign s x v line).2 = some (.assignToConstant x line) ↔
      ∃ t b, st.Nearest x s t b ∧ b.constant = true) ∧
    ((st.assign s x v line).2 = some (.undefinedVariable x line) ↔
      ∃ us, st.Walk s us ∧ ∀ w ∈ us, st.local? w x = none) ∧
    ((st.assign s x v line).2 ≠ none → (st.assign s x v line).1 = st) := by
  simp only [← resolve?_eq_some_iff h, ← resolve?_eq_none_iff h hs]
  rcases assign_cases st s x v line with
    ⟨hnone, hassign⟩ | ⟨t, b, hsome, hb, hassign⟩ | ⟨t, b, hsome, hb, hassign⟩
  · simp [hassign, hnone]
  · simp [hassign, hsome, hb]
  · simp [hassign, hsome, hb]

/-- An assignment is noticed from where the same binding is the nearest one. -/
theorem assign_rereads (h : st.Ordered) (hnearest : st.Nearest x s t b)
    (hb : b.constant = false) (v : Value) (line : Nat) :
    Rereads st (st.assign s x v line).1 x v (fun u => ∃ b', st.Nearest x u t b') ∧
      SameNames st (st.assign s x v line).1 := by
  have hresolve := (resolve?_eq_some_iff h).mpr hnearest
  have hassign : st.assign s x v line = (st.bind t x ⟨v, false⟩, none) := by
    rw [assign, hresolve]
    simp [hb]
  have hsees (u : ScopeId) : st.Sees x u t ↔ ∃ b', st.Nearest x u t b' := by
    constructor
    · exact fun hu => ⟨b, hu, hnearest.2⟩
    · rintro ⟨-, hu, -⟩
      exact hu
  rw [hassign]
  refine ⟨(rereads_bind h (lt_size_of_local? hnearest.2) x v false).congr hsees, ?_⟩
  exact hb ▸ sameNames_bind hnearest.2 v

/-- A definition is refused for a constant of the scope itself only, and is noticed from where
that scope is met. -/
theorem define_outcome (h : st.Ordered) (hs : s < st.size) (x : String) (v : Value)
    (constant : Bool) (line : Nat) :
    ((st.define s x v constant line).2 ≠ none ↔
      ∃ b, st.local? s x = some b ∧ b.constant = true) ∧
    ((st.define s x v constant line).2 ≠ none →
      st.define s x v constant line = (st, some (.assignToConstant x line))) ∧
    ((st.define s x v constant line).2 = none →
      (st.define s x v constant line).1.local? s x = some ⟨v, constant⟩ ∧
      Rereads st (st.define s x v constant line).1 x v fun u => st.Sees x u s) := by
  rcases define_cases st s x v constant line with ⟨b, hlocal, hb, hdefine⟩ | ⟨hfree, hdefine⟩
  · simp [hdefine, hlocal, hb]
  · rw [hdefine]
    refine ⟨⟨fun hsome => absurd rfl hsome, ?_⟩, fun hsome => absurd rfl hsome, fun _ => ⟨?_, ?_⟩⟩
    · rintro ⟨b, hlocal, hb⟩
      rw [hfree b hlocal] at hb
      cases hb
    · rw [local?_bind, if_pos ⟨rfl, rfl, hs⟩]
    · exact rereads_bind h hs x v constant

end Store

open Store

/-- Assignments and definitions on any tree of scopes. An assignment succeeds exactly if the
nearest binding of the name is a variable; it is refused with a fault of one kind if that is a
constant, and with one of another kind if there is none, and then leaves the store as it is. A new
value is read from the scopes that have the same nearest binding, and nowhere else; names and their
constancy stay. A definition is refused exactly if the scope itself has the name as a constant.
Otherwise that scope binds the name, which is read from the scopes outward from which it comes
before any other that binds the name. Parents are older than their children in every store that a
session can come to (`Reachable.intact`). -/
theorem scope_operations (st : Store) (hst : st.Ordered) (s : ScopeId) (hs : s < st.size)
    (x : String) (v : Value) (line : Nat) :
    (((st.assign s x v line).2 = none ↔ ∃ t b, st.Nearest x s t b ∧ b.constant = false) ∧
      ∀ t b, st.Nearest x s t b → b.constant = false →
        Rereads st (st.assign s x v line).1 x v (fun u => ∃ b', st.Nearest x u t b') ∧
        SameNames st (st.assign s x v line).1) ∧
    (((st.assign s x v line).2 = some (.assignToConstant x line) ↔
        ∃ t b, st.Nearest x s t b ∧ b.constant = true) ∧
      ((st.assign s x v line).2 = some (.undefinedVariable x line) ↔
        ∃ us, st.Walk s us ∧ ∀ w ∈ us, st.local? w x = none) ∧
      ((st.assign s x v line).2 ≠ none → (st.assign s x v line).1 = st)) ∧
    ∀ constant,
      ((st.define s x v constant line).2 ≠ none ↔
        ∃ b, st.local? s x = some b ∧ b.constant = true) ∧
      ((st.define s x v constant line).2 ≠ none →
        st.define s x v constant line = (st, some (.assignToConstant x line))) ∧
      ((st.define s x v constant line).2 = none →
        (st.define s x v constant line).1.local? s x = some ⟨v, constant⟩ ∧
        Rereads st (st.define s x v constant line).1 x v fun u => st.Sees x u s) := by
  obtain ⟨hsucceeds, hconstant, hundefined, hfails⟩ := assign_outcome hst hs x v line
  exact ⟨⟨hsucceeds, fun t b hnearest hb => assign_rereads hst hnearest hb v line⟩,
    ⟨hconstant, hundefined, hfails⟩, fun constant => define_outcome hst hs x v constant line⟩

/-- The root scope has a variable. Of the two scopes inside it, the first hides the variable behind
a constant; the last scope is inside that one. -/
def forked : Store :=
  ((((State.fresh.store.bind 0 "x" ⟨.number 1, false⟩).child 0).bind 1 "x" ⟨.number 2, true⟩).child
    0).child 1

theorem ordered_forked : forked.Ordered :=
  ((((intact_fresh.ordered.bind).child (by decide)).bind).child (by decide)).child (by decide)

theorem forked_nearest : forked.Nearest "x" 2 0 ⟨.number 1, false⟩ :=
  ⟨⟨[2], [], .outward rfl (.last (by decide) rfl), List.forall_mem_singleton.mpr rfl⟩, rfl⟩

theorem forked_hidden : forked.Nearest "x" 3 1 ⟨.number 2, true⟩ :=
  ⟨⟨[3], [0], .outward rfl (.outward rfl (.last (by decide) rfl)),
    List.forall_mem_singleton.mpr rfl⟩, rfl⟩

/-- From the second scope the variable is given a new value, which is read there and in the root
scope but not behind the constant; from behind the constant it cannot be given one. -/
theorem scope_operations_forked :
    (forked.Ordered ∧ 2 < forked.size ∧ 3 < forked.size) ∧
    ((forked.assign 2 "x" (.number 5) 1).2 = none ∧
      (forked.assign 2 "x" (.number 5) 1).1.get 2 "x" 1 = .ok (.number 5) ∧
      (forked.assign 2 "x" (.number 5) 1).1.get 3 "x" 1 = forked.get 3 "x" 1) ∧
    (forked.assign 3 "x" (.number 5) 1).2 = some (.assignToConstant "x" 1) ∧
    (forked.assign 3 "y" (.number 5) 1).2 = some (.undefinedVariable "y" 1) ∧
    (forked.define 3 "x" (.number 5) true 1).1.local? 3 "x" = some ⟨.number 5, true⟩ := by
  have hlt : 2 < forked.size ∧ 3 < forked.size := by decide
  obtain ⟨⟨hsucceeds, hnoticed⟩, -⟩ :=
    scope_operations forked ordered_forked 2 hlt.1 "x" (.number 5) 1
  obtain ⟨-, ⟨hconstant, -⟩, hdefine⟩ :=
    scope_operations forked ordered_forked 3 hlt.2 "x" (.number 5) 1
  obtain ⟨-, ⟨-, hundefined, -⟩, -⟩ :=
    scope_operations forked ordered_forked 3 hlt.2 "y" (.number 5) 1
  obtain ⟨⟨hseen, hothers⟩, -⟩ := hnoticed 0 _ forked_nearest rfl
  refine ⟨⟨ordered_forked, hlt⟩, ⟨hsucceeds.mpr ⟨_, _, forked_nearest, rfl⟩,
    hseen 2 1 ⟨_, forked_nearest⟩, hothers 3 "x" 1 ?_⟩,
    hconstant.mpr ⟨_, _, forked_hidden, rfl⟩, ?_, ?_⟩
  · -- The nearest scope from there is the one with the constant.
    rintro ⟨-, b, hb⟩
    have hboth := ((resolve?_eq_some_iff ordered_forked).mpr forked_hidden).symm.trans
      ((resolve?_eq_some_iff ordered_forked).mpr hb)
    cases hboth
  · have hnone : ∀ w ∈ [3, 1, 0], forked.local? w "y" = none :=
      List.forall_mem_cons.mpr ⟨rfl,
        List.forall_mem_cons.mpr ⟨rfl, List.forall_mem_singleton.mpr rfl⟩⟩
    exact hundefined.mpr ⟨_, .outward rfl (.outward rfl (.last (by decide) rfl)), hnone⟩
  · exact ((hdefine true).2.2 rfl).1

end ExprLang
