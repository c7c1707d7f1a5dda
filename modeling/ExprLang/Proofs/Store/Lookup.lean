import ExprLang.Store

/-!
What the operations of a store do to its scopes. The bindings and the parent of one
scope are looked up behind each operation, and the walk outward is taken one scope at a
time.

* `local?_add`, `local?_bind`, `parent?_add`, `parent?_bind`: one scope behind a change;
* `resolve?_eq_some`: where the walk outward ends, the name is bound;
* `define_cases`, `assign_cases`: what a definition and an assignment can do;
* `define_preserves`, `assign_preserves`: the same for a property of stores.
-/

namespace ExprLang

namespace Scope

theorem lookup_entry (other x : String) (b : Binding) (bs : List (String × Binding)) :
    ((other, b) :: bs).lookup x = if x = other then some b else bs.lookup x := by
  rw [List.lookup_cons]
  by_cases hx : x = other
  · rw [if_pos hx, beq_iff_eq.mpr hx]
  · rw [if_neg hx, beq_false_of_ne hx]

theorem lookup_replace (name x : String) (b : Binding) (bs : List (String × Binding)) :
    (replace name b bs).lookup x = if x = name then some b else bs.lookup x := by
  induction bs with
  | nil => exact lookup_entry name x b []
  | cons entry bs ih =>
    obtain ⟨other, old⟩ := entry
    rw [replace, lookup_entry]
    by_cases ho : other = name
    · rw [if_pos (beq_iff_eq.mpr ho), lookup_entry, ho]
      split <;> rfl
    · rw [if_neg (by simpa using ho), lookup_entry, ih]
      by_cases hx : x = name
      · rw [if_pos hx, if_pos hx, if_neg (hx ▸ Ne.symm ho)]
      · rw [if_neg hx, if_neg hx]

theorem find?_bind (scope : Scope) (name x : String) (b : Binding) :
    (scope.bind name b).find? x = if x = name then some b else scope.find? x :=
  lookup_replace name x b scope.bindings

end Scope

namespace Store

variable {st : Store} {s t u : ScopeId} {name x : String} {b : Binding}

/-- The scope around a scope. -/
def parent? (st : Store) (s : ScopeId) : Option ScopeId := st.scopes[s]?.bind Scope.parent

/-! ## One more scope -/

@[simp] theorem size_add (st : Store) (scope : Scope) : (st.add scope).size = st.size + 1 :=
  Array.size_push ..

@[simp] theorem size_child (st : Store) (s : ScopeId) : (st.child s).size = st.size + 1 :=
  size_add st _

theorem local?_add (st : Store) (scope : Scope) (u : ScopeId) (x : String) :
    (st.add scope).local? u x = if u = st.size then scope.find? x else st.local? u x := by
  unfold local? add
  rw [Array.getElem?_push]
  by_cases hu : u = st.size
  · rw [if_pos hu, if_pos (by exact hu)]
    rfl
  · rw [if_neg hu, if_neg (by exact hu)]

theorem parent?_add (st : Store) (scope : Scope) (u : ScopeId) :
    (st.add scope).parent? u = if u = st.size then scope.parent else st.parent? u := by
  unfold parent? add
  rw [Array.getElem?_push]
  by_cases hu : u = st.size
  · rw [if_pos hu, if_pos (by exact hu)]
    rfl
  · rw [if_neg hu, if_neg (by exact hu)]

/-! ## A name bound anew -/

@[simp] theorem size_bind (st : Store) (s : ScopeId) (name : String) (b : Binding) :
    (st.bind s name b).size = st.size :=
  Array.size_modify ..

theorem local?_bind (st : Store) (s u : ScopeId) (name x : String) (b : Binding) :
    (st.bind s name b).local? u x =
      if u = s ∧ x = name ∧ s < st.size then some b else st.local? u x := by
  unfold local? bind
  rw [Array.getElem?_modify]
  by_cases hu : u = s
  · subst hu
    rw [if_pos rfl]
    rcases Nat.lt_or_ge u st.size with hlt | hge
    · have hget : st.scopes[u]? = some st.scopes[u] := Array.getElem?_eq_getElem hlt
      rw [hget]
      simp [Scope.find?_bind, hlt]
    · have hget : st.scopes[u]? = none := Array.getElem?_eq_none hge
      rw [hget, if_neg fun h => Nat.not_lt.mpr hge h.2.2]
      rfl
  · rw [if_neg (Ne.symm hu), if_neg (fun h => hu h.1)]

@[simp] theorem parent?_bind (st : Store) (s u : ScopeId) (name : String) (b : Binding) :
    (st.bind s name b).parent? u = st.parent? u := by
  unfold parent? bind
  rw [Array.getElem?_modify]
  by_cases hu : s = u
  · rw [if_pos hu]
    cases st.scopes[u]? <;> rfl
  · rw [if_neg hu]

theorem lt_size_of_local? (h : st.local? s x = some b) : s < st.size := by
  rcases Nat.lt_or_ge s st.size with hlt | hge
  · exact hlt
  · rw [local?, Array.getElem?_eq_none hge] at h
    cases h

theorem lt_size_of_parent? {p : ScopeId} (h : st.parent? s = some p) : s < st.size := by
  rcases Nat.lt_or_ge s st.size with hlt | hge
  · exact hlt
  · rw [parent?, Array.getElem?_eq_none hge] at h
    cases h

/-! ## The walk outward -/

theorem resolve?_of_local? (h : st.local? s x = some b) : st.resolve? x s = some (s, b) := by
  obtain ⟨scope, hscope, hfind⟩ := Option.bind_eq_some_iff.mp h
  rw [resolve?, hscope]
  dsimp only
  rw [hfind]

/-- A scope that does not bind a name leaves it to its parent. -/
theorem resolve?_outward (h : st.local? s x = none) :
    st.resolve? x s = (st.parent? s).bind fun p => if p < s then st.resolve? x p else none := by
  rw [resolve?, parent?]
  cases hscope : st.scopes[s]? with
  | none => rfl
  | some scope =>
    have hfind : scope.find? x = none := by simpa [local?, hscope] using h
    dsimp only [Option.bind_some]
    rw [hfind]
    cases scope.parent <;> rfl

/-- Where the walk outward ends, the name is bound, and everything that a scope with the
name's scope outside it passes on to its parent holds there. -/
theorem resolve?_eq_some {P : ScopeId → Prop} (h : st.resolve? x s = some (t, b)) (hs : P s)
    (hparent : ∀ u p, P u → st.parent? u = some p → P p) : P t ∧ st.local? t x = some b := by
  induction s using Nat.strongRecOn with
  | _ s ih =>
    cases hlocal : st.local? s x with
    | some b' =>
      rw [resolve?_of_local? hlocal] at h
      cases h
      exact ⟨hs, hlocal⟩
    | none =>
      rw [resolve?_outward hlocal] at h
      obtain ⟨p, hp, h⟩ := Option.bind_eq_some_iff.mp h
      split at h
      · next hlt => exact ih p hlt h (hparent s p hs hp)
      · cases h

theorem local?_of_resolve? (h : st.resolve? x s = some (t, b)) : st.local? t x = some b :=
  (resolve?_eq_some (P := fun _ => True) h trivial fun _ _ _ _ => trivial).2

/-! ## Definitions and assignments -/

/-- A definition binds the name, unless the scope itself holds it as a constant. -/
theorem define_cases (st : Store) (s : ScopeId) (name : String) (value : Value)
    (constant : Bool) (line : Nat) :
    (∃ b, st.local? s name = some b ∧ b.constant = true ∧
      st.define s name value constant line = (st, some (.assignToConstant name line))) ∨
    ((∀ b, st.local? s name = some b → b.constant = false) ∧
      st.define s name value constant line = (st.bind s name ⟨value, constant⟩, none)) := by
  unfold define
  cases hlocal : st.local? s name with
  | none => exact .inr ⟨fun b hb => (nomatch hb), rfl⟩
  | some b =>
    cases hconstant : b.constant with
    | true => exact .inl ⟨b, rfl, hconstant, by simp [hconstant]⟩
    | false =>
      refine .inr ⟨fun b' hb => ?_, by simp [hconstant]⟩
      cases hb
      exact hconstant

theorem local?_define {st st' : Store} {s : ScopeId} {name : String} {v : Value}
    {constant : Bool} {line : Nat} (hs : s < st.size)
    (h : st.define s name v constant line = (st', none)) :
    st'.local? s name = some ⟨v, constant⟩ ∧ st'.size = st.size := by
  rcases define_cases st s name v constant line with ⟨b, -, -, h'⟩ | ⟨-, h'⟩
  · rw [h'] at h
    cases h
  · rw [h'] at h
    cases h
    exact ⟨by rw [local?_bind, if_pos ⟨rfl, rfl, hs⟩], size_bind ..⟩

/-- An assignment changes the nearest binding of the name, unless that is a constant. -/
theorem assign_cases (st : Store) (s : ScopeId) (name : String) (value : Value) (line : Nat) :
    (st.resolve? name s = none ∧
      st.assign s name value line = (st, some (.undefinedVariable name line))) ∨
    (∃ t b, st.resolve? name s = some (t, b) ∧ b.constant = true ∧
      st.assign s name value line = (st, some (.assignToConstant name line))) ∨
    (∃ t b, st.resolve? name s = some (t, b) ∧ b.constant = false ∧
      st.assign s name value line = (st.bind t name ⟨value, false⟩, none)) := by
  unfold assign
  cases hresolve : st.resolve? name s with
  | none => exact .inl ⟨rfl, rfl⟩
  | some p =>
    obtain ⟨t, b⟩ := p
    cases hconstant : b.constant with
    | true => exact .inr (.inl ⟨t, b, rfl, hconstant, by simp [hconstant]⟩)
    | false => exact .inr (.inr ⟨t, b, rfl, hconstant, by simp [hconstant]⟩)

section Preservation

variable {st' : Store} {value : Value} {constant : Bool} {line : Nat} {fault? : Option Fault}
  {P : Store → Prop}

/-- What a store has and its new binding keeps, it has behind a definition. -/
theorem define_preserves (h : st.define s name value constant line = (st', fault?)) (hst : P st)
    (hbind : (∀ b, st.local? s name = some b → b.constant = false) →
      P (st.bind s name ⟨value, constant⟩)) : P st' := by
  rcases define_cases st s name value constant line with ⟨b, -, -, h'⟩ | ⟨hfree, h'⟩
  · rw [h'] at h
    cases h
    exact hst
  · rw [h'] at h
    cases h
    exact hbind hfree

/-- What a store has and its new value keeps, it has behind an assignment. -/
theorem assign_preserves (h : st.assign s name value line = (st', fault?)) (hst : P st)
    (hbind : ∀ t b, st.resolve? name s = some (t, b) → b.constant = false →
      P (st.bind t name ⟨value, false⟩)) : P st' := by
  rcases assign_cases st s name value line with
      ⟨-, h'⟩ | ⟨t, b, -, -, h'⟩ | ⟨t, b, hresolve, hvariable, h'⟩
  · rw [h'] at h
    cases h
    exact hst
  · rw [h'] at h
    cases h
    exact hst
  · rw [h'] at h
    cases h
    exact hbind t b hresolve hvariable

theorem size_define (h : st.define s name value constant line = (st', fault?)) :
    st'.size = st.size :=
  define_preserves (P := fun st' => st'.size = st.size) h rfl fun _ => size_bind ..

end Preservation

end Store

end ExprLang
