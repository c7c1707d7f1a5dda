import ExprLang.Proofs.Store.Evolution
import ExprLang.Proofs.Store.Lookup

/-!
Stores grow. No scope disappears, moves to another parent or loses a name, so that a name
that can be looked up from a scope can be looked up from there for ever
(`Extends.resolvable`).
-/

namespace ExprLang.Store

/-- Every scope is still there, in its place and with all its names. -/
structure Extends (st st' : Store) : Prop where
  size_le : st.size ≤ st'.size
  parent : ∀ s < st.size, st'.parent? s = st.parent? s
  bound : ∀ s x, (st.local? s x).isSome → (st'.local? s x).isSome

theorem Extends.refl (st : Store) : st.Extends st :=
  ⟨Nat.le_refl _, fun _ _ => rfl, fun _ _ h => h⟩

theorem Extends.trans {st st' st'' : Store} (h : st.Extends st') (h' : st'.Extends st'') :
    st.Extends st'' where
  size_le := Nat.le_trans h.size_le h'.size_le
  parent s hs := (h'.parent s (Nat.lt_of_lt_of_le hs h.size_le)).trans (h.parent s hs)
  bound s x hx := h'.bound s x (h.bound s x hx)

theorem lt_size_of_bound {st : Store} {s : ScopeId} {x : String} (h : (st.local? s x).isSome) :
    s < st.size := by
  obtain ⟨b, hb⟩ := Option.isSome_iff_exists.mp h
  exact lt_size_of_local? hb

theorem extends_add (st : Store) (scope : Scope) : st.Extends (st.add scope) := by
  refine ⟨by simp, fun s hs => ?_, fun s x hx => ?_⟩
  · rw [parent?_add, if_neg (Nat.ne_of_lt hs)]
  · rw [local?_add, if_neg (Nat.ne_of_lt (lt_size_of_bound hx))]
    exact hx

theorem extends_bind (st : Store) (s : ScopeId) (name : String) (b : Binding) :
    st.Extends (st.bind s name b) := by
  refine ⟨by simp, fun u _ => by simp, fun u x hx => ?_⟩
  rw [local?_bind]
  split
  · rfl
  · exact hx

theorem Change.extends {st st' : Store} (h : Change st st') : st.Extends st' := by
  cases h with
  | add scope => exact extends_add st scope
  | define s name value constant line =>
    exact define_preserves rfl (.refl st) fun _ => extends_bind ..
  | assign s name value line =>
    exact assign_preserves rfl (.refl st) fun _ _ _ _ => extends_bind ..

theorem Evolves.extends {st st' : Store} (h : st.Evolves st') : st.Extends st' := by
  induction h with
  | refl => exact .refl st
  | tail _ hchange ih => exact ih.trans hchange.extends

/-- A name that can be looked up from a scope stays so: where the walk ended, or on the
way there, the name is bound in the new store. -/
theorem Extends.resolvable {st st' : Store} (h : st.Extends st') {s : ScopeId} {x : String}
    (hx : (st.resolve? x s).isSome) : (st'.resolve? x s).isSome := by
  induction s using Nat.strongRecOn with
  | _ s ih =>
    cases hlocal' : st'.local? s x with
    | some b =>
      rw [resolve?_of_local? hlocal']
      rfl
    | none =>
      have hlocal : st.local? s x = none := by
        cases hlocal : st.local? s x with
        | none => rfl
        | some b =>
          have hbound := h.bound s x (by rw [hlocal]; rfl)
          rw [hlocal'] at hbound
          cases hbound
      rw [resolve?_outward hlocal] at hx
      rw [resolve?_outward hlocal']
      cases hparent : st.parent? s with
      | none =>
        rw [hparent] at hx
        cases hx
      | some p =>
        have hs : s < st.size := lt_size_of_parent? hparent
        rw [hparent] at hx
        rw [h.parent s hs, hparent]
        dsimp only [Option.bind_some] at hx ⊢
        split at hx
        · next hp =>
          rw [if_pos hp]
          exact ih p hp hx
        · cases hx

end ExprLang.Store
