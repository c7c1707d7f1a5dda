import ExprLang.Proofs.Evaluation.DepthLimit
import ExprLang.Proofs.Store.ScopeGraph

/-!
The course of an evaluation, step by step. A step writes one line at most, and then it has a value
and no fault; it adds a call in progress only below the limit. So the limit holds all the way, and
what a failing evaluation has written is what was there when the fault arose.

* `step_proceeds`: what a step does to the output and to the number of calls in progress;
* `Comes.calls_le`: the number of calls in progress stays within the limit;
* `run_raised`: a run that fails raised its fault in one step, and wrote nothing from there on.
-/

namespace ExprLang.Machine

/-- What a step from an output and a number of calls in progress can lead to. -/
structure Proceeds (limits : Limits) (output : String) (calls : Nat) (c : Config) : Prop where
  written : c.state.output = output ∨
    ∃ v : Value, c.control = .give .null ∧ c.state.output = output ++ v.text ++ "\n"
  counted : c.state.calls ≤ calls ∨ calls < limits.depth ∧ c.state.calls = calls + 1

section Steps

variable {limits : Limits} (frames : List Frame) (st : Store) (output : String) (calls : Nat)

/-- Most steps write nothing and leave the calls alone. -/
theorem proceeds_quietly (control : Control) :
    Proceeds limits output calls ⟨control, frames, ⟨⟨st, output⟩, calls⟩⟩ :=
  ⟨.inl rfl, .inl (Nat.le_refl _)⟩

theorem proceeds_answer (r : Except Fault Value) :
    Proceeds limits output calls (.answer r frames st output calls) := by
  cases r <;> exact proceeds_quietly ..

theorem proceeds_giveStored (v : Value) (change : Store × Option Fault) :
    Proceeds limits output calls (.giveStored v change frames output calls) := by
  obtain ⟨st', fault?⟩ := change
  cases fault? <;> exact proceeds_quietly ..

/-- Only a call can write, and only a call can add a call in progress. -/
theorem proceeds_apply (callee : Value) (args : List Value) (line : Nat) :
    Proceeds limits output calls (apply limits callee args line frames st output calls) := by
  unfold apply
  split
  · split
    · next v =>
      split
      · exact ⟨.inr ⟨v, rfl, rfl⟩, .inl (Nat.le_refl _)⟩
      · exact proceeds_quietly ..
    · exact proceeds_quietly ..
  · next c =>
    split
    · exact proceeds_quietly ..
    · split
      · exact proceeds_quietly ..
      · next hdepth =>
        dsimp only
        split
        · exact ⟨.inl rfl, .inr ⟨Nat.not_le.mp hdepth, rfl⟩⟩
        · exact proceeds_quietly ..
  · exact proceeds_quietly ..

theorem proceeds_applyAfter (callee : Value) (before : List Value) (rest : List Expr)
    (line : Nat) (s : ScopeId) :
    Proceeds limits output calls
      (applyAfter limits callee before rest line s frames st output calls) := by
  cases rest with
  | nil => exact proceeds_apply ..
  | cons e rest => exact proceeds_quietly ..

theorem proceeds_enter (e : Expr) (s : ScopeId) :
    Proceeds limits output calls (enter e s frames st output calls) := by
  cases e with
  | identifier name line => exact proceeds_answer ..
  | sequence items =>
    match items with
    | [] | [_] | _ :: _ :: _ => exact proceeds_quietly ..
  | choice arms => cases arms <;> exact proceeds_quietly ..
  | _ => exact proceeds_quietly ..

theorem proceeds_resume (v : Value) (frame : Frame) :
    Proceeds limits output calls (resume limits v frame frames st output calls) := by
  cases frame with
  | declare name constant line s => exact proceeds_giveStored ..
  | assign name line s => exact proceeds_giveStored ..
  | guard body rest s =>
    dsimp only [resume]
    split <;> exact proceeds_quietly ..
  | loopGuard condition body line s =>
    dsimp only [resume]
    split <;> exact proceeds_quietly ..
  | callee arguments line s => exact proceeds_applyAfter ..
  | argument callee before rest line s => exact proceeds_applyAfter ..
  | right op left line => exact proceeds_answer ..
  | operand op line => exact proceeds_answer ..
  | leave => exact ⟨.inl rfl, .inl (Nat.sub_le ..)⟩
  | _ => exact proceeds_quietly ..

end Steps

variable {limits : Limits}

theorem Frame.callsAfter_le (calls : Nat) (frame : Frame) : frame.callsAfter calls ≤ calls := by
  cases frame with
  | leave => exact Nat.sub_le ..
  | _ => exact Nat.le_refl _

theorem step_proceeds {c c' : Config} (h : step limits c = .next c') :
    Proceeds limits c.state.output c.state.calls c' := by
  obtain ⟨control, frames, ⟨⟨st, output⟩, calls⟩⟩ := c
  cases control with
  | eval e s =>
    cases h
    exact proceeds_enter ..
  | give v =>
    cases frames with
    | nil => cases h
    | cons frame frames =>
      cases h
      exact proceeds_resume ..
  | fail f =>
    cases frames with
    | nil => cases h
    | cons frame frames =>
      cases h
      exact ⟨.inl rfl, .inl (frame.callsAfter_le calls)⟩

/-- A step that ends with a fault writes nothing. -/
theorem output_of_step_fail {c c' : Config} (h : step limits c = .next c') {f : Fault}
    (hf : c'.control = .fail f) : c'.state.output = c.state.output := by
  rcases (step_proceeds h).written with hsame | ⟨v, hgive, -⟩
  · exact hsame
  · rw [hf] at hgive
    cases hgive

/-- The calls in progress stay within the limit in the course of an evaluation. -/
theorem Comes.calls_le {c c' : Config} (h : Comes limits c c')
    (hc : c.state.calls ≤ limits.depth) : c'.state.calls ≤ limits.depth := by
  induction h with
  | refl => exact hc
  | tail _ hstep ih =>
    rcases (step_proceeds hstep).counted with hle | ⟨hlt, heq⟩
    · exact Nat.le_trans hle ih
    · rw [heq]
      exact hlt

/-! ## Where a fault arises -/

/-- The next step raises a fault: so far there is none. -/
def Raises (limits : Limits) (c : Config) (f : Fault) : Prop :=
  (∀ g, c.control ≠ .fail g) ∧ ∃ c', step limits c = .next c' ∧ c'.control = .fail f

/-- A run that ends with a fault comes to a step that raises it. At this point it has written all
that it ever writes. -/
theorem run_raised {n : Nat} {c : Config} {o : Outcome} (h : run limits n c = some o)
    {f : Fault} (hf : o.result = .error f) (hc : ∀ g, c.control ≠ .fail g) :
    ∃ c', Comes limits c c' ∧ Raises limits c' f ∧ o.state.output = c'.state.output := by
  induction n generalizing c with
  | zero => cases h
  | succ n ih =>
    rw [run] at h
    cases hstep : step limits c with
    | done o' =>
      rw [hstep] at h
      cases h
      unfold step at hstep
      split at hstep <;> cases hstep
      · cases hf
      · exact absurd rfl (hc _)
    | next c' =>
      rw [hstep] at h
      cases hcontrol : c'.control with
      | fail g =>
        obtain ⟨control, frames, state⟩ := c'
        obtain rfl : control = .fail g := hcontrol
        obtain ⟨hresult, hworld⟩ := run_fail h
        rw [hf] at hresult
        cases hresult
        refine ⟨c, .refl, ⟨hc, _, hstep, rfl⟩, ?_⟩
        rw [hworld]
        exact output_of_step_fail hstep rfl
      | eval _ _ | give _ =>
        obtain ⟨c'', hcomes, hraises, houtput⟩ := ih h fun g hg => by rw [hcontrol] at hg; cases hg
        exact ⟨c'', hcomes.head hstep, hraises, houtput⟩

end ExprLang.Machine
