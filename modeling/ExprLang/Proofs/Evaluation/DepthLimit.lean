import ExprLang.Proofs.Evaluation.Adequacy
import ExprLang.Proofs.Evaluation.Faults
import ExprLang.Proofs.Evaluation.Output
import ExprLang.Program

/-!
The limit on calls in progress is a cut-off and nothing else. Two machines that differ in
this limit alone go through the same configurations, until the one with the smaller limit
refuses a call. From there on its fault only moves out through the frames, while the other
machine goes on and writes behind what both have written.

* `apply_raise`, `step_raise`: one step under two limits;
* `run_raise`: a run under two limits;
* `eval_depth_limit`: the property of whole evaluations.
-/

namespace ExprLang

namespace Machine

/-! ## Runs -/

/-- How a run ends does not depend on how many steps it is allowed. -/
theorem run_unique {limits : Limits} {m n : Nat} {c : Config} {o o' : Outcome}
    (h : run limits m c = some o) (h' : run limits n c = some o') : o = o' := by
  induction m generalizing n c with
  | zero => cases h
  | succ m ih =>
    cases n with
    | zero => cases h'
    | succ n =>
      rw [run] at h h'
      cases hstep : step limits c with
      | next c' =>
        rw [hstep] at h h'
        exact ih h h'
      | done o'' =>
        rw [hstep] at h h'
        cases h
        cases h'
        rfl

/-- A fault on its way out changes no scope and writes nothing. -/
theorem run_fail {limits : Limits} {n : Nat} {f : Fault} {frames : List Frame} {state : State}
    {o : Outcome} (h : run limits n ⟨.fail f, frames, state⟩ = some o) :
    o.result = .error f ∧ o.state.toWorld = state.toWorld := by
  induction n generalizing frames state with
  | zero => cases h
  | succ n ih =>
    cases frames with
    | nil =>
      cases h
      exact ⟨rfl, rfl⟩
    | cons frame frames =>
      obtain ⟨⟨st, output⟩, calls⟩ := state
      change run limits n (.fail f frames st output (frame.callsAfter calls)) = some o at h
      obtain ⟨hresult, hworld⟩ := ih h
      exact ⟨hresult, hworld⟩

/-! ## Two limits -/

/-- The configuration in which a call is refused because of the limit. -/
def Config.refused (limit : Nat) (frames : List Frame) (c : Config) : Config :=
  { c with control := .fail (.tooDeep limit), frames }

section Raise

variable {M N : Nat} {writable : Bool}

/-- A call comes to the same under a larger limit, unless it is refused. -/
theorem apply_raise (hle : N ≤ M) (callee : Value) (args : List Value) (line : Nat)
    (frames : List Frame) (st : Store) (output : String) (calls : Nat) :
    apply ⟨M, writable⟩ callee args line frames st output calls =
        apply ⟨N, writable⟩ callee args line frames st output calls ∨
      apply ⟨N, writable⟩ callee args line frames st output calls =
        .fail (.tooDeep N) frames st output calls := by
  cases callee with
  | closure c =>
    by_cases harity : args.length = c.params.length
    · rcases Nat.lt_or_ge calls N with hdepth | hdepth
      · have hdepth' : calls < M := Nat.lt_of_lt_of_le hdepth hle
        refine .inl ?_
        unfold apply
        simp only [if_neg (not_not_intro harity), if_neg (Nat.not_le.mpr hdepth),
          if_neg (Nat.not_le.mpr hdepth')]
      · exact .inr (apply_too_deep harity hdepth)
    · refine .inl ?_
      rw [apply_closure_arity harity, apply_closure_arity harity]
  | builtin b => exact .inl rfl
  | _ => exact .inl rfl

theorem applyAfter_raise (hle : N ≤ M) (callee : Value) (before : List Value)
    (rest : List Expr) (line : Nat) (s : ScopeId) (frames : List Frame) (st : Store)
    (output : String) (calls : Nat) :
    applyAfter ⟨M, writable⟩ callee before rest line s frames st output calls =
        applyAfter ⟨N, writable⟩ callee before rest line s frames st output calls ∨
      applyAfter ⟨N, writable⟩ callee before rest line s frames st output calls =
        .fail (.tooDeep N) frames st output calls := by
  cases rest with
  | nil => exact apply_raise hle ..
  | cons e rest => exact .inl rfl

/-- A step is the same under a larger limit, unless it refuses a call. -/
theorem step_raise (hle : N ≤ M) (c : Config) :
    step ⟨M, writable⟩ c = step ⟨N, writable⟩ c ∨
      ∃ frames, step ⟨N, writable⟩ c = .next (c.refused N frames) := by
  obtain ⟨control, frames, ⟨⟨st, output⟩, calls⟩⟩ := c
  cases control with
  | eval e s => exact .inl rfl
  | fail f => cases frames <;> exact .inl rfl
  | give v =>
    cases frames with
    | nil => exact .inl rfl
    | cons frame frames =>
      -- Only what comes to a call looks at the limit.
      cases frame with
      | callee arguments line s =>
        exact (applyAfter_raise hle v [] arguments line s frames st output calls).imp
          (congrArg Step.next) fun h => ⟨frames, congrArg Step.next h⟩
      | argument callee before rest line s =>
        exact (applyAfter_raise hle callee (v :: before) rest line s frames st output
          calls).imp (congrArg Step.next) fun h => ⟨frames, congrArg Step.next h⟩
      | _ => exact .inl rfl

/-- A run that ends does so under a larger limit too and in the same way, unless it ends
because of its limit. Then it has not written more than any run under the larger one. -/
theorem run_raise (hle : N ≤ M) {n : Nat} {c : Config} {o : Outcome}
    (h : run ⟨N, writable⟩ n c = some o) :
    run ⟨M, writable⟩ n c = some o ∨
      (o.result = .error (.tooDeep N) ∧
        ∀ m o', run ⟨M, writable⟩ m c = some o' →
          ∃ more, o'.state.output = o.state.output ++ more) := by
  induction n generalizing c with
  | zero => cases h
  | succ n ih =>
    have hraise : step ⟨M, writable⟩ c = step ⟨N, writable⟩ c ∨
        ∃ frames, step ⟨N, writable⟩ c = .next (c.refused N frames) := step_raise hle c
    rcases hraise with hsame | ⟨frames, hrefused⟩
    · rw [run] at h ⊢
      rw [hsame]
      cases hstep : step ⟨N, writable⟩ c with
      | done o' =>
        rw [hstep] at h
        exact .inl h
      | next c' =>
        rw [hstep] at h
        rcases ih h with heq | ⟨hresult, hmore⟩
        · exact .inl heq
        · refine .inr ⟨hresult, fun m o' h' => ?_⟩
          cases m with
          | zero => cases h'
          | succ m =>
            rw [run, hsame, hstep] at h'
            exact hmore m o' h'
    · rw [run, hrefused] at h
      obtain ⟨hresult, hworld⟩ := run_fail h
      refine .inr ⟨hresult, fun m o' h' => ?_⟩
      have houtput : o.state.output = c.state.output := congrArg World.output hworld
      rw [houtput]
      exact run_written h'

end Raise

end Machine

open Machine

/-- An evaluation under a limit on calls ends under every larger limit in the same way, if
it does not run into its limit. If it does, its fault shows the limit, and what it has
written is the beginning of what an evaluation under a larger limit writes. -/
theorem eval_depth_limit {N M : Nat} (hle : N ≤ M) {writable : Bool} {n : Nat} {e : Expr}
    {s : ScopeId} {state : State} {o : Outcome}
    (h : e.eval ⟨N, writable⟩ n s state = some o) :
    ((∀ limit, o.result ≠ .error (.tooDeep limit)) →
      e.eval ⟨M, writable⟩ n s state = some o) ∧
    (∀ limit, o.result = .error (.tooDeep limit) →
      limit = N ∧ ∀ m o', e.eval ⟨M, writable⟩ m s state = some o' →
        ∃ more, o'.state.output = o.state.output ++ more) := by
  have hraise := run_raise hle h
  constructor
  · intro hresult
    rcases hraise with heq | ⟨hdeep, -⟩
    · exact heq
    · exact absurd hdeep (hresult N)
  · intro limit hresult
    have harises : (Fault.tooDeep limit).Arises ⟨N, writable⟩ :=
      (evaluates_of_eval h).2.arises hresult
    refine ⟨harises, fun m o' h' => ?_⟩
    rcases hraise with heq | ⟨-, hmore⟩
    · have hsame : o = o' := run_unique heq h'
      exact ⟨"", by simp [hsame]⟩
    · exact hmore m o' h'

/-- `outn(1); (func() => { outn(2) })()`. -/
def calledTwice : Expr :=
  .sequence [
    .call (.identifier "outn" 1) [.number 1] 1,
    .call (.function [] (.call (.identifier "outn" 1) [.number 2] 1) 1) [] 1]

/-- Without room for a call the program ends behind its first line of output; one call at a
time is enough for it, and then a larger limit makes no difference. -/
theorem eval_depth_limit_called_twice :
    ∃ o o', (calledTwice.eval ⟨0, true⟩ 30 State.rootScope .fresh = some o ∧
        o.result = .error (.tooDeep 0)) ∧
      (calledTwice.eval ⟨1, true⟩ 30 State.rootScope .fresh = some o' ∧
        o'.result.isOk) ∧
      (∃ more, o'.state.output = o.state.output ++ more) ∧
      calledTwice.eval ⟨2, true⟩ 30 State.rootScope .fresh = some o' := by
  have hrun : (calledTwice.eval ⟨0, true⟩ 30 State.rootScope .fresh).any
      (fun o => o.result matches .error (.tooDeep 0)) = true := by decide +kernel
  have hrun' : (calledTwice.eval ⟨1, true⟩ 30 State.rootScope .fresh).any
      (fun o => o.result.isOk) = true := by decide +kernel
  obtain ⟨o, ho, hmatch⟩ := (Option.any_eq_true ..).mp hrun
  obtain ⟨o', ho', hok⟩ := (Option.any_eq_true ..).mp hrun'
  have hdeep : o.result = .error (.tooDeep 0) := by
    split at hmatch
    · assumption
    · cases hmatch
  have hmore := ((eval_depth_limit (Nat.zero_le 1) ho).2 0 hdeep).2 30 o' ho'
  have hsame := (eval_depth_limit (Nat.le_succ 1) ho').1 fun limit h => by
    rw [h] at hok
    cases hok
  exact ⟨o, o', ⟨ho, hdeep⟩, ⟨ho', hok⟩, hmore, hsame⟩

end ExprLang
