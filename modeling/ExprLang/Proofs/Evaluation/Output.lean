import ExprLang.Machine

/-!
What has been written. The machine only ever writes behind what is there, and what is
there has no influence on what it does.

* `step_behind`, `run_behind`: a step and a run behind other output;
* `Expr.eval_behind`: an evaluation behind other output;
* `run_written`: nothing that was written is taken back.
-/

namespace ExprLang

namespace Machine

/-- The configuration with its output behind something that was written before. -/
def Config.behind (before : String) (c : Config) : Config :=
  { c with state := { c.state with output := before ++ c.state.output } }

/-- The outcome with its output behind something that was written before. -/
def Outcome.behind (before : String) (o : Outcome) : Outcome :=
  { o with state := { o.state with output := before ++ o.state.output } }

/-- The same for what a step leads to. -/
def Step.behind (before : String) : Step → Step
  | .next c => .next (c.behind before)
  | .done o => .done (o.behind before)

section Steps

variable {limits : Limits} (before : String) (frames : List Frame) (st : Store)
  (output : String) (calls : Nat)

theorem answer_behind (r : Except Fault Value) :
    Config.answer r frames st (before ++ output) calls =
      (Config.answer r frames st output calls).behind before := by
  cases r <;> rfl

theorem giveStored_behind (v : Value) (change : Store × Option Fault) :
    Config.giveStored v change frames (before ++ output) calls =
      (Config.giveStored v change frames output calls).behind before := by
  obtain ⟨st', fault?⟩ := change
  cases fault? <;> rfl

/-- Only here something is written. -/
theorem apply_behind (callee : Value) (args : List Value) (line : Nat) :
    apply limits callee args line frames st (before ++ output) calls =
      (apply limits callee args line frames st output calls).behind before := by
  unfold apply
  split
  · split
    · split
      · simp only [String.append_assoc]
        rfl
      · rfl
    · rfl
  · next c =>
    split
    · rfl
    · split
      · rfl
      · dsimp only
        split <;> rfl
  · rfl

theorem applyAfter_behind (callee : Value) (values : List Value) (rest : List Expr)
    (line : Nat) (s : ScopeId) :
    applyAfter limits callee values rest line s frames st (before ++ output) calls =
      (applyAfter limits callee values rest line s frames st output calls).behind before := by
  cases rest with
  | nil => exact apply_behind ..
  | cons e rest => rfl

theorem enter_behind (e : Expr) (s : ScopeId) :
    enter e s frames st (before ++ output) calls =
      (enter e s frames st output calls).behind before := by
  cases e with
  | identifier name line => exact answer_behind ..
  | sequence items =>
    match items with
    | [] => rfl
    | [_] => rfl
    | _ :: _ :: _ => rfl
  | choice arms => cases arms <;> rfl
  | _ => rfl

theorem resume_behind (v : Value) (frame : Frame) :
    resume limits v frame frames st (before ++ output) calls =
      (resume limits v frame frames st output calls).behind before := by
  cases frame with
  | declare name constant line s => exact giveStored_behind ..
  | assign name line s => exact giveStored_behind ..
  | guard body rest s =>
    dsimp only [resume]
    split <;> rfl
  | loopGuard condition body line s =>
    dsimp only [resume]
    split <;> rfl
  | callee arguments line s => exact applyAfter_behind ..
  | argument callee values rest line s => exact applyAfter_behind ..
  | right op left line => exact answer_behind ..
  | operand op line => exact answer_behind ..
  | _ => rfl

end Steps

variable {limits : Limits}

theorem step_behind (before : String) (c : Config) :
    step limits (c.behind before) = (step limits c).behind before := by
  obtain ⟨control, frames, ⟨⟨st, output⟩, calls⟩⟩ := c
  cases control with
  | eval e s => exact congrArg Step.next (enter_behind ..)
  | give v =>
    cases frames with
    | nil => rfl
    | cons frame frames => exact congrArg Step.next (resume_behind ..)
  | fail f => cases frames <;> rfl

theorem run_behind (before : String) (n : Nat) (c : Config) :
    run limits n (c.behind before) = (run limits n c).map (Outcome.behind before) := by
  induction n generalizing c with
  | zero => rfl
  | succ n ih =>
    rw [run, run, step_behind]
    cases step limits c with
    | next c' => exact ih c'
    | done o => rfl

/-- A run writes behind what was there. -/
theorem run_written {n : Nat} {c : Config} {o : Outcome} (h : run limits n c = some o) :
    ∃ written, o.state.output = c.state.output ++ written := by
  have hsplit : c = ({ c with state := { c.state with output := "" } } : Config).behind
      c.state.output := by
    simp [Config.behind]
  rw [hsplit, run_behind] at h
  obtain ⟨o', -, rfl⟩ := Option.map_eq_some_iff.mp h
  exact ⟨o'.state.output, rfl⟩

end Machine

open Machine

/-- What was written before an evaluation has no influence on it. -/
theorem Expr.eval_behind (limits : Limits) (n : Nat) (e : Expr) (s : ScopeId) (st : Store)
    (before output : String) (calls : Nat) :
    e.eval limits n s ⟨⟨st, before ++ output⟩, calls⟩ =
      (e.eval limits n s ⟨⟨st, output⟩, calls⟩).map (Outcome.behind before) :=
  run_behind before n (start e s ⟨⟨st, output⟩, calls⟩)

end ExprLang
