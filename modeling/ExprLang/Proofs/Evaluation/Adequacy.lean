import ExprLang.Proofs.Evaluation.Simulation

/-!
What the machine does, the rules derive. A run that ends has, after the steps of a task,
come to a result of that task on top of the frames that were waiting at its start. The
proof is a strong induction on the length of the run, since loops and calls go on with
expressions that are no parts of the first one.

* `evaluates_of_eval`: the outcome of a run follows from the rules;
* `eval_iff_evaluates`: machine and rules agree.
-/

namespace ExprLang.Machine

variable {limits : Limits} {n d line : Nat} {s : ScopeId} {w : World} {o : Outcome}
  {frames : List Frame}

theorem run_next {c c' : Config} (h : run limits n c = some o) (hstep : step limits c = .next c') :
    ∃ m < n, run limits m c' = some o := by
  cases n with
  | zero => cases h
  | succ n =>
    rw [run, hstep] at h
    exact ⟨n, Nat.lt_succ_self n, h⟩

/-- The rest of a run of fewer than `n` steps begins with the result of an expression. -/
def Follows (limits : Limits) (n : Nat) (o : Outcome) (d : Nat) (s : ScopeId) (e : Expr)
    (w : World) (frames : List Frame) : Prop :=
  ∃ r w', ∃ m < n, Evaluates limits d s (.expr e) w r w' ∧
    run limits m (.answer r frames w'.store w'.output d) = some o

/-- In a run of `n` steps the rules explain what an expression leads to. -/
def Explained (limits : Limits) (n : Nat) : Prop :=
  ∀ {o d s e w frames}, run limits n (.eval e s frames w.store w.output d) = some o →
    Follows limits n o d s e w frames

/-- An expression in front of a frame: its value goes to the frame, its fault past it. -/
theorem run_part {e : Expr} {frame : Frame} (ih : Explained limits n)
    (hframe : frame.callsAfter d = d)
    (h : run limits n (.eval e s (frame :: frames) w.store w.output d) = some o) :
    (∃ v w', ∃ m < n, Evaluates limits d s (.expr e) w (.ok v) w' ∧
      run limits m (resume limits v frame frames w'.store w'.output d) = some o) ∨
    ∃ f w', ∃ m < n, Evaluates limits d s (.expr e) w (.error f) w' ∧
      run limits m (.fail f frames w'.store w'.output d) = some o := by
  obtain ⟨r, w', m, hm, he, h⟩ := ih h
  cases r with
  | ok v =>
    obtain ⟨k, hk, h⟩ := run_next h rfl
    exact .inl ⟨v, w', k, by omega, he, h⟩
  | error f =>
    obtain ⟨k, hk, h⟩ := run_next h rfl
    rw [hframe] at h
    exact .inr ⟨f, w', k, by omega, he, h⟩

/-! ## Calls -/

theorem explained_closure {c : Closure} {args : List Value} (ih : Explained limits n)
    (h : run limits n (apply limits (.closure c) args line frames w.store w.output d) = some o) :
    ∃ r w', ∃ m ≤ n, Evaluates limits d s (.call (.closure c) args line) w r w' ∧
      run limits m (.answer r frames w'.store w'.output d) = some o := by
  by_cases harity : args.length = c.params.length
  · rcases Nat.lt_or_ge d limits.depth with hdepth | hdepth
    · obtain ⟨⟨st, fault?⟩, hbind⟩ : ∃ p, bindParams (w.inside c.scope).store w.fresh line
        (c.params.zip args) = p := ⟨_, rfl⟩
      cases fault? with
      | none =>
        rw [apply_body harity hdepth hbind] at h
        obtain ⟨r, w', m, hm, hbody, h⟩ := ih (w := { w with store := st }) h
        have hleave : ∃ k < m, run limits k (.answer r frames w'.store w'.output d) = some o := by
          cases r with
          | ok v => exact run_next h rfl
          | error f => exact run_next h rfl
        obtain ⟨k, hk, h⟩ := hleave
        exact ⟨r, w', k, by omega, .body harity hdepth hbind hbody, h⟩
      | some f =>
        rw [apply_refused harity hdepth hbind] at h
        exact ⟨.error f, { w with store := st }, n, Nat.le_refl n,
          .parametersFail harity hdepth hbind, h⟩
    · rw [apply_too_deep harity hdepth] at h
      exact ⟨_, w, n, Nat.le_refl n, .tooDeep harity hdepth, h⟩
  · rw [apply_closure_arity harity] at h
    exact ⟨_, w, n, Nat.le_refl n, .functionArity harity, h⟩

theorem explained_builtin {b : Builtin} {args : List Value}
    (h : run limits n (apply limits (.builtin b) args line frames w.store w.output d) = some o) :
    ∃ r w', ∃ m ≤ n, Evaluates limits d s (.call (.builtin b) args line) w r w' ∧
      run limits m (.answer r frames w'.store w'.output d) = some o := by
  by_cases harity : args.length = b.arity
  · cases b with
    | outNumber =>
      obtain ⟨v, rfl⟩ := List.length_eq_one_iff.mp harity
      by_cases hwritable : limits.writable = true
      · simp only [apply, if_pos hwritable] at h
        exact ⟨.ok .null, { w with output := w.output ++ v.text ++ "\n" }, n, Nat.le_refl n,
          .written hwritable, h⟩
      · simp only [apply, if_neg hwritable] at h
        exact ⟨_, w, n, Nat.le_refl n, .outputFull (Bool.not_eq_true _ ▸ hwritable), h⟩
  · rw [apply_builtin_arity harity] at h
    exact ⟨_, w, n, Nat.le_refl n, .builtinArity harity, h⟩

theorem explained_call {callee : Value} {args : List Value} (ih : Explained limits n)
    (h : run limits n (apply limits callee args line frames w.store w.output d) = some o) :
    ∃ r w', ∃ m ≤ n, Evaluates limits d s (.call callee args line) w r w' ∧
      run limits m (.answer r frames w'.store w'.output d) = some o := by
  cases callee with
  | closure c => exact explained_closure ih h
  | builtin b => exact explained_builtin h
  | number _ | bool _ | null =>
    exact ⟨_, w, n, Nat.le_refl n, .notCallable (by simp) (by simp), h⟩

theorem explained_arguments {callee : Value} {es : List Expr} {before : List Value}
    (ih : ∀ k ≤ n, Explained limits k)
    (h : run limits n (applyAfter limits callee before es line s frames w.store w.output d) =
      some o) :
    ∃ r w', ∃ m ≤ n, Evaluates limits d s (.arguments es) w r w' ∧
      run limits m (applyAll limits callee before r line frames w'.store w'.output d) =
        some o := by
  induction es generalizing n before w with
  | nil =>
    refine ⟨.ok [], w, n, Nat.le_refl n, .noArguments, ?_⟩
    rw [applyAll, List.append_nil]
    exact h
  | cons e es ihes =>
    rcases run_part (ih n (Nat.le_refl n)) (w := w.inside s) rfl h with
      ⟨v, w₁, m, hm, he, h⟩ | ⟨f, w₁, m, hm, he, h⟩
    · obtain ⟨r, w₂, j, hj, hes, h⟩ := ihes (fun i hi => ih i (by omega)) h
      rw [applyAll_cons] at h
      exact ⟨_, w₂, j, by omega, .argument he hes, h⟩
    · exact ⟨.error f, w₁, m, by omega, .argumentFails he, h⟩

/-! ## Expressions -/

/-- An expression whose first step gives its result. -/
theorem explained_leaf {e : Expr} {r : Except Fault Value}
    (henter : enter e s frames w.store w.output d = .answer r frames w.store w.output d)
    (he : Evaluates limits d s (.expr e) w r w)
    (h : run limits n (.eval e s frames w.store w.output d) = some o) :
    Follows limits n o d s e w frames := by
  obtain ⟨k, hk, h⟩ := run_next h rfl
  rw [henter] at h
  exact ⟨r, w, k, hk, he, h⟩

section Nodes

variable (ih : ∀ k < n, Explained limits k)
include ih

theorem explained_declare {name : String} {constant : Bool} {value : Expr}
    (h : run limits n (.eval (.declare name constant value line) s frames w.store w.output d) =
      some o) :
    Follows limits n o d s (.declare name constant value line) w frames := by
  obtain ⟨k, hk, h⟩ := run_next h rfl
  rcases run_part (ih k hk) (w := w.inside s) rfl h with
    ⟨v, w₁, m, hm, hvalue, h⟩ | ⟨f, w₁, m, hm, hvalue, h⟩
  · obtain ⟨⟨st, fault?⟩, hdefine⟩ : ∃ p, w₁.store.define s name v constant line = p := ⟨_, rfl⟩
    rw [resume, hdefine, giveStored_eq] at h
    exact ⟨_, { w₁ with store := st }, m, by omega, .declare hvalue hdefine, h⟩
  · exact ⟨_, w₁, m, by omega, .declareFails hvalue, h⟩

theorem explained_assign {name : String} {value : Expr}
    (h : run limits n (.eval (.assign name value line) s frames w.store w.output d) = some o) :
    Follows limits n o d s (.assign name value line) w frames := by
  obtain ⟨k, hk, h⟩ := run_next h rfl
  rcases run_part (ih k hk) (w := w.inside s) rfl h with
    ⟨v, w₁, m, hm, hvalue, h⟩ | ⟨f, w₁, m, hm, hvalue, h⟩
  · obtain ⟨⟨st, fault?⟩, hassign⟩ : ∃ p, w₁.store.assign s name v line = p := ⟨_, rfl⟩
    rw [resume, hassign, giveStored_eq] at h
    exact ⟨_, { w₁ with store := st }, m, by omega, .assign hvalue hassign, h⟩
  · exact ⟨_, w₁, m, by omega, .assignFails hvalue, h⟩

theorem explained_sequence {items : List Expr}
    (h : run limits n (.eval (.sequence items) s frames w.store w.output d) = some o) :
    Follows limits n o d s (.sequence items) w frames := by
  obtain ⟨k, hk, h⟩ := run_next h rfl
  match items, h with
  | [], h => exact ⟨.ok .null, w, k, hk, .noItems, h⟩
  | [item], h =>
    obtain ⟨r, w₁, m, hm, hitem, h⟩ := ih k hk h
    exact ⟨r, w₁, m, by omega, .lastItem hitem, h⟩
  | item :: next :: items, h =>
    rcases run_part (ih k hk) rfl h with ⟨v, w₁, m, hm, hitem, h⟩ | ⟨f, w₁, m, hm, hitem, h⟩
    · obtain ⟨r, w₂, j, hj, hitems, h⟩ := ih m (by omega) h
      exact ⟨r, w₂, j, by omega, .item hitem hitems, h⟩
    · exact ⟨_, w₁, m, by omega, .itemFails hitem, h⟩

theorem explained_choice {arms : Arms}
    (h : run limits n (.eval (.choice arms) s frames w.store w.output d) = some o) :
    Follows limits n o d s (.choice arms) w frames := by
  obtain ⟨k, hk, h⟩ := run_next h rfl
  cases arms with
  | done => exact ⟨.ok (.bool false), w, k, hk, .noArms, h⟩
  | otherwise body =>
    obtain ⟨r, w₁, m, hm, hbody, h⟩ := ih k hk (w := w.inside s) h
    exact ⟨r, w₁, m, by omega, .otherwise hbody, h⟩
  | guarded condition body rest =>
    rcases run_part (ih k hk) (w := w.inside s) rfl h with
      ⟨v, w₁, m, hm, hguard, h⟩ | ⟨f, w₁, m, hm, hguard, h⟩
    · by_cases hv : v = .bool true
      · subst hv
        obtain ⟨r, w₂, j, hj, hbody, h⟩ := ih m (by omega) (w := w₁.inside s) h
        exact ⟨r, w₂, j, by omega, .armTaken hguard hbody, h⟩
      · rw [resume_guard_skipped hv] at h
        obtain ⟨r, w₂, j, hj, hrest, h⟩ := ih m (by omega) h
        exact ⟨r, w₂, j, by omega, .armSkipped hguard hv hrest, h⟩
    · exact ⟨_, w₁, m, by omega, .armFails hguard, h⟩

theorem explained_loop {condition body : Expr}
    (h : run limits n (.eval (.loop condition body line) s frames w.store w.output d) = some o) :
    Follows limits n o d s (.loop condition body line) w frames := by
  obtain ⟨k, hk, h⟩ := run_next h rfl
  rcases run_part (ih k hk) (w := w.inside s) rfl h with
    ⟨v, w₁, m, hm, hguard, h⟩ | ⟨f, w₁, m, hm, hguard, h⟩
  · cases v with
    | bool b =>
      cases b with
      | true =>
        rcases run_part (ih m (by omega)) (w := w₁.inside s) rfl h with
          ⟨v, w₂, j, hj, hbody, h⟩ | ⟨f, w₂, j, hj, hbody, h⟩
        · obtain ⟨r, w₃, i, hi, hloop, h⟩ := ih j (by omega) h
          exact ⟨r, w₃, i, by omega, .turn hguard hbody hloop, h⟩
        · exact ⟨_, w₂, j, by omega, .turnFails hguard hbody, h⟩
      | false => exact ⟨_, w₁, m, by omega, .loopEnds hguard, h⟩
    | number _ | null | closure _ | builtin _ =>
      exact ⟨_, w₁, m, by omega, .loopMismatch hguard (by simp), h⟩
  · exact ⟨_, w₁, m, by omega, .loopFails hguard, h⟩

theorem explained_callExpr {callee : Expr} {arguments : List Expr}
    (h : run limits n (.eval (.call callee arguments line) s frames w.store w.output d) =
      some o) :
    Follows limits n o d s (.call callee arguments line) w frames := by
  obtain ⟨k, hk, h⟩ := run_next h rfl
  rcases run_part (ih k hk) (w := w.inside s) rfl h with
    ⟨v, w₁, m, hm, hcallee, h⟩ | ⟨f, w₁, m, hm, hcallee, h⟩
  · obtain ⟨r, w₂, j, hj, harguments, h⟩ := explained_arguments (fun i hi => ih i (by omega)) h
    cases r with
    | ok vs =>
      obtain ⟨r, w₃, i, hi, hcall, h⟩ := explained_call (ih j (by omega)) h
      exact ⟨r, w₃, i, by omega, .call hcallee harguments hcall, h⟩
    | error f => exact ⟨_, w₂, j, by omega, .argumentsFail hcallee harguments, h⟩
  · exact ⟨_, w₁, m, by omega, .calleeFails hcallee, h⟩

theorem explained_binary {op : BinaryOp} {left right : Expr}
    (h : run limits n (.eval (.binary op left right line) s frames w.store w.output d) =
      some o) :
    Follows limits n o d s (.binary op left right line) w frames := by
  obtain ⟨k, hk, h⟩ := run_next h rfl
  rcases run_part (ih k hk) (w := w.inside s) rfl h with
    ⟨a, w₁, m, hm, hleft, h⟩ | ⟨f, w₁, m, hm, hleft, h⟩
  · rcases run_part (ih m (by omega)) (w := w₁.inside s) rfl h with
      ⟨b, w₂, j, hj, hright, h⟩ | ⟨f, w₂, j, hj, hright, h⟩
    · exact ⟨_, w₂, j, by omega, .binary hleft hright, h⟩
    · exact ⟨_, w₂, j, by omega, .rightFails hleft hright, h⟩
  · exact ⟨_, w₁, m, by omega, .leftFails hleft, h⟩

theorem explained_unary {op : UnaryOp} {operand : Expr}
    (h : run limits n (.eval (.unary op operand line) s frames w.store w.output d) = some o) :
    Follows limits n o d s (.unary op operand line) w frames := by
  obtain ⟨k, hk, h⟩ := run_next h rfl
  rcases run_part (ih k hk) (w := w.inside s) rfl h with
    ⟨v, w₁, m, hm, hoperand, h⟩ | ⟨f, w₁, m, hm, hoperand, h⟩
  · exact ⟨_, w₁, m, by omega, .unary hoperand, h⟩
  · exact ⟨_, w₁, m, by omega, .operandFails hoperand, h⟩

end Nodes

/-- The rules explain every run. -/
theorem explained (limits : Limits) (n : Nat) : Explained limits n := by
  induction n using Nat.strongRecOn with
  | _ n ih =>
    intro o d s e w frames h
    cases e with
    | number m => exact explained_leaf rfl .number h
    | bool b => exact explained_leaf rfl .bool h
    | null => exact explained_leaf rfl .null h
    | identifier name line => exact explained_leaf rfl .identifier h
    | function params body line => exact explained_leaf rfl .function h
    | declare name constant value line => exact explained_declare ih h
    | assign name value line => exact explained_assign ih h
    | sequence items => exact explained_sequence ih h
    | block body =>
      obtain ⟨k, hk, h⟩ := run_next h rfl
      obtain ⟨r, w₁, m, hm, hbody, h⟩ := ih k hk (w := w.inside s) h
      exact ⟨r, w₁, m, by omega, .block hbody, h⟩
    | choice arms => exact explained_choice ih h
    | loop condition body line => exact explained_loop ih h
    | call callee arguments line => exact explained_callExpr ih h
    | binary op left right line => exact explained_binary ih h
    | unary op operand line => exact explained_unary ih h

/-! ## Whole runs -/

/-- A result on top of no frames is the outcome. -/
theorem run_answer_nil {r : Except Fault Value} {st : Store} {output : String} {calls : Nat}
    (h : run limits n (.answer r [] st output calls) = some o) :
    o = ⟨r, ⟨⟨st, output⟩, calls⟩⟩ := by
  cases n with
  | zero => cases h
  | succ n =>
    cases r with
    | ok v =>
      cases h
      rfl
    | error f =>
      cases h
      rfl

end ExprLang.Machine

namespace ExprLang

open Machine

/-- The outcome of a run follows from the rules. -/
theorem evaluates_of_eval {limits : Limits} {n d : Nat} {e : Expr} {s : ScopeId} {w : World}
    {o : Outcome} (h : e.eval limits n s ⟨w, d⟩ = some o) :
    o.state.calls = d ∧ Evaluates limits d s (.expr e) w o.result o.state.toWorld := by
  obtain ⟨r, w', m, -, he, h⟩ := explained limits n h
  cases run_answer_nil h
  exact ⟨rfl, he⟩

/-- What follows from the rules is the outcome of a run. -/
theorem eval_of_evaluates {limits : Limits} {d : Nat} {e : Expr} {s : ScopeId} {w w' : World}
    {r : Except Fault Value} (h : Evaluates limits d s (.expr e) w r w') :
    ∃ n, e.eval limits n s ⟨w, d⟩ = some ⟨r, ⟨w', d⟩⟩ := by
  refine (h.simulated []).ends ⟨1, ?_⟩
  cases r with
  | ok v => rfl
  | error f => rfl

/-- The machine ends with an outcome exactly if the rules derive it, and then as many
calls are in progress as at the start. -/
theorem eval_iff_evaluates (limits : Limits) (e : Expr) (s : ScopeId) (w : World) (d : Nat)
    (o : Outcome) :
    (∃ n, e.eval limits n s ⟨w, d⟩ = some o) ↔
      o.state.calls = d ∧ Evaluates limits d s (.expr e) w o.result o.state.toWorld := by
  constructor
  · rintro ⟨n, h⟩
    exact evaluates_of_eval h
  · obtain ⟨r, ⟨w', d'⟩⟩ := o
    rintro ⟨hcalls, h⟩
    cases hcalls
    exact eval_of_evaluates h

end ExprLang
