import ExprLang.Proofs.Evaluation.Rules

/-!
What the rules derive, the machine does. Whatever frames are waiting, the machine gets
from the start of a task to its result on top of the same frames, with the same number
of calls in progress as before (`Evaluates.simulated`). The proof is an induction on the
derivation: each premise is a stretch of steps, and between two of them the machine hands
a value or a fault to the frame that the rule's node left behind.
-/

namespace ExprLang.Machine

/-- The machine gets from one configuration to another, and goes on from there. -/
def Leads (limits : Limits) (c c' : Config) : Prop :=
  ∃ n, ∀ m, run limits (n + m) c = run limits m c'

variable {limits : Limits} {c c' c'' : Config}

theorem Leads.refl (c : Config) : Leads limits c c := ⟨0, fun m => by rw [Nat.zero_add]⟩

theorem Leads.trans (h : Leads limits c c') (h' : Leads limits c' c'') : Leads limits c c'' := by
  obtain ⟨n, hn⟩ := h
  obtain ⟨n', hn'⟩ := h'
  refine ⟨n + n', fun m => ?_⟩
  rw [Nat.add_assoc, hn, hn']

theorem Leads.step (h : step limits c = .next c') (h' : Leads limits c' c'') :
    Leads limits c c'' := by
  obtain ⟨n, hn⟩ := h'
  refine ⟨n + 1, fun m => ?_⟩
  rw [Nat.add_right_comm, run, h]
  exact hn m

/-- A configuration that leads to one whose run ends has a run that ends alike. -/
theorem Leads.ends (h : Leads limits c c') {o : Outcome}
    (h' : ∃ n, run limits n c' = some o) : ∃ n, run limits n c = some o := by
  obtain ⟨k, hk⟩ := h
  obtain ⟨n, hn⟩ := h'
  exact ⟨k + n, (hk n).trans hn⟩

theorem giveStored_eq (v : Value) (st : Store) (fault? : Option Fault) (frames : List Frame)
    (output : String) (calls : Nat) :
    Config.giveStored v (st, fault?) frames output calls =
      .answer (v.unless fault?) frames st output calls := by
  cases fault? <;> rfl

/-- Goes on once the remaining arguments have their values. -/
def applyAll (limits : Limits) (callee : Value) (before : List Value)
    (r : Except Fault (List Value)) (line : Nat) (frames : List Frame) (store : Store)
    (output : String) (calls : Nat) : Config :=
  match r with
  | .ok vs => apply limits callee (before.reverse ++ vs) line frames store output calls
  | .error f => .fail f frames store output calls

theorem applyAll_cons (callee v : Value) (before : List Value) (r : Except Fault (List Value))
    (line : Nat) (frames : List Frame) (store : Store) (output : String) (calls : Nat) :
    applyAll limits callee (v :: before) r line frames store output calls =
      applyAll limits callee before (r.map (v :: ·)) line frames store output calls := by
  cases r with
  | ok vs => simp [applyAll, Except.map]
  | error f => rfl

/-- The machine gets from the start of a task to its result. -/
def Simulated (limits : Limits) (d : Nat) (s : ScopeId) :
    (t : Task) → World → Except Fault t.Result → World → Prop
  | .expr e, w, r, w' => ∀ frames,
      Leads limits (.eval e s frames w.store w.output d) (.answer r frames w'.store w'.output d)
  | .arguments es, w, r, w' => ∀ callee before line frames,
      Leads limits (applyAfter limits callee before es line s frames w.store w.output d)
        (applyAll limits callee before r line frames w'.store w'.output d)
  | .call callee args line, w, r, w' => ∀ frames,
      Leads limits (apply limits callee args line frames w.store w.output d)
        (.answer r frames w'.store w'.output d)

/-! ## Calls -/

section Calls

variable {args : List Value} {line : Nat} {frames : List Frame} {store : Store}
  {output : String} {calls : Nat}

theorem apply_other {callee : Value} (hfunction : ∀ c, callee ≠ .closure c)
    (hbuiltin : ∀ b, callee ≠ .builtin b) :
    apply limits callee args line frames store output calls =
      .fail (.typeMismatch .call (.shape .function) callee.shape line) frames store output
        calls := by
  cases callee with
  | closure c => exact absurd rfl (hfunction c)
  | builtin b => exact absurd rfl (hbuiltin b)
  | _ => rfl

theorem apply_builtin_arity {b : Builtin} (harity : args.length ≠ b.arity) :
    apply limits (.builtin b) args line frames store output calls =
      .fail (.arityMismatch (.builtin b) b.arity args.length line) frames store output calls := by
  cases b
  match args, harity with
  | [], _ => rfl
  | [_], harity => exact absurd rfl harity
  | _ :: _ :: _, _ => rfl

variable {c : Closure}

theorem apply_closure_arity (harity : args.length ≠ c.params.length) :
    apply limits (.closure c) args line frames store output calls =
      .fail (.arityMismatch (.function c.line) c.params.length args.length line) frames store
        output calls :=
  if_pos harity

theorem apply_too_deep (harity : args.length = c.params.length) (hdepth : limits.depth ≤ calls) :
    apply limits (.closure c) args line frames store output calls =
      .fail (.tooDeep limits.depth) frames store output calls := by
  simp only [apply, if_neg (not_not_intro harity), if_pos hdepth]

theorem apply_refused (harity : args.length = c.params.length) (hdepth : calls < limits.depth)
    {st : Store} {f : Fault}
    (hbind : bindParams (store.child c.scope) store.size line (c.params.zip args) =
      (st, some f)) :
    apply limits (.closure c) args line frames store output calls =
      .fail f frames st output calls := by
  simp only [apply, if_neg (not_not_intro harity), if_neg (Nat.not_le.mpr hdepth), hbind]

theorem apply_body (harity : args.length = c.params.length) (hdepth : calls < limits.depth)
    {st : Store}
    (hbind : bindParams (store.child c.scope) store.size line (c.params.zip args) = (st, none)) :
    apply limits (.closure c) args line frames store output calls =
      .eval c.body store.size (.leave :: frames) st output (calls + 1) := by
  simp only [apply, if_neg (not_not_intro harity), if_neg (Nat.not_le.mpr hdepth), hbind]

end Calls

/-- A result that comes out of a called function takes the call away again. -/
theorem leads_leave (r : Except Fault Value) (frames : List Frame) (store : Store)
    (output : String) (calls : Nat) :
    Leads limits (.answer r (.leave :: frames) store output (calls + 1))
      (.answer r frames store output calls) := by
  cases r with
  | ok v => exact .step rfl (.refl _)
  | error f => exact .step rfl (.refl _)

theorem resume_guard_skipped {v : Value} (hv : v ≠ .bool true) (body : Expr) (rest : Arms)
    (s : ScopeId) (frames : List Frame) (store : Store) (output : String) (calls : Nat) :
    resume limits v (.guard body rest s) frames store output calls =
      .eval (.choice rest) s frames store output calls := by
  cases v with
  | bool b =>
    cases b with
    | false => rfl
    | true => exact absurd rfl hv
  | _ => rfl

theorem resume_loop_mismatch {v : Value} (hv : ∀ b, v ≠ .bool b) (condition body : Expr)
    (line : Nat) (s : ScopeId) (frames : List Frame) (store : Store) (output : String)
    (calls : Nat) :
    resume limits v (.loopGuard condition body line s) frames store output calls =
      .fail (.typeMismatch .loop (.shape .boolean) v.shape line) frames store output calls := by
  cases v with
  | bool b => exact absurd rfl (hv b)
  | _ => rfl

end ExprLang.Machine

namespace ExprLang

open Machine

/-- The machine follows the rules. -/
theorem Evaluates.simulated {limits : Limits} {d : Nat} {s : ScopeId} {t : Task} {w w' : World}
    {r : Except Fault t.Result} (h : Evaluates limits d s t w r w') :
    Simulated limits d s t w r w' := by
  induction h with
  | number | bool | null | identifier | function | noItems | noArms =>
    intro frames
    exact .step rfl (.refl _)
  | declare _ hdefine ih =>
    intro frames
    refine .step rfl ((ih _).trans (.step rfl ?_))
    rw [resume, hdefine, giveStored_eq]
    exact .refl _
  | assign _ hassign ih =>
    intro frames
    refine .step rfl ((ih _).trans (.step rfl ?_))
    rw [resume, hassign, giveStored_eq]
    exact .refl _
  | declareFails _ ih | assignFails _ ih | itemFails _ ih | armFails _ ih | loopFails _ ih
  | calleeFails _ ih | leftFails _ ih | operandFails _ ih =>
    intro frames
    exact .step rfl ((ih _).trans (.step rfl (.refl _)))
  | lastItem _ ih | block _ ih | otherwise _ ih =>
    intro frames
    exact .step rfl (ih frames)
  | item _ _ ih ihitems =>
    intro frames
    exact .step rfl ((ih _).trans (.step rfl (ihitems frames)))
  | armTaken _ _ ih ihbody =>
    intro frames
    exact .step rfl ((ih _).trans (.step rfl (ihbody frames)))
  | armSkipped _ hv _ ih ihrest =>
    intro frames
    refine .step rfl ((ih _).trans (.step rfl ?_))
    rw [resume_guard_skipped hv]
    exact ihrest frames
  | turn _ _ _ ih ihbody ihloop =>
    intro frames
    exact .step rfl ((ih _).trans (.step rfl ((ihbody _).trans (.step rfl (ihloop frames)))))
  | turnFails _ _ ih ihbody =>
    intro frames
    exact .step rfl ((ih _).trans (.step rfl ((ihbody _).trans (.step rfl (.refl _)))))
  | loopEnds _ ih =>
    intro frames
    exact .step rfl ((ih _).trans (.step rfl (.refl _)))
  | loopMismatch _ hv ih =>
    intro frames
    refine .step rfl ((ih _).trans (.step rfl ?_))
    rw [resume_loop_mismatch hv]
    exact .refl _
  | call _ _ _ ih iharguments ihcall =>
    intro frames
    exact .step rfl ((ih _).trans (.step rfl ((iharguments _ _ _ frames).trans (ihcall frames))))
  | argumentsFail _ _ ih iharguments =>
    intro frames
    exact .step rfl ((ih _).trans (.step rfl (iharguments _ _ _ frames)))
  | binary _ _ ih ihright =>
    intro frames
    exact .step rfl ((ih _).trans (.step rfl ((ihright _).trans (.step rfl (.refl _)))))
  | rightFails _ _ ih ihright =>
    intro frames
    exact .step rfl ((ih _).trans (.step rfl ((ihright _).trans (.step rfl (.refl _)))))
  | unary _ ih =>
    intro frames
    exact .step rfl ((ih _).trans (.step rfl (.refl _)))
  | noArguments =>
    intro callee before line frames
    rw [applyAll, List.append_nil]
    exact .refl _
  | argument _ _ ih ihmore =>
    intro callee before line frames
    rw [← applyAll_cons]
    exact (ih _).trans (.step rfl (ihmore _ _ _ frames))
  | argumentFails _ ih =>
    intro callee before line frames
    exact (ih _).trans (.step rfl (.refl _))
  | notCallable hfunction hbuiltin =>
    intro frames
    rw [apply_other hfunction hbuiltin]
    exact .refl _
  | builtinArity harity =>
    intro frames
    rw [apply_builtin_arity harity]
    exact .refl _
  | written hwritable =>
    intro frames
    simp only [apply, if_pos hwritable]
    exact .refl _
  | outputFull hwritable =>
    intro frames
    simp only [apply, hwritable, Bool.false_eq_true, if_false]
    exact .refl _
  | functionArity harity =>
    intro frames
    rw [apply_closure_arity harity]
    exact .refl _
  | tooDeep harity hdepth =>
    intro frames
    rw [apply_too_deep harity hdepth]
    exact .refl _
  | parametersFail harity hdepth hbind =>
    intro frames
    rw [apply_refused harity hdepth hbind]
    exact .refl _
  | body harity hdepth hbind _ ih =>
    intro frames
    rw [apply_body harity hdepth hbind]
    exact (ih _).trans (leads_leave _ _ _ _ _)

end ExprLang
