import ExprLang.Proofs.Evaluation.Rules
import ExprLang.Proofs.Store.Lookup
import ExprLang.Proofs.Value.Operators

/-!
The faults of an evaluation. None of them belongs to the reading of a program. Exceeded
nesting always shows the limit that the evaluation runs under, and a full output is
reported only by an output that takes nothing (`Evaluates.arises`).
-/

namespace ExprLang

/-- The faults that an evaluation can end with. -/
def Fault.Arises (limits : Limits) : Fault → Prop
  | .unexpectedCharacter .. | .syntaxError .. | .invalidTarget .. => False
  | .undefinedVariable .. | .assignToConstant .. | .typeMismatch .. | .arityMismatch .. => True
  | .divisionByZero _ | .modulusByZero _ => True
  | .tooDeep limit => limit = limits.depth
  | .outputFull => limits.writable = false

variable {limits : Limits} {f : Fault} {line : Nat}

namespace Store

variable {st st' : Store} {s : ScopeId} {name : String} {v : Value} {constant : Bool}

theorem get_arises (h : st.get s name line = .error f) : f.Arises limits := by
  unfold get at h
  split at h
  · cases h
  · cases h
    trivial

theorem define_arises (h : st.define s name v constant line = (st', some f)) :
    f.Arises limits := by
  rcases define_cases st s name v constant line with ⟨b, -, -, h'⟩ | ⟨-, h'⟩
  · rw [h'] at h
    cases h
    trivial
  · rw [h'] at h
    cases h

theorem assign_arises (h : st.assign s name v line = (st', some f)) : f.Arises limits := by
  rcases assign_cases st s name v line with ⟨-, h'⟩ | ⟨t, b, -, -, h'⟩ | ⟨t, b, -, -, h'⟩
  · rw [h'] at h
    cases h
    trivial
  · rw [h'] at h
    cases h
    trivial
  · rw [h'] at h
    cases h

end Store

theorem Machine.bindParams_arises {st st' : Store} {s : ScopeId} {ps : List (Param × Value)}
    (h : bindParams st s line ps = (st', some f)) : f.Arises limits := by
  induction ps generalizing st with
  | nil => cases h
  | cons pv ps ih =>
    obtain ⟨p, v⟩ := pv
    rw [bindParams] at h
    split at h
    · exact ih h
    · next hdefine =>
      cases h
      exact Store.define_arises hdefine

theorem Value.unless_arises {v : Value} {fault? : Option Fault}
    (hfault : ∀ f, fault? = some f → f.Arises limits) (h : v.unless fault? = .error f) :
    f.Arises limits := by
  cases fault? with
  | none => cases h
  | some g =>
    cases h
    exact hfault f rfl

theorem Operation.Answers.arises {operation : Operation} {r : Except Fault Value}
    (h : operation.Answers line r) (hr : r = .error f) : f.Arises limits := by
  cases h <;> cases hr <;> trivial

/-- A fault comes out of an evaluation as it was raised, and these are all that a rule
raises. -/
theorem Evaluates.arises {d : Nat} {s : ScopeId} {t : Task} {w w' : World}
    {r : Except Fault t.Result} (h : Evaluates limits d s t w r w') :
    r = .error f → f.Arises limits := by
  intro hr
  induction h with
  | number | bool | null | function | noItems | noArms | loopEnds | noArguments | written =>
    cases hr
  | identifier => exact Store.get_arises hr
  | declare _ hdefine =>
    refine Value.unless_arises (fun g hg => ?_) hr
    subst hg
    exact Store.define_arises hdefine
  | assign _ hassign =>
    refine Value.unless_arises (fun g hg => ?_) hr
    subst hg
    exact Store.assign_arises hassign
  | binary => exact (BinaryOp.apply_answers ..).arises hr
  | unary => exact (UnaryOp.apply_answers ..).arises hr
  | declareFails _ ih | assignFails _ ih | lastItem _ ih | itemFails _ ih | block _ ih
  | otherwise _ ih | armFails _ ih | loopFails _ ih | calleeFails _ ih | leftFails _ ih
  | operandFails _ ih | body _ _ _ _ ih => exact ih hr
  | item _ _ _ ih | armTaken _ _ _ ih | armSkipped _ _ _ _ ih | turnFails _ _ _ ih
  | argumentsFail _ _ _ ih | rightFails _ _ _ ih =>
    cases hr
    exact ih rfl
  | turn _ _ _ _ _ ih | call _ _ _ _ _ ih => exact ih hr
  | @argument _ _ _ _ _ _ _ r _ _ _ _ ih =>
    cases r with
    | ok vs => cases hr
    | error g =>
      cases hr
      exact ih rfl
  | argumentFails _ ih =>
    cases hr
    exact ih rfl
  | parametersFail _ _ hbind =>
    cases hr
    exact Machine.bindParams_arises hbind
  | outputFull hwritable =>
    cases hr
    exact hwritable
  | tooDeep =>
    cases hr
    rfl
  | loopMismatch | notCallable | builtinArity | functionArity =>
    cases hr
    trivial

end ExprLang
