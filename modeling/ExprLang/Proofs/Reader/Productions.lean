import ExprLang.Proofs.Reader.Bounds
import ExprLang.Proofs.Reader.Reading

/-!
Every routine keeps its bounds and reads what `Grammar` reads.

* `Conforms`: from any place within bounds the routine follows its reading. There is one lemma
  for each routine, the tight productions before the loose ones, as these call them without
  having moved the cursor;
* `conforms`: all routines conform, by induction on the number of tokens in front of the cursor.
-/

namespace ExprLang.Reader

open Grammar (maxNesting Refusal expect)
open Work

variable {ts : List Token} {base c d : Nat} {t : Token}

/-! ## Operators and the least number -/

theorem find?_table (n : Nat) (kind : TokenKind) :
    ((table n).find? fun row => row.1 == kind).map Prod.snd = BinaryOp.ofKindAt? (n + 1) kind := by
  match n with
  | 0 | 1 | 2 | 3 | 4 | 5 | n + 6 => cases kind <;> rfl

theorem Follows.matchOperator {β : Type} {steady : Bool} {n : Nat}
    {f : Option (BinaryOp × Nat) → Work β} {x : Except Refusal (β × List Token)}
    (hs : Within ts base ⟨c, d⟩) (ht : ts[c]? = some t)
    (hnone : BinaryOp.ofKindAt? (n + 1) t.kind = none → Follows ts base steady ⟨c, d⟩ (f none) x)
    (hsome : ∀ op, BinaryOp.ofKindAt? (n + 1) t.kind = some op →
      Within ts base ⟨c + 1, d⟩ →
        Follows ts base steady ⟨c + 1, d⟩ (f (some (op, t.line))) x) :
    Follows ts base steady ⟨c, d⟩ (Work.matchOperator (table n) >>= f) x := by
  have htable := find?_table n t.kind
  cases hfind : (table n).find? fun row => row.1 == t.kind with
  | none =>
    rw [hfind] at htable
    refine .after (.bind (.peek hs ht) ?_) (hnone htable.symm)
    rw [hfind]
    exact .done none
  | some row =>
    rw [hfind] at htable
    have hk : t.kind ≠ .eof := by
      intro hk
      rw [hk] at htable
      cases htable
    have hs' := hs.next ht hk
    refine .after (.bind (.peek hs ht) ?_) (hsome row.2 htable.symm hs')
    rw [hfind]
    exact .bind (.advance hs ht hk hs') (.done _)

theorem Follows.leastNumber {β : Type} {steady : Bool} {f : Option Expr → Work β}
    {x : Except Refusal (β × List Token)}
    (hs : Within ts base ⟨c, d⟩) (ht : ts[c]? = some t)
    (hyes : Grammar.isLeastMagnitude t (ts.drop (c + 1)) = true →
      Within ts base ⟨c + 1, d⟩ →
        Follows ts base steady ⟨c + 1, d⟩ (f (some (.number Int64.minValue))) x)
    (hno : Grammar.isLeastMagnitude t (ts.drop (c + 1)) = false →
      Follows ts base steady ⟨c, d⟩ (f none) x) :
    Follows ts base steady ⟨c, d⟩ (Reader.leastNumber >>= f) x := by
  by_cases hdigits :
      t.kind = .number ∧ Decimal.natural? t.lexeme = some Int64.minValue.toInt.natAbs
  · have hk : t.kind ≠ .eof := by
      rw [hdigits.1]
      decide
    have hs' := hs.next ht hk
    obtain ⟨u, hu⟩ := hs'.exists_token
    -- The end mark is at or behind the next position, so looking there is no different.
    have hnext : Access.token? ts c .next = some u := by
      rw [Access.token?, Nat.min_eq_left]
      · exact hu
      · have := hs'.marked
        have := hs'.cursor_le
        dsimp only at this
        omega
    have hleast : Grammar.isLeastMagnitude t (ts.drop (c + 1)) =
        decide (u.kind ≠ .leftParen) := by
      rw [drop_of_getElem? hu, Grammar.isLeastMagnitude, hdigits.1, hdigits.2]
      by_cases hu : u.kind = .leftParen <;> simp [hu]
    by_cases hcall : u.kind = .leftParen
    · refine .after (.bind (.peek hs ht) ?_) (hno (by simp [hleast, hcall]))
      rw [if_pos hdigits]
      refine .bind (.look hs hnext (.done u)) ?_
      rw [if_pos hcall]
      exact .done none
    · refine .after (.bind (.peek hs ht) ?_) (hyes (by simp [hleast, hcall]) hs')
      rw [if_pos hdigits]
      refine .bind (.look hs hnext (.done u)) ?_
      rw [if_neg hcall]
      exact .bind (.advance hs ht hk hs') (.done _)
  · refine .after (.bind (.peek hs ht) ?_) (hno ?_)
    · rw [if_neg hdigits]
      exact .done none
    · rw [Grammar.isLeastMagnitude, Bool.and_eq_false_iff]
      exact .inl (by simpa using hdigits)

/-! ## The routines -/

/-- Whether a routine gives back all levels that it takes. The others leave that to their
callers. -/
def Routine.steady : Routine → Bool
  | .part (.chain _) | .part (.links ..) | .part .application | .part (.calls _) => false
  | _ => true

/-- From a cursor on, the routine ends in bounds and comes to what it reads. -/
def Conforms (ts : List Token) (c : Nat) (r : Routine) : Prop :=
  ∀ base d, Within ts base ⟨c, d⟩ →
    Follows ts base r.steady ⟨c, d⟩ r.work (r.reading (maxNesting - d) (ts.drop c))

theorem Conforms.run {r : Routine} (h : Conforms ts c r) (hs : Within ts base ⟨c, d⟩) :
    Follows ts base r.steady ⟨c, d⟩ (Work.run r) (r.reading (maxNesting - d) (ts.drop c)) :=
  .run hs (h base d hs)

theorem Conforms.nested {r : Routine} (h : Conforms ts c r) (hr : r.steady = true)
    (hs : Within ts base ⟨c, d⟩) :
    Follows ts base true ⟨c, d⟩ (Work.nested r) (r.deeper (maxNesting - d) (ts.drop c)) := by
  refine .nested hs (fun hroom => by rw [hroom, Routine.deeper]) fun hroom hs₁ => ?_
  rw [hroom, Routine.deeper, ← hr]
  exact h base (d + 1) hs₁

section
variable (ih : ∀ c', c < c' → ∀ r, Conforms ts c' r)
include ih

/-! ### Bodies, conditionals and leaves -/

theorem conforms_braced (owner : BlockOwner) : Conforms ts c (.entry (.braced owner)) := by
  intro base d hs
  show Follows ts base true ⟨c, d⟩ (braced owner) (Grammar.body owner _ _).plain
  rw [Grammar.body_plain]
  refine .bind (.consume hs (by decide) _) fun _ c₁ h₁ _ hs₁ => ?_
  refine .bind ((ih c₁ (lt_of_read h₁) (.entry .sequence)).run hs₁) fun e c₂ _ _ hs₂ => ?_
  exact .bind (.consume hs₂ (by decide) _) fun _ c₃ _ _ hs₃ => .done hs₃ e

theorem follows_nextBranch (seen : List (Expr × Expr)) (hs : Within ts base ⟨c, d⟩) :
    Follows ts base true ⟨c, d⟩ (nextBranch seen)
      (choiceReading seen (maxNesting - d) (ts.drop c)) := by
  have hnext := ih (c + 1) (Nat.lt_succ_self c)
  obtain ⟨t, ht⟩ := hs.exists_token
  have hdrop := drop_of_getElem? ht
  refine .accept hs ht (by decide) (fun hk hs₁ => ?_) fun helif => ?_
  · rw [hdrop, choiceReading_elif hk]
    exact .after (.previous hs₁ ht) ((hnext (.part (.branches ..))).run hs₁)
  refine .accept hs ht (by decide) (fun hk hs₁ => ?_) fun helse => ?_
  · rw [hdrop, choiceReading_else hk]
    exact .bind ((hnext (.entry (.braced _))).run hs₁) fun _ _ _ _ hs₂ => .done hs₂ _
  · rw [hdrop, choiceReading_other helif helse, ← hdrop]
    exact .done hs _

theorem conforms_branches (keyword : String) (seen : List (Expr × Expr)) :
    Conforms ts c (.part (.branches keyword seen)) := by
  intro base d hs
  show Follows ts base true ⟨c, d⟩ (branches keyword seen) ((Part.branches ..).reading _ _)
  rw [branches_reading]
  refine .bind (.consume hs (by decide) _) fun _ c₁ h₁ _ hs₁ => ?_
  have hlt₁ := lt_of_read h₁
  refine .bind ((ih c₁ hlt₁ (.entry .sequence)).run hs₁) fun condition c₂ _ hle₂ hs₂ => ?_
  refine .bind (.consume hs₂ (by decide) _) fun _ c₃ _ hle₃ hs₃ => ?_
  have hlt₃ : c < c₃ := by omega
  refine .bind ((ih c₃ hlt₃ (.entry (.braced _))).run hs₃) fun inside c₄ _ hle₄ hs₄ => ?_
  exact follows_nextBranch (fun c' hlt => ih c' (by omega)) _ hs₄

theorem conforms_primary : Conforms ts c (.entry .primary) := by
  intro base d hs
  have hnext := ih (c + 1) (Nat.lt_succ_self c)
  obtain ⟨t, ht⟩ := hs.exists_token
  show Follows ts base true ⟨c, d⟩ primary (Grammar.primary _ _).plain
  rw [drop_of_getElem? ht]
  refine .accept hs ht (by decide) (fun hk hs₁ => ?_) fun hnumber => ?_
  · rw [Grammar.primary_plain_cons, hk]
    refine .after (.previous hs₁ ht) ?_
    dsimp only
    cases Decimal.signed? t.lexeme with
    | some n => exact .done hs₁ _
    | none => exact .fail hs₁ (.expected .wordNumber (t :: _))
  refine .accept hs ht (by decide) (fun hk hs₁ => ?_) fun htrue => ?_
  · rw [Grammar.primary_plain_cons, hk]
    exact .done hs₁ _
  refine .accept hs ht (by decide) (fun hk hs₁ => ?_) fun hfalse => ?_
  · rw [Grammar.primary_plain_cons, hk]
    exact .done hs₁ _
  refine .accept hs ht (by decide) (fun hk hs₁ => ?_) fun hnull => ?_
  · rw [Grammar.primary_plain_cons, hk]
    exact .done hs₁ _
  refine .accept hs ht (by decide) (fun hk hs₁ => ?_) fun hname => ?_
  · rw [Grammar.primary_plain_cons, hk]
    exact .after (.previous hs₁ ht) (.done hs₁ _)
  refine .accept hs ht (by decide) (fun hk hs₁ => ?_) fun hgroup => ?_
  · rw [Grammar.primary_plain_cons, hk]
    refine .bind ((hnext (.entry .sequence)).run hs₁) fun e c₂ _ _ hs₂ => ?_
    exact .bind (.consume hs₂ (by decide) _) fun _ _ _ _ hs₃ => .done hs₃ e
  refine .accept hs ht (by decide) (fun hk hs₁ => ?_) fun hblock => ?_
  · rw [Grammar.primary_plain_cons, hk]
    refine .bind ((hnext (.entry .sequence)).run hs₁) fun e c₂ _ _ hs₂ => ?_
    exact .bind (.consume hs₂ (by decide) _) fun _ _ _ _ hs₃ => .done hs₃ (Expr.block e)
  refine .accept hs ht (by decide) (fun hk hs₁ => ?_) fun hif => ?_
  · rw [primary_reading_if hk]
    exact .after (.previous hs₁ ht) ((hnext (.part (.branches ..))).run hs₁)
  · rw [primary_reading_other (by simp [*])]
    exact .refuse hs ht .expression _

/-! ### Calls -/

omit ih in
theorem follows_closeArguments (callee : Expr) (values : List Expr) (line : Nat)
    (hs : Within ts base ⟨c, d⟩) :
    Follows ts base true ⟨c, d⟩ (closeArguments callee values line)
      (callReading callee values line (ts.drop c)) :=
  .bind (.consume hs (by decide) _) fun _ _ _ _ hs₁ => .done hs₁ _

theorem follows_nextArgument (callee : Expr) (seen : List Expr) (line : Nat)
    (hs : Within ts base ⟨c, d⟩) :
    Follows ts base true ⟨c, d⟩ (nextArgument callee seen line)
      (argumentsReading callee seen line (maxNesting - d) (ts.drop c)) := by
  obtain ⟨t, ht⟩ := hs.exists_token
  have hdrop := drop_of_getElem? ht
  refine .accept hs ht (by decide) (fun hk hs₁ => ?_) fun hk => ?_
  · rw [hdrop, argumentsReading, if_pos hk]
    exact (ih (c + 1) (Nat.lt_succ_self c) (.part (.arguments ..))).run hs₁
  · rw [hdrop, argumentsReading, if_neg hk, ← hdrop]
    exact follows_closeArguments callee seen line hs

theorem conforms_arguments (hdeclaration : Conforms ts c (.entry .declaration)) (callee : Expr)
    (seen : List Expr) (line : Nat) : Conforms ts c (.part (.arguments callee seen line)) := by
  intro base d hs
  obtain ⟨t, ht⟩ := hs.exists_token
  have hdrop := drop_of_getElem? ht
  show Follows ts base true ⟨c, d⟩ (arguments callee seen line) ((Part.arguments ..).reading _ _)
  refine .check hs ht (by decide) (fun hk => ?_) fun hk => ?_
  · rw [hdrop, arguments_reading_close hk, ← hdrop]
    exact follows_closeArguments callee seen line hs
  · rw [hdrop, arguments_reading_other hk, ← hdrop]
    refine .bind (hdeclaration.run hs) fun value c₁ _ hle₁ hs₁ => ?_
    exact follows_nextArgument (fun c' hlt => ih c' (by omega)) callee _ line hs₁

theorem conforms_calls (callee : Expr) : Conforms ts c (.part (.calls callee)) := by
  intro base d hs
  obtain ⟨t, ht⟩ := hs.exists_token
  have hdrop := drop_of_getElem? ht
  show Follows ts base false ⟨c, d⟩ (calls callee) (Grammar.called _ callee _)
  refine .accept hs ht (by decide) (fun hk hs₁ => ?_) fun hk => ?_
  · rw [hdrop]
    -- The level stays taken, so the calls that follow have one less.
    refine .deepen hs₁ (fun hroom => by rw [hroom, Grammar.called_zero hk]) fun hroom hs₂ => ?_
    rw [hroom, called_reading hk]
    refine .after (.previous hs₂ ht) ?_
    refine .bind ((ih (c + 1) (Nat.lt_succ_self c) (.part (.arguments ..))).run hs₂)
      fun e c₃ _ hle₃ hs₃ => ?_
    exact (ih c₃ (by omega) (.part (.calls e))).run hs₃
  · rw [hdrop, Grammar.called_other hk, ← hdrop]
    exact .done hs callee

theorem conforms_application (hprimary : Conforms ts c (.entry .primary)) :
    Conforms ts c (.part .application) := by
  intro base d hs
  show Follows ts base false ⟨c, d⟩ application (Grammar.application _ _).plain
  rw [Grammar.application_plain]
  refine .bind (hprimary.run hs) fun callee c₁ h₁ _ hs₁ => ?_
  exact (ih c₁ (lt_of_read h₁) (.part (.calls callee))).run hs₁

omit ih in
theorem conforms_call (happlication : Conforms ts c (.part .application)) :
    Conforms ts c (.entry .call) :=
  fun base d hs => .kept hs (happlication base d hs)

/-! ### Operators -/

theorem follows_negation (op : UnaryOp) (ht : ts[c]? = some t) (hs : Within ts base ⟨c + 1, d⟩) :
    Follows ts base true ⟨c + 1, d⟩ (negation op)
      (Grammar.negation op (maxNesting - d) t (ts.drop (c + 1))).plain := by
  rw [negation_reading]
  refine .after (.previous hs ht) ?_
  exact .bind ((ih (c + 1) (Nat.lt_succ_self c) (.entry .unary)).nested rfl hs)
    fun _ _ _ _ hs₁ => .done hs₁ _

theorem conforms_unary (hcall : Conforms ts c (.entry .call)) :
    Conforms ts c (.entry .unary) := by
  intro base d hs
  obtain ⟨t, ht⟩ := hs.exists_token
  have hdrop := drop_of_getElem? ht
  show Follows ts base true ⟨c, d⟩ unary (Grammar.operand _ _).plain
  refine .accept hs ht (by decide) (fun hk hs₁ => ?_) fun hminus => ?_
  · obtain ⟨u, hu⟩ := hs₁.exists_token
    have hdrop₁ := drop_of_getElem? hu
    refine .leastNumber hs₁ hu (fun hleast hs₂ => ?_) fun hleast => ?_
    · rw [hdrop, hdrop₁, Grammar.operand_plain_least _ hk hleast]
      exact .done hs₂ _
    · rw [hdrop, Grammar.operand_plain_minus _ hk fun n rest hrest => ?_]
      · exact follows_negation ih .negate ht hs₁
      · obtain ⟨rfl, rfl⟩ := List.cons.inj (hdrop₁.symm.trans hrest)
        exact hleast
  refine .accept hs ht (by decide) (fun hk hs₁ => ?_) fun hbang => ?_
  · rw [hdrop, Grammar.operand_plain_bang _ hk]
    exact follows_negation ih .not ht hs₁
  · rw [hdrop, Grammar.operand_plain_other _ (by simp [hminus, hbang]), ← hdrop]
    exact hcall.run hs

theorem conforms_links (n : Nat) (left : Expr) : Conforms ts c (.part (.links n left)) := by
  intro base d hs
  obtain ⟨t, ht⟩ := hs.exists_token
  have hdrop := drop_of_getElem? ht
  show Follows ts base false ⟨c, d⟩ (links n left) (Grammar.linked n _ left _)
  refine .matchOperator hs ht (fun hop => ?_) fun op hop hs₁ => ?_
  · rw [hdrop, Grammar.linked_none hop, ← hdrop]
    exact .done hs left
  · rw [hdrop]
    refine .deepen hs₁ (fun hroom => by rw [hroom, Grammar.linked_zero hop]) fun hroom hs₂ => ?_
    rw [hroom, Grammar.linked_succ hop, ← reading_operand]
    refine .bind ((ih (c + 1) (Nat.lt_succ_self c) (.entry (operand n))).run hs₂)
      fun right c₃ _ hle₃ hs₃ => ?_
    exact (ih c₃ (by omega) (.part (.links n _))).run hs₃

theorem conforms_chain (n : Nat) (hoperand : Conforms ts c (.entry (operand n))) :
    Conforms ts c (.part (.chain n)) := by
  intro base d hs
  show Follows ts base false ⟨c, d⟩ (chain n) (Grammar.chain (n + 1) _ _).plain
  rw [Grammar.chain_plain_succ, ← reading_operand]
  refine .bind (hoperand.run hs) fun first c₁ h₁ _ hs₁ => ?_
  rw [reading_operand] at h₁
  exact (ih c₁ (lt_of_read h₁) (.part (.links n first))).run hs₁

/-- All levels, as each has its operands on the level below it. -/
theorem conforms_level (hunary : Conforms ts c (.entry .unary)) (n : Nat) :
    Conforms ts c (.entry (.level n)) := by
  induction n with
  | zero => exact fun base d hs => .kept hs (conforms_chain ih 0 hunary base d hs)
  | succ n hlevel => exact fun base d hs => .kept hs (conforms_chain ih (n + 1) hlevel base d hs)

/-! ### Declarations -/

theorem conforms_assignment (hlevel : Conforms ts c (.entry (.level 5))) :
    Conforms ts c (.entry .assignment) := by
  intro base d hs
  show Follows ts base true ⟨c, d⟩ assignment (Grammar.assignment _ _).plain
  rw [Grammar.assignment_plain]
  refine .bind (hlevel.run hs) fun target c₁ h₁ _ hs₁ => ?_
  have hlt₁ : c < c₁ := lt_of_read h₁
  obtain ⟨t, ht⟩ := hs₁.exists_token
  rw [drop_of_getElem? ht]
  dsimp only
  refine .accept hs₁ ht (by decide) (fun hk hs₂ => ?_) fun hk => ?_
  · rw [if_pos hk]
    refine .after (.previous hs₂ ht) ?_
    refine .bind ((ih (c₁ + 1) (by omega) (.entry .declaration)).run hs₂) fun value c₃ _ _ hs₃ => ?_
    cases target with
    | identifier name line => exact .done hs₃ _
    | _ => exact .fail hs₃ (.invalidTarget _ _)
  · rw [if_neg hk, ← drop_of_getElem? ht]
    exact .done hs₁ target

theorem follows_binding (constant : Bool) (ht : ts[c]? = some t)
    (hs : Within ts base ⟨c + 1, d⟩) :
    Follows ts base true ⟨c + 1, d⟩ (binding constant)
      (Grammar.binding constant (maxNesting - d) t (ts.drop (c + 1))).plain := by
  rw [Grammar.binding_plain]
  refine .after (.previous hs ht) ?_
  refine .bind (.consume hs (by decide) _) fun name c₁ _ hle₁ hs₁ => ?_
  refine .bind (.consume hs₁ (by decide) _) fun _ c₂ _ hle₂ hs₂ => ?_
  exact .bind ((ih c₂ (by omega) (.entry .declaration)).run hs₂) fun value _ _ _ hs₃ => .done hs₃ _

theorem follows_functionBody (params : List Param) (line : Nat) (hs : Within ts base ⟨c, d⟩) :
    Follows ts base true ⟨c, d⟩ (functionBody params line)
      (functionReading params line (maxNesting - d) (ts.drop c)) := by
  refine .bind (.consume hs (by decide) _) fun _ c₁ h₁ _ hs₁ => ?_
  have hlt₁ := lt_of_read h₁
  refine .bind (.consume hs₁ (by decide) _) fun _ c₂ _ hle₂ hs₂ => ?_
  exact .bind ((ih c₂ (by omega) (.entry (.braced .function))).run hs₂)
    fun inside _ _ _ hs₃ => .done hs₃ _

theorem follows_nextParameter (seen : List Param) (line : Nat) (hs : Within ts base ⟨c, d⟩) :
    Follows ts base true ⟨c, d⟩ (nextParameter seen line)
      (parametersReading seen line (maxNesting - d) (ts.drop c)) := by
  obtain ⟨t, ht⟩ := hs.exists_token
  have hdrop := drop_of_getElem? ht
  refine .accept hs ht (by decide) (fun hk hs₁ => ?_) fun hk => ?_
  · rw [hdrop, parametersReading, if_pos hk]
    exact (ih (c + 1) (Nat.lt_succ_self c) (.part (.parameters ..))).run hs₁
  · rw [hdrop, parametersReading, if_neg hk, ← hdrop]
    exact follows_functionBody ih seen line hs

theorem conforms_parameters (seen : List Param) (line : Nat) :
    Conforms ts c (.part (.parameters seen line)) := by
  intro base d hs
  obtain ⟨t, ht⟩ := hs.exists_token
  have hdrop := drop_of_getElem? ht
  show Follows ts base true ⟨c, d⟩ (parameters seen line) ((Part.parameters ..).reading _ _)
  refine .check hs ht (by decide) (fun hk => ?_) fun hk => ?_
  · rw [hdrop, parameters_reading_close hk, ← hdrop]
    exact follows_functionBody ih seen line hs
  rw [hdrop, parameters_reading_open hk]
  refine .accept hs ht (by decide) (fun hconst hs₁ => ?_) fun hconst => ?_
  · rw [if_pos hconst, decide_eq_true hconst]
    refine .bind (.consume hs₁ (by decide) _) fun name c₂ _ hle₂ hs₂ => ?_
    exact follows_nextParameter (fun c' hlt => ih c' (by omega)) _ line hs₂
  · rw [if_neg hconst, decide_eq_false hconst, ← hdrop]
    refine .bind (.consume hs (by decide) _) fun name c₁ _ hle₁ hs₁ => ?_
    exact follows_nextParameter (fun c' hlt => ih c' (by omega)) _ line hs₁

theorem conforms_content (hassignment : Conforms ts c (.entry .assignment)) :
    Conforms ts c (.part .content) := by
  intro base d hs
  obtain ⟨t, ht⟩ := hs.exists_token
  have hdrop := drop_of_getElem? ht
  show Follows ts base true ⟨c, d⟩ content (Grammar.declaration (_ + 1) _).plain
  refine .accept hs ht (by decide) (fun hk hs₁ => ?_) fun hlet => ?_
  · rw [hdrop, Grammar.declaration_plain_let _ hk]
    exact follows_binding ih false ht hs₁
  refine .accept hs ht (by decide) (fun hk hs₁ => ?_) fun hconst => ?_
  · rw [hdrop, Grammar.declaration_plain_const _ hk]
    exact follows_binding ih true ht hs₁
  refine .accept hs ht (by decide) (fun hk hs₁ => ?_) fun hfunc => ?_
  · rw [hdrop, Grammar.declaration_plain_func _ hk]
    refine .after (.previous hs₁ ht) ?_
    refine .bind (.consume hs₁ (by decide) _) fun _ c₂ _ hle₂ hs₂ => ?_
    exact (ih c₂ (by omega) (.part (.parameters [] t.line))).run hs₂
  refine .accept hs ht (by decide) (fun hk hs₁ => ?_) fun hwhile => ?_
  · rw [hdrop, Grammar.declaration_plain_while _ hk]
    refine .after (.previous hs₁ ht) ?_
    refine .bind (.consume hs₁ (by decide) _) fun _ c₂ _ hle₂ hs₂ => ?_
    refine .bind ((ih c₂ (by omega) (.entry .sequence)).run hs₂) fun condition c₃ _ hle₃ hs₃ => ?_
    refine .bind (.consume hs₃ (by decide) _) fun _ c₄ _ hle₄ hs₄ => ?_
    exact .bind ((ih c₄ (by omega) (.entry (.braced _))).run hs₄)
      fun inside _ _ _ hs₅ => .done hs₅ _
  · rw [hdrop, Grammar.declaration_plain_other _ (by simp [*]), ← hdrop]
    exact hassignment.run hs

omit ih in
theorem conforms_declaration (hcontent : Conforms ts c (.part .content)) :
    Conforms ts c (.entry .declaration) := by
  intro base d hs
  show Follows ts base true ⟨c, d⟩ (Work.nested _) (Grammar.declaration _ _).plain
  rw [declaration_reading]
  exact hcontent.nested rfl hs

theorem conforms_items (seen : List Expr) : Conforms ts c (.part (.items seen)) := by
  intro base d hs
  obtain ⟨t, ht⟩ := hs.exists_token
  have hdrop := drop_of_getElem? ht
  show Follows ts base true ⟨c, d⟩ (items seen) ((Part.items seen).reading _ _)
  refine .accept hs ht (by decide) (fun hk hs₁ => ?_) fun hk => ?_
  · rw [hdrop, items_reading_semicolon hk]
    refine .bind ((ih (c + 1) (Nat.lt_succ_self c) (.entry .declaration)).run hs₁)
      fun item c₂ _ hle₂ hs₂ => ?_
    exact (ih c₂ (by omega) (.part (.items _))).run hs₂
  · rw [hdrop, items_reading_other hk, ← hdrop]
    exact .done hs _

theorem conforms_sequence (hdeclaration : Conforms ts c (.entry .declaration)) :
    Conforms ts c (.entry .sequence) := by
  intro base d hs
  show Follows ts base true ⟨c, d⟩ sequence (Grammar.sequence _ _).plain
  rw [Grammar.sequence_plain]
  refine .bind (hdeclaration.run hs) fun first c₁ h₁ _ hs₁ => ?_
  have hlt₁ : c < c₁ := lt_of_read h₁
  show Follows ts base true ⟨c₁, d⟩ _ (sequenceReading first _ _)
  obtain ⟨t, ht⟩ := hs₁.exists_token
  have hdrop := drop_of_getElem? ht
  refine .check hs₁ ht (by decide) (fun hk => ?_) fun hk => ?_
  · rw [hdrop, sequenceReading_semicolon hk, ← hdrop]
    exact (ih c₁ hlt₁ (.part (.items [first]))).run hs₁
  · rw [hdrop, sequenceReading_other hk, ← hdrop]
    exact .done hs₁ first

/-- One step of the induction: all routines, if they conform from all later cursors. -/
theorem conforms_of_later (r : Routine) : Conforms ts c r := by
  have hprimary := conforms_primary ih
  have happlication := conforms_application ih hprimary
  have hcall := conforms_call happlication
  have hunary := conforms_unary ih hcall
  have hlevel := conforms_level ih hunary
  have hassignment := conforms_assignment ih (hlevel 5)
  have hcontent := conforms_content ih hassignment
  have hdeclaration := conforms_declaration hcontent
  cases r with
  | entry p =>
    cases p with
    | sequence => exact conforms_sequence ih hdeclaration
    | declaration => exact hdeclaration
    | braced owner => exact conforms_braced ih owner
    | assignment => exact hassignment
    | level n => exact hlevel n
    | unary => exact hunary
    | call => exact hcall
    | primary => exact hprimary
  | part p =>
    cases p with
    | items seen => exact conforms_items ih seen
    | content => exact hcontent
    | parameters seen line => exact conforms_parameters ih seen line
    | chain n =>
      cases n with
      | zero => exact conforms_chain ih 0 hunary
      | succ n => exact conforms_chain ih (n + 1) (hlevel n)
    | links n left => exact conforms_links ih n left
    | application => exact happlication
    | calls callee => exact conforms_calls ih callee
    | arguments callee seen line => exact conforms_arguments ih hdeclaration callee seen line
    | branches keyword seen => exact conforms_branches ih keyword seen

end

/-- From any cursor on, every routine ends in bounds and comes to what it reads. -/
theorem conforms (ts : List Token) (c : Nat) (r : Routine) : Conforms ts c r := by
  obtain ⟨n, hn⟩ : ∃ n, n = ts.length - c := ⟨_, rfl⟩
  induction n using Nat.strongRecOn generalizing c r with
  | _ n ihn =>
    refine conforms_of_later (fun c' hlt r base d hs => ?_) r
    -- A cursor within bounds is in front of a token, so fewer tokens are left from a later one.
    have hlt' : c' < ts.length := Nat.lt_of_le_of_lt hs.cursor_le hs.marked
    exact ihn (ts.length - c') (by omega) c' r rfl base d hs

end ExprLang.Reader
