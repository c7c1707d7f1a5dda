import Mathlib
import ExprLang.Proofs.Grammar.Prediction
import ExprLang.Proofs.Grammar.Recognition

/-!
Where syntax errors are reported. The parser makes the steps of a reader with a stack and one
token of lookahead (`led`): what one of its productions reads, is read in such steps from the
items that the production stands for, and where a production finds something else than it
expected, the steps end at that token with another one on the stack. So the reports are those of
such a reader: a syntax error is reported at the first token that makes the program impossible
(`syntax_error_first`).
-/

namespace ExprLang.Grammar

open Ebnf

/-! ## Results that follow the grammar -/

/-- What becomes of the stack when the tokens are read with this result. Where a number is out of
range, a target is invalid or the nesting too deep, nothing is asked. -/
def Leads {α : Type} (stack stack' : List Ebnf) (ts : List Token) :
    Except Refusal (α × List Token) → Prop
  | .ok (_, rest) => Run stack ts stack' rest
  | .error (.expected what rest) => what ≠ .wordNumber →
      ∃ kinds below, Run stack ts (.token kinds :: below) rest ∧ begins kinds rest = false
  | .error _ => True

section Leads

variable {α β : Type} {stack stack₁ stack' stack'' : List Ebnf} {t : Token} {ts : List Token}

theorem leads_ok {x : α} : Leads stack stack ts (.ok (x, ts)) := Run.refl

theorem leads_stuck {kinds : List TokenKind} (h : begins kinds ts = false) (what : Expected) :
    Leads (.token kinds :: stack) stack' ts
      (.error (.expected what ts) : Except Refusal (α × List Token)) :=
  fun _ => ⟨kinds, stack, .refl, h⟩

/-- Steps in front of a reading. -/
theorem Leads.behind {r : Except Refusal (α × List Token)} {us : List Token}
    (h : Run stack ts stack₁ us) (hr : Leads stack₁ stack' us r) : Leads stack stack' ts r := by
  match r, hr with
  | .ok _, hr => exact h.trans hr
  | .error (.expected _ _), hr =>
    intro hwhat
    obtain ⟨kinds, below, hrun, hstuck⟩ := hr hwhat
    exact ⟨kinds, below, h.trans hrun, hstuck⟩
  | .error (.invalidTarget _ _), _ | .error .tooDeep, _ => exact trivial

theorem Leads.expand {r : Except Refusal (α × List Token)} (h : Expands ts stack stack₁)
    (hr : Leads stack₁ stack' ts r) : Leads stack stack' ts r :=
  Leads.behind (Run.expand h .refl) hr

theorem Leads.shift {r : Except Refusal (α × List Token)} {kinds : List TokenKind}
    (h : t.kind ∈ kinds) (hr : Leads stack stack' ts r) :
    Leads (.token kinds :: stack) stack' (t :: ts) r :=
  Leads.behind (Run.shift h .refl) hr

/-- One reading behind another. -/
theorem Leads.bind {r : Except Refusal (α × List Token)}
    {f : α × List Token → Except Refusal (β × List Token)} (hr : Leads stack stack' ts r)
    (hf : ∀ x rest, r = .ok (x, rest) → rest.length ≤ ts.length →
      Leads stack' stack'' rest (f (x, rest))) : Leads stack stack'' ts (r >>= f) := by
  match r, hr with
  | .ok (x, rest), hr =>
    have hlength : rest.length ≤ ts.length := by
      obtain ⟨before, hts, -⟩ := Run.completes hr
      simp [hts]
    exact Leads.behind hr (hf x rest rfl hlength)
  | .error (.expected _ _), hr => exact hr
  | .error (.invalidTarget _ _), _ | .error .tooDeep, _ => exact trivial

theorem leads_expect (kind : TokenKind) (what : Expected) :
    Leads (.token [kind] :: stack) stack ts (expect kind what ts).plain := by
  cases ts with
  | nil => exact leads_stuck rfl what
  | cons t us =>
    rw [expect_plain_cons]
    split
    · next hkind => exact Leads.shift (List.mem_singleton.mpr hkind) leads_ok
    · next hkind => exact leads_stuck (begins_eq_false_iff.mpr (by simpa using hkind)) what

/-- The items of a sequence of items, from the left. -/
def items : Ebnf → List Ebnf
  | .both a b => items a ++ [b]
  | e => [e]

theorem Leads.inOrder {r : Except Refusal (α × List Token)} {e : Ebnf}
    (hr : Leads (items e ++ stack) stack' ts r) : Leads (e :: stack) stack' ts r := by
  induction e generalizing stack with
  | both a b iha _ =>
    rw [items, List.append_assoc] at hr
    exact Leads.expand .both (iha hr)
  | _ => exact hr

theorem Leads.rule {r : Except Refusal (α × List Token)} {name : Nonterminal}
    (hr : Leads (items (factored name) ++ stack) stack' ts r) :
    Leads (.phrase name :: stack) stack' ts r :=
  Leads.expand .phrase (Leads.inOrder hr)

end Leads

/-! ## What the productions stand for -/

/-- The nonterminal for chains of at most a given looseness. -/
def ladder : Nat → Nonterminal
  | 0 => .unary
  | 1 => .factor
  | 2 => .term
  | 3 => .comparison
  | 4 => .equality
  | 5 => .logicAnd
  | _ => .logicOr

/-- The kinds of the operators of a looseness. -/
def signs : Nat → List TokenKind
  | 1 => [.star, .slash, .percent]
  | 2 => [.plus, .minus]
  | 3 => [.less, .lessEqual, .greater, .greaterEqual]
  | 4 => [.equalEqual, .bangEqual]
  | 5 => [.andAnd]
  | _ => [.orOr]

theorem factored_ladder {k : Nat} (hk : k < BinaryOp.loosest) :
    factored (ladder (k + 1)) = chained (signs (k + 1)) (ladder k) := by
  match k, hk with
  | 0, _ | 1, _ | 2, _ | 3, _ | 4, _ | 5, _ => rfl

theorem mem_signs_iff {k : Nat} (hk : k < BinaryOp.loosest) (kind : TokenKind) :
    kind ∈ signs (k + 1) ↔ (BinaryOp.ofKindAt? (k + 1) kind).isSome = true := by
  match k, hk with
  | 0, _ | 1, _ | 2, _ | 3, _ | 4, _ | 5, _ => cases kind <;> decide

/-- An item of a sequence behind the first one. -/
def furtherItem : Ebnf := token [.semicolon] ++ phrase .declaration

/-- The arguments of a call. -/
def actuals : Ebnf := token [.leftParen] ++ maybe (phrase .arguments) ++ token [.rightParen]

def elifPart : Ebnf := token [.elifWord] ++ grouped ++ braced

def elsePart : Ebnf := token [.elseWord] ++ braced

/-- What can follow an item of a list. -/
def listTail (name : Nonterminal) : Ebnf := maybe (token [.comma] ++ maybe (phrase name))

/-- The production reads what it stands for. Arguments are read up to a closing parenthesis, so
that it depends on this one whether there are any. -/
def Led : Production → List Token → Prop
  | .sequence, ts => ∀ room stack,
      Leads (phrase .sequence :: stack) stack ts (sequence room ts).plain
  | .items, ts => ∀ room stack,
      Leads (many furtherItem :: stack) stack ts (furtherItems room ts).plain
  | .declaration, ts => ∀ room stack,
      Leads (phrase .declaration :: stack) stack ts (declaration room ts).plain
  | .assignment, ts => ∀ room stack,
      Leads (phrase .assignment :: stack) stack ts (assignment room ts).plain
  | .chain k, ts => k ≤ BinaryOp.loosest → ∀ room stack,
      Leads (phrase (ladder k) :: stack) stack ts (chain k room ts).plain
  | .links 0, _ => True
  | .links (k + 1), ts => k < BinaryOp.loosest → ∀ room left stack,
      Leads (many (token (signs (k + 1)) ++ phrase (ladder k)) :: stack) stack ts
        (linked k room left ts)
  | .operand, ts => ∀ room stack,
      Leads (phrase .unary :: stack) stack ts (operand room ts).plain
  | .application, ts => ∀ room stack,
      Leads (phrase .call :: stack) stack ts (application room ts).plain
  | .calls, ts => ∀ room callee stack,
      Leads (many actuals :: stack) stack ts (called room callee ts)
  | .arguments, ts => ∀ room stack,
      Leads (maybe (phrase .arguments) :: token [.rightParen] :: stack)
        (token [.rightParen] :: stack) ts (arguments room ts).plain
  | .primary, ts => ∀ room stack,
      Leads (phrase .primary :: stack) stack ts (primary room ts).plain
  | .alternatives, ts => ∀ room keyword stack,
      Leads (grouped :: braced :: many elifPart :: maybe elsePart :: stack) stack ts
        (alternatives room keyword ts).plain
  | .furtherArms, ts => ∀ room stack,
      Leads (many elifPart :: maybe elsePart :: stack) stack ts (furtherArms room ts)
  | .body, ts => ∀ owner room stack,
      Leads (braced :: stack) stack ts (body owner room ts).plain

theorem begins_of_kind {kind : TokenKind} {kinds : List TokenKind} {t : Token} {ts : List Token}
    (h : t.kind = kind) (hkind : kind ∈ kinds) : begins kinds (t :: ts) = true :=
  begins_iff.mpr (h ▸ hkind)

theorem begins_single {kind : TokenKind} {t : Token} {ts : List Token} (h : t.kind ≠ kind) :
    begins [kind] (t :: ts) = false :=
  begins_eq_false_iff.mpr (by simpa using h)

theorem first_token_both (kinds : List TokenKind) (e : Ebnf) :
    (token kinds ++ e).first = kinds :=
  List.append_nil kinds

/-! ## Parameters -/

/-- Parameters are read up to a closing parenthesis. -/
def LedParameters (ts : List Token) : Prop :=
  ∀ stack, Leads (maybe (phrase .params) :: token [.rightParen] :: stack)
    (token [.rightParen] :: stack) ts (parameters ts).plain

section Parameters

variable {ts : List Token} (ih : ∀ us, us.length < ts.length → LedParameters us)
include ih

theorem led_furtherParameters {p : Param} (stack : List Ebnf) :
    Leads (listTail .params :: token [.rightParen] :: stack) (token [.rightParen] :: stack) ts
      (furtherParameters p ts) := by
  cases ts with
  | nil => exact Leads.expand (.absent rfl) leads_ok
  | cons comma us =>
    rw [furtherParameters]
    split
    · next hcomma =>
      refine Leads.expand (.present (.inl (begins_of_kind hcomma List.mem_cons_self))) ?_
      refine Leads.inOrder (Leads.shift (by simp [hcomma]) ?_)
      exact (ih us (by simp) stack).bind fun _ _ _ _ => leads_ok
    · next hcomma => exact Leads.expand (.absent (begins_single hcomma)) leads_ok

/-- The name of a parameter and what follows it. -/
theorem led_parameterName {us : List Token} (hus : us.length ≤ ts.length) (constant : Bool)
    (stack : List Ebnf) :
    Leads (token [.identifier] :: listTail .params :: token [.rightParen] :: stack)
      (token [.rightParen] :: stack) us (do
        let (name, r₁) ← (expect .identifier .parameterName us).plain
        furtherParameters ⟨name.lexeme, constant⟩ r₁) := by
  refine (leads_expect _ _).bind fun name r₁ _ hle => ?_
  exact led_furtherParameters (fun vs hvs => ih vs (by omega)) stack

end Parameters

theorem led_parameters (ts : List Token) : LedParameters ts := by
  induction hn : ts.length using Nat.strongRecOn generalizing ts with
  | _ n ih =>
    subst hn
    have ih : ∀ us, us.length < ts.length → LedParameters us := fun us hus => ih _ hus us rfl
    intro stack
    cases ts with
    | nil =>
      rw [parameters_plain_nil]
      refine Leads.expand (.present (.inr rfl)) (Leads.rule (Leads.inOrder ?_))
      exact Leads.expand (.absent rfl) (leads_stuck rfl _)
    | cons t us =>
      by_cases hclose : t.kind = .rightParen
      · rw [parameters_plain_close hclose]
        have hno : t.kind ∉ firstOf .params := by rw [hclose]; decide
        exact Leads.expand (.absent (begins_eq_false_iff.mpr hno)) leads_ok
      refine Leads.expand (.present (.inr (begins_single hclose))) (Leads.rule (Leads.inOrder ?_))
      by_cases hconst : t.kind = .constWord
      · rw [parameters_plain_const hconst]
        refine Leads.expand (.present (.inl (begins_of_kind hconst List.mem_cons_self))) ?_
        refine Leads.shift (by simp [hconst]) ?_
        exact led_parameterName ih (by simp) true stack
      · rw [parameters_plain_other hclose hconst]
        refine Leads.expand (.absent (begins_single hconst)) ?_
        exact led_parameterName ih (Nat.le_refl _) false stack

/-! ## One production after the other -/

/-- A leaf is read as one, whatever it is. -/
theorem run_leaf {t : Token} {us : List Token} {stack : List Ebnf}
    (h : t.kind ∈ [.number, .trueWord, .falseWord, .nullWord, .identifier]) :
    Run (phrase .primary :: stack) (t :: us) stack us := by
  have hgroup := List.mem_append_left grouped.first h
  have hblock := List.mem_append_left braced.first hgroup
  refine .expand .phrase (.expand (.left (begins_iff.mpr hblock)) ?_)
  refine .expand (.left (begins_iff.mpr hgroup)) (.expand (.left (begins_iff.mpr h)) ?_)
  exact .shift h .refl

/-- The digits of the least number are an operand, where no call follows. -/
theorem run_digits {digits : Token} {us : List Token} {stack : List Ebnf}
    (h : digits.kind = .number) (hcall : begins [.leftParen] us = false) :
    Run (phrase .unary :: stack) (digits :: us) stack us := by
  have hsign : digits.kind ∉ [.minus, .bang] := by
    rw [h]
    decide
  refine .expand .phrase (.expand (.right (begins_eq_false_iff.mpr hsign)) ?_)
  refine .expand .phrase (.expand .both ((run_leaf (by simp [h])).trans ?_))
  exact .expand (.enough hcall) .refl

section Productions

variable {ts : List Token} (ih : ∀ p us, us.length < ts.length → Led p us)
include ih

theorem led_body : Led .body ts := by
  intro owner room stack
  rw [body_plain]
  refine Leads.inOrder ((leads_expect _ _).bind fun _ r₁ h₁ _ => ?_)
  refine (ih .sequence r₁ (Reading.length_lt h₁) room _).bind fun _ r₂ _ _ => ?_
  exact (leads_expect _ _).bind fun _ _ _ _ => leads_ok

theorem led_furtherArms : Led .furtherArms ts := by
  intro room stack
  cases ts with
  | nil => exact Leads.expand (.enough rfl) (Leads.expand (.absent rfl) leads_ok)
  | cons t us =>
    rw [furtherArms]
    split
    · next helif =>
      refine Leads.expand (.more (begins_of_kind helif List.mem_cons_self)) ?_
      refine Leads.inOrder (Leads.shift (by simp [helif]) ?_)
      exact ih .alternatives us (by simp) room t.lexeme stack
    · next helif =>
      refine Leads.expand (.enough (begins_single helif)) ?_
      split
      · next helse =>
        refine Leads.expand (.present (.inl (begins_of_kind helse List.mem_cons_self))) ?_
        refine Leads.inOrder (Leads.shift (by simp [helse]) ?_)
        exact (ih .body us (by simp) (.keyword "else") room stack).bind fun _ _ _ _ => leads_ok
      · next helse => exact Leads.expand (.absent (begins_single helse)) leads_ok

theorem led_alternatives : Led .alternatives ts := by
  intro room keyword stack
  rw [alternatives_plain]
  refine Leads.inOrder ((leads_expect _ _).bind fun _ r₁ h₁ _ => ?_)
  have hlt := Reading.length_lt h₁
  refine (ih .sequence r₁ hlt room _).bind fun _ r₂ _ h₂ => ?_
  refine (leads_expect _ _).bind fun _ r₃ _ h₃ => ?_
  refine (ih .body r₃ (by omega) (.keyword keyword) room _).bind fun _ r₄ _ h₄ => ?_
  exact (ih .furtherArms r₄ (by omega) room stack).bind fun _ _ _ _ => leads_ok

theorem led_primary : Led .primary ts := by
  intro room stack
  cases ts with
  | nil =>
    rw [primary_plain_nil]
    exact Leads.expand .phrase (Leads.expand (.right rfl) (Leads.rule (leads_stuck rfl _)))
  | cons t us =>
    rw [primary_plain_cons]
    split
    · next hk =>
      split
      · exact run_leaf (by simp [hk])
      · exact fun hwhat => absurd rfl hwhat
    · next hk => exact run_leaf (by simp [hk])
    · next hk => exact run_leaf (by simp [hk])
    · next hk => exact run_leaf (by simp [hk])
    · next hk => exact run_leaf (by simp [hk])
    · next hk =>
      refine Leads.expand .phrase (Leads.expand (.left (begins_of_kind hk (by decide))) ?_)
      refine Leads.expand (.left (begins_of_kind hk (by decide))) ?_
      refine Leads.expand (.right (begins_eq_false_iff.mpr (by rw [hk]; decide))) ?_
      refine Leads.inOrder (Leads.shift (by simp [hk]) ?_)
      refine (ih .sequence us (by simp) room _).bind fun _ r₁ _ _ => ?_
      exact (leads_expect _ _).bind fun _ _ _ _ => leads_ok
    · next hk =>
      refine Leads.expand .phrase (Leads.expand (.left (begins_of_kind hk (by decide))) ?_)
      refine Leads.expand (.right (begins_eq_false_iff.mpr (by rw [hk]; decide))) ?_
      refine Leads.inOrder (Leads.shift (by simp [hk]) ?_)
      refine (ih .sequence us (by simp) room _).bind fun _ r₁ _ _ => ?_
      exact (leads_expect _ _).bind fun _ _ _ _ => leads_ok
    · next hk =>
      refine Leads.expand .phrase ?_
      refine Leads.expand (.right (begins_eq_false_iff.mpr (by rw [hk]; decide))) ?_
      refine Leads.rule (Leads.shift (by simp [hk]) ?_)
      exact (ih .alternatives us (by simp) room t.lexeme stack).bind fun _ _ _ _ => leads_ok
    · -- No alternative begins like this, so the last one is taken and gets stuck.
      have hno : t.kind ∉ firstPrimary := by simp_all [firstPrimary]
      refine Leads.expand .phrase ?_
      refine Leads.expand (.right (begins_eq_false_iff.mpr fun hk => hno ?_)) ?_
      · exact List.mem_append_left [.ifWord] hk
      · refine Leads.rule (leads_stuck (begins_single fun hk => hno ?_) _)
        rw [hk]
        decide

theorem led_calls : Led .calls ts := by
  intro room callee stack
  cases ts with
  | nil =>
    rw [called_nil]
    exact Leads.expand (.enough rfl) leads_ok
  | cons t us =>
    by_cases hk : t.kind = .leftParen
    · cases room with
      | zero =>
        rw [called_zero hk]
        trivial
      | succ room =>
        rw [called_succ hk]
        refine Leads.expand (.more (begins_of_kind hk List.mem_cons_self)) ?_
        refine Leads.inOrder (Leads.shift (by simp [hk]) ?_)
        refine (ih .arguments us (by simp) room _).bind fun values r₁ _ h₁ => ?_
        refine (leads_expect _ _).bind fun _ r₂ _ h₂ => ?_
        exact ih .calls r₂ (by simp only [List.length_cons]; omega) room _ stack
    · rw [called_other hk]
      exact Leads.expand (.enough (begins_single hk)) leads_ok

theorem led_application (hprimary : Led .primary ts) : Led .application ts := by
  intro room stack
  rw [application_plain]
  refine Leads.rule ((hprimary room _).bind fun callee r₁ h₁ _ => ?_)
  exact ih .calls r₁ (Reading.length_lt h₁) room callee stack

theorem led_operator {op : UnaryOp} {sign : Token} {us : List Token} (hts : ts = sign :: us)
    (hsign : sign.kind ∈ [.minus, .bang]) (room : Nat) (stack : List Ebnf) :
    Leads (phrase .unary :: stack) stack ts (negation op room sign us).plain := by
  subst hts
  cases room with
  | zero =>
    rw [negation_plain_zero]
    trivial
  | succ room =>
    rw [negation_plain_succ]
    refine Leads.expand .phrase (Leads.expand (.left (begins_iff.mpr hsign)) ?_)
    refine Leads.inOrder (Leads.shift hsign ?_)
    exact (ih .operand us (by simp) room stack).bind fun _ _ _ _ => leads_ok

theorem led_operand (happlication : Led .application ts) : Led .operand ts := by
  intro room stack
  cases ts with
  | nil =>
    rw [operand_plain_nil]
    exact Leads.expand .phrase (Leads.expand (.right rfl) (happlication room stack))
  | cons t us =>
    by_cases hminus : t.kind = .minus
    · by_cases hleast : ∃ digits vs, us = digits :: vs ∧ isLeastMagnitude digits vs = true
      · obtain ⟨digits, vs, rfl, hl⟩ := hleast
        -- The sign and the digits are read at once; on the stack they are a sign and an operand.
        rw [operand_plain_least room hminus hl]
        simp only [isLeastMagnitude, Bool.and_eq_true, decide_eq_true_eq, bne_iff_ne] at hl
        have hcall : begins [.leftParen] vs = false := by
          cases vs with
          | nil => rfl
          | cons v vs => exact begins_single (by simpa using hl.2)
        refine Leads.expand .phrase (Leads.expand (.left (begins_of_kind hminus (by decide))) ?_)
        refine Leads.inOrder (Leads.shift (by simp [hminus]) ?_)
        exact run_digits hl.1.1 hcall
      · have hno : ∀ n r, us = n :: r → isLeastMagnitude n r = false := by
          intro n r hr
          cases hl : isLeastMagnitude n r with
          | false => rfl
          | true => exact absurd ⟨n, r, hr, hl⟩ hleast
        rw [operand_plain_minus room hminus hno]
        exact led_operator ih rfl (by simp [hminus]) room stack
    by_cases hbang : t.kind = .bang
    · rw [operand_plain_bang room hbang]
      exact led_operator ih rfl (by simp [hbang]) room stack
    · have hsign : t.kind ∉ [.minus, .bang] := by simp [hminus, hbang]
      rw [operand_plain_other room hsign]
      refine Leads.expand .phrase (Leads.expand (.right (begins_eq_false_iff.mpr hsign)) ?_)
      exact happlication room stack

theorem led_links (k : Nat) : Led (.links k) ts := by
  cases k with
  | zero => trivial
  | succ k =>
    intro hk room left stack
    cases ts with
    | nil =>
      rw [linked_nil]
      exact Leads.expand (.enough rfl) leads_ok
    | cons t us =>
      have hsigns := mem_signs_iff hk t.kind
      cases ho : BinaryOp.ofKindAt? (k + 1) t.kind with
      | none =>
        rw [linked_none ho]
        have hno : t.kind ∉ signs (k + 1) := by simp [hsigns, ho]
        refine Leads.expand (.enough ?_) leads_ok
        rw [first_token_both]
        exact begins_eq_false_iff.mpr hno
      | some op =>
        have hsign : t.kind ∈ signs (k + 1) := by simp [hsigns, ho]
        cases room with
        | zero =>
          rw [linked_zero ho]
          trivial
        | succ room =>
          rw [linked_succ ho]
          refine Leads.expand (.more ?_) (Leads.inOrder (Leads.shift hsign ?_))
          · rw [first_token_both]
            exact begins_iff.mpr hsign
          · refine (ih (.chain k) us (by simp) (Nat.le_of_lt hk) room _).bind fun _ r₁ _ h₁ => ?_
            exact ih (.links (k + 1)) r₁ (by simp only [List.length_cons]; omega) hk room _ stack

theorem led_chain (hoperand : Led .operand ts) (k : Nat) : Led (.chain k) ts := by
  induction k with
  | zero =>
    intro _ room stack
    rw [chain_plain_zero]
    exact hoperand room stack
  | succ k ihk =>
    intro hk room stack
    rw [chain_plain_succ]
    refine Leads.expand .phrase ?_
    rw [factored_ladder hk]
    refine Leads.inOrder ((ihk (Nat.le_of_succ_le hk) room _).bind fun first r₁ h₁ _ => ?_)
    exact ih (.links (k + 1)) r₁ (Reading.length_lt h₁) hk room first stack

theorem led_assignment (hchain : Led (.chain BinaryOp.loosest) ts) : Led .assignment ts := by
  intro room stack
  rw [assignment_plain]
  refine Leads.rule ((hchain (Nat.le_refl _) room _).bind fun target r₁ h₁ _ => ?_)
  have hlt := Reading.length_lt h₁
  cases r₁ with
  | nil => exact Leads.expand (.absent rfl) leads_ok
  | cons t r₂ =>
    dsimp only
    split
    · next hk =>
      refine Leads.expand (.present (.inl (begins_of_kind hk List.mem_cons_self))) ?_
      refine Leads.inOrder (Leads.shift (by simp [hk]) ?_)
      have hlt' : r₂.length < ts.length := by simp only [List.length_cons] at hlt; omega
      refine (ih .declaration r₂ hlt' room stack).bind fun value r₃ _ _ => ?_
      dsimp only
      split
      · exact leads_ok
      · trivial
    · next hk => exact Leads.expand (.absent (begins_single hk)) leads_ok

theorem led_binding {word : Token} {us : List Token} (hts : ts = word :: us)
    (hword : word.kind ∈ [.letWord, .constWord]) (constant : Bool) (room : Nat)
    (stack : List Ebnf) :
    Leads (phrase .declaration :: stack) stack ts (binding constant room word us).plain := by
  subst hts
  rw [binding_plain]
  have hfunc := List.mem_append_left [.funcWord] hword
  have hwhile := List.mem_append_left [.whileWord] hfunc
  refine Leads.expand .phrase (Leads.expand (.left (begins_iff.mpr hwhile)) ?_)
  refine Leads.expand (.left (begins_iff.mpr hfunc)) ?_
  refine Leads.expand (.left (begins_iff.mpr hword)) (Leads.inOrder (Leads.shift hword ?_))
  refine (leads_expect _ _).bind fun _ r₁ _ h₁ => (leads_expect _ _).bind fun _ r₂ _ h₂ => ?_
  have hlt : r₂.length < (word :: us).length := by
    rw [List.length_cons]
    omega
  exact (ih .declaration r₂ hlt room stack).bind fun _ _ _ _ => leads_ok

theorem led_function {word : Token} {us : List Token} (hts : ts = word :: us)
    (hword : word.kind = .funcWord) (room : Nat) (stack : List Ebnf) :
    Leads (phrase .declaration :: stack) stack ts
      (declaration (room + 1) (word :: us)).plain := by
  subst hts
  rw [declaration_plain_func room hword]
  refine Leads.expand .phrase (Leads.expand (.left (begins_of_kind hword (by decide))) ?_)
  refine Leads.expand (.left (begins_of_kind hword (by decide))) ?_
  refine Leads.expand (.right (begins_eq_false_iff.mpr (by rw [hword]; decide))) ?_
  refine Leads.inOrder (Leads.shift (by simp [hword]) ?_)
  refine (leads_expect _ _).bind fun _ r₁ _ h₁ => ?_
  refine (led_parameters r₁ _).bind fun _ r₂ _ h₂ => ?_
  refine (leads_expect _ _).bind fun _ r₃ _ h₃ => (leads_expect _ _).bind fun _ r₄ _ h₄ => ?_
  have hlt : r₄.length < (word :: us).length := by
    rw [List.length_cons]
    omega
  exact (ih .body r₄ hlt .function room stack).bind fun _ _ _ _ => leads_ok

theorem led_loop {word : Token} {us : List Token} (hts : ts = word :: us)
    (hword : word.kind = .whileWord) (room : Nat) (stack : List Ebnf) :
    Leads (phrase .declaration :: stack) stack ts
      (declaration (room + 1) (word :: us)).plain := by
  subst hts
  rw [declaration_plain_while room hword]
  refine Leads.expand .phrase (Leads.expand (.left (begins_of_kind hword (by decide))) ?_)
  refine Leads.expand (.right (begins_eq_false_iff.mpr (by rw [hword]; decide))) ?_
  refine Leads.inOrder (Leads.shift (by simp [hword]) (Leads.inOrder ?_))
  refine (leads_expect _ _).bind fun _ r₁ _ h₁ => ?_
  have hlt₁ : r₁.length < (word :: us).length := by
    rw [List.length_cons]
    omega
  refine (ih .sequence r₁ hlt₁ room _).bind fun _ r₂ _ h₂ => ?_
  refine (leads_expect _ _).bind fun _ r₃ _ h₃ => ?_
  have hlt₃ : r₃.length < (word :: us).length := by
    rw [List.length_cons]
    omega
  exact (ih .body r₃ hlt₃ (.keyword "while") room stack).bind fun _ _ _ _ => leads_ok

theorem led_declaration (hassignment : Led .assignment ts) : Led .declaration ts := by
  intro room stack
  cases room with
  | zero =>
    rw [declaration_plain_zero]
    trivial
  | succ room =>
    cases ts with
    | nil =>
      rw [declaration_plain_nil]
      exact Leads.expand .phrase (Leads.expand (.right rfl) (hassignment room stack))
    | cons t us =>
      by_cases hlet : t.kind = .letWord
      · rw [declaration_plain_let room hlet]
        exact led_binding ih rfl (by simp [hlet]) false room stack
      by_cases hconst : t.kind = .constWord
      · rw [declaration_plain_const room hconst]
        exact led_binding ih rfl (by simp [hconst]) true room stack
      by_cases hfunc : t.kind = .funcWord
      · exact led_function ih rfl hfunc room stack
      by_cases hwhile : t.kind = .whileWord
      · exact led_loop ih rfl hwhile room stack
      · have hword : t.kind ∉ [.letWord, .constWord, .funcWord, .whileWord] := by
          simp [hlet, hconst, hfunc, hwhile]
        rw [declaration_plain_other room hword]
        refine Leads.expand .phrase (Leads.expand (.right (begins_eq_false_iff.mpr hword)) ?_)
        exact hassignment room stack

theorem led_items : Led .items ts := by
  intro room stack
  cases ts with
  | nil =>
    rw [furtherItems_plain_nil]
    exact Leads.expand (.enough rfl) leads_ok
  | cons t us =>
    rw [furtherItems_plain_cons]
    split
    · next hk =>
      refine Leads.expand (.more (begins_of_kind hk List.mem_cons_self)) ?_
      refine Leads.inOrder (Leads.shift (by simp [hk]) ?_)
      refine (ih .declaration us (by simp) room _).bind fun _ r₁ _ h₁ => ?_
      have hlt : r₁.length < (t :: us).length := by
        rw [List.length_cons]
        omega
      exact (ih .items r₁ hlt room stack).bind fun _ _ _ _ => leads_ok
    · next hk => exact Leads.expand (.enough (begins_single hk)) leads_ok

theorem led_sequence (hdeclaration : Led .declaration ts) : Led .sequence ts := by
  intro room stack
  rw [sequence_plain]
  refine Leads.rule ((hdeclaration room _).bind fun _ r₁ h₁ _ => ?_)
  exact (ih .items r₁ (Reading.length_lt h₁) room stack).bind fun _ _ _ _ => leads_ok

theorem led_arguments (hdeclaration : Led .declaration ts) : Led .arguments ts := by
  intro room stack
  by_cases hclose : ts.head?.map Token.kind = some .rightParen
  · rw [arguments_plain_close room hclose]
    have hno : begins firstDeclaration ts = false := by
      cases ts with
      | nil => rfl
      | cons t us =>
        have hk : t.kind = .rightParen := by simpa using hclose
        exact begins_eq_false_iff.mpr (by rw [hk]; decide)
    exact Leads.expand (.absent hno) leads_ok
  · rw [arguments_plain_other room hclose]
    have hopen : begins [.rightParen] ts = false := by
      cases ts with
      | nil => rfl
      | cons t us => exact begins_single (by simpa using hclose)
    -- Without a closing parenthesis there has to be an argument, whatever the token is.
    refine Leads.expand (.present (.inr hopen)) (Leads.rule ?_)
    refine (hdeclaration room _).bind fun _ r₁ h₁ _ => ?_
    have hlt := Reading.length_lt h₁
    cases r₁ with
    | nil => exact Leads.expand (.absent rfl) leads_ok
    | cons comma r₂ =>
      dsimp only
      split
      · next hcomma =>
        refine Leads.expand (.present (.inl (begins_of_kind hcomma List.mem_cons_self))) ?_
        refine Leads.inOrder (Leads.shift (by simp [hcomma]) ?_)
        have hlt' : r₂.length < ts.length := by
          rw [List.length_cons] at hlt
          omega
        exact (ih .arguments r₂ hlt' room stack).bind fun _ _ _ _ => leads_ok
      · next hcomma => exact Leads.expand (.absent (begins_single hcomma)) leads_ok

end Productions

/-- The parser makes the steps of a reader with a stack. -/
theorem led (p : Production) (ts : List Token) : Led p ts := by
  induction hn : ts.length using Nat.strongRecOn generalizing p ts with
  | _ n ih =>
    have ih : ∀ q us, us.length < ts.length → Led q us :=
      fun q us hlt => ih us.length (hn ▸ hlt) q us rfl
    have hoperand := led_operand ih (led_application ih (led_primary ih))
    have hassignment := led_assignment ih (led_chain ih hoperand BinaryOp.loosest)
    have hdeclaration := led_declaration ih hassignment
    cases p with
    | sequence => exact led_sequence ih hdeclaration
    | items => exact led_items ih
    | declaration => exact hdeclaration
    | assignment => exact hassignment
    | chain k => exact led_chain ih hoperand k
    | links k => exact led_links ih k
    | operand => exact hoperand
    | application => exact led_application ih (led_primary ih)
    | calls => exact led_calls ih
    | arguments => exact led_arguments ih hdeclaration
    | primary => exact led_primary ih
    | alternatives => exact led_alternatives ih
    | furtherArms => exact led_furtherArms ih
    | body => exact led_body ih

/-! ## Programs -/

/-- A program that is refused was read in steps up to the refused token. -/
theorem run_of_program {ts rest : List Token} {what : Expected}
    (h : program ts = .error (.expected what rest)) (hwhat : what ≠ .wordNumber) :
    ∃ kinds below, Run programStack ts (.token kinds :: below) rest ∧
      begins kinds rest = false := by
  have hled : Leads programStack [token [.eof]] ts (sequence maxNesting ts).plain :=
    led .sequence ts maxNesting [token [.eof]]
  rw [program_eq] at h
  cases hread : (sequence maxNesting ts).plain with
  | error refusal =>
    rw [hread] at h hled
    cases h
    exact hled hwhat
  | ok p =>
    obtain ⟨e, us⟩ := p
    rw [hread, ok_bind] at h
    rw [hread] at hled
    dsimp only at h
    split at h
    · cases h
    · next hmark =>
      -- The sequence was read, and the end mark is left on the stack.
      cases h
      refine ⟨[.eof], [], hled, ?_⟩
      cases rest with
      | nil => rfl
      | cons t rest => exact begins_single (by simpa using hmark)

/-- No sentence has an end mark, so there are tokens left where reading stops. -/
theorem ne_nil_of_begun {ts before rest : List Token} {w : List TokenKind}
    (hend : ts.getLast?.map Token.kind = some .eof) (hts : ts = before ++ rest)
    (hw : Sentence w) (hbegun : before.map Token.kind <+: w) : rest ≠ [] := by
  rintro rfl
  obtain ⟨mark, hlast, hkind⟩ := Option.map_eq_some_iff.mp hend
  rw [hts, List.append_nil] at hlast
  have hmem : TokenKind.eof ∈ before.map Token.kind :=
    List.mem_map.mpr ⟨mark, List.mem_of_getLast? hlast, hkind⟩
  exact hw.no_end rfl (hbegun.subset hmem)

theorem expected_of_syntaxError {ts : List Token} (hend : ts.getLast?.map Token.kind = some .eof)
    {what : Expected} {found : Option String} {line : Nat}
    (h : Expr.ofTokens ts = .error (.syntaxError what found line)) :
    ∃ rest, program ts = .error (.expected what rest) ∧
      (Refusal.expected what rest).toFault = .syntaxError what found line := by
  rw [ofTokens_eq_program hend] at h
  cases hprogram : program ts with
  | ok e =>
    rw [hprogram] at h
    cases h
  | error refusal =>
    rw [hprogram] at h
    have hfault : refusal.toFault = .syntaxError what found line := Except.error.inj h
    cases refusal with
    | expected what' rest =>
      obtain rfl : what' = what := by
        cases rest <;> exact (Fault.syntaxError.inj hfault).1
      exact ⟨rest, rfl, hfault⟩
    | invalidTarget target line' => cases hfault
    | tooDeep => cases hfault

/-- A syntax error, unless it is about the range of a number, is reported at the first token that
makes the program impossible: the tokens before it begin a sentence of the grammar, and with this
one they do not, or, where it is an end mark, they are no sentence. -/
theorem syntax_error_first (ts : List Token) (hend : ts.getLast?.map Token.kind = some .eof)
    (what : Expected) (found : Option String) (line : Nat)
    (h : Expr.ofTokens ts = .error (.syntaxError what found line)) (hwhat : what ≠ .wordNumber) :
    ∃ before t behind, ts = before ++ t :: behind ∧
      program ts = .error (.expected what (t :: behind)) ∧ found = t.quoted? ∧ line = t.line ∧
      (∃ w, Sentence w ∧ before.map Token.kind <+: w) ∧
      (t.kind = .eof → ¬ Sentence (before.map Token.kind)) ∧
      (t.kind ≠ .eof → ∀ w, Sentence w → ¬ before.map Token.kind ++ [t.kind] <+: w) := by
  obtain ⟨rest, hprogram, hfault⟩ := expected_of_syntaxError hend h
  obtain ⟨kinds, below, hrun, hstuck⟩ := run_of_program hprogram hwhat
  obtain ⟨before, hts, ⟨w, hw, hbegun⟩, hfirst⟩ := hrun.first_error hstuck
  cases rest with
  | nil => exact absurd rfl (ne_nil_of_begun hend hts hw hbegun)
  | cons t behind =>
    obtain ⟨-, hfound, hline⟩ := Fault.syntaxError.inj hfault
    obtain ⟨hmark, hother⟩ := hfirst t behind rfl
    exact ⟨before, t, behind, hts, hprogram, hfound.symm, hline.symm, ⟨w, hw, hbegun⟩, hmark,
      hother⟩

/-- `func(const a,) => { f(1,); }`: commas may stand at the end of lists, but no semicolon at the
end of a sequence. -/
def strayTokens : List Token :=
  [⟨.funcWord, "func", 1, 1⟩, ⟨.leftParen, "(", 1, 5⟩, ⟨.constWord, "const", 1, 6⟩,
    ⟨.identifier, "a", 1, 12⟩, ⟨.comma, ",", 1, 13⟩, ⟨.rightParen, ")", 1, 14⟩,
    ⟨.arrow, "=>", 1, 16⟩, ⟨.leftBrace, "\x7b", 1, 19⟩, ⟨.identifier, "f", 2, 3⟩,
    ⟨.leftParen, "(", 2, 4⟩, ⟨.number, "1", 2, 5⟩, ⟨.comma, ",", 2, 6⟩,
    ⟨.rightParen, ")", 2, 7⟩, ⟨.semicolon, ";", 2, 8⟩, ⟨.rightBrace, "\x7d", 3, 1⟩,
    ⟨.eof, "", 3, 2⟩]

theorem strayTokens_refused :
    (strayTokens.getLast?.map Token.kind = some .eof ∧
      Expr.ofTokens strayTokens = .error (.syntaxError .expression (some "\x7d") 3) ∧
      Expected.expression ≠ .wordNumber) ∧
    (∃ w, Sentence w ∧ (strayTokens.take 14).map Token.kind <+: w) ∧
    ∀ w, Sentence w → ¬ (strayTokens.take 15).map Token.kind <+: w := by
  have hend : strayTokens.getLast?.map Token.kind = some .eof := rfl
  have hprogram : program strayTokens = .error (.expected .expression (strayTokens.drop 14)) := by
    cbv
  have hfault : Expr.ofTokens strayTokens = .error (.syntaxError .expression (some "\x7d") 3) := by
    cbv
  have hwhat : Expected.expression ≠ .wordNumber := by decide
  obtain ⟨before, t, behind, hts, hstop, -, -, hbegun, -, hother⟩ :=
    syntax_error_first strayTokens hend .expression (some "\x7d") 3 hfault hwhat
  rw [hprogram] at hstop
  cases hstop
  obtain rfl : before = strayTokens.take 14 :=
    List.append_cancel_right (hts.symm.trans (List.take_append_drop 14 strayTokens).symm)
  exact ⟨⟨hend, hfault, hwhat⟩, hbegun, hother (by decide)⟩

end ExprLang.Grammar
