import ExprLang.Proofs.Grammar.Derivation
import ExprLang.Proofs.Grammar.Reading

/-!
An end mark is as good as the end of the tokens. Reading `ts ++ mark :: behind` gives what
reading `ts` gives, with `mark :: behind` left over (`beyond`), whether it succeeds or not.
So nothing behind the first end mark has an influence. As for soundness, the proof is an
induction on the number of tokens, with the tight productions before the loose ones.
-/

namespace ExprLang.Grammar

/-- A result, where more tokens are left over. -/
def beyond {α : Type} (tail : List Token) :
    Except Refusal (α × List Token) → Except Refusal (α × List Token)
  | .ok (x, rest) => .ok (x, rest ++ tail)
  | .error (.expected what rest) => .error (.expected what (rest ++ tail))
  | .error r => .error r

variable {α β : Type} {mark : Token} {behind : List Token}

theorem beyond_bind {tail : List Token} {x y : Except Refusal (α × List Token)}
    {f g : α × List Token → Except Refusal (β × List Token)} (hx : x = beyond tail y)
    (hf : ∀ a rest, y = .ok (a, rest) → f (a, rest ++ tail) = beyond tail (g (a, rest))) :
    (x >>= f) = beyond tail (y >>= g) := by
  subst hx
  cases y with
  | ok p => exact hf p.1 p.2 rfl
  | error r => cases r <;> rfl

theorem beyond_expect (hmark : mark.kind = .eof) {kind : TokenKind} (hk : kind ≠ .eof)
    (what : Expected) (ts : List Token) :
    (expect kind what (ts ++ mark :: behind)).plain =
      beyond (mark :: behind) (expect kind what ts).plain := by
  cases ts with
  | nil =>
    rw [List.nil_append, expect_plain_cons, if_neg (by rw [hmark]; exact hk.symm)]
    rfl
  | cons t us =>
    rw [List.cons_append, expect_plain_cons, expect_plain_cons]
    split <;> rfl

/-- The production takes an end mark for the end of the tokens. -/
def Bounded (mark : Token) (behind : List Token) : Production → List Token → Prop
  | .sequence, ts => ∀ room, (sequence room (ts ++ mark :: behind)).plain =
      beyond (mark :: behind) (sequence room ts).plain
  | .items, ts => ∀ room, (furtherItems room (ts ++ mark :: behind)).plain =
      beyond (mark :: behind) (furtherItems room ts).plain
  | .declaration, ts => ∀ room, (declaration room (ts ++ mark :: behind)).plain =
      beyond (mark :: behind) (declaration room ts).plain
  | .assignment, ts => ∀ room, (assignment room (ts ++ mark :: behind)).plain =
      beyond (mark :: behind) (assignment room ts).plain
  | .chain k, ts => ∀ room, (chain k room (ts ++ mark :: behind)).plain =
      beyond (mark :: behind) (chain k room ts).plain
  | .links 0, _ => True
  | .links (k + 1), ts => ∀ room left, linked k room left (ts ++ mark :: behind) =
      beyond (mark :: behind) (linked k room left ts)
  | .operand, ts => ∀ room, (operand room (ts ++ mark :: behind)).plain =
      beyond (mark :: behind) (operand room ts).plain
  | .application, ts => ∀ room, (application room (ts ++ mark :: behind)).plain =
      beyond (mark :: behind) (application room ts).plain
  | .calls, ts => ∀ room callee, called room callee (ts ++ mark :: behind) =
      beyond (mark :: behind) (called room callee ts)
  | .arguments, ts => ∀ room, (arguments room (ts ++ mark :: behind)).plain =
      beyond (mark :: behind) (arguments room ts).plain
  | .primary, ts => ∀ room, (primary room (ts ++ mark :: behind)).plain =
      beyond (mark :: behind) (primary room ts).plain
  | .alternatives, ts => ∀ room keyword,
      (alternatives room keyword (ts ++ mark :: behind)).plain =
        beyond (mark :: behind) (alternatives room keyword ts).plain
  | .furtherArms, ts => ∀ room, furtherArms room (ts ++ mark :: behind) =
      beyond (mark :: behind) (furtherArms room ts)
  | .body, ts => ∀ owner room, (body owner room (ts ++ mark :: behind)).plain =
      beyond (mark :: behind) (body owner room ts).plain

theorem bounded_furtherParameters (hmark : mark.kind = .eof) (first : Param) (ts : List Token)
    (ih : ∀ us, us.length < ts.length → (parameters (us ++ mark :: behind)).plain =
      beyond (mark :: behind) (parameters us).plain) :
    furtherParameters first (ts ++ mark :: behind) =
      beyond (mark :: behind) (furtherParameters first ts) := by
  cases ts with
  | nil => exact if_neg (by simp [hmark])
  | cons comma ts =>
    rw [List.cons_append, furtherParameters, furtherParameters]
    split
    · exact beyond_bind (ih ts (by simp)) fun _ _ _ => rfl
    · rfl

theorem bounded_parameters (hmark : mark.kind = .eof) (ts : List Token) :
    (parameters (ts ++ mark :: behind)).plain =
      beyond (mark :: behind) (parameters ts).plain := by
  obtain ⟨n, hn⟩ : ∃ n, n = ts.length := ⟨_, rfl⟩
  induction n using Nat.strongRecOn generalizing ts with
  | _ n ih =>
    subst hn
    cases ts with
    | nil =>
      rw [List.nil_append, parameters_plain_other (by simp [hmark]) (by simp [hmark]),
        expect_plain_cons, if_neg (by simp [hmark]), parameters_plain_nil]
      rfl
    | cons t us =>
      have hfurther : ∀ first rest, rest.length < (t :: us).length →
          furtherParameters first (rest ++ mark :: behind) =
            beyond (mark :: behind) (furtherParameters first rest) :=
        fun first rest hlt => bounded_furtherParameters hmark first rest
          fun vs hvs => ih _ (by omega) vs rfl
      rw [List.cons_append]
      by_cases hclose : t.kind = .rightParen
      · rw [parameters_plain_close hclose, parameters_plain_close hclose]
        rfl
      by_cases hconst : t.kind = .constWord
      · rw [parameters_plain_const hconst, parameters_plain_const hconst]
        refine beyond_bind (beyond_expect hmark (by decide) _ us) fun name rest hname => ?_
        obtain ⟨rfl, -⟩ := expect_eq_ok hname
        exact hfurther _ rest (by simp only [List.length_cons]; omega)
      · rw [parameters_plain_other hclose hconst, parameters_plain_other hclose hconst]
        refine beyond_bind (beyond_expect hmark (by decide) _ (t :: us)) fun name rest hname => ?_
        obtain ⟨he, -⟩ := expect_eq_ok hname
        cases he
        exact hfurther _ us (by simp)

section
variable {ts : List Token} (ih : ∀ p us, us.length < ts.length → Bounded mark behind p us)
include ih

theorem bounded_body (hmark : mark.kind = .eof) : Bounded mark behind .body ts := by
  intro owner room
  rw [body_plain, body_plain]
  refine beyond_bind (beyond_expect hmark (by decide) _ ts) fun _ r₁ h₁ => ?_
  obtain ⟨rfl, -⟩ := expect_eq_ok h₁
  refine beyond_bind (ih .sequence r₁ (by simp) room) fun _ r₂ _ => ?_
  exact beyond_bind (beyond_expect hmark (by decide) _ r₂) fun _ _ _ => rfl

theorem bounded_furtherArms (hmark : mark.kind = .eof) : Bounded mark behind .furtherArms ts := by
  intro room
  cases ts with
  | nil => exact (if_neg (by simp [hmark])).trans (if_neg (by simp [hmark]))
  | cons t us =>
    rw [List.cons_append, furtherArms, furtherArms]
    split
    · exact ih .alternatives us (by simp) room t.lexeme
    · split
      · exact beyond_bind (ih .body us (by simp) _ room) fun _ _ _ => rfl
      · rfl

theorem bounded_alternatives (hmark : mark.kind = .eof) :
    Bounded mark behind .alternatives ts := by
  intro room keyword
  rw [alternatives_plain, alternatives_plain]
  refine beyond_bind (beyond_expect hmark (by decide) _ ts) fun _ r₁ h₁ => ?_
  obtain ⟨rfl, -⟩ := expect_eq_ok h₁
  refine beyond_bind (ih .sequence r₁ (by simp) room) fun _ r₂ h₂ => ?_
  have hlt₂ := Reading.length_lt h₂
  refine beyond_bind (beyond_expect hmark (by decide) _ r₂) fun _ r₃ h₃ => ?_
  obtain ⟨rfl, -⟩ := expect_eq_ok h₃
  simp only [List.length_cons] at hlt₂
  refine beyond_bind (ih .body r₃ (by simp only [List.length_cons]; omega) _ room) fun _ r₄ h₄ => ?_
  have hlt₄ := Reading.length_lt h₄
  exact beyond_bind (ih .furtherArms r₄ (by simp only [List.length_cons]; omega) room)
    fun _ _ _ => rfl

theorem bounded_primary (hmark : mark.kind = .eof) : Bounded mark behind .primary ts := by
  intro room
  cases ts with
  | nil =>
    rw [List.nil_append, primary_plain_cons, primary_plain_nil]
    simp only [hmark]
    rfl
  | cons t us =>
    rw [List.cons_append, primary_plain_cons, primary_plain_cons]
    split
    · split <;> rfl
    · rfl
    · rfl
    · rfl
    · rfl
    · refine beyond_bind (ih .sequence us (by simp) room) fun _ r₁ _ => ?_
      exact beyond_bind (beyond_expect hmark (by decide) _ r₁) fun _ _ _ => rfl
    · refine beyond_bind (ih .sequence us (by simp) room) fun _ r₁ _ => ?_
      exact beyond_bind (beyond_expect hmark (by decide) _ r₁) fun _ _ _ => rfl
    · exact beyond_bind (ih .alternatives us (by simp) room _) fun _ _ _ => rfl
    · rfl

theorem bounded_calls (hmark : mark.kind = .eof) : Bounded mark behind .calls ts := by
  intro room callee
  cases ts with
  | nil =>
    rw [List.nil_append, called_other (by simp [hmark]), called_nil]
    rfl
  | cons t us =>
    rw [List.cons_append]
    by_cases hk : t.kind = .leftParen
    · cases room with
      | zero =>
        rw [called_zero hk, called_zero hk]
        rfl
      | succ room =>
        rw [called_succ hk, called_succ hk]
        refine beyond_bind (ih .arguments us (by simp) room) fun _ r₁ h₁ => ?_
        have hlt₁ := Reading.length_lt h₁
        refine beyond_bind (beyond_expect hmark (by decide) _ r₁) fun _ r₂ h₂ => ?_
        obtain ⟨rfl, -⟩ := expect_eq_ok h₂
        simp only [List.length_cons] at hlt₁
        exact ih .calls r₂ (by simp only [List.length_cons]; omega) room _
    · rw [called_other hk, called_other hk]
      rfl

theorem bounded_application (hprimary : Bounded mark behind .primary ts) :
    Bounded mark behind .application ts := by
  intro room
  rw [application_plain, application_plain]
  refine beyond_bind (hprimary room) fun callee r₁ h₁ => ?_
  exact ih .calls r₁ (Reading.length_lt h₁) room callee

theorem bounded_negation (op : UnaryOp) (room : Nat) (sign : Token) {us : List Token}
    (hus : us.length < ts.length) :
    (negation op room sign (us ++ mark :: behind)).plain =
      beyond (mark :: behind) (negation op room sign us).plain := by
  cases room with
  | zero =>
    rw [negation_plain_zero, negation_plain_zero]
    rfl
  | succ room =>
    rw [negation_plain_succ, negation_plain_succ]
    exact beyond_bind (ih .operand us hus room) fun _ _ _ => rfl

omit ih in
theorem isLeastMagnitude_bounded (hmark : mark.kind = .eof) (digits : Token) (us : List Token) :
    isLeastMagnitude digits (us ++ mark :: behind) = isLeastMagnitude digits us := by
  cases us with
  | nil =>
    simp only [isLeastMagnitude, List.nil_append, List.head?_cons, List.head?_nil, Option.map_some,
      Option.map_none, hmark]
    rfl
  | cons t us => rfl

theorem bounded_operand (hmark : mark.kind = .eof)
    (happlication : Bounded mark behind .application ts) : Bounded mark behind .operand ts := by
  intro room
  cases ts with
  | nil =>
    rw [List.nil_append, operand_plain_other room (by simp [hmark]), operand_plain_nil]
    exact happlication room
  | cons t us =>
    by_cases hminus : t.kind = .minus
    · by_cases hleast : ∃ digits vs, us = digits :: vs ∧ isLeastMagnitude digits vs = true
      · obtain ⟨digits, vs, rfl, hl⟩ := hleast
        rw [List.cons_append, List.cons_append, operand_plain_least room hminus hl,
          operand_plain_least room hminus (by rw [isLeastMagnitude_bounded hmark, hl])]
        rfl
      · have hno : ∀ n r, us = n :: r → isLeastMagnitude n r = false := by
          intro n r hr
          cases hl : isLeastMagnitude n r with
          | false => rfl
          | true => exact absurd ⟨n, r, hr, hl⟩ hleast
        have hno' : ∀ n r, us ++ mark :: behind = n :: r → isLeastMagnitude n r = false := by
          intro n r hr
          cases us with
          | nil =>
            cases hr
            simp [isLeastMagnitude, hmark]
          | cons u us =>
            rw [List.cons_append] at hr
            cases hr
            rw [isLeastMagnitude_bounded hmark]
            exact hno n us rfl
        rw [List.cons_append, operand_plain_minus room hminus hno',
          operand_plain_minus room hminus hno]
        exact bounded_negation ih .negate room t (by simp)
    by_cases hbang : t.kind = .bang
    · rw [List.cons_append, operand_plain_bang room hbang, operand_plain_bang room hbang]
      exact bounded_negation ih .not room t (by simp)
    · rw [List.cons_append, operand_plain_other room (by simp [hminus, hbang]),
        operand_plain_other room (by simp [hminus, hbang])]
      exact happlication room

theorem bounded_links (hmark : mark.kind = .eof) (k : Nat) :
    Bounded mark behind (.links k) ts := by
  cases k with
  | zero => trivial
  | succ k =>
    intro room left
    cases ts with
    | nil =>
      have hnone : BinaryOp.ofKindAt? (k + 1) mark.kind = none := by
        simp [hmark, BinaryOp.ofKindAt?, BinaryOp.ofKind?]
      rw [List.nil_append, linked_none hnone, linked_nil]
      rfl
    | cons t us =>
      rw [List.cons_append]
      cases ho : BinaryOp.ofKindAt? (k + 1) t.kind with
      | none =>
        rw [linked_none ho, linked_none ho]
        rfl
      | some op =>
        cases room with
        | zero =>
          rw [linked_zero ho, linked_zero ho]
          rfl
        | succ room =>
          rw [linked_succ ho, linked_succ ho]
          refine beyond_bind (ih (.chain k) us (by simp) room) fun _ r₁ h₁ => ?_
          have hlt₁ := Reading.length_lt h₁
          exact ih (.links (k + 1)) r₁ (by simp only [List.length_cons]; omega) room _

theorem bounded_chain (hoperand : Bounded mark behind .operand ts) (k : Nat) :
    Bounded mark behind (.chain k) ts := by
  induction k with
  | zero =>
    intro room
    rw [chain_plain_zero, chain_plain_zero]
    exact hoperand room
  | succ k ihk =>
    intro room
    rw [chain_plain_succ, chain_plain_succ]
    refine beyond_bind (ihk room) fun first r₁ h₁ => ?_
    exact ih (.links (k + 1)) r₁ (Reading.length_lt h₁) room first

theorem bounded_assignment (hmark : mark.kind = .eof)
    (hchain : Bounded mark behind (.chain BinaryOp.loosest) ts) :
    Bounded mark behind .assignment ts := by
  intro room
  rw [assignment_plain, assignment_plain]
  refine beyond_bind (hchain room) fun target r₁ h₁ => ?_
  cases r₁ with
  | nil => exact if_neg (by simp [hmark])
  | cons t r₂ =>
    have hlt : r₂.length < ts.length := by
      have := Reading.length_lt h₁
      simp only [List.length_cons] at this
      omega
    dsimp only [List.cons_append]
    split
    · refine beyond_bind (ih .declaration r₂ hlt room) fun value r₃ _ => ?_
      cases target <;> rfl
    · rfl

theorem bounded_binding (hmark : mark.kind = .eof) {word : Token} {us : List Token}
    (hts : ts = word :: us) (constant : Bool) (room : Nat) :
    (binding constant room word (us ++ mark :: behind)).plain =
      beyond (mark :: behind) (binding constant room word us).plain := by
  rw [binding_plain, binding_plain]
  refine beyond_bind (beyond_expect hmark (by decide) _ us) fun _ r₁ h₁ => ?_
  obtain ⟨rfl, -⟩ := expect_eq_ok h₁
  refine beyond_bind (beyond_expect hmark (by decide) _ r₁) fun _ r₂ h₂ => ?_
  obtain ⟨rfl, -⟩ := expect_eq_ok h₂
  have hlt : r₂.length < ts.length := by
    simp only [hts, List.length_cons]
    omega
  exact beyond_bind (ih .declaration r₂ hlt room) fun _ _ _ => rfl

theorem bounded_function (hmark : mark.kind = .eof) {word : Token} {us : List Token}
    (hts : ts = word :: us) (hword : word.kind = .funcWord) (room : Nat) :
    (declaration (room + 1) (word :: (us ++ mark :: behind))).plain =
      beyond (mark :: behind) (declaration (room + 1) (word :: us)).plain := by
  rw [declaration_plain_func room hword, declaration_plain_func room hword]
  refine beyond_bind (beyond_expect hmark (by decide) _ us) fun _ r₁ h₁ => ?_
  obtain ⟨rfl, -⟩ := expect_eq_ok h₁
  refine beyond_bind (bounded_parameters hmark r₁) fun _ r₂ h₂ => ?_
  have hlt₂ := Reading.length_lt h₂
  refine beyond_bind (beyond_expect hmark (by decide) _ r₂) fun _ r₃ h₃ => ?_
  obtain ⟨rfl, -⟩ := expect_eq_ok h₃
  refine beyond_bind (beyond_expect hmark (by decide) _ r₃) fun _ r₄ h₄ => ?_
  obtain ⟨rfl, -⟩ := expect_eq_ok h₄
  have hlt₄ : r₄.length < ts.length := by
    simp only [hts, List.length_cons] at hlt₂ ⊢
    omega
  exact beyond_bind (ih .body r₄ hlt₄ _ room) fun _ _ _ => rfl

theorem bounded_loop (hmark : mark.kind = .eof) {word : Token} {us : List Token}
    (hts : ts = word :: us) (hword : word.kind = .whileWord) (room : Nat) :
    (declaration (room + 1) (word :: (us ++ mark :: behind))).plain =
      beyond (mark :: behind) (declaration (room + 1) (word :: us)).plain := by
  rw [declaration_plain_while room hword, declaration_plain_while room hword]
  refine beyond_bind (beyond_expect hmark (by decide) _ us) fun _ r₁ h₁ => ?_
  obtain ⟨rfl, -⟩ := expect_eq_ok h₁
  have hlt₁ : r₁.length < ts.length := by
    simp only [hts, List.length_cons]
    omega
  refine beyond_bind (ih .sequence r₁ hlt₁ room) fun _ r₂ h₂ => ?_
  have hlt₂ := Reading.length_lt h₂
  refine beyond_bind (beyond_expect hmark (by decide) _ r₂) fun _ r₃ h₃ => ?_
  obtain ⟨rfl, -⟩ := expect_eq_ok h₃
  have hlt₃ : r₃.length < ts.length := by
    simp only [List.length_cons] at hlt₂
    omega
  exact beyond_bind (ih .body r₃ hlt₃ _ room) fun _ _ _ => rfl

theorem bounded_declaration (hmark : mark.kind = .eof)
    (hassignment : Bounded mark behind .assignment ts) : Bounded mark behind .declaration ts := by
  intro room
  cases room with
  | zero =>
    rw [declaration_plain_zero, declaration_plain_zero]
    rfl
  | succ room =>
    cases ts with
    | nil =>
      rw [List.nil_append, declaration_plain_other room (by simp [hmark]), declaration_plain_nil]
      exact hassignment room
    | cons t us =>
      rw [List.cons_append]
      by_cases hlet : t.kind = .letWord
      · rw [declaration_plain_let room hlet, declaration_plain_let room hlet]
        exact bounded_binding ih hmark rfl false room
      by_cases hconst : t.kind = .constWord
      · rw [declaration_plain_const room hconst, declaration_plain_const room hconst]
        exact bounded_binding ih hmark rfl true room
      by_cases hfunc : t.kind = .funcWord
      · exact bounded_function ih hmark rfl hfunc room
      by_cases hwhile : t.kind = .whileWord
      · exact bounded_loop ih hmark rfl hwhile room
      · have hother : t.kind ∉ [.letWord, .constWord, .funcWord, .whileWord] := by
          simp [hlet, hconst, hfunc, hwhile]
        rw [declaration_plain_other room hother, declaration_plain_other room hother]
        exact hassignment room

theorem bounded_items (hmark : mark.kind = .eof) : Bounded mark behind .items ts := by
  intro room
  cases ts with
  | nil =>
    rw [List.nil_append, furtherItems_plain_cons, if_neg (by simp [hmark]), furtherItems_plain_nil]
    rfl
  | cons t us =>
    rw [List.cons_append, furtherItems_plain_cons, furtherItems_plain_cons]
    split
    · refine beyond_bind (ih .declaration us (by simp) room) fun _ r₁ h₁ => ?_
      have hlt₁ := Reading.length_lt h₁
      exact beyond_bind (ih .items r₁ (by simp only [List.length_cons]; omega) room)
        fun _ _ _ => rfl
    · rfl

theorem bounded_sequence (hdeclaration : Bounded mark behind .declaration ts) :
    Bounded mark behind .sequence ts := by
  intro room
  rw [sequence_plain, sequence_plain]
  refine beyond_bind (hdeclaration room) fun _ r₁ h₁ => ?_
  exact beyond_bind (ih .items r₁ (Reading.length_lt h₁) room) fun _ _ _ => rfl

theorem bounded_arguments (hmark : mark.kind = .eof)
    (hdeclaration : Bounded mark behind .declaration ts) : Bounded mark behind .arguments ts := by
  intro room
  have hhead : (ts ++ mark :: behind).head?.map Token.kind = some .rightParen ↔
      ts.head?.map Token.kind = some .rightParen := by
    cases ts with
    | nil => simp [hmark]
    | cons t us => rfl
  by_cases hclose : ts.head?.map Token.kind = some .rightParen
  · rw [arguments_plain_close room hclose, arguments_plain_close room (hhead.mpr hclose)]
    rfl
  · rw [arguments_plain_other room hclose, arguments_plain_other room (mt hhead.mp hclose)]
    refine beyond_bind (hdeclaration room) fun value r₁ h₁ => ?_
    cases r₁ with
    | nil => exact if_neg (by simp [hmark])
    | cons comma r₂ =>
      have hlt : r₂.length < ts.length := by
        have := Reading.length_lt h₁
        simp only [List.length_cons] at this
        omega
      dsimp only [List.cons_append]
      split
      · exact beyond_bind (ih .arguments r₂ hlt room) fun _ _ _ => rfl
      · rfl

end

/-- An end mark is taken for the end of the tokens. -/
theorem bounded (hmark : mark.kind = .eof) (p : Production) (ts : List Token) :
    Bounded mark behind p ts := by
  induction hn : ts.length using Nat.strongRecOn generalizing p ts with
  | _ n ih =>
    have ih : ∀ q us, us.length < ts.length → Bounded mark behind q us :=
      fun q us hlt => ih us.length (hn ▸ hlt) q us rfl
    have hprimary := bounded_primary ih hmark
    have hoperand := bounded_operand ih hmark (bounded_application ih hprimary)
    have hassignment := bounded_assignment ih hmark (bounded_chain ih hoperand BinaryOp.loosest)
    have hdeclaration := bounded_declaration ih hmark hassignment
    cases p with
    | sequence => exact bounded_sequence ih hdeclaration
    | items => exact bounded_items ih hmark
    | declaration => exact hdeclaration
    | assignment => exact hassignment
    | chain k => exact bounded_chain ih hoperand k
    | links k => exact bounded_links ih hmark k
    | operand => exact hoperand
    | application => exact bounded_application ih hprimary
    | calls => exact bounded_calls ih hmark
    | arguments => exact bounded_arguments ih hmark hdeclaration
    | primary => exact hprimary
    | alternatives => exact bounded_alternatives ih hmark
    | furtherArms => exact bounded_furtherArms ih hmark
    | body => exact bounded_body ih hmark

end ExprLang.Grammar
