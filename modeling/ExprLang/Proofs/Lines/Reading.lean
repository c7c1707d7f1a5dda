import ExprLang.Proofs.Grammar.Recognition
import ExprLang.Proofs.Lines.Relabel

/-!
What the grammar sees of a token. A transcript of tokens keeps their kinds and the lexemes of
numbers and names; it has other lines, other words in place of the other lexemes, and no
columns. Reading a transcript gives what reading the tokens gives, with the lines that the
transcript has and, in a diagnostic, its words.

* `Transcribed`: what reading a transcript gives, against what reading the tokens gives;
* `transcript`: every production, by induction on the number of tokens, with the tight
  productions before the loose ones;
* `ofTokens_transcribe_ok`, `ofTokens_transcribe`: whole programs.
-/

namespace ExprLang

/-- The token with another line, another word for its lexeme if the grammar does not read
that, and no column of its own. -/
def Token.transcribe (line : Nat → Nat) (word : String → String) (t : Token) : Token :=
  ⟨t.kind, if t.kind = .number ∨ t.kind = .identifier then t.lexeme else word t.lexeme,
    line t.line, 1⟩

@[simp] theorem Token.kind_transcribe (line : Nat → Nat) (word : String → String) (t : Token) :
    (t.transcribe line word).kind = t.kind := rfl

def BlockOwner.reword (word : String → String) : BlockOwner → BlockOwner
  | .function => .function
  | .keyword k => .keyword (word k)

/-- The expectation with other words in place of those it quotes from the tokens. -/
def Expected.reword (word : String → String) : Expected → Expected
  | .nameAfter k => .nameAfter (word k)
  | .equalAfter k => .equalAfter (word k)
  | .openAfter k => .openAfter (word k)
  | .closeCondition k => .closeCondition (word k)
  | .openBlock owner => .openBlock (owner.reword word)
  | .closeBlock owner => .closeBlock (owner.reword word)
  | what => what

/-- The fault with other words in place of those it quotes from the tokens. -/
def Fault.reword (word : String → String) : Fault → Fault
  | .syntaxError expected found line => .syntaxError (expected.reword word) (found.map word) line
  | fault => fault

@[simp] theorem Fault.kind_reword (word : String → String) (fault : Fault) :
    (fault.reword word).kind = fault.kind := by
  cases fault <;> rfl

@[simp] theorem Expected.reword_id (what : Expected) : what.reword id = what := by
  cases what with
  | openBlock owner | closeBlock owner => cases owner <;> rfl
  | _ => rfl

@[simp] theorem Fault.reword_id (fault : Fault) : fault.reword id = fault := by
  cases fault with
  | syntaxError expected found line =>
    simp only [Fault.reword, Expected.reword_id, Option.map_id_fun, id]
  | _ => rfl

namespace Grammar

variable {α β : Type} {line : Nat → Nat} {word : String → String}

/-- What reading tokens gives, and what reading their transcript gives. -/
inductive Transcribed (line : Nat → Nat) (word : String → String) (copy : α → α) :
    Except Refusal (α × List Token) → Except Refusal (α × List Token) → Prop where
  | read {x : α} {rest : List Token} :
      Transcribed line word copy (.ok (x, rest))
        (.ok (copy x, rest.map (Token.transcribe line word)))
  | expected {what what' : Expected} (h : what.reword word = what'.reword word)
      {rest : List Token} :
      Transcribed line word copy (.error (.expected what rest))
        (.error (.expected what' (rest.map (Token.transcribe line word))))
  | invalidTarget {target : String} {l : Nat} :
      Transcribed line word copy (.error (.invalidTarget target l))
        (.error (.invalidTarget target (line l)))
  | tooDeep : Transcribed line word copy (.error .tooDeep) (.error .tooDeep)

theorem Transcribed.bind {copy : α → α} {copy' : β → β}
    {x y : Except Refusal (α × List Token)}
    {f g : α × List Token → Except Refusal (β × List Token)}
    (hx : Transcribed line word copy x y)
    (hf : ∀ a rest, x = .ok (a, rest) → Transcribed line word copy' (f (a, rest))
      (g (copy a, rest.map (Token.transcribe line word)))) :
    Transcribed line word copy' (x >>= f) (y >>= g) := by
  cases hx with
  | read => exact hf _ _ rfl
  | expected h => exact .expected h
  | invalidTarget => exact .invalidTarget
  | tooDeep => exact .tooDeep

theorem transcribed_expect {what what' : Expected} (h : what.reword word = what'.reword word)
    (kind : TokenKind) (ts : List Token) :
    Transcribed line word (Token.transcribe line word) (expect kind what ts).plain
      (expect kind what' (ts.map (Token.transcribe line word))).plain := by
  cases ts with
  | nil => exact .expected h
  | cons t us =>
    rw [List.map_cons, expect_plain_cons, expect_plain_cons, Token.kind_transcribe]
    split
    · exact .read
    · exact .expected h

/-- The lexeme of a name is read, so it is kept. -/
theorem lexeme_transcribe_of_name {t : Token} (h : t.kind = .identifier) :
    (t.transcribe line word).lexeme = t.lexeme :=
  if_pos (.inr h)

theorem lexeme_transcribe_of_number {t : Token} (h : t.kind = .number) :
    (t.transcribe line word).lexeme = t.lexeme :=
  if_pos (.inl h)

/-- A word that stands for a lexeme may stand for itself. -/
theorem word_lexeme_transcribe (hword : ∀ w, word (word w) = word w) (t : Token) :
    word (t.transcribe line word).lexeme = word t.lexeme := by
  unfold Token.transcribe
  dsimp only
  split
  · rfl
  · exact hword t.lexeme

/-! ## Parameters -/

theorem transcribed_furtherParameters (first : Param) (ts : List Token)
    (ih : ∀ us, us.length < ts.length → Transcribed line word id (parameters us).plain
      (parameters (us.map (Token.transcribe line word))).plain) :
    Transcribed line word id (furtherParameters first ts)
      (furtherParameters first (ts.map (Token.transcribe line word))) := by
  cases ts with
  | nil => exact .read
  | cons comma ts =>
    rw [List.map_cons, furtherParameters, furtherParameters, Token.kind_transcribe]
    split
    · exact (ih ts (by simp)).bind fun params rest _ => .read
    · exact .read

theorem transcribed_parameters (ts : List Token) :
    Transcribed line word id (parameters ts).plain
      (parameters (ts.map (Token.transcribe line word))).plain := by
  obtain ⟨n, hn⟩ : ∃ n, n = ts.length := ⟨_, rfl⟩
  induction n using Nat.strongRecOn generalizing ts with
  | _ n ih =>
    subst hn
    cases ts with
    | nil =>
      rw [List.map_nil, parameters_plain_nil]
      exact .expected rfl
    | cons t us =>
      have hfurther : ∀ first rest, rest.length < (t :: us).length →
          Transcribed line word id (furtherParameters first rest)
            (furtherParameters first (rest.map (Token.transcribe line word))) :=
        fun first rest hlt => transcribed_furtherParameters first rest
          fun vs hvs => ih _ (by omega) vs rfl
      rw [List.map_cons]
      by_cases hclose : t.kind = .rightParen
      · rw [parameters_plain_close hclose, parameters_plain_close (t := t.transcribe line word) hclose]
        exact .read
      by_cases hconst : t.kind = .constWord
      · rw [parameters_plain_const hconst, parameters_plain_const (t := t.transcribe line word) hconst]
        refine (transcribed_expect rfl _ us).bind fun name rest hname => ?_
        obtain ⟨rfl, hkind⟩ := expect_eq_ok hname
        dsimp only
        rw [lexeme_transcribe_of_name hkind]
        exact hfurther _ rest (by simp only [List.length_cons]; omega)
      · rw [parameters_plain_other hclose hconst,
          parameters_plain_other (t := t.transcribe line word) hclose hconst]
        refine (transcribed_expect rfl _ (t :: us)).bind fun name rest hname => ?_
        obtain ⟨he, hkind⟩ := expect_eq_ok hname
        cases he
        dsimp only
        rw [lexeme_transcribe_of_name hkind]
        exact hfurther _ us (by simp)

/-! ## Productions -/

/-- The production reads a transcript as it reads the tokens. -/
def Transcript (line : Nat → Nat) (word : String → String) : Production → List Token → Prop
  | .sequence, ts => ∀ room, Transcribed line word (Expr.relabel line) (sequence room ts).plain
      (sequence room (ts.map (Token.transcribe line word))).plain
  | .items, ts => ∀ room, Transcribed line word (Expr.relabelAll line) (furtherItems room ts).plain
      (furtherItems room (ts.map (Token.transcribe line word))).plain
  | .declaration, ts => ∀ room, Transcribed line word (Expr.relabel line)
      (declaration room ts).plain
      (declaration room (ts.map (Token.transcribe line word))).plain
  | .assignment, ts => ∀ room, Transcribed line word (Expr.relabel line)
      (assignment room ts).plain (assignment room (ts.map (Token.transcribe line word))).plain
  | .chain k, ts => ∀ room, Transcribed line word (Expr.relabel line) (chain k room ts).plain
      (chain k room (ts.map (Token.transcribe line word))).plain
  | .links 0, _ => True
  | .links (k + 1), ts => ∀ room left, Transcribed line word (Expr.relabel line)
      (linked k room left ts)
      (linked k room (left.relabel line) (ts.map (Token.transcribe line word)))
  | .operand, ts => ∀ room, Transcribed line word (Expr.relabel line) (operand room ts).plain
      (operand room (ts.map (Token.transcribe line word))).plain
  | .application, ts => ∀ room, Transcribed line word (Expr.relabel line)
      (application room ts).plain (application room (ts.map (Token.transcribe line word))).plain
  | .calls, ts => ∀ room callee, Transcribed line word (Expr.relabel line)
      (called room callee ts)
      (called room (callee.relabel line) (ts.map (Token.transcribe line word)))
  | .arguments, ts => ∀ room, Transcribed line word (Expr.relabelAll line)
      (arguments room ts).plain (arguments room (ts.map (Token.transcribe line word))).plain
  | .primary, ts => ∀ room, Transcribed line word (Expr.relabel line) (primary room ts).plain
      (primary room (ts.map (Token.transcribe line word))).plain
  | .alternatives, ts => ∀ room keyword keyword', word keyword = word keyword' →
      Transcribed line word (Arms.relabel line) (alternatives room keyword ts).plain
        (alternatives room keyword' (ts.map (Token.transcribe line word))).plain
  | .furtherArms, ts => ∀ room, Transcribed line word (Arms.relabel line) (furtherArms room ts)
      (furtherArms room (ts.map (Token.transcribe line word)))
  | .body, ts => ∀ owner owner' room, owner.reword word = owner'.reword word →
      Transcribed line word (Expr.relabel line) (body owner room ts).plain
        (body owner' room (ts.map (Token.transcribe line word))).plain

section
variable {ts : List Token}
  (ih : ∀ p us, us.length < ts.length → Transcript line word p us)
include ih

theorem transcript_body : Transcript line word .body ts := by
  intro owner owner' room howner
  rw [body_plain, body_plain]
  have hopen : (Expected.openBlock owner).reword word = (Expected.openBlock owner').reword word :=
    congrArg Expected.openBlock howner
  have hclose : (Expected.closeBlock owner).reword word =
      (Expected.closeBlock owner').reword word :=
    congrArg Expected.closeBlock howner
  refine (transcribed_expect hopen _ ts).bind fun _ r₁ h₁ => ?_
  obtain ⟨rfl, -⟩ := expect_eq_ok h₁
  refine (ih .sequence r₁ (by simp) room).bind fun e r₂ _ => ?_
  exact (transcribed_expect hclose _ r₂).bind fun _ _ _ => .read

theorem transcript_furtherArms (hword : ∀ w, word (word w) = word w) :
    Transcript line word .furtherArms ts := by
  intro room
  cases ts with
  | nil => exact .read
  | cons t us =>
    rw [List.map_cons, furtherArms, furtherArms, Token.kind_transcribe]
    split
    · exact ih .alternatives us (by simp) room _ _ (word_lexeme_transcribe hword t).symm
    · split
      · exact (ih .body us (by simp) _ _ room rfl).bind fun last rest _ =>
          .read
      · exact .read

theorem transcript_alternatives : Transcript line word .alternatives ts := by
  intro room keyword keyword' hkeyword
  rw [alternatives_plain, alternatives_plain]
  have hopen : (Expected.openAfter keyword).reword word =
      (Expected.openAfter keyword').reword word :=
    congrArg Expected.openAfter hkeyword
  have hclose : (Expected.closeCondition keyword).reword word =
      (Expected.closeCondition keyword').reword word :=
    congrArg Expected.closeCondition hkeyword
  have howner : (BlockOwner.keyword keyword).reword word =
      (BlockOwner.keyword keyword').reword word :=
    congrArg BlockOwner.keyword hkeyword
  refine (transcribed_expect hopen _ ts).bind fun _ r₁ h₁ => ?_
  obtain ⟨rfl, -⟩ := expect_eq_ok h₁
  refine (ih .sequence r₁ (by simp) room).bind fun condition r₂ h₂ => ?_
  have hlt₂ := Reading.length_lt h₂
  refine (transcribed_expect hclose _ r₂).bind fun _ r₃ h₃ => ?_
  obtain ⟨rfl, -⟩ := expect_eq_ok h₃
  simp only [List.length_cons] at hlt₂
  refine (ih .body r₃ (by simp only [List.length_cons]; omega) _ _ room howner).bind
    fun inside r₄ h₄ => ?_
  have hlt₄ := Reading.length_lt h₄
  exact (ih .furtherArms r₄ (by simp only [List.length_cons]; omega) room).bind
    fun arms r₅ _ => .read

theorem transcript_primary (hword : ∀ w, word (word w) = word w) :
    Transcript line word .primary ts := by
  intro room
  cases ts with
  | nil =>
    rw [List.map_nil, primary_plain_nil]
    exact .expected rfl
  | cons t us =>
    rw [List.map_cons, primary_plain_cons, primary_plain_cons, Token.kind_transcribe]
    split
    · next hnumber =>
      rw [lexeme_transcribe_of_number hnumber]
      split
      · exact .read
      · exact .expected rfl
    · exact .read
    · exact .read
    · exact .read
    · next hname =>
      rw [lexeme_transcribe_of_name hname]
      exact .read
    · refine (ih .sequence us (by simp) room).bind fun e r₁ _ => ?_
      exact (transcribed_expect rfl _ r₁).bind fun _ r₂ _ => .read
    · refine (ih .sequence us (by simp) room).bind fun e r₁ _ => ?_
      exact (transcribed_expect rfl _ r₁).bind fun _ r₂ _ => .read
    · exact (ih .alternatives us (by simp) room _ _ (word_lexeme_transcribe hword t).symm).bind
        fun arms rest _ => .read
    · exact .expected rfl

theorem transcript_calls : Transcript line word .calls ts := by
  intro room callee
  cases ts with
  | nil =>
    rw [List.map_nil, called_nil, called_nil]
    exact .read
  | cons t us =>
    rw [List.map_cons]
    by_cases hk : t.kind = .leftParen
    · cases room with
      | zero =>
        rw [called_zero hk, called_zero (t := t.transcribe line word) hk]
        exact .tooDeep
      | succ room =>
        rw [called_succ hk, called_succ (t := t.transcribe line word) hk]
        refine (ih .arguments us (by simp) room).bind fun values r₁ h₁ => ?_
        have hlt₁ := Reading.length_lt h₁
        refine (transcribed_expect rfl _ r₁).bind fun _ r₂ h₂ => ?_
        obtain ⟨rfl, -⟩ := expect_eq_ok h₂
        simp only [List.length_cons] at hlt₁
        exact ih .calls r₂ (by simp only [List.length_cons]; omega) room
          (.call callee values t.line)
    · rw [called_other hk, called_other (t := t.transcribe line word) hk]
      exact .read

theorem transcript_application (hprimary : Transcript line word .primary ts) :
    Transcript line word .application ts := by
  intro room
  rw [application_plain, application_plain]
  refine (hprimary room).bind fun callee r₁ h₁ => ?_
  exact ih .calls r₁ (Reading.length_lt h₁) room callee

theorem transcribed_negation (op : UnaryOp) (room : Nat) (sign : Token) {us : List Token}
    (hus : us.length < ts.length) :
    Transcribed line word (Expr.relabel line) (negation op room sign us).plain
      (negation op room (sign.transcribe line word)
        (us.map (Token.transcribe line word))).plain := by
  cases room with
  | zero =>
    rw [negation_plain_zero, negation_plain_zero]
    exact .tooDeep
  | succ room =>
    rw [negation_plain_succ, negation_plain_succ]
    exact (ih .operand us hus room).bind fun e rest _ => .read

omit ih in
theorem isLeastMagnitude_transcribe (digits : Token) (us : List Token) :
    isLeastMagnitude (digits.transcribe line word) (us.map (Token.transcribe line word)) =
      isLeastMagnitude digits us := by
  have hnext : ((us.map (Token.transcribe line word)).head?.map Token.kind) =
      us.head?.map Token.kind := by
    cases us <;> rfl
  by_cases hnumber : digits.kind = .number
  · rw [isLeastMagnitude, isLeastMagnitude, lexeme_transcribe_of_number hnumber, hnext]
    rfl
  · simp [isLeastMagnitude, hnumber]

theorem transcript_operand (happlication : Transcript line word .application ts) :
    Transcript line word .operand ts := by
  intro room
  cases ts with
  | nil =>
    rw [List.map_nil, operand_plain_nil]
    exact happlication room
  | cons t us =>
    rw [List.map_cons]
    by_cases hminus : t.kind = .minus
    · by_cases hleast : ∃ digits vs, us = digits :: vs ∧ isLeastMagnitude digits vs = true
      · obtain ⟨digits, vs, rfl, hl⟩ := hleast
        have hl' : isLeastMagnitude (digits.transcribe line word)
            (vs.map (Token.transcribe line word)) = true := by
          rw [isLeastMagnitude_transcribe, hl]
        rw [List.map_cons, operand_plain_least room hminus hl,
          operand_plain_least room (t := t.transcribe line word) hminus hl']
        exact .read
      · have hno : ∀ n r, us = n :: r → isLeastMagnitude n r = false := by
          intro n r hr
          cases hl : isLeastMagnitude n r with
          | false => rfl
          | true => exact absurd ⟨n, r, hr, hl⟩ hleast
        have hno' : ∀ n r, us.map (Token.transcribe line word) = n :: r →
            isLeastMagnitude n r = false := by
          intro n r hr
          obtain ⟨u, vs, rfl, rfl, rfl⟩ := List.map_eq_cons_iff.mp hr
          rw [isLeastMagnitude_transcribe]
          exact hno u vs rfl
        rw [operand_plain_minus room hminus hno,
          operand_plain_minus room (t := t.transcribe line word) hminus hno']
        exact transcribed_negation ih .negate room t (by simp)
    by_cases hbang : t.kind = .bang
    · rw [operand_plain_bang room hbang,
        operand_plain_bang room (t := t.transcribe line word) hbang]
      exact transcribed_negation ih .not room t (by simp)
    · have hother : t.kind ∉ [.minus, .bang] := by simp [hminus, hbang]
      rw [operand_plain_other room hother,
        operand_plain_other room (t := t.transcribe line word) hother]
      exact happlication room

theorem transcript_links (k : Nat) : Transcript line word (.links k) ts := by
  cases k with
  | zero => trivial
  | succ k =>
    intro room left
    cases ts with
    | nil =>
      rw [List.map_nil, linked_nil, linked_nil]
      exact .read
    | cons t us =>
      rw [List.map_cons]
      cases ho : BinaryOp.ofKindAt? (k + 1) t.kind with
      | none =>
        rw [linked_none ho, linked_none (t := t.transcribe line word) ho]
        exact .read
      | some op =>
        cases room with
        | zero =>
          rw [linked_zero ho, linked_zero (t := t.transcribe line word) ho]
          exact .tooDeep
        | succ room =>
          rw [linked_succ ho, linked_succ (t := t.transcribe line word) ho]
          refine (ih (.chain k) us (by simp) room).bind fun right r₁ h₁ => ?_
          have hlt₁ := Reading.length_lt h₁
          exact ih (.links (k + 1)) r₁ (by simp only [List.length_cons]; omega) room
            (.binary op left right t.line)

theorem transcript_chain (hoperand : Transcript line word .operand ts) (k : Nat) :
    Transcript line word (.chain k) ts := by
  induction k with
  | zero =>
    intro room
    rw [chain_plain_zero, chain_plain_zero]
    exact hoperand room
  | succ k ihk =>
    intro room
    rw [chain_plain_succ, chain_plain_succ]
    refine (ihk room).bind fun first r₁ h₁ => ?_
    exact ih (.links (k + 1)) r₁ (Reading.length_lt h₁) room first

theorem transcript_assignment (hchain : Transcript line word (.chain BinaryOp.loosest) ts) :
    Transcript line word .assignment ts := by
  intro room
  rw [assignment_plain, assignment_plain]
  refine (hchain room).bind fun target r₁ h₁ => ?_
  cases r₁ with
  | nil => exact .read
  | cons t r₂ =>
    have hlt : r₂.length < ts.length := by
      have := Reading.length_lt h₁
      simp only [List.length_cons] at this
      omega
    simp only [List.map_cons]
    by_cases hequal : t.kind = .equal
    · have hequal' : (t.transcribe line word).kind = .equal := hequal
      rw [if_pos hequal, if_pos hequal']
      refine (ih .declaration r₂ hlt room).bind fun value r₃ _ => ?_
      cases target with
      | identifier name l => exact .read
      | _ => exact .invalidTarget
    · have hequal' : (t.transcribe line word).kind ≠ .equal := hequal
      rw [if_neg hequal, if_neg hequal']
      exact .read

theorem transcribed_binding (hword : ∀ w, word (word w) = word w) {keyword : Token}
    {us : List Token} (hts : ts = keyword :: us) (constant : Bool) (room : Nat) :
    Transcribed line word (Expr.relabel line) (binding constant room keyword us).plain
      (binding constant room (keyword.transcribe line word)
        (us.map (Token.transcribe line word))).plain := by
  have hkeyword : word keyword.lexeme = word (keyword.transcribe line word).lexeme :=
    (word_lexeme_transcribe hword keyword).symm
  have hnameAfter : (Expected.nameAfter keyword.lexeme).reword word =
      (Expected.nameAfter (keyword.transcribe line word).lexeme).reword word :=
    congrArg Expected.nameAfter hkeyword
  have hequalAfter : (Expected.equalAfter keyword.lexeme).reword word =
      (Expected.equalAfter (keyword.transcribe line word).lexeme).reword word :=
    congrArg Expected.equalAfter hkeyword
  rw [binding_plain, binding_plain]
  refine (transcribed_expect hnameAfter _ us).bind fun name r₁ h₁ => ?_
  obtain ⟨rfl, hname⟩ := expect_eq_ok h₁
  refine (transcribed_expect hequalAfter _ r₁).bind fun _ r₂ h₂ => ?_
  obtain ⟨rfl, -⟩ := expect_eq_ok h₂
  have hlt : r₂.length < ts.length := by
    simp only [hts, List.length_cons]
    omega
  refine (ih .declaration r₂ hlt room).bind fun value r₃ _ => ?_
  dsimp only
  rw [lexeme_transcribe_of_name hname]
  exact .read

theorem transcribed_function {keyword : Token} {us : List Token} (hts : ts = keyword :: us)
    (hkeyword : keyword.kind = .funcWord) (room : Nat) :
    Transcribed line word (Expr.relabel line) (declaration (room + 1) (keyword :: us)).plain
      (declaration (room + 1) (keyword.transcribe line word ::
        us.map (Token.transcribe line word))).plain := by
  rw [declaration_plain_func room hkeyword,
    declaration_plain_func room (t := keyword.transcribe line word) hkeyword]
  refine (transcribed_expect rfl _ us).bind fun _ r₁ h₁ => ?_
  obtain ⟨rfl, -⟩ := expect_eq_ok h₁
  refine (transcribed_parameters r₁).bind fun params r₂ h₂ => ?_
  have hlt₂ := Reading.length_lt h₂
  refine (transcribed_expect rfl _ r₂).bind fun _ r₃ h₃ => ?_
  obtain ⟨rfl, -⟩ := expect_eq_ok h₃
  refine (transcribed_expect rfl _ r₃).bind fun _ r₄ h₄ => ?_
  obtain ⟨rfl, -⟩ := expect_eq_ok h₄
  have hlt₄ : r₄.length < ts.length := by
    simp only [hts, List.length_cons] at hlt₂ ⊢
    omega
  exact (ih .body r₄ hlt₄ _ _ room rfl).bind fun inside r₅ _ =>
    .read

theorem transcribed_loop {keyword : Token} {us : List Token} (hts : ts = keyword :: us)
    (hkeyword : keyword.kind = .whileWord) (room : Nat) :
    Transcribed line word (Expr.relabel line) (declaration (room + 1) (keyword :: us)).plain
      (declaration (room + 1) (keyword.transcribe line word ::
        us.map (Token.transcribe line word))).plain := by
  rw [declaration_plain_while room hkeyword,
    declaration_plain_while room (t := keyword.transcribe line word) hkeyword]
  refine (transcribed_expect rfl _ us).bind fun _ r₁ h₁ => ?_
  obtain ⟨rfl, -⟩ := expect_eq_ok h₁
  have hlt₁ : r₁.length < ts.length := by
    simp only [hts, List.length_cons]
    omega
  refine (ih .sequence r₁ hlt₁ room).bind fun condition r₂ h₂ => ?_
  have hlt₂ := Reading.length_lt h₂
  refine (transcribed_expect rfl _ r₂).bind fun _ r₃ h₃ => ?_
  obtain ⟨rfl, -⟩ := expect_eq_ok h₃
  have hlt₃ : r₃.length < ts.length := by
    simp only [List.length_cons] at hlt₂
    omega
  exact (ih .body r₃ hlt₃ _ _ room rfl).bind fun inside r₄ _ =>
    .read

theorem transcript_declaration (hword : ∀ w, word (word w) = word w)
    (hassignment : Transcript line word .assignment ts) :
    Transcript line word .declaration ts := by
  intro room
  cases room with
  | zero =>
    rw [declaration_plain_zero, declaration_plain_zero]
    exact .tooDeep
  | succ room =>
    cases ts with
    | nil =>
      rw [List.map_nil, declaration_plain_nil]
      exact hassignment room
    | cons t us =>
      rw [List.map_cons]
      by_cases hlet : t.kind = .letWord
      · rw [declaration_plain_let room hlet,
          declaration_plain_let room (t := t.transcribe line word) hlet]
        exact transcribed_binding ih hword rfl false room
      by_cases hconst : t.kind = .constWord
      · rw [declaration_plain_const room hconst,
          declaration_plain_const room (t := t.transcribe line word) hconst]
        exact transcribed_binding ih hword rfl true room
      by_cases hfunc : t.kind = .funcWord
      · exact transcribed_function ih rfl hfunc room
      by_cases hwhile : t.kind = .whileWord
      · exact transcribed_loop ih rfl hwhile room
      · have hother : t.kind ∉ [.letWord, .constWord, .funcWord, .whileWord] := by
          simp [hlet, hconst, hfunc, hwhile]
        rw [declaration_plain_other room hother,
          declaration_plain_other room (t := t.transcribe line word) hother]
        exact hassignment room

theorem transcript_items : Transcript line word .items ts := by
  intro room
  cases ts with
  | nil =>
    rw [List.map_nil, furtherItems_plain_nil]
    exact .read
  | cons t us =>
    rw [List.map_cons, furtherItems_plain_cons, furtherItems_plain_cons, Token.kind_transcribe]
    split
    · refine (ih .declaration us (by simp) room).bind fun item r₁ h₁ => ?_
      have hlt₁ := Reading.length_lt h₁
      exact (ih .items r₁ (by simp only [List.length_cons]; omega) room).bind
        fun items r₂ _ => .read
    · exact .read

theorem transcript_sequence (hdeclaration : Transcript line word .declaration ts) :
    Transcript line word .sequence ts := by
  intro room
  rw [sequence_plain, sequence_plain]
  refine (hdeclaration room).bind fun first r₁ h₁ => ?_
  refine (ih .items r₁ (Reading.length_lt h₁) room).bind fun more r₂ _ => ?_
  cases more with
  | nil => exact .read
  | cons e es => exact .read

theorem transcript_arguments (hdeclaration : Transcript line word .declaration ts) :
    Transcript line word .arguments ts := by
  intro room
  have hhead : (ts.map (Token.transcribe line word)).head?.map Token.kind =
      ts.head?.map Token.kind := by
    cases ts <;> rfl
  by_cases hclose : ts.head?.map Token.kind = some .rightParen
  · rw [arguments_plain_close room hclose, arguments_plain_close room (hhead.trans hclose)]
    exact .read
  · rw [arguments_plain_other room hclose, arguments_plain_other room (hhead ▸ hclose)]
    refine (hdeclaration room).bind fun value r₁ h₁ => ?_
    cases r₁ with
    | nil => exact .read
    | cons comma r₂ =>
      have hlt : r₂.length < ts.length := by
        have := Reading.length_lt h₁
        simp only [List.length_cons] at this
        omega
      simp only [List.map_cons]
      by_cases hcomma : comma.kind = .comma
      · have hcomma' : (comma.transcribe line word).kind = .comma := hcomma
        rw [if_pos hcomma, if_pos hcomma']
        exact (ih .arguments r₂ hlt room).bind fun values r₃ _ => .read
      · have hcomma' : (comma.transcribe line word).kind ≠ .comma := hcomma
        rw [if_neg hcomma, if_neg hcomma']
        exact .read

end

/-- Every production reads a transcript as it reads the tokens. -/
theorem transcript (hword : ∀ w, word (word w) = word w) (p : Production) (ts : List Token) :
    Transcript line word p ts := by
  induction hn : ts.length using Nat.strongRecOn generalizing p ts with
  | _ n ih =>
    have ih : ∀ q us, us.length < ts.length → Transcript line word q us :=
      fun q us hlt => ih us.length (hn ▸ hlt) q us rfl
    have hprimary := transcript_primary ih hword
    have hoperand := transcript_operand ih (transcript_application ih hprimary)
    have hassignment := transcript_assignment ih (transcript_chain ih hoperand BinaryOp.loosest)
    have hdeclaration := transcript_declaration ih hword hassignment
    cases p with
    | sequence => exact transcript_sequence ih hdeclaration
    | items => exact transcript_items ih
    | declaration => exact hdeclaration
    | assignment => exact hassignment
    | chain k => exact transcript_chain ih hoperand k
    | links k => exact transcript_links ih k
    | operand => exact hoperand
    | application => exact transcript_application ih hprimary
    | calls => exact transcript_calls ih
    | arguments => exact transcript_arguments ih hdeclaration
    | primary => exact hprimary
    | alternatives => exact transcript_alternatives ih
    | furtherArms => exact transcript_furtherArms ih hword
    | body => exact transcript_body ih

/-! ## Programs -/

theorem quoted?_transcribe (hword : ∀ w, word (word w) = word w) (t : Token) :
    (t.transcribe line word).quoted?.map word = t.quoted?.map word := by
  unfold Token.quoted?
  rw [Token.kind_transcribe]
  split
  · rfl
  · exact congrArg some (word_lexeme_transcribe hword t)

/-- Where the tokens are used up a diagnostic names the first line, which has to stay. -/
theorem toFault_transcribed (hword : ∀ w, word (word w) = word w) (hfirst : line 1 = 1)
    {copy : α → α} {r r' : Refusal} (h : Transcribed line word copy (.error r) (.error r')) :
    r'.toFault.reword word = (r.toFault.relabel line).reword word := by
  cases h with
  | expected hwhat =>
    next rest =>
      cases rest with
      | nil => simp [Refusal.toFault, Fault.relabel, Fault.reword, hfirst, hwhat]
      | cons t rest =>
        simp only [List.map_cons, Refusal.toFault, Fault.relabel, Fault.reword, hwhat,
          quoted?_transcribe hword]
        rfl
  | invalidTarget => rfl
  | tooDeep => rfl

/-- A sequence with an end mark behind it, or the refusal of what stands there. -/
def atEnd (p : Expr × List Token) : Except Refusal (Expr × List Token) :=
  if p.2.head?.map Token.kind = some .eof then .ok p
  else .error (.expected .endOfProgram p.2)

theorem program_eq_atEnd (ts : List Token) :
    program ts = ((sequence maxNesting ts).plain >>= atEnd).map Prod.fst := by
  rw [program_eq]
  cases (sequence maxNesting ts).plain with
  | error r => rfl
  | ok p =>
    show _ = (atEnd p).map Prod.fst
    unfold atEnd
    split
    · next hend => exact if_pos hend
    · next hend => exact if_neg hend

theorem transcribed_atEnd (e : Expr) (rest : List Token) :
    Transcribed line word (Expr.relabel line) (atEnd (e, rest))
      (atEnd (e.relabel line, rest.map (Token.transcribe line word))) := by
  have hhead : (rest.map (Token.transcribe line word)).head?.map Token.kind =
      rest.head?.map Token.kind := by
    cases rest <;> rfl
  unfold atEnd
  simp only [hhead]
  split
  · exact .read
  · exact .expected rfl

/-- What reading gives, with other lines and other words. -/
def transcribeResult (line : Nat → Nat) (word : String → String) :
    Except Fault Expr → Except Fault Expr
  | .ok e => .ok (e.relabel line)
  | .error fault => .error ((fault.relabel line).reword word)

theorem mapError_error {α ε ε' : Type} (f : ε → ε') (err : ε) :
    (Except.error err : Except ε α).mapError f = .error (f err) := rfl

section Programs

variable (hword : ∀ w, word (word w) = word w) (ts : List Token)
include hword

theorem transcribed_program (line : Nat → Nat) :
    Transcribed line word (Expr.relabel line) ((sequence maxNesting ts).plain >>= atEnd)
      ((sequence maxNesting (ts.map (Token.transcribe line word))).plain >>= atEnd) :=
  (transcript hword .sequence ts maxNesting).bind fun e rest _ => transcribed_atEnd e rest

/-- A transcript of a program is read as the program, with other lines. -/
theorem program_transcribe {e : Expr} (h : program ts = .ok e) :
    program (ts.map (Token.transcribe line word)) = .ok (e.relabel line) := by
  have hread := transcribed_program hword ts line
  rw [program_eq_atEnd] at h ⊢
  generalize (sequence maxNesting ts).plain >>= atEnd = x at h hread
  generalize (sequence maxNesting (ts.map (Token.transcribe line word))).plain >>= atEnd = y at hread
  cases hread with
  | read =>
    cases h
    rfl
  | expected _ | invalidTarget | tooDeep => cases h

theorem program_mapError_transcribe (hfirst : line 1 = 1) :
    ((program (ts.map (Token.transcribe line word))).mapError Refusal.toFault).mapError
        (Fault.reword word) =
      transcribeResult line word ((program ts).mapError Refusal.toFault) := by
  have hread := transcribed_program hword ts line
  rw [program_eq_atEnd, program_eq_atEnd]
  generalize (sequence maxNesting ts).plain >>= atEnd = x at hread
  generalize (sequence maxNesting (ts.map (Token.transcribe line word))).plain >>= atEnd = y at hread
  cases x with
  | ok p =>
    cases hread
    rfl
  | error r =>
    cases y with
    | ok p => cases hread
    | error r' => exact congrArg Except.error (toFault_transcribed hword hfirst hread)

omit hword in
theorem ofTokens_of_no_end {last : Token} (h : ts.getLast? = some last) (hend : last.kind ≠ .eof) :
    Expr.ofTokens ts = .error (.syntaxError .endMark last.quoted? last.line) := by
  unfold Expr.ofTokens
  rw [h]
  exact if_neg hend

omit hword in
theorem getLast?_transcribe (line : Nat → Nat) (word : String → String) {last : Token}
    (h : ts.getLast? = some last) :
    (ts.map (Token.transcribe line word)).getLast? = some (last.transcribe line word) := by
  rw [List.getLast?_map, h]
  rfl

/-- Reading a transcript of tokens that are a program. -/
theorem ofTokens_transcribe_ok {e : Expr} (h : Expr.ofTokens ts = .ok e) :
    Expr.ofTokens (ts.map (Token.transcribe line word)) = .ok (e.relabel line) := by
  cases hlast : ts.getLast? with
  | none =>
    rw [Expr.ofTokens, hlast] at h
    cases h
  | some last =>
    have hlast' := getLast?_transcribe ts line word hlast
    by_cases hend : last.kind = .eof
    · rw [ofTokens_eq_program (by rw [hlast, Option.map_some, hend])] at h
      rw [ofTokens_eq_program (by rw [hlast', Option.map_some, Token.kind_transcribe, hend]),
        program_transcribe hword ts (mapError_eq_ok_iff.mp h)]
      rfl
    · rw [ofTokens_of_no_end ts hlast hend] at h
      cases h

/-- Reading a transcript of any tokens. -/
theorem ofTokens_transcribe (hfirst : line 1 = 1) :
    (Expr.ofTokens (ts.map (Token.transcribe line word))).mapError (Fault.reword word) =
      transcribeResult line word (Expr.ofTokens ts) := by
  cases hlast : ts.getLast? with
  | none =>
    rw [List.getLast?_eq_none_iff] at hlast
    subst hlast
    simp [Expr.ofTokens, mapError_error, transcribeResult, Fault.relabel, Fault.reword, hfirst]
  | some last =>
    have hlast' := getLast?_transcribe ts line word hlast
    by_cases hend : last.kind = .eof
    · rw [ofTokens_eq_program (by rw [hlast', Option.map_some, Token.kind_transcribe, hend]),
        ofTokens_eq_program (by rw [hlast, Option.map_some, hend])]
      exact program_mapError_transcribe hword ts hfirst
    · rw [ofTokens_of_no_end ts hlast hend, ofTokens_of_no_end _ hlast' hend]
      simp only [mapError_error, transcribeResult, Fault.relabel, Fault.reword,
        quoted?_transcribe hword]
      rfl

end Programs

end Grammar

end ExprLang
