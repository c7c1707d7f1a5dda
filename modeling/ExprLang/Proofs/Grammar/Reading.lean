import ExprLang.Expr.Parser

/-!
The productions as plain functions. Every production of the parser returns a proof that
what is left is shorter. Here each gets an equation in which that proof is gone:
`Reading.plain` is what was read with the tokens behind it, and `sequence_plain`,
`declaration_plain` and so on say how the productions call each other.
-/

namespace ExprLang.Grammar

variable {α β : Type} {n m : Nat}

/-- What was read with the tokens behind it, without the bound on these. -/
def Reading.plain : Reading α n → Except Refusal (α × List Token)
  | .ok p => .ok (p.value, p.rest)
  | .error r => .error r

theorem Reading.plain_bind (r : Reading α n) (f : Parsed α n → Reading β m)
    (g : α × List Token → Except Refusal (β × List Token))
    (h : ∀ x rest hs, (f ⟨x, rest, hs⟩).plain = g (x, rest)) :
    Reading.plain (r >>= f) = r.plain >>= g := by
  cases r with
  | error r => rfl
  | ok p => exact h _ _ _

theorem Reading.length_lt {r : Reading α n} {x : α} {rest : List Token}
    (h : r.plain = .ok (x, rest)) : rest.length < n := by
  cases r with
  | error r => cases h
  | ok p =>
    cases h
    exact p.shorter

theorem ok_of_bind {x : Except Refusal (α × List Token)}
    {f : α × List Token → Except Refusal β} {b : β} (h : (x >>= f) = .ok b) :
    ∃ a rest, x = .ok (a, rest) ∧ f (a, rest) = .ok b := by
  cases x with
  | error r => cases h
  | ok p => exact ⟨p.1, p.2, rfl, h⟩

theorem expect_plain_cons (kind : TokenKind) (what : Expected) (t : Token) (rest : List Token) :
    (expect kind what (t :: rest)).plain =
      if t.kind = kind then .ok (t, rest) else .error (.expected what (t :: rest)) := by
  rw [expect]
  split <;> rfl

theorem expect_of_kind {kind : TokenKind} {t : Token} (h : t.kind = kind) (what : Expected)
    (rest : List Token) : (expect kind what (t :: rest)).plain = .ok (t, rest) := by
  rw [expect_plain_cons, if_pos h]

theorem expect_eq_ok {kind : TokenKind} {what : Expected} {ts rest : List Token} {t : Token}
    (h : (expect kind what ts).plain = .ok (t, rest)) : ts = t :: rest ∧ t.kind = kind := by
  cases ts with
  | nil => cases h
  | cons u us =>
    rw [expect_plain_cons] at h
    split at h
    · next hk => cases h; exact ⟨rfl, hk⟩
    · cases h

/-- The parameters behind a first one, with the tokens behind them. -/
def furtherParameters (first : Param) : List Token → Except Refusal (List Param × List Token)
  | [] => .ok ([first], [])
  | comma :: rest =>
    if comma.kind = .comma then do
      let (params, r₁) ← (parameters rest).plain
      .ok (first :: params, r₁)
    else .ok ([first], comma :: rest)

theorem parameters_plain_close {t : Token} (h : t.kind = .rightParen) (rest : List Token) :
    (parameters (t :: rest)).plain = .ok ([], t :: rest) := by
  rw [parameters, if_pos h]; rfl

theorem parameters_plain_open {t : Token} (h : t.kind ≠ .rightParen) (rest : List Token) :
    (parameters (t :: rest)).plain = (do
      let (name, r₁) ← (expect .identifier .parameterName
        (if t.kind = .constWord then rest else t :: rest)).plain
      furtherParameters ⟨name.lexeme, t.kind = .constWord⟩ r₁) := by
  rw [parameters, if_neg h]
  simp only
  refine Reading.plain_bind _ _ _ fun name r₁ h₁ => ?_
  cases r₁ with
  | nil => rfl
  | cons comma r₂ =>
    dsimp only [furtherParameters]
    split
    · exact Reading.plain_bind _ _ _ fun _ _ _ => rfl
    · rfl

theorem parameters_plain_const {t : Token} (h : t.kind = .constWord) (rest : List Token) :
    (parameters (t :: rest)).plain = (do
      let (name, r₁) ← (expect .identifier .parameterName rest).plain
      furtherParameters ⟨name.lexeme, true⟩ r₁) := by
  rw [parameters_plain_open (by simp [h]), if_pos h, decide_eq_true h]

theorem parameters_plain_other {t : Token} (h : t.kind ≠ .rightParen) (hc : t.kind ≠ .constWord)
    (rest : List Token) :
    (parameters (t :: rest)).plain = (do
      let (name, r₁) ← (expect .identifier .parameterName (t :: rest)).plain
      furtherParameters ⟨name.lexeme, false⟩ r₁) := by
  rw [parameters_plain_open h, if_neg hc, decide_eq_false hc]

theorem parameters_plain_nil :
    (parameters []).plain = .error (.expected .parameterName []) := by
  rw [parameters]; rfl

theorem sequence_plain (room : Nat) (ts : List Token) :
    (sequence room ts).plain = (do
      let (first, r₁) ← (declaration room ts).plain
      let (more, r₂) ← (furtherItems room r₁).plain
      .ok (if more.isEmpty then first else .sequence (first :: more), r₂)) := by
  rw [sequence]
  exact Reading.plain_bind _ _ _ fun _ _ _ => Reading.plain_bind _ _ _ fun _ _ _ => rfl

theorem furtherItems_plain_nil (room : Nat) : (furtherItems room []).plain = .ok ([], []) := by
  rw [furtherItems]; rfl

theorem furtherItems_plain_cons (room : Nat) (t : Token) (rest : List Token) :
    (furtherItems room (t :: rest)).plain =
      if t.kind = .semicolon then do
        let (item, r₁) ← (declaration room rest).plain
        let (items, r₂) ← (furtherItems room r₁).plain
        .ok (item :: items, r₂)
      else .ok ([], t :: rest) := by
  rw [furtherItems]
  split
  · exact Reading.plain_bind _ _ _ fun _ _ _ => Reading.plain_bind _ _ _ fun _ _ _ => rfl
  · rfl

theorem declaration_plain_zero (ts : List Token) :
    (declaration 0 ts).plain = .error .tooDeep := by
  rw [declaration]; rfl

theorem declaration_plain_nil (room : Nat) :
    (declaration (room + 1) []).plain = (assignment room []).plain := by
  rw [declaration]

theorem declaration_plain_let (room : Nat) {t : Token} (h : t.kind = .letWord)
    (rest : List Token) :
    (declaration (room + 1) (t :: rest)).plain = (binding false room t rest).plain := by
  rw [declaration]; simp only [h]

theorem declaration_plain_const (room : Nat) {t : Token} (h : t.kind = .constWord)
    (rest : List Token) :
    (declaration (room + 1) (t :: rest)).plain = (binding true room t rest).plain := by
  rw [declaration]; simp only [h]

theorem declaration_plain_func (room : Nat) {t : Token} (h : t.kind = .funcWord)
    (rest : List Token) :
    (declaration (room + 1) (t :: rest)).plain = (do
      let (_, r₁) ← (expect .leftParen (.openAfter "func") rest).plain
      let (params, r₂) ← (parameters r₁).plain
      let (_, r₃) ← (expect .rightParen .closeParameters r₂).plain
      let (_, r₄) ← (expect .arrow .arrow r₃).plain
      let (inside, r₅) ← (body .function room r₄).plain
      .ok (.function params inside t.line, r₅)) := by
  rw [declaration]
  simp only [h]
  exact Reading.plain_bind _ _ _ fun _ _ _ => Reading.plain_bind _ _ _ fun _ _ _ =>
    Reading.plain_bind _ _ _ fun _ _ _ => Reading.plain_bind _ _ _ fun _ _ _ =>
    Reading.plain_bind _ _ _ fun _ _ _ => rfl

theorem declaration_plain_while (room : Nat) {t : Token} (h : t.kind = .whileWord)
    (rest : List Token) :
    (declaration (room + 1) (t :: rest)).plain = (do
      let (_, r₁) ← (expect .leftParen (.openAfter "while") rest).plain
      let (condition, r₂) ← (sequence room r₁).plain
      let (_, r₃) ← (expect .rightParen (.closeCondition "while") r₂).plain
      let (inside, r₄) ← (body (.keyword "while") room r₃).plain
      .ok (.loop condition inside t.line, r₄)) := by
  rw [declaration]
  simp only [h]
  exact Reading.plain_bind _ _ _ fun _ _ _ => Reading.plain_bind _ _ _ fun _ _ _ =>
    Reading.plain_bind _ _ _ fun _ _ _ => Reading.plain_bind _ _ _ fun _ _ _ => rfl

theorem declaration_plain_other (room : Nat) {t : Token}
    (h : t.kind ∉ [.letWord, .constWord, .funcWord, .whileWord]) (rest : List Token) :
    (declaration (room + 1) (t :: rest)).plain = (assignment room (t :: rest)).plain := by
  rw [declaration]
  split <;> simp_all

theorem binding_plain (constant : Bool) (room : Nat) (keyword : Token) (ts : List Token) :
    (binding constant room keyword ts).plain = (do
      let (name, r₁) ← (expect .identifier (.nameAfter keyword.lexeme) ts).plain
      let (_, r₂) ← (expect .equal (.equalAfter keyword.lexeme) r₁).plain
      let (value, r₃) ← (declaration room r₂).plain
      .ok (.declare name.lexeme constant value keyword.line, r₃)) := by
  rw [binding]
  exact Reading.plain_bind _ _ _ fun _ _ _ => Reading.plain_bind _ _ _ fun _ _ _ =>
    Reading.plain_bind _ _ _ fun _ _ _ => rfl

theorem assignment_plain (room : Nat) (ts : List Token) :
    (assignment room ts).plain = (do
      let (target, r₁) ← (chain BinaryOp.loosest room ts).plain
      match r₁ with
      | [] => .ok (target, [])
      | t :: rest =>
        if t.kind = .equal then do
          let (value, r₂) ← (declaration room rest).plain
          match target with
          | .identifier name _ => .ok (.assign name value t.line, r₂)
          | other => .error (.invalidTarget other.nodeName t.line)
        else .ok (target, t :: rest)) := by
  rw [assignment]
  refine Reading.plain_bind _ _ _ fun target r₁ h₁ => ?_
  cases r₁ with
  | nil => rfl
  | cons t rest =>
    dsimp only
    split
    · exact Reading.plain_bind _ _ _ fun _ _ _ => by cases target <;> rfl
    · rfl

theorem chain_plain_zero (room : Nat) (ts : List Token) :
    (chain 0 room ts).plain = (operand room ts).plain := by
  rw [chain]

/-- The bound that further operands are read under makes no difference. -/
theorem links_bound (k : Nat) : ∀ (room : Nat) (left : Expr) (ts : List Token) (n m : Nat)
    (hn : ts.length < n) (hm : ts.length < m),
    (links k room left ts n hn).plain = (links k room left ts m hm).plain
  | room, left, [], n, m, hn, hm => by rw [links.eq_def, links.eq_def]; rfl
  | room, left, t :: rest, n, m, hn, hm => by
    rw [links.eq_def, links.eq_def]
    dsimp only
    split
    · rfl
    · cases room with
      | zero => rfl
      | succ room =>
        dsimp only
        cases chain k room rest with
        | error r => rfl
        | ok p =>
          obtain ⟨right, r₁, h₁⟩ := p
          exact links_bound k room _ r₁ n m _ _
termination_by _ _ ts => ts.length
decreasing_by simp only [List.length_cons]; omega

/-- What further operands make of a chain, with the tokens behind them. -/
def linked (k room : Nat) (left : Expr) (ts : List Token) :
    Except Refusal (Expr × List Token) :=
  (links k room left ts (ts.length + 1) (Nat.lt_succ_self _)).plain

theorem chain_plain_succ (k room : Nat) (ts : List Token) :
    (chain (k + 1) room ts).plain = (do
      let (first, r₁) ← (chain k room ts).plain
      linked k room first r₁) := by
  rw [chain]
  exact Reading.plain_bind _ _ _ fun _ _ _ => links_bound ..

theorem linked_nil (k room : Nat) (left : Expr) : linked k room left [] = .ok (left, []) := by
  rw [linked, links]; rfl

theorem linked_none {k : Nat} {t : Token} (h : BinaryOp.ofKindAt? (k + 1) t.kind = none)
    (room : Nat) (left : Expr) (rest : List Token) :
    linked k room left (t :: rest) = .ok (left, t :: rest) := by
  rw [linked, links.eq_def]
  split <;> simp_all [Reading.plain]

theorem linked_zero {k : Nat} {t : Token} {op : BinaryOp}
    (h : BinaryOp.ofKindAt? (k + 1) t.kind = some op) (left : Expr) (rest : List Token) :
    linked k 0 left (t :: rest) = .error .tooDeep := by
  rw [linked, links.eq_def]
  split <;> simp_all [Reading.plain]

theorem linked_succ {k : Nat} {t : Token} {op : BinaryOp}
    (h : BinaryOp.ofKindAt? (k + 1) t.kind = some op) (room : Nat) (left : Expr)
    (rest : List Token) :
    linked k (room + 1) left (t :: rest) = (do
      let (right, r₁) ← (chain k room rest).plain
      linked k room (.binary op left right t.line) r₁) := by
  rw [linked, links.eq_def]
  dsimp only
  split
  · simp_all
  · next op' h' =>
    obtain rfl : op' = op := by simpa [h] using h'.symm
    exact Reading.plain_bind _ _ _ fun _ _ _ => links_bound ..

theorem operand_plain_nil (room : Nat) :
    (operand room []).plain = (application room []).plain := by
  rw [operand]

theorem operand_plain_least (room : Nat) {t n : Token} {rest : List Token}
    (h : t.kind = .minus) (hn : isLeastMagnitude n rest) :
    (operand room (t :: n :: rest)).plain = .ok (.number Int64.minValue, rest) := by
  rw [operand.eq_def]
  simp only [h, hn]
  rfl

theorem operand_plain_minus (room : Nat) {t : Token} (h : t.kind = .minus) {rest : List Token}
    (hn : ∀ n r, rest = n :: r → isLeastMagnitude n r = false) :
    (operand room (t :: rest)).plain = (negation .negate room t rest).plain := by
  rw [operand.eq_def]
  simp only [h]
  cases rest with
  | nil => rfl
  | cons n r =>
    simp only [hn n r rfl]
    rfl

theorem operand_plain_bang (room : Nat) {t : Token} (h : t.kind = .bang) (rest : List Token) :
    (operand room (t :: rest)).plain = (negation .not room t rest).plain := by
  rw [operand.eq_def]; simp only [h]

theorem operand_plain_other (room : Nat) {t : Token} (h : t.kind ∉ [.minus, .bang])
    (rest : List Token) :
    (operand room (t :: rest)).plain = (application room (t :: rest)).plain := by
  rw [operand.eq_def]
  dsimp only
  split <;> simp_all

theorem negation_plain_zero (op : UnaryOp) (mark : Token) (ts : List Token) :
    (negation op 0 mark ts).plain = .error .tooDeep := by
  rw [negation]; rfl

theorem negation_plain_succ (op : UnaryOp) (room : Nat) (mark : Token) (ts : List Token) :
    (negation op (room + 1) mark ts).plain = (do
      let (e, r₁) ← (operand room ts).plain
      .ok (.unary op e mark.line, r₁)) := by
  rw [negation]
  exact Reading.plain_bind _ _ _ fun _ _ _ => rfl

/-- The bound that calls are read under makes no difference. -/
theorem calls_bound : ∀ (room : Nat) (callee : Expr) (ts : List Token) (n m : Nat)
    (hn : ts.length < n) (hm : ts.length < m),
    (calls room callee ts n hn).plain = (calls room callee ts m hm).plain
  | room, callee, [], n, m, hn, hm => by rw [calls.eq_def, calls.eq_def]; rfl
  | room, callee, t :: rest, n, m, hn, hm => by
    rw [calls.eq_def, calls.eq_def]
    dsimp only
    split
    · cases room with
      | zero => rfl
      | succ room =>
        dsimp only
        cases arguments room rest with
        | error r => rfl
        | ok p =>
          obtain ⟨values, r₁, h₁⟩ := p
          show Reading.plain (expect .rightParen .closeArguments r₁ >>= _)
            = Reading.plain (expect .rightParen .closeArguments r₁ >>= _)
          cases expect .rightParen .closeArguments r₁ with
          | error r => rfl
          | ok p =>
            obtain ⟨t₂, r₂, h₂⟩ := p
            exact calls_bound room _ r₂ n m _ _
    · rfl
termination_by _ _ ts => ts.length
decreasing_by simp only [List.length_cons]; omega

/-- What calls make of what stands in front of them, with the tokens behind them. -/
def called (room : Nat) (callee : Expr) (ts : List Token) :
    Except Refusal (Expr × List Token) :=
  (calls room callee ts (ts.length + 1) (Nat.lt_succ_self _)).plain

theorem application_plain (room : Nat) (ts : List Token) :
    (application room ts).plain = (do
      let (callee, r₁) ← (primary room ts).plain
      called room callee r₁) := by
  rw [application]
  exact Reading.plain_bind _ _ _ fun _ _ _ => calls_bound ..

theorem called_nil (room : Nat) (callee : Expr) : called room callee [] = .ok (callee, []) := by
  rw [called, calls]; rfl

theorem called_other {t : Token} (h : t.kind ≠ .leftParen) (room : Nat) (callee : Expr)
    (rest : List Token) : called room callee (t :: rest) = .ok (callee, t :: rest) := by
  rw [called, calls.eq_def]
  simp only [h, ↓reduceIte]
  rfl

theorem called_zero {t : Token} (h : t.kind = .leftParen) (callee : Expr) (rest : List Token) :
    called 0 callee (t :: rest) = .error .tooDeep := by
  rw [called, calls.eq_def]
  simp only [h, ↓reduceIte]
  rfl

theorem called_succ {t : Token} (h : t.kind = .leftParen) (room : Nat) (callee : Expr)
    (rest : List Token) :
    called (room + 1) callee (t :: rest) = (do
      let (values, r₁) ← (arguments room rest).plain
      let (_, r₂) ← (expect .rightParen .closeArguments r₁).plain
      called room (.call callee values t.line) r₂) := by
  rw [called, calls.eq_def]
  simp only [h, ↓reduceIte]
  exact Reading.plain_bind _ _ _ fun _ _ _ => Reading.plain_bind _ _ _ fun _ _ _ =>
    calls_bound ..

theorem arguments_plain_close (room : Nat) {ts : List Token}
    (h : ts.head?.map Token.kind = some .rightParen) : (arguments room ts).plain = .ok ([], ts) := by
  rw [arguments, if_pos h]; rfl

theorem arguments_plain_other (room : Nat) {ts : List Token}
    (h : ts.head?.map Token.kind ≠ some .rightParen) :
    (arguments room ts).plain = (do
      let (value, r₁) ← (declaration room ts).plain
      match r₁ with
      | [] => .ok ([value], [])
      | comma :: rest =>
        if comma.kind = .comma then do
          let (values, r₂) ← (arguments room rest).plain
          .ok (value :: values, r₂)
        else .ok ([value], comma :: rest)) := by
  rw [arguments, if_neg h]
  refine Reading.plain_bind _ _ _ fun value r₁ h₁ => ?_
  cases r₁ with
  | nil => rfl
  | cons comma rest =>
    dsimp only
    split
    · exact Reading.plain_bind _ _ _ fun _ _ _ => rfl
    · rfl

theorem primary_plain_nil (room : Nat) :
    (primary room []).plain = .error (.expected .expression []) := by
  rw [primary]; rfl

theorem primary_plain_cons (room : Nat) (t : Token) (rest : List Token) :
    (primary room (t :: rest)).plain =
      match t.kind with
      | .number =>
        match Decimal.signed? t.lexeme with
        | some n => .ok (.number n, rest)
        | none => .error (.expected .wordNumber (t :: rest))
      | .trueWord => .ok (.bool true, rest)
      | .falseWord => .ok (.bool false, rest)
      | .nullWord => .ok (.null, rest)
      | .identifier => .ok (.identifier t.lexeme t.line, rest)
      | .leftParen => (do
        let (e, r₁) ← (sequence room rest).plain
        let (_, r₂) ← (expect .rightParen .closeGroup r₁).plain
        .ok (e, r₂))
      | .leftBrace => (do
        let (e, r₁) ← (sequence room rest).plain
        let (_, r₂) ← (expect .rightBrace .closeBraces r₁).plain
        .ok (.block e, r₂))
      | .ifWord => (do
        let (arms, r₁) ← (alternatives room t.lexeme rest).plain
        .ok (.choice arms, r₁))
      | _ => .error (.expected .expression (t :: rest)) := by
  rw [primary]
  cases t.kind with
  | number =>
    dsimp only
    cases Decimal.signed? t.lexeme <;> rfl
  | leftParen =>
    exact Reading.plain_bind _ _ _ fun _ _ _ => Reading.plain_bind _ _ _ fun _ _ _ => rfl
  | leftBrace =>
    exact Reading.plain_bind _ _ _ fun _ _ _ => Reading.plain_bind _ _ _ fun _ _ _ => rfl
  | ifWord => exact Reading.plain_bind _ _ _ fun _ _ _ => rfl
  | _ => rfl

/-- The alternatives behind a guarded body, with the tokens behind them. -/
def furtherArms (room : Nat) : List Token → Except Refusal (Arms × List Token)
  | [] => .ok (.done, [])
  | t :: rest =>
    if t.kind = .elifWord then (alternatives room t.lexeme rest).plain
    else if t.kind = .elseWord then do
      let (last, r₁) ← (body (.keyword "else") room rest).plain
      .ok (.otherwise last, r₁)
    else .ok (.done, t :: rest)

theorem alternatives_plain (room : Nat) (keyword : String) (ts : List Token) :
    (alternatives room keyword ts).plain = (do
      let (_, r₁) ← (expect .leftParen (.openAfter keyword) ts).plain
      let (condition, r₂) ← (sequence room r₁).plain
      let (_, r₃) ← (expect .rightParen (.closeCondition keyword) r₂).plain
      let (inside, r₄) ← (body (.keyword keyword) room r₃).plain
      let (rest, r₅) ← furtherArms room r₄
      .ok (.guarded condition inside rest, r₅)) := by
  rw [alternatives]
  refine Reading.plain_bind _ _ _ fun _ _ _ => Reading.plain_bind _ _ _ fun _ _ _ =>
    Reading.plain_bind _ _ _ fun _ _ _ => Reading.plain_bind _ _ _ fun _ r₄ _ => ?_
  cases r₄ with
  | nil => rfl
  | cons t rest =>
    dsimp only [furtherArms]
    split
    · exact Reading.plain_bind _ _ _ fun _ _ _ => rfl
    · split
      · cases body (.keyword "else") room rest <;> rfl
      · rfl

theorem body_plain (owner : BlockOwner) (room : Nat) (ts : List Token) :
    (body owner room ts).plain = (do
      let (_, r₁) ← (expect .leftBrace (.openBlock owner) ts).plain
      let (e, r₂) ← (sequence room r₁).plain
      let (_, r₃) ← (expect .rightBrace (.closeBlock owner) r₂).plain
      .ok (e, r₃)) := by
  rw [body]
  exact Reading.plain_bind _ _ _ fun _ _ _ => Reading.plain_bind _ _ _ fun _ _ _ =>
    Reading.plain_bind _ _ _ fun _ _ _ => rfl

end ExprLang.Grammar
