import ExprLang.Proofs.Grammar.Reading
import ExprLang.Proofs.Reader.Routine

/-!
What the routines of a reader read of the tokens in front of the cursor, as functions of these
tokens and the number of free levels.

* `Entry.reading`: a production reads what the production of `Grammar` reads;
* `Part.reading`: a loop adds what `Grammar` reads to what it has read so far;
* the equations, such as `items_reading_semicolon` and `arguments_reading_other`, say what one
  round of a loop reads and what is left for the rounds that follow.
-/

namespace ExprLang.Reader

open Grammar (Refusal expect)

/-! ## What is read -/

def Entry.reading : Entry → Nat → List Token → Except Refusal (Expr × List Token)
  | .sequence, room, ts => (Grammar.sequence room ts).plain
  | .declaration, room, ts => (Grammar.declaration room ts).plain
  | .braced owner, room, ts => (Grammar.body owner room ts).plain
  | .assignment, room, ts => (Grammar.assignment room ts).plain
  | .level n, room, ts => (Grammar.chain (n + 1) room ts).plain
  | .unary, room, ts => (Grammar.operand room ts).plain
  | .call, room, ts => (Grammar.application room ts).plain
  | .primary, room, ts => (Grammar.primary room ts).plain

/-- A function behind its parameters. -/
def functionReading (params : List Param) (line room : Nat) (ts : List Token) :
    Except Refusal (Expr × List Token) := do
  let (_, r₁) ← (expect .rightParen .closeParameters ts).plain
  let (_, r₂) ← (expect .arrow .arrow r₁).plain
  let (inside, r₃) ← (Grammar.body .function room r₂).plain
  .ok (.function params inside line, r₃)

/-- A call behind its arguments. -/
def callReading (callee : Expr) (values : List Expr) (line : Nat) (ts : List Token) :
    Except Refusal (Expr × List Token) := do
  let (_, rest) ← (expect .rightParen .closeArguments ts).plain
  .ok (.call callee values line, rest)

/-- A conditional behind the bodies in front. -/
def choiceReading (seen : List (Expr × Expr)) (room : Nat) (ts : List Token) :
    Except Refusal (Expr × List Token) := do
  let (arms, rest) ← Grammar.furtherArms room ts
  .ok (.choice (.ofList (seen ++ arms.branches) arms.last?), rest)

def Part.reading : Part → Nat → List Token → Except Refusal (Expr × List Token)
  | .items seen, room, ts => do
    let (more, rest) ← (Grammar.furtherItems room ts).plain
    .ok (.sequence (seen ++ more), rest)
  | .content, room, ts => (Grammar.declaration (room + 1) ts).plain
  | .parameters seen line, room, ts => do
    let (params, rest) ← (Grammar.parameters ts).plain
    functionReading (seen ++ params) line room rest
  | .chain n, room, ts => (Grammar.chain (n + 1) room ts).plain
  | .links n left, room, ts => Grammar.linked n room left ts
  | .application, room, ts => (Grammar.application room ts).plain
  | .calls callee, room, ts => Grammar.called room callee ts
  | .arguments callee seen line, room, ts => do
    let (values, rest) ← (Grammar.arguments room ts).plain
    callReading callee (seen ++ values) line rest
  | .branches keyword seen, room, ts => do
    let (arms, rest) ← (Grammar.alternatives room keyword ts).plain
    .ok (.choice (.ofList (seen ++ arms.branches) arms.last?), rest)

/-- What a routine reads, with `room` levels free. -/
def Routine.reading : Routine → Nat → List Token → Except Refusal (Expr × List Token)
  | .entry p => p.reading
  | .part p => p.reading

/-- What a routine reads on a level taken for it. -/
def Routine.deeper (r : Routine) : Nat → List Token → Except Refusal (Expr × List Token)
  | 0, _ => .error .tooDeep
  | room + 1, ts => r.reading room ts

variable {t : Token} {room line : Nat} {rest : List Token}

theorem items_reading_semicolon (ht : t.kind = .semicolon) (seen : List Expr) :
    (Part.items seen).reading room (t :: rest) = (do
      let (item, r₁) ← (Grammar.declaration room rest).plain
      (Part.items (seen ++ [item])).reading room r₁) := by
  rw [Part.reading, Grammar.furtherItems_plain_cons, if_pos ht]
  simp only [Part.reading, bind_assoc, List.append_assoc]
  rfl

theorem items_reading_other (ht : t.kind ≠ .semicolon) (seen : List Expr) :
    (Part.items seen).reading room (t :: rest) = .ok (.sequence seen, t :: rest) := by
  rw [Part.reading, Grammar.furtherItems_plain_cons, if_neg ht]
  show Except.ok (Expr.sequence (seen ++ []), _) = _
  rw [List.append_nil]

/-- A sequence behind its first item. -/
def sequenceReading (first : Expr) (room : Nat) (ts : List Token) :
    Except Refusal (Expr × List Token) := do
  let (more, rest) ← (Grammar.furtherItems room ts).plain
  .ok (if more.isEmpty then first else .sequence (first :: more), rest)

theorem sequenceReading_semicolon (ht : t.kind = .semicolon) (first : Expr) :
    sequenceReading first room (t :: rest) = (Part.items [first]).reading room (t :: rest) := by
  rw [sequenceReading, Part.reading, Grammar.furtherItems_plain_cons, if_pos ht]
  simp only [bind_assoc]
  rfl

theorem sequenceReading_other (ht : t.kind ≠ .semicolon) (first : Expr) :
    sequenceReading first room (t :: rest) = .ok (first, t :: rest) := by
  rw [sequenceReading, Grammar.furtherItems_plain_cons, if_neg ht]
  rfl

theorem parameters_reading_close (ht : t.kind = .rightParen) (seen : List Param) :
    (Part.parameters seen line).reading room (t :: rest) =
      functionReading seen line room (t :: rest) := by
  rw [Part.reading, Grammar.parameters_plain_close ht]
  show functionReading (seen ++ []) line room _ = _
  rw [List.append_nil]

/-- The parameters behind a comma, or the end of a list of parameters. -/
def parametersReading (seen : List Param) (line room : Nat) (ts : List Token) :
    Except Refusal (Expr × List Token) :=
  match ts with
  | [] => functionReading seen line room []
  | comma :: rest =>
    if comma.kind = .comma then (Part.parameters seen line).reading room rest
    else functionReading seen line room (comma :: rest)

theorem parametersReading_eq (seen : List Param) (param : Param) (ts : List Token) :
    (Grammar.furtherParameters param ts >>= fun (params, rest) =>
      functionReading (seen ++ params) line room rest) =
      parametersReading (seen ++ [param]) line room ts := by
  cases ts with
  | nil => rfl
  | cons comma rest =>
    rw [Grammar.furtherParameters, parametersReading]
    split
    · simp only [Part.reading, bind_assoc, List.append_assoc]
      rfl
    · rfl

theorem parameters_reading_open (ht : t.kind ≠ .rightParen) (seen : List Param) :
    (Part.parameters seen line).reading room (t :: rest) = (do
      let (name, r₁) ← (expect .identifier .parameterName
        (if t.kind = .constWord then rest else t :: rest)).plain
      parametersReading (seen ++ [⟨name.lexeme, t.kind = .constWord⟩]) line room r₁) := by
  rw [Part.reading, Grammar.parameters_plain_open ht, bind_assoc]
  exact congrArg _ (funext fun _ => parametersReading_eq seen _ _)

theorem called_reading (ht : t.kind = .leftParen) (callee : Expr) :
    Grammar.called (room + 1) callee (t :: rest) = (do
      let (e, r₁) ← (Part.arguments callee [] t.line).reading room rest
      Grammar.called room e r₁) := by
  rw [Grammar.called_succ ht]
  simp only [Part.reading, callReading, bind_assoc]
  rfl

theorem arguments_reading_close (ht : t.kind = .rightParen) (callee : Expr) (seen : List Expr) :
    (Part.arguments callee seen line).reading room (t :: rest) =
      callReading callee seen line (t :: rest) := by
  have hhead : (t :: rest).head?.map Token.kind = some .rightParen := congrArg some ht
  rw [Part.reading, Grammar.arguments_plain_close room hhead]
  show callReading callee (seen ++ []) line _ = _
  rw [List.append_nil]

/-- The arguments behind a comma, or the end of a list of arguments. -/
def argumentsReading (callee : Expr) (seen : List Expr) (line room : Nat) (ts : List Token) :
    Except Refusal (Expr × List Token) :=
  match ts with
  | [] => callReading callee seen line []
  | comma :: rest =>
    if comma.kind = .comma then (Part.arguments callee seen line).reading room rest
    else callReading callee seen line (comma :: rest)

theorem arguments_reading_other (ht : t.kind ≠ .rightParen) (callee : Expr) (seen : List Expr) :
    (Part.arguments callee seen line).reading room (t :: rest) = (do
      let (value, r₁) ← (Grammar.declaration room (t :: rest)).plain
      argumentsReading callee (seen ++ [value]) line room r₁) := by
  have hhead : (t :: rest).head?.map Token.kind ≠ some .rightParen := by simpa using ht
  rw [Part.reading, Grammar.arguments_plain_other room hhead, bind_assoc]
  refine congrArg _ (funext fun (value, r₁) => ?_)
  cases r₁ with
  | nil => rfl
  | cons comma rest =>
    simp only [argumentsReading]
    split
    · simp only [Part.reading, bind_assoc, List.append_assoc]
      rfl
    · rfl

theorem branches_reading (keyword : String) (seen : List (Expr × Expr)) (ts : List Token) :
    (Part.branches keyword seen).reading room ts = (do
      let (_, r₁) ← (expect .leftParen (.openAfter keyword) ts).plain
      let (condition, r₂) ← (Grammar.sequence room r₁).plain
      let (_, r₃) ← (expect .rightParen (.closeCondition keyword) r₂).plain
      let (inside, r₄) ← (Grammar.body (.keyword keyword) room r₃).plain
      choiceReading (seen ++ [(condition, inside)]) room r₄) := by
  rw [Part.reading, Grammar.alternatives_plain]
  simp only [choiceReading, bind_assoc, List.append_assoc]
  rfl

theorem choiceReading_elif (ht : t.kind = .elifWord) (seen : List (Expr × Expr)) :
    choiceReading seen room (t :: rest) = (Part.branches t.lexeme seen).reading room rest := by
  rw [choiceReading, Grammar.furtherArms, if_pos ht]
  rfl

theorem choiceReading_else (ht : t.kind = .elseWord) (seen : List (Expr × Expr)) :
    choiceReading seen room (t :: rest) = (do
      let (last, r₁) ← (Grammar.body (.keyword "else") room rest).plain
      .ok (.choice (.ofList seen (some last)), r₁)) := by
  rw [choiceReading, Grammar.furtherArms, if_neg (by rw [ht]; decide), if_pos ht, bind_assoc]
  show ((Grammar.body _ room rest).plain >>= fun p =>
    Except.ok (Expr.choice (.ofList (seen ++ []) (some p.1)), p.2)) = _
  rw [List.append_nil]

theorem choiceReading_other (helif : t.kind ≠ .elifWord) (helse : t.kind ≠ .elseWord)
    (seen : List (Expr × Expr)) :
    choiceReading seen room (t :: rest) = .ok (.choice (.ofList seen none), t :: rest) := by
  rw [choiceReading, Grammar.furtherArms, if_neg helif, if_neg helse]
  show Except.ok (Expr.choice (.ofList (seen ++ []) none), _) = _
  rw [List.append_nil]

theorem primary_reading_if (ht : t.kind = .ifWord) :
    (Grammar.primary room (t :: rest)).plain =
      (Part.branches t.lexeme []).reading room rest := by
  rw [Grammar.primary_plain_cons, ht, Part.reading]
  simp only [List.nil_append, Arms.ofList_branches_last?]

theorem primary_reading_other (ht : t.kind ∉ [.number, .trueWord, .falseWord, .nullWord,
    .identifier, .leftParen, .leftBrace, .ifWord]) :
    (Grammar.primary room (t :: rest)).plain = .error (.expected .expression (t :: rest)) := by
  rw [Grammar.primary_plain_cons]
  split <;> simp_all

theorem declaration_reading (ts : List Token) :
    (Grammar.declaration room ts).plain = (Routine.part .content).deeper room ts := by
  cases room with
  | zero => exact Grammar.declaration_plain_zero ts
  | succ room => rfl

theorem negation_reading (op : UnaryOp) (mark : Token) (ts : List Token) :
    (Grammar.negation op room mark ts).plain = (do
      let (e, r₁) ← (Routine.entry .unary).deeper room ts
      .ok (.unary op e mark.line, r₁)) := by
  cases room with
  | zero => exact Grammar.negation_plain_zero op mark ts
  | succ room => exact Grammar.negation_plain_succ op room mark ts

theorem reading_operand (n : Nat) (ts : List Token) :
    (operand n).reading room ts = (Grammar.chain n room ts).plain := by
  cases n with
  | zero => exact (Grammar.chain_plain_zero room ts).symm
  | succ n => rfl

end ExprLang.Reader
