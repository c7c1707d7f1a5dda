import ExprLang.Value.Operation

/-!
What an operator can lead to: the operation on the numbers or booleans that its operands
are, or a complaint about the type of one of them (`onNumbers_cases`, `onBools_cases`,
`equality_cases`). In no case is it a closure (`Operation.Answers`).
-/

namespace ExprLang

variable (op : BinaryOp) (line : Nat) (a b : Value)

/-- The ways in which an operation on values ends. -/
inductive Operation.Answers (operation : Operation) (line : Nat) : Except Fault Value → Prop where
  | number (n : Int64) : Answers operation line (.ok (.number n))
  | bool (b : Bool) : Answers operation line (.ok (.bool b))
  | mismatch (wanted : Wanted) (found : Shape) :
      Answers operation line (.error (.typeMismatch operation wanted found line))
  | divisionByZero : Answers operation line (.error (.divisionByZero line))
  | modulusByZero : Answers operation line (.error (.modulusByZero line))

namespace Value

theorem asNumber_cases (operation : Operation) (v : Value) :
    (∃ n, v = .number n ∧ v.asNumber operation line = .ok n) ∨
      v.asNumber operation line =
        .error (.typeMismatch operation (.shape .number) v.shape line) := by
  cases v with
  | number n => exact .inl ⟨n, rfl, rfl⟩
  | _ => exact .inr rfl

theorem asBool_cases (operation : Operation) (v : Value) :
    (∃ b, v = .bool b ∧ v.asBool operation line = .ok b) ∨
      v.asBool operation line =
        .error (.typeMismatch operation (.shape .boolean) v.shape line) := by
  cases v with
  | bool b => exact .inl ⟨b, rfl, rfl⟩
  | _ => exact .inr rfl

end Value

namespace BinaryOp

theorem onNumbers_cases (f : Int64 → Int64 → Except Fault Value) :
    (∃ m n, a = .number m ∧ b = .number n ∧ op.onNumbers line a b f = f m n) ∨
      ∃ found, op.onNumbers line a b f =
        .error (.typeMismatch (.binary op) (.shape .number) found line) := by
  unfold onNumbers
  rcases a.asNumber_cases line (.binary op) with ⟨m, hm, ha⟩ | ha
  · rcases b.asNumber_cases line (.binary op) with ⟨n, hn, hb⟩ | hb
    · rw [ha, hb]
      exact .inl ⟨m, n, hm, hn, rfl⟩
    · rw [ha, hb]
      exact .inr ⟨b.shape, rfl⟩
  · rw [ha]
    exact .inr ⟨a.shape, rfl⟩

theorem onBools_cases (f : Bool → Bool → Bool) :
    (∃ p q, a = .bool p ∧ b = .bool q ∧ op.onBools line a b f = .ok (.bool (f p q))) ∨
      ∃ found, op.onBools line a b f =
        .error (.typeMismatch (.binary op) (.shape .boolean) found line) := by
  unfold onBools
  rcases a.asBool_cases line (.binary op) with ⟨p, hp, ha⟩ | ha
  · rcases b.asBool_cases line (.binary op) with ⟨q, hq, hb⟩ | hb
    · rw [ha, hb]
      exact .inl ⟨p, q, hp, hq, rfl⟩
    · rw [ha, hb]
      exact .inr ⟨b.shape, rfl⟩
  · rw [ha]
    exact .inr ⟨a.shape, rfl⟩

theorem equality_cases :
    (∃ answer, op.equality line a b = .ok answer) ∨
      ∃ wanted found, op.equality line a b =
        .error (.typeMismatch (.binary op) wanted found line) := by
  unfold equality
  split
  · exact .inl ⟨_, rfl⟩
  · exact .inl ⟨_, rfl⟩
  · exact .inr ⟨_, _, rfl⟩
  · exact .inr ⟨_, _, rfl⟩
  · exact .inr ⟨_, _, rfl⟩

theorem onNumbers_answers {f : Int64 → Int64 → Except Fault Value}
    (hf : ∀ m n, Operation.Answers (.binary op) line (f m n)) :
    Operation.Answers (.binary op) line (op.onNumbers line a b f) := by
  rcases op.onNumbers_cases line a b f with ⟨m, n, -, -, h⟩ | ⟨found, h⟩
  · rw [h]
    exact hf m n
  · rw [h]
    exact .mismatch ..

theorem onBools_answers (f : Bool → Bool → Bool) :
    Operation.Answers (.binary op) line (op.onBools line a b f) := by
  rcases op.onBools_cases line a b f with ⟨p, q, -, -, h⟩ | ⟨found, h⟩
  · rw [h]
    exact .bool _
  · rw [h]
    exact .mismatch ..

/-- No operator between two values gives a closure or a fault that is not its own. -/
theorem apply_answers : Operation.Answers (.binary op) line (op.apply line a b) := by
  cases op with
  | add | subtract | multiply => exact onNumbers_answers _ _ _ _ fun m n => .number _
  | divide =>
    refine onNumbers_answers _ _ _ _ fun m n => ?_
    split
    · exact .divisionByZero
    · exact .number _
  | modulus =>
    refine onNumbers_answers _ _ _ _ fun m n => ?_
    split
    · exact .modulusByZero
    · exact .number _
  | less | lessEqual | greater | greaterEqual =>
    exact onNumbers_answers _ _ _ _ fun m n => .bool _
  | equal | notEqual =>
    unfold apply
    dsimp only
    rcases equality_cases _ line a b with ⟨answer, h⟩ | ⟨wanted, found, h⟩
    · rw [h]
      exact .bool _
    · rw [h]
      exact .mismatch ..
  | and | or => exact onBools_answers ..

end BinaryOp

/-- Nor does a prefix operator. -/
theorem UnaryOp.apply_answers (op : UnaryOp) (line : Nat) (v : Value) :
    Operation.Answers (.unary op) line (op.apply line v) := by
  cases op with
  | negate =>
    cases v with
    | number n => exact .number _
    | _ => exact .mismatch ..
  | not =>
    cases v with
    | bool b => exact .bool _
    | _ => exact .mismatch ..

end ExprLang
