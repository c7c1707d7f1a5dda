import ExprLang.Machine

/-!
What the operators mean. Which operands an operator takes is said by their types alone, and how it
fails by the first thing that is wrong with them: the type on the left, the type on the right, a
divisor that is zero. What it gives for two numbers is said by the integers that they stand for.

* `apply_left_mismatch`, `apply_right_mismatch`, `apply_zero_divisor`: the faults, in this order;
* `exists_apply_eq_ok`: there are no others;
* `yields_iff`: a result of 64 bits for an integer;
* `operators_defined`: the property.
-/

namespace ExprLang

/-! ## Operands -/

/-- The types that an operator takes on its left. On its right it takes the type that is on its
left. -/
def BinaryOp.shapes : BinaryOp → List Shape
  | .add | .subtract | .multiply | .divide | .modulus
  | .less | .lessEqual | .greater | .greaterEqual => [.number]
  | .equal | .notEqual => [.number, .boolean]
  | .and | .or => [.boolean]

/-- What a diagnostic about the left operand asks for. -/
def BinaryOp.wanted : BinaryOp → Wanted
  | .add | .subtract | .multiply | .divide | .modulus
  | .less | .lessEqual | .greater | .greaterEqual => .shape .number
  | .equal | .notEqual => .numberOrBoolean
  | .and | .or => .shape .boolean

/-- The type that a prefix operator takes. -/
def UnaryOp.shape : UnaryOp → Shape
  | .negate => .number
  | .not => .boolean

/-- The fault of a divisor that is zero, for the operators that divide. -/
def BinaryOp.zeroFault? (line : Nat) : BinaryOp → Option Fault
  | .divide => some (.divisionByZero line)
  | .modulus => some (.modulusByZero line)
  | _ => none

/-- Operands of the types that an operator takes. -/
def BinaryOp.WellTyped (op : BinaryOp) (a b : Value) : Prop :=
  a.shape ∈ op.shapes ∧ b.shape = a.shape

namespace Value

variable {v : Value}

theorem exists_number (h : v.shape = .number) : ∃ n, v = .number n := by
  cases v with
  | number n => exact ⟨n, rfl⟩
  | _ => cases h

theorem exists_bool (h : v.shape = .boolean) : ∃ p, v = .bool p := by
  cases v with
  | bool p => exact ⟨p, rfl⟩
  | _ => cases h

variable (operation : Operation) (line : Nat)

theorem asNumber_mismatch (h : v.shape ≠ .number) :
    v.asNumber operation line =
      .error (.typeMismatch operation (.shape .number) v.shape line) := by
  cases v with
  | number n => exact absurd rfl h
  | _ => rfl

theorem asBool_mismatch (h : v.shape ≠ .boolean) :
    v.asBool operation line =
      .error (.typeMismatch operation (.shape .boolean) v.shape line) := by
  cases v with
  | bool p => exact absurd rfl h
  | _ => rfl

end Value

namespace BinaryOp

variable (op : BinaryOp) (line : Nat) {a b : Value}

section Families

variable (f : Int64 → Int64 → Except Fault Value) (g : Bool → Bool → Bool)

theorem onNumbers_left (ha : a.shape ≠ .number) : op.onNumbers line a b f =
    .error (.typeMismatch (.binary op) (.shape .number) a.shape line) := by
  rw [onNumbers, Value.asNumber_mismatch _ _ ha]
  rfl

theorem onNumbers_right (m : Int64) (hb : b.shape ≠ .number) : op.onNumbers line (.number m) b f =
    .error (.typeMismatch (.binary op) (.shape .number) b.shape line) := by
  rw [onNumbers, Value.asNumber_mismatch _ _ hb]
  rfl

theorem onBools_left (ha : a.shape ≠ .boolean) : op.onBools line a b g =
    .error (.typeMismatch (.binary op) (.shape .boolean) a.shape line) := by
  rw [onBools, Value.asBool_mismatch _ _ ha]
  rfl

theorem onBools_right (p : Bool) (hb : b.shape ≠ .boolean) : op.onBools line (.bool p) b g =
    .error (.typeMismatch (.binary op) (.shape .boolean) b.shape line) := by
  rw [onBools, Value.asBool_mismatch _ _ hb]
  rfl

theorem equality_left (hnumber : a.shape ≠ .number) (hbool : a.shape ≠ .boolean) :
    op.equality line a b = .error (.typeMismatch (.binary op) .numberOrBoolean a.shape line) := by
  cases a with
  | number m => exact absurd rfl hnumber
  | bool p => exact absurd rfl hbool
  | _ => cases b <;> rfl

theorem equality_right (ha : a.shape = .number ∨ a.shape = .boolean) (hb : b.shape ≠ a.shape) :
    op.equality line a b =
      .error (.typeMismatch (.binary op) (.shape a.shape) b.shape line) := by
  rcases ha with ha | ha
  · obtain ⟨m, rfl⟩ := Value.exists_number ha
    cases b with
    | number n => exact absurd rfl hb
    | _ => rfl
  · obtain ⟨p, rfl⟩ := Value.exists_bool ha
    cases b with
    | bool q => exact absurd rfl hb
    | _ => rfl

end Families

/-! ## Faults -/

/-- The left operand is looked at before everything else. -/
theorem apply_left_mismatch (ha : a.shape ∉ op.shapes) : op.apply line a b =
    .error (.typeMismatch (.binary op) op.wanted a.shape line) := by
  cases op with
  | add | subtract | multiply | divide | modulus | less | lessEqual | greater | greaterEqual =>
    exact onNumbers_left _ _ _ (mt List.mem_singleton.mpr ha)
  | equal | notEqual =>
    have hneither : a.shape ≠ .number ∧ a.shape ≠ .boolean := by simpa [shapes] using ha
    rw [apply, equality_left _ _ hneither.1 hneither.2]
    rfl
  | and | or => exact onBools_left _ _ _ (mt List.mem_singleton.mpr ha)

/-- Then the right one is, whatever number or boolean it should be. -/
theorem apply_right_mismatch (ha : a.shape ∈ op.shapes) (hb : b.shape ≠ a.shape) :
    op.apply line a b = .error (.typeMismatch (.binary op) (.shape a.shape) b.shape line) := by
  cases op with
  | add | subtract | multiply | divide | modulus | less | lessEqual | greater | greaterEqual =>
    obtain ⟨m, rfl⟩ := Value.exists_number (List.mem_singleton.mp ha)
    exact onNumbers_right _ _ _ m hb
  | equal | notEqual =>
    have heither : a.shape = .number ∨ a.shape = .boolean := by simpa [shapes] using ha
    rw [apply, equality_right _ _ heither hb]
    rfl
  | and | or =>
    obtain ⟨p, rfl⟩ := Value.exists_bool (List.mem_singleton.mp ha)
    exact onBools_right _ _ _ p hb

theorem apply_zero_divisor {f : Fault} (hf : f ∈ op.zeroFault? line) (m : Int64) :
    op.apply line (.number m) (.number 0) = .error f := by
  cases op with
  | divide | modulus =>
    cases hf
    rfl
  | _ => cases hf

/-- Operands of the right types have a value, if no divisor is zero. -/
theorem exists_apply_eq_ok (h : op.WellTyped a b)
    (hzero : b = .number 0 → op.zeroFault? line = none) : ∃ v, op.apply line a b = .ok v := by
  obtain ⟨ha, hb⟩ := h
  cases op with
  | add | subtract | multiply | less | lessEqual | greater | greaterEqual =>
    obtain ⟨m, rfl⟩ := Value.exists_number (List.mem_singleton.mp ha)
    obtain ⟨n, rfl⟩ := Value.exists_number hb
    exact ⟨_, rfl⟩
  | divide | modulus =>
    obtain ⟨m, rfl⟩ := Value.exists_number (List.mem_singleton.mp ha)
    obtain ⟨n, rfl⟩ := Value.exists_number hb
    have hn : n ≠ 0 := by
      rintro rfl
      cases hzero rfl
    exact ⟨_, if_neg hn⟩
  | equal | notEqual =>
    have heither : a.shape = .number ∨ a.shape = .boolean := by simpa [shapes] using ha
    rcases heither with hshape | hshape
    · obtain ⟨m, rfl⟩ := Value.exists_number hshape
      obtain ⟨n, rfl⟩ := Value.exists_number hb
      exact ⟨_, rfl⟩
    · obtain ⟨p, rfl⟩ := Value.exists_bool hshape
      obtain ⟨q, rfl⟩ := Value.exists_bool hb
      exact ⟨_, rfl⟩
  | and | or =>
    obtain ⟨p, rfl⟩ := Value.exists_bool (List.mem_singleton.mp ha)
    obtain ⟨q, rfl⟩ := Value.exists_bool hb
    exact ⟨_, rfl⟩

/-- An operator is named in the faults of a comparison only. -/
theorem equality_eq_ok_iff (op op' : BinaryOp) (p : Bool) :
    op.equality line a b = .ok p ↔ op'.equality line a b = .ok p := by
  cases a <;> cases b <;> simp [equality]

/-- Two values that can be compared are equal or not equal. -/
theorem equal_iff_notEqual (a b : Value) (p : Bool) :
    equal.apply line a b = .ok (.bool p) ↔ notEqual.apply line a b = .ok (.bool !p) := by
  have hequal : equal.apply line a b = .ok (.bool p) ↔ equal.equality line a b = .ok p := by
    rw [apply]
    cases equal.equality line a b <;> simp [bind, Except.bind, pure, Except.pure]
  have hnotEqual :
      notEqual.apply line a b = .ok (.bool !p) ↔ notEqual.equality line a b = .ok p := by
    rw [apply]
    cases notEqual.equality line a b <;> simp [bind, Except.bind, pure, Except.pure]
  rw [hequal, hnotEqual, equality_eq_ok_iff]

end BinaryOp

/-- How an operator between two values ends, in every case. -/
structure BinaryOp.Ends (op : BinaryOp) (line : Nat) (a b : Value) : Prop where
  value_iff : (∃ v, op.apply line a b = .ok v) ↔
    op.WellTyped a b ∧ (b = .number 0 → op.zeroFault? line = none)
  left : a.shape ∉ op.shapes →
    op.apply line a b = .error (.typeMismatch (.binary op) op.wanted a.shape line)
  right : a.shape ∈ op.shapes → b.shape ≠ a.shape →
    op.apply line a b = .error (.typeMismatch (.binary op) (.shape a.shape) b.shape line)
  zero : op.WellTyped a b → b = .number 0 → ∀ f ∈ op.zeroFault? line,
    op.apply line a b = .error f

theorem BinaryOp.ends (op : BinaryOp) (line : Nat) (a b : Value) : op.Ends line a b := by
  have hzero : op.WellTyped a b → b = .number 0 → ∀ f ∈ op.zeroFault? line,
      op.apply line a b = .error f := by
    rintro ⟨-, hb⟩ rfl f hf
    obtain ⟨m, rfl⟩ := Value.exists_number hb.symm
    exact op.apply_zero_divisor line hf m
  refine ⟨⟨fun ⟨v, hv⟩ => ?_, fun ⟨htyped, hnonzero⟩ => op.exists_apply_eq_ok line htyped hnonzero⟩,
    op.apply_left_mismatch line, op.apply_right_mismatch line, hzero⟩
  have ha : a.shape ∈ op.shapes := by
    refine Decidable.byContradiction fun ha => ?_
    rw [op.apply_left_mismatch line ha] at hv
    cases hv
  have hb : b.shape = a.shape := by
    refine Decidable.byContradiction fun hb => ?_
    rw [op.apply_right_mismatch line ha hb] at hv
    cases hv
  refine ⟨⟨ha, hb⟩, fun hdivisor => Option.eq_none_iff_forall_not_mem.mpr fun f hf => ?_⟩
  rw [hzero ⟨ha, hb⟩ hdivisor f hf] at hv
  cases hv

/-- How a prefix operator ends. -/
structure UnaryOp.Ends (op : UnaryOp) (line : Nat) (v : Value) : Prop where
  value_iff : (∃ u, op.apply line v = .ok u) ↔ v.shape = op.shape
  mismatch : v.shape ≠ op.shape →
    op.apply line v = .error (.typeMismatch (.unary op) (.shape op.shape) v.shape line)

theorem UnaryOp.ends (op : UnaryOp) (line : Nat) (v : Value) : op.Ends line v := by
  have hmismatch : v.shape ≠ op.shape →
      op.apply line v = .error (.typeMismatch (.unary op) (.shape op.shape) v.shape line) := by
    intro h
    cases op with
    | negate =>
      rw [apply, Value.asNumber_mismatch _ _ h]
      rfl
    | not =>
      rw [apply, Value.asBool_mismatch _ _ h]
      rfl
  refine ⟨⟨fun ⟨u, hu⟩ => ?_, fun h => ?_⟩, hmismatch⟩
  · refine Decidable.byContradiction fun h => ?_
    rw [hmismatch h] at hu
    cases hu
  · cases op with
    | negate =>
      obtain ⟨n, rfl⟩ := Value.exists_number h
      exact ⟨_, rfl⟩
    | not =>
      obtain ⟨p, rfl⟩ := Value.exists_bool h
      exact ⟨_, rfl⟩

/-! ## Numbers -/

/-- The result is the number of 64 bits that an integer is reduced to: the two differ by a multiple
of 2^64. -/
def Yields (result : Except Fault Value) (exact : Int) : Prop :=
  ∃ n : Int64, result = .ok (.number n) ∧ (18446744073709551616 : Int) ∣ exact - n.toInt

theorem yields_number {n : Int64} {exact : Int} (h : n.toInt = exact.bmod 18446744073709551616) :
    Yields (.ok (.number n)) exact := by
  refine ⟨n, rfl, ?_⟩
  rw [h]
  exact Int.dvd_self_sub_bmod

/-- There is only one such number. -/
theorem yields_iff {n : Int64} {exact : Int} :
    Yields (.ok (.number n)) exact ↔ n = Int64.ofInt exact := by
  constructor
  · rintro ⟨m, hm, hdvd⟩
    cases hm
    have hcong : exact.bmod (2 ^ 64) = n.toInt.bmod (2 ^ 64) :=
      Int.bmod_eq_bmod_iff_bmod_sub_eq_zero.mpr (Int.bmod_eq_zero_of_dvd hdvd)
    rw [← Int64.toInt_inj, Int64.toInt_ofInt]
    exact (Int64.toInt_bmod n).symm.trans hcong.symm
  · rintro rfl
    exact yields_number Int64.toInt_ofInt

section Numbers

variable (line : Nat) (a b : Int64)

/-- What operators give for two numbers, in integers. -/
structure Arithmetic : Prop where
  add : Yields (BinaryOp.add.apply line (.number a) (.number b)) (a.toInt + b.toInt)
  subtract : Yields (BinaryOp.subtract.apply line (.number a) (.number b)) (a.toInt - b.toInt)
  multiply : Yields (BinaryOp.multiply.apply line (.number a) (.number b)) (a.toInt * b.toInt)
  negate : Yields (UnaryOp.negate.apply line (.number a)) (-a.toInt)
  less : BinaryOp.less.apply line (.number a) (.number b) = .ok (.bool (a.toInt < b.toInt))
  lessEqual :
    BinaryOp.lessEqual.apply line (.number a) (.number b) = .ok (.bool (a.toInt ≤ b.toInt))
  greater : BinaryOp.greater.apply line (.number a) (.number b) = .ok (.bool (b.toInt < a.toInt))
  greaterEqual :
    BinaryOp.greaterEqual.apply line (.number a) (.number b) = .ok (.bool (b.toInt ≤ a.toInt))
  equal : BinaryOp.equal.apply line (.number a) (.number b) = .ok (.bool (a.toInt = b.toInt))

theorem ok_bool_congr {p q : Prop} [Decidable p] [Decidable q] (h : p ↔ q) :
    (.ok (.bool p) : Except Fault Value) = .ok (.bool q) := by
  rw [decide_eq_decide.mpr h]

theorem arithmetic : Arithmetic line a b where
  add := yields_number (Int64.toInt_add a b)
  subtract := yields_number (Int64.toInt_sub a b)
  multiply := yields_number (Int64.toInt_mul a b)
  negate := yields_number (Int64.toInt_neg a)
  less := ok_bool_congr Int64.lt_iff_toInt_lt
  lessEqual := ok_bool_congr Int64.le_iff_toInt_le
  greater := ok_bool_congr Int64.lt_iff_toInt_lt
  greaterEqual := ok_bool_congr Int64.le_iff_toInt_le
  equal := ok_bool_congr Int64.toInt_inj.symm

/-- What division gives for a divisor other than zero: the quotient without its fraction, and a
remainder that is smaller than the divisor and has no other sign than the dividend. -/
structure Division : Prop where
  divide : Yields (BinaryOp.divide.apply line (.number a) (.number b)) (a.toInt.tdiv b.toInt)
  modulus : Yields (BinaryOp.modulus.apply line (.number a) (.number b)) (a.toInt.tmod b.toInt)
  remainder : ∀ r, BinaryOp.modulus.apply line (.number a) (.number b) = .ok (.number r) →
    r.toInt.natAbs < b.toInt.natAbs ∧ (0 ≤ a.toInt → 0 ≤ r.toInt) ∧ (a.toInt ≤ 0 → r.toInt ≤ 0)
  /-- Quotient times divisor and remainder make the dividend again, wrapping around. -/
  restored : ∀ q r, BinaryOp.divide.apply line (.number a) (.number b) = .ok (.number q) →
    BinaryOp.modulus.apply line (.number a) (.number b) = .ok (.number r) →
    ∃ p, BinaryOp.multiply.apply line (.number q) (.number b) = .ok p ∧
      BinaryOp.add.apply line p (.number r) = .ok (.number a)

variable {a b}

theorem divide_number (hb : b ≠ 0) :
    BinaryOp.divide.apply line (.number a) (.number b) = .ok (.number (a / b)) := if_neg hb

theorem modulus_number (hb : b ≠ 0) :
    BinaryOp.modulus.apply line (.number a) (.number b) = .ok (.number (a % b)) := if_neg hb

theorem toInt_ne_zero (hb : b ≠ 0) : b.toInt ≠ 0 :=
  fun h => hb (Int64.toInt_inj.mp h)

/-- A remainder has the sign of the dividend. -/
theorem tmod_nonpos {x : Int} (y : Int) (hx : x ≤ 0) : x.tmod y ≤ 0 := by
  have h := Int.tmod_nonneg y (Int.neg_nonneg_of_nonpos hx)
  rw [Int.neg_tmod] at h
  omega

theorem div_mul_add_mod : a / b * b + a % b = a := by
  rw [← Int64.toInt_inj, Int64.toInt_add, Int64.toInt_mul, Int64.toInt_div, Int64.toInt_mod,
    Int.bmod_mul_bmod, Int.bmod_add_bmod, Int.tdiv_mul_add_tmod]
  exact Int64.toInt_bmod a

theorem division (hb : b ≠ 0) : Division line a b where
  divide := by
    rw [divide_number line hb]
    exact yields_number (Int64.toInt_div a b)
  modulus := by
    rw [modulus_number line hb, yields_iff, ← Int64.toInt_mod, Int64.ofInt_toInt]
  remainder := by
    intro r hr
    rw [modulus_number line hb] at hr
    cases hr
    have hpos : 0 < b.toInt.natAbs := Int.natAbs_pos.mpr (toInt_ne_zero hb)
    rw [Int64.toInt_mod, Int.natAbs_tmod]
    exact ⟨Nat.mod_lt _ hpos, Int.tmod_nonneg _, tmod_nonpos _⟩
  restored := by
    intro q r hq hr
    rw [divide_number line hb] at hq
    rw [modulus_number line hb] at hr
    cases hq
    cases hr
    exact ⟨_, rfl, congrArg (fun n => Except.ok (Value.number n)) div_mul_add_mod⟩

end Numbers

/-! ## The evaluator -/

namespace Machine

variable (limits : Limits) (frames : List Frame) (state : State)

/-- Once its right operand is there, an operator takes one step to its result. -/
theorem step_right (op : BinaryOp) (line : Nat) (a b : Value) :
    step limits ⟨.give b, .right op a line :: frames, state⟩ =
      .next (.answer (op.apply line a b) frames state.store state.output state.calls) :=
  rfl

theorem step_operand (op : UnaryOp) (line : Nat) (v : Value) :
    step limits ⟨.give v, .operand op line :: frames, state⟩ =
      .next (.answer (op.apply line v) frames state.store state.output state.calls) :=
  rfl

end Machine

/-- For every operator and all operands it is certain what comes out. There is a value exactly if
the operands have the types that the operator takes and no divisor is zero; otherwise the fault is
about the left operand, if that has the wrong type, else about the right one, and a zero divisor
comes last. The evaluator always goes on with that value or fault, and leaves its state as it is.
Numbers are the integers reduced to 64 bits; division drops the fraction, and the least number
through minus one is the least number again; numbers are ordered as integers are; and two values
are different exactly if they are not equal. -/
theorem operators_defined (line : Nat) :
    (∀ op a b, BinaryOp.Ends op line a b) ∧
    (∀ op v, UnaryOp.Ends op line v) ∧
    (∀ limits frames state op a b,
      Machine.step limits ⟨.give b, .right op a line :: frames, state⟩ =
        .next (.answer (op.apply line a b) frames state.store state.output state.calls)) ∧
    (∀ limits frames state op v,
      Machine.step limits ⟨.give v, .operand op line :: frames, state⟩ =
        .next (.answer (op.apply line v) frames state.store state.output state.calls)) ∧
    (∀ a b, Arithmetic line a b) ∧
    (∀ a b, b ≠ 0 → Division line a b) ∧
    BinaryOp.divide.apply line (.number Int64.minValue) (.number (-1)) =
      .ok (.number Int64.minValue) ∧
    BinaryOp.modulus.apply line (.number Int64.minValue) (.number (-1)) = .ok (.number 0) ∧
    (∀ p q, BinaryOp.and.apply line (.bool p) (.bool q) = .ok (.bool (p && q)) ∧
      BinaryOp.or.apply line (.bool p) (.bool q) = .ok (.bool (p || q)) ∧
      BinaryOp.equal.apply line (.bool p) (.bool q) = .ok (.bool (p = q)) ∧
      UnaryOp.not.apply line (.bool p) = .ok (.bool !p)) ∧
    (∀ a b p, BinaryOp.equal.apply line a b = .ok (.bool p) ↔
      BinaryOp.notEqual.apply line a b = .ok (.bool !p)) := by
  refine ⟨fun op a b => op.ends line a b, fun op v => op.ends line v,
    fun limits frames state op a b => Machine.step_right limits frames state op line a b,
    fun limits frames state op v => Machine.step_operand limits frames state op line v,
    arithmetic line, fun a b hb => division line hb, rfl, rfl, fun p q => ⟨rfl, rfl, ?_, rfl⟩,
    BinaryOp.equal_iff_notEqual line⟩
  cases p <;> cases q <;> rfl

/-- The one division that overflows; and null through zero, which is a fault about null. -/
theorem operators_defined_least :
    ((-1 : Int64) ≠ 0 ∧ Value.null.shape ∉ BinaryOp.divide.shapes) ∧
    (∃ p, BinaryOp.multiply.apply 7 (.number Int64.minValue) (.number (-1)) = .ok p ∧
      BinaryOp.add.apply 7 p (.number 0) = .ok (.number Int64.minValue)) ∧
    BinaryOp.divide.apply 7 .null (.number 0) =
      .error (.typeMismatch (.binary .divide) (.shape .number) .null 7) := by
  obtain ⟨hends, -, -, -, -, hdivision, hquotient, hremainder, -⟩ := operators_defined 7
  have hnonzero : (-1 : Int64) ≠ 0 := by decide
  have hnull : Value.null.shape ∉ BinaryOp.divide.shapes := by decide
  exact ⟨⟨hnonzero, hnull⟩, (hdivision _ _ hnonzero).restored _ _ hquotient hremainder,
    (hends .divide .null (.number 0)).left hnull⟩

end ExprLang
