import ExprLang.Machine

/-!
Other lines. `relabel f` replaces every line `l` by `f l`: in expressions and faults, in the
closures that values are, and so in all that the machine works on. Nothing else changes.

* `Expr.relabelAll_eq_map`: a list is relabelled item by item;
* `Expr.relabel_relabel`, `Expr.relabel_id`: one replacement behind another, and none;
* `State.relabel_cancel`: a replacement that takes another one back.
-/

namespace ExprLang

/-! ## Expressions -/

mutual

/-- The expression with `f l` in place of every line `l`. -/
def Expr.relabel (f : Nat → Nat) : Expr → Expr
  | .number n => .number n
  | .bool b => .bool b
  | .null => .null
  | .identifier name line => .identifier name (f line)
  | .declare name constant value line => .declare name constant (value.relabel f) (f line)
  | .assign name value line => .assign name (value.relabel f) (f line)
  | .sequence items => .sequence (Expr.relabelAll f items)
  | .block body => .block (body.relabel f)
  | .choice arms => .choice (arms.relabel f)
  | .loop condition body line => .loop (condition.relabel f) (body.relabel f) (f line)
  | .function params body line => .function params (body.relabel f) (f line)
  | .call callee arguments line =>
      .call (callee.relabel f) (Expr.relabelAll f arguments) (f line)
  | .binary op left right line => .binary op (left.relabel f) (right.relabel f) (f line)
  | .unary op operand line => .unary op (operand.relabel f) (f line)

def Expr.relabelAll (f : Nat → Nat) : List Expr → List Expr
  | [] => []
  | e :: es => e.relabel f :: Expr.relabelAll f es

def Arms.relabel (f : Nat → Nat) : Arms → Arms
  | .done => .done
  | .otherwise body => .otherwise (body.relabel f)
  | .guarded condition body rest =>
      .guarded (condition.relabel f) (body.relabel f) (rest.relabel f)

end

theorem Expr.relabelAll_eq_map (f : Nat → Nat) (es : List Expr) :
    Expr.relabelAll f es = es.map (Expr.relabel f) := by
  induction es with
  | nil => rfl
  | cons e es ih => rw [Expr.relabelAll, ih, List.map_cons]

@[simp] theorem Expr.nodeName_relabel (f : Nat → Nat) (e : Expr) :
    (e.relabel f).nodeName = e.nodeName := by
  cases e <;> rfl

mutual

theorem Expr.relabel_relabel (f g : Nat → Nat) (e : Expr) :
    (e.relabel f).relabel g = e.relabel (g ∘ f) := by
  match e with
  | .number _ | .bool _ | .null | .identifier _ _ => rfl
  | .declare _ _ value _ | .assign _ value _ =>
    simp only [Expr.relabel, value.relabel_relabel f g, Function.comp_apply]
  | .sequence items => simp only [Expr.relabel, Expr.relabelAll_relabelAll f g items]
  | .block body => simp only [Expr.relabel, body.relabel_relabel f g]
  | .choice arms => simp only [Expr.relabel, arms.relabel_relabel f g]
  | .loop condition body _ =>
    simp only [Expr.relabel, condition.relabel_relabel f g, body.relabel_relabel f g,
      Function.comp_apply]
  | .function _ body _ => simp only [Expr.relabel, body.relabel_relabel f g, Function.comp_apply]
  | .call callee arguments _ =>
    simp only [Expr.relabel, callee.relabel_relabel f g, Expr.relabelAll_relabelAll f g arguments,
      Function.comp_apply]
  | .binary _ left right _ =>
    simp only [Expr.relabel, left.relabel_relabel f g, right.relabel_relabel f g,
      Function.comp_apply]
  | .unary _ operand _ =>
    simp only [Expr.relabel, operand.relabel_relabel f g, Function.comp_apply]

theorem Expr.relabelAll_relabelAll (f g : Nat → Nat) (es : List Expr) :
    Expr.relabelAll g (Expr.relabelAll f es) = Expr.relabelAll (g ∘ f) es := by
  match es with
  | [] => rfl
  | e :: es =>
    simp only [Expr.relabelAll, e.relabel_relabel f g, Expr.relabelAll_relabelAll f g es]

theorem Arms.relabel_relabel (f g : Nat → Nat) (arms : Arms) :
    (arms.relabel f).relabel g = arms.relabel (g ∘ f) := by
  match arms with
  | .done => rfl
  | .otherwise body => simp only [Arms.relabel, body.relabel_relabel f g]
  | .guarded condition body rest =>
    simp only [Arms.relabel, condition.relabel_relabel f g, body.relabel_relabel f g,
      rest.relabel_relabel f g]

end

mutual

theorem Expr.relabel_id (e : Expr) : e.relabel id = e := by
  match e with
  | .number _ | .bool _ | .null | .identifier _ _ => rfl
  | .declare _ _ value _ | .assign _ value _ =>
    simp only [Expr.relabel, value.relabel_id, id_eq]
  | .sequence items => simp only [Expr.relabel, Expr.relabelAll_id items]
  | .block body => simp only [Expr.relabel, body.relabel_id]
  | .choice arms => simp only [Expr.relabel, arms.relabel_id]
  | .loop condition body _ => simp only [Expr.relabel, condition.relabel_id, body.relabel_id, id_eq]
  | .function _ body _ => simp only [Expr.relabel, body.relabel_id, id_eq]
  | .call callee arguments _ =>
    simp only [Expr.relabel, callee.relabel_id, Expr.relabelAll_id arguments, id_eq]
  | .binary _ left right _ => simp only [Expr.relabel, left.relabel_id, right.relabel_id, id_eq]
  | .unary _ operand _ => simp only [Expr.relabel, operand.relabel_id, id_eq]

theorem Expr.relabelAll_id (es : List Expr) : Expr.relabelAll id es = es := by
  match es with
  | [] => rfl
  | e :: es => simp only [Expr.relabelAll, e.relabel_id, Expr.relabelAll_id es]

theorem Arms.relabel_id (arms : Arms) : arms.relabel id = arms := by
  match arms with
  | .done => rfl
  | .otherwise body => simp only [Arms.relabel, body.relabel_id]
  | .guarded condition body rest =>
    simp only [Arms.relabel, condition.relabel_id, body.relabel_id, rest.relabel_id]

end

/-! ## Faults -/

def Callee.relabel (f : Nat → Nat) : Callee → Callee
  | .builtin b => .builtin b
  | .function line => .function (f line)

/-- The fault with `f l` in place of every line `l`. -/
def Fault.relabel (f : Nat → Nat) : Fault → Fault
  | .unexpectedCharacter c line column => .unexpectedCharacter c (f line) column
  | .syntaxError expected found line => .syntaxError expected found (f line)
  | .invalidTarget target line => .invalidTarget target (f line)
  | .undefinedVariable name line => .undefinedVariable name (f line)
  | .assignToConstant name line => .assignToConstant name (f line)
  | .typeMismatch operation wanted found line => .typeMismatch operation wanted found (f line)
  | .arityMismatch callee wanted given line =>
      .arityMismatch (callee.relabel f) wanted given (f line)
  | .divisionByZero line => .divisionByZero (f line)
  | .modulusByZero line => .modulusByZero (f line)
  | .tooDeep limit => .tooDeep limit
  | .outputFull => .outputFull

@[simp] theorem Fault.kind_relabel (f : Nat → Nat) (fault : Fault) :
    (fault.relabel f).kind = fault.kind := by
  cases fault <;> rfl

theorem Fault.relabel_id (fault : Fault) : fault.relabel id = fault := by
  cases fault with
  | arityMismatch callee wanted given line => cases callee <;> rfl
  | _ => rfl

/-! ## Values and scopes -/

def Closure.relabel (f : Nat → Nat) (c : Closure) : Closure :=
  ⟨c.params, c.body.relabel f, f c.line, c.scope⟩

/-- The value with `f l` in place of every line `l`. -/
def Value.relabel (f : Nat → Nat) : Value → Value
  | .closure c => .closure (c.relabel f)
  | v => v

/-- What an evaluation gives, with other lines in the value or the fault. -/
def relabelResult (f : Nat → Nat) : Except Fault Value → Except Fault Value
  | .ok v => .ok (v.relabel f)
  | .error fault => .error (fault.relabel f)

@[simp] theorem Value.text_relabel (f : Nat → Nat) (v : Value) : (v.relabel f).text = v.text := by
  cases v <;> rfl

@[simp] theorem Value.shape_relabel (f : Nat → Nat) (v : Value) :
    (v.relabel f).shape = v.shape := by
  cases v <;> rfl

def Binding.relabel (f : Nat → Nat) (b : Binding) : Binding := ⟨b.value.relabel f, b.constant⟩

def Scope.relabel (f : Nat → Nat) (scope : Scope) : Scope :=
  ⟨scope.parent, scope.bindings.map fun entry => (entry.1, entry.2.relabel f)⟩

def Store.relabel (f : Nat → Nat) (st : Store) : Store := ⟨st.scopes.map (Scope.relabel f)⟩

/-- The state with `f l` in place of every line `l`. -/
def State.relabel (f : Nat → Nat) (state : State) : State :=
  ⟨⟨state.store.relabel f, state.output⟩, state.calls⟩

/-! ## The machine -/

namespace Machine

def Frame.relabel (f : Nat → Nat) : Frame → Frame
  | .declare name constant line s => .declare name constant (f line) s
  | .assign name line s => .assign name (f line) s
  | .andThen next s => .andThen (next.relabel f) s
  | .guard body rest s => .guard (body.relabel f) (rest.relabel f) s
  | .loopGuard condition body line s =>
      .loopGuard (condition.relabel f) (body.relabel f) (f line) s
  | .callee arguments line s => .callee (arguments.map (Expr.relabel f)) (f line) s
  | .argument called before rest line s =>
      .argument (called.relabel f) (before.map (Value.relabel f)) (rest.map (Expr.relabel f))
        (f line) s
  | .left op e line s => .left op (e.relabel f) (f line) s
  | .right op v line => .right op (v.relabel f) (f line)
  | .operand op line => .operand op (f line)
  | .leave => .leave

def Control.relabel (f : Nat → Nat) : Control → Control
  | .eval e s => .eval (e.relabel f) s
  | .give v => .give (v.relabel f)
  | .fail fault => .fail (fault.relabel f)

def Config.relabel (f : Nat → Nat) (c : Config) : Config :=
  ⟨c.control.relabel f, c.frames.map (Frame.relabel f), c.state.relabel f⟩

/-- The outcome with `f l` in place of every line `l`. -/
def Outcome.relabel (f : Nat → Nat) (o : Outcome) : Outcome :=
  ⟨relabelResult f o.result, o.state.relabel f⟩

def Step.relabel (f : Nat → Nat) : Step → Step
  | .next c => .next (c.relabel f)
  | .done o => .done (o.relabel f)

end Machine

/-! ## A replacement that is taken back -/

section Cancel

variable {f g : Nat → Nat} (h : ∀ l, g (f l) = l)
include h

theorem Expr.relabel_cancel (e : Expr) : (e.relabel f).relabel g = e := by
  have hid : g ∘ f = id := funext h
  rw [Expr.relabel_relabel, hid, Expr.relabel_id]

theorem Value.relabel_cancel (v : Value) : (v.relabel f).relabel g = v := by
  cases v with
  | closure c => simp only [Value.relabel, Closure.relabel, Expr.relabel_cancel h, h]
  | _ => rfl

theorem Scope.relabel_cancel (scope : Scope) : (scope.relabel f).relabel g = scope := by
  have hbinding : ∀ b : Binding, (b.relabel f).relabel g = b := fun b => by
    simp only [Binding.relabel, Value.relabel_cancel h]
  simp [Scope.relabel, hbinding, Function.comp_def]

theorem State.relabel_cancel (state : State) : (state.relabel f).relabel g = state := by
  have hscope : Scope.relabel g ∘ Scope.relabel f = id := funext (Scope.relabel_cancel h)
  simp [State.relabel, Store.relabel, hscope]

end Cancel

end ExprLang
