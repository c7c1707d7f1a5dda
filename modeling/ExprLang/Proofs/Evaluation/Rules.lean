import ExprLang.Machine

/-!
The rules of evaluation. `Evaluates limits d s t w r w'` says that with `d` calls in
progress the task `t` leads in the scope `s` from the world `w` to the result `r` and the
world `w'`. The rules know neither steps nor frames. The number of calls in progress is
handed down: the body of a called function has one more, everything else as many as
what it is part of, and no rule takes a call away again.
-/

namespace ExprLang

namespace World

/-- The number that the next scope gets. -/
def fresh (w : World) : ScopeId := w.store.size

/-- The world with a new scope inside another. -/
def inside (w : World) (s : ScopeId) : World := { w with store := w.store.child s }

end World

/-- A value, unless there was a fault. -/
def Value.unless (v : Value) : Option Fault → Except Fault Value
  | none => .ok v
  | some f => .error f

/-- What can be evaluated. -/
inductive Task where
  | expr (e : Expr)
  /-- Arguments from left to right. -/
  | arguments (es : List Expr)
  /-- A call, once callee and arguments have their values. -/
  | call (callee : Value) (args : List Value) (line : Nat)

/-- What a task gives if it does not fail. -/
abbrev Task.Result : Task → Type
  | .expr _ => Value
  | .arguments _ => List Value
  | .call _ _ _ => Value

/-- The rules. A part that gets a scope of its own is evaluated in `w.fresh` from
`w.inside s`; only the items of a sequence and the rest of a conditional or a loop stay
in `s` itself. -/
inductive Evaluates (limits : Limits) :
    Nat → ScopeId → (t : Task) → World → Except Fault t.Result → World → Prop where
  | number {d s w n} : Evaluates limits d s (.expr (.number n)) w (.ok (.number n)) w
  | bool {d s w b} : Evaluates limits d s (.expr (.bool b)) w (.ok (.bool b)) w
  | null {d s w} : Evaluates limits d s (.expr .null) w (.ok .null) w
  | identifier {d s w name line} :
      Evaluates limits d s (.expr (.identifier name line)) w (w.store.get s name line) w
  | function {d s w params body line} :
      Evaluates limits d s (.expr (.function params body line)) w
        (.ok (.closure ⟨params, body, line, s⟩)) w
  | declare {d s w name constant value line v w₁ st fault?}
      (hvalue : Evaluates limits d w.fresh (.expr value) (w.inside s) (.ok v) w₁)
      (hdefine : w₁.store.define s name v constant line = (st, fault?)) :
      Evaluates limits d s (.expr (.declare name constant value line)) w (v.unless fault?)
        { w₁ with store := st }
  | declareFails {d s w name constant value line f w₁}
      (hvalue : Evaluates limits d w.fresh (.expr value) (w.inside s) (.error f) w₁) :
      Evaluates limits d s (.expr (.declare name constant value line)) w (.error f) w₁
  | assign {d s w name value line v w₁ st fault?}
      (hvalue : Evaluates limits d w.fresh (.expr value) (w.inside s) (.ok v) w₁)
      (hassign : w₁.store.assign s name v line = (st, fault?)) :
      Evaluates limits d s (.expr (.assign name value line)) w (v.unless fault?)
        { w₁ with store := st }
  | assignFails {d s w name value line f w₁}
      (hvalue : Evaluates limits d w.fresh (.expr value) (w.inside s) (.error f) w₁) :
      Evaluates limits d s (.expr (.assign name value line)) w (.error f) w₁
  | noItems {d s w} : Evaluates limits d s (.expr (.sequence [])) w (.ok .null) w
  | lastItem {d s w item r w₁} (hitem : Evaluates limits d s (.expr item) w r w₁) :
      Evaluates limits d s (.expr (.sequence [item])) w r w₁
  | item {d s w item next items v w₁ r w₂}
      (hitem : Evaluates limits d s (.expr item) w (.ok v) w₁)
      (hitems : Evaluates limits d s (.expr (.sequence (next :: items))) w₁ r w₂) :
      Evaluates limits d s (.expr (.sequence (item :: next :: items))) w r w₂
  | itemFails {d s w item next items f w₁}
      (hitem : Evaluates limits d s (.expr item) w (.error f) w₁) :
      Evaluates limits d s (.expr (.sequence (item :: next :: items))) w (.error f) w₁
  | block {d s w body r w₁}
      (hbody : Evaluates limits d w.fresh (.expr body) (w.inside s) r w₁) :
      Evaluates limits d s (.expr (.block body)) w r w₁
  | noArms {d s w} : Evaluates limits d s (.expr (.choice .done)) w (.ok (.bool false)) w
  | otherwise {d s w body r w₁}
      (hbody : Evaluates limits d w.fresh (.expr body) (w.inside s) r w₁) :
      Evaluates limits d s (.expr (.choice (.otherwise body))) w r w₁
  | armTaken {d s w condition body rest w₁ r w₂}
      (hguard : Evaluates limits d w.fresh (.expr condition) (w.inside s) (.ok (.bool true)) w₁)
      (hbody : Evaluates limits d w₁.fresh (.expr body) (w₁.inside s) r w₂) :
      Evaluates limits d s (.expr (.choice (.guarded condition body rest))) w r w₂
  /-- A guard need not be a boolean. -/
  | armSkipped {d s w condition body rest v w₁ r w₂}
      (hguard : Evaluates limits d w.fresh (.expr condition) (w.inside s) (.ok v) w₁)
      (hv : v ≠ .bool true) (hrest : Evaluates limits d s (.expr (.choice rest)) w₁ r w₂) :
      Evaluates limits d s (.expr (.choice (.guarded condition body rest))) w r w₂
  | armFails {d s w condition body rest f w₁}
      (hguard : Evaluates limits d w.fresh (.expr condition) (w.inside s) (.error f) w₁) :
      Evaluates limits d s (.expr (.choice (.guarded condition body rest))) w (.error f) w₁
  | turn {d s w condition body line w₁ v w₂ r w₃}
      (hguard : Evaluates limits d w.fresh (.expr condition) (w.inside s) (.ok (.bool true)) w₁)
      (hbody : Evaluates limits d w₁.fresh (.expr body) (w₁.inside s) (.ok v) w₂)
      (hloop : Evaluates limits d s (.expr (.loop condition body line)) w₂ r w₃) :
      Evaluates limits d s (.expr (.loop condition body line)) w r w₃
  | turnFails {d s w condition body line w₁ f w₂}
      (hguard : Evaluates limits d w.fresh (.expr condition) (w.inside s) (.ok (.bool true)) w₁)
      (hbody : Evaluates limits d w₁.fresh (.expr body) (w₁.inside s) (.error f) w₂) :
      Evaluates limits d s (.expr (.loop condition body line)) w (.error f) w₂
  | loopEnds {d s w condition body line w₁}
      (hguard : Evaluates limits d w.fresh (.expr condition) (w.inside s) (.ok (.bool false)) w₁) :
      Evaluates limits d s (.expr (.loop condition body line)) w (.ok (.bool false)) w₁
  | loopMismatch {d s w condition body line v w₁}
      (hguard : Evaluates limits d w.fresh (.expr condition) (w.inside s) (.ok v) w₁)
      (hv : ∀ b, v ≠ .bool b) :
      Evaluates limits d s (.expr (.loop condition body line)) w
        (.error (.typeMismatch .loop (.shape .boolean) v.shape line)) w₁
  | loopFails {d s w condition body line f w₁}
      (hguard : Evaluates limits d w.fresh (.expr condition) (w.inside s) (.error f) w₁) :
      Evaluates limits d s (.expr (.loop condition body line)) w (.error f) w₁
  | call {d s w callee arguments line v w₁ vs w₂ r w₃}
      (hcallee : Evaluates limits d w.fresh (.expr callee) (w.inside s) (.ok v) w₁)
      (harguments : Evaluates limits d s (.arguments arguments) w₁ (.ok vs) w₂)
      (hcall : Evaluates limits d s (.call v vs line) w₂ r w₃) :
      Evaluates limits d s (.expr (.call callee arguments line)) w r w₃
  | argumentsFail {d s w callee arguments line v w₁ f w₂}
      (hcallee : Evaluates limits d w.fresh (.expr callee) (w.inside s) (.ok v) w₁)
      (harguments : Evaluates limits d s (.arguments arguments) w₁ (.error f) w₂) :
      Evaluates limits d s (.expr (.call callee arguments line)) w (.error f) w₂
  | calleeFails {d s w callee arguments line f w₁}
      (hcallee : Evaluates limits d w.fresh (.expr callee) (w.inside s) (.error f) w₁) :
      Evaluates limits d s (.expr (.call callee arguments line)) w (.error f) w₁
  | binary {d s w op left right line a w₁ b w₂}
      (hleft : Evaluates limits d w.fresh (.expr left) (w.inside s) (.ok a) w₁)
      (hright : Evaluates limits d w₁.fresh (.expr right) (w₁.inside s) (.ok b) w₂) :
      Evaluates limits d s (.expr (.binary op left right line)) w (op.apply line a b) w₂
  | rightFails {d s w op left right line a w₁ f w₂}
      (hleft : Evaluates limits d w.fresh (.expr left) (w.inside s) (.ok a) w₁)
      (hright : Evaluates limits d w₁.fresh (.expr right) (w₁.inside s) (.error f) w₂) :
      Evaluates limits d s (.expr (.binary op left right line)) w (.error f) w₂
  | leftFails {d s w op left right line f w₁}
      (hleft : Evaluates limits d w.fresh (.expr left) (w.inside s) (.error f) w₁) :
      Evaluates limits d s (.expr (.binary op left right line)) w (.error f) w₁
  | unary {d s w op operand line v w₁}
      (hoperand : Evaluates limits d w.fresh (.expr operand) (w.inside s) (.ok v) w₁) :
      Evaluates limits d s (.expr (.unary op operand line)) w (op.apply line v) w₁
  | operandFails {d s w op operand line f w₁}
      (hoperand : Evaluates limits d w.fresh (.expr operand) (w.inside s) (.error f) w₁) :
      Evaluates limits d s (.expr (.unary op operand line)) w (.error f) w₁
  | noArguments {d s w} : Evaluates limits d s (.arguments []) w (.ok []) w
  | argument {d s w e es v w₁ r w₂}
      (hfirst : Evaluates limits d w.fresh (.expr e) (w.inside s) (.ok v) w₁)
      (hmore : Evaluates limits d s (.arguments es) w₁ r w₂) :
      Evaluates limits d s (.arguments (e :: es)) w (r.map (v :: ·)) w₂
  | argumentFails {d s w e es f w₁}
      (hfirst : Evaluates limits d w.fresh (.expr e) (w.inside s) (.error f) w₁) :
      Evaluates limits d s (.arguments (e :: es)) w (.error f) w₁
  | notCallable {d s w callee args line} (hfunction : ∀ c, callee ≠ .closure c)
      (hbuiltin : ∀ b, callee ≠ .builtin b) :
      Evaluates limits d s (.call callee args line) w
        (.error (.typeMismatch .call (.shape .function) callee.shape line)) w
  | builtinArity {d s w b args line} (harity : args.length ≠ Builtin.arity b) :
      Evaluates limits d s (.call (.builtin b) args line) w
        (.error (.arityMismatch (.builtin b) b.arity args.length line)) w
  | written {d s w v line} (hwritable : limits.writable = true) :
      Evaluates limits d s (.call (.builtin .outNumber) [v] line) w (.ok .null)
        { w with output := w.output ++ v.text ++ "\n" }
  | outputFull {d s w v line} (hwritable : limits.writable = false) :
      Evaluates limits d s (.call (.builtin .outNumber) [v] line) w (.error .outputFull) w
  | functionArity {d s w c args line} (harity : args.length ≠ (Closure.params c).length) :
      Evaluates limits d s (.call (.closure c) args line) w
        (.error (.arityMismatch (.function c.line) c.params.length args.length line)) w
  | tooDeep {d s w c args line} (harity : args.length = (Closure.params c).length)
      (hdepth : limits.depth ≤ d) :
      Evaluates limits d s (.call (.closure c) args line) w (.error (.tooDeep limits.depth)) w
  | parametersFail {d s w c args line st f} (harity : args.length = (Closure.params c).length)
      (hdepth : d < limits.depth)
      (hbind : Machine.bindParams (w.inside c.scope).store w.fresh line (c.params.zip args) =
        (st, some f)) :
      Evaluates limits d s (.call (.closure c) args line) w (.error f) { w with store := st }
  | body {d s w c args line st r w₁} (harity : args.length = (Closure.params c).length)
      (hdepth : d < limits.depth)
      (hbind : Machine.bindParams (w.inside c.scope).store w.fresh line (c.params.zip args) =
        (st, none))
      (hbody : Evaluates limits (d + 1) w.fresh (.expr c.body) { w with store := st } r w₁) :
      Evaluates limits d s (.call (.closure c) args line) w r w₁

end ExprLang
