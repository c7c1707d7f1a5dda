import ExprLang.Proofs.Expr.Printed
import ExprLang.Proofs.Text.Json

/-!
The JSON form determines an expression, its lines included. The tag of a document tells what the
node is, and then each member of its content stands for one part of the node. No expression has
the document `null`, so a conditional without a last alternative can be told from one whose last
alternative is the literal null.

* `Expr.ctorIdx_eq_of_toJson`: the tag tells the kind of node;
* `Expr.toJson_injective`: different expressions have different documents;
* `document_determines`: and different texts, on one line, over several lines and as a report.
-/

namespace ExprLang

/-! ## Names -/

theorem BinaryOp.ofName?_name (op : BinaryOp) : ofName? op.name = some op := by
  cases op <;> rfl

theorem UnaryOp.ofName?_name (op : UnaryOp) : ofName? op.name = some op := by
  cases op <;> rfl

theorem BinaryOp.name_injective {op op' : BinaryOp} (h : op.name = op'.name) : op = op' :=
  Option.some.inj (by rw [← ofName?_name op, h, ofName?_name op'])

theorem UnaryOp.name_injective {op op' : UnaryOp} (h : op.name = op'.name) : op = op' :=
  Option.some.inj (by rw [← ofName?_name op, h, ofName?_name op'])

theorem Param.toJson_injective {p p' : Param} (h : p.toJson = p'.toJson) : p = p' := by
  obtain ⟨name, constant⟩ := p
  obtain ⟨name', constant'⟩ := p'
  simpa [Param.toJson] using h

/-! ## Tags -/

/-- The tag of a document; a node without content is a tag alone. -/
def Json.tag : Json → String
  | .object [(tag, _)] => tag
  | .string tag => tag
  | _ => ""

/-- The tags of the nodes. -/
def Expr.tags : List String :=
  ["Number", "Bool", "Null", "Variable", "Let", "Assign", "Sequence", "Block", "If", "While",
    "Function", "Call", "Binary", "Unary"]

theorem Expr.idxOf_tag (e : Expr) : Expr.tags.idxOf e.toJson.tag = e.ctorIdx := by
  cases e <;> rw [Expr.toJson] <;> rfl

theorem Expr.ctorIdx_eq_of_toJson {e e' : Expr} (h : e.toJson = e'.toJson) :
    e.ctorIdx = e'.ctorIdx := by
  rw [← e.idxOf_tag, h, e'.idxOf_tag]

/-- The absence of an expression is no expression. -/
theorem Expr.toJson_ne_null (e : Expr) : e.toJson ≠ .null := by
  cases e <;> rw [Expr.toJson] <;> nofun

/-! ## Parts -/

@[simp] theorem Json.tagged_inj {tag : String} {x y : Json} :
    Json.tagged tag x = .tagged tag y ↔ x = y := by
  simp [Json.tagged]

mutual

theorem Expr.toJson_injective {e e' : Expr} (h : e.toJson = e'.toJson) : e = e' := by
  match e, e', Expr.ctorIdx_eq_of_toJson h with
  | .number n, .number n', _ =>
    obtain rfl : n = n' := by simpa [Expr.toJson, Int64.toInt_inj] using h
    rfl
  | .bool b, .bool b', _ =>
    obtain rfl : b = b' := by simpa [Expr.toJson] using h
    rfl
  | .null, .null, _ => rfl
  | .identifier name line, .identifier name' line', _ =>
    obtain ⟨rfl, rfl⟩ : name = name' ∧ line = line' := by
      simpa [Expr.toJson, Int.ofNat_inj] using h
    rfl
  | .declare name constant value line, .declare name' constant' value' line', _ =>
    obtain ⟨rfl, rfl, hvalue, rfl⟩ : name = name' ∧ constant = constant' ∧
        value.toJson = value'.toJson ∧ line = line' := by
      simpa [Expr.toJson, Int.ofNat_inj] using h
    rw [Expr.toJson_injective hvalue]
  | .assign name value line, .assign name' value' line', _ =>
    obtain ⟨rfl, hvalue, rfl⟩ : name = name' ∧ value.toJson = value'.toJson ∧ line = line' := by
      simpa [Expr.toJson, Int.ofNat_inj] using h
    rw [Expr.toJson_injective hvalue]
  | .sequence items, .sequence items', _ =>
    have hitems : Expr.toJsons items = Expr.toJsons items' := by
      simpa [Expr.toJson] using h
    rw [Expr.toJsons_injective hitems]
  | .block body, .block body', _ =>
    have hbody : body.toJson = body'.toJson := by simpa [Expr.toJson] using h
    rw [Expr.toJson_injective hbody]
  | .choice arms, .choice arms', _ =>
    obtain ⟨hbranches, hlast⟩ : arms.branchesToJson = arms'.branchesToJson ∧
        arms.lastToJson = arms'.lastToJson := by
      simpa [Expr.toJson] using h
    rw [Arms.toJson_injective hbranches hlast]
  | .loop condition body line, .loop condition' body' line', _ =>
    obtain ⟨hcondition, hbody, rfl⟩ : condition.toJson = condition'.toJson ∧
        body.toJson = body'.toJson ∧ line = line' := by
      simpa [Expr.toJson, Int.ofNat_inj] using h
    rw [Expr.toJson_injective hcondition, Expr.toJson_injective hbody]
  | .function params body line, .function params' body' line', _ =>
    obtain ⟨hparams, hbody, rfl⟩ : params.map Param.toJson = params'.map Param.toJson ∧
        body.toJson = body'.toJson ∧ line = line' := by
      simpa [Expr.toJson, Int.ofNat_inj] using h
    rw [(List.map_inj_right fun _ _ => Param.toJson_injective).mp hparams,
      Expr.toJson_injective hbody]
  | .call callee arguments line, .call callee' arguments' line', _ =>
    obtain ⟨hcallee, harguments, rfl⟩ : callee.toJson = callee'.toJson ∧
        Expr.toJsons arguments = Expr.toJsons arguments' ∧ line = line' := by
      simpa [Expr.toJson, Int.ofNat_inj] using h
    rw [Expr.toJson_injective hcallee, Expr.toJsons_injective harguments]
  | .binary op left right line, .binary op' left' right' line', _ =>
    obtain ⟨hleft, hop, hright, rfl⟩ : left.toJson = left'.toJson ∧ op.name = op'.name ∧
        right.toJson = right'.toJson ∧ line = line' := by
      simpa [Expr.toJson, Int.ofNat_inj] using h
    rw [BinaryOp.name_injective hop, Expr.toJson_injective hleft, Expr.toJson_injective hright]
  | .unary op operand line, .unary op' operand' line', _ =>
    obtain ⟨hop, hoperand, rfl⟩ : op.name = op'.name ∧ operand.toJson = operand'.toJson ∧
        line = line' := by
      simpa [Expr.toJson, Int.ofNat_inj] using h
    rw [UnaryOp.name_injective hop, Expr.toJson_injective hoperand]

theorem Expr.toJsons_injective {es es' : List Expr} (h : Expr.toJsons es = Expr.toJsons es') :
    es = es' := by
  match es, es' with
  | [], [] => rfl
  | [], _ :: _ | _ :: _, [] => cases h
  | e :: es, e' :: es' =>
    obtain ⟨hhead, htail⟩ := List.cons.inj h
    rw [Expr.toJson_injective hhead, Expr.toJsons_injective htail]

theorem Arms.toJson_injective {arms arms' : Arms}
    (hbranches : arms.branchesToJson = arms'.branchesToJson)
    (hlast : arms.lastToJson = arms'.lastToJson) : arms = arms' := by
  match arms, arms' with
  | .done, .done => rfl
  | .done, .otherwise body => exact absurd hlast.symm body.toJson_ne_null
  | .otherwise body, .done => exact absurd hlast body.toJson_ne_null
  | .otherwise body, .otherwise body' => rw [Expr.toJson_injective hlast]
  | .done, .guarded .. | .otherwise _, .guarded .. | .guarded .., .done
  | .guarded .., .otherwise _ => cases hbranches
  | .guarded condition body rest, .guarded condition' body' rest' =>
    obtain ⟨⟨hcondition, hbody⟩, hrest⟩ : (condition.toJson = condition'.toJson ∧
        body.toJson = body'.toJson) ∧ rest.branchesToJson = rest'.branchesToJson := by
      simpa [Arms.branchesToJson] using hbranches
    rw [Expr.toJson_injective hcondition, Expr.toJson_injective hbody,
      Arms.toJson_injective hrest hlast]

end

/-! ## Texts -/

/-- Expressions of any shape are equal, their lines included, if their documents have the same
text, be it on one line or over several. Two texts that are shown alike as documents are one
expression. -/
theorem document_determines :
    (∀ e e' : Expr, (e.toJson.compact = e'.toJson.compact ↔ e = e') ∧
      (e.toJson.indented = e'.toJson.indented ↔ e = e')) ∧
    (∀ source source' : String, (Command.parse source true).status = 0 →
      Command.parse source true = Command.parse source' true →
      ∃ e, Expr.ofSource source = .ok e ∧ Expr.ofSource source' = .ok e) := by
  refine ⟨fun e e' => ⟨⟨fun h => ?_, fun h => by rw [h]⟩, ⟨fun h => ?_, fun h => by rw [h]⟩⟩,
    fun source source' hstatus hsame => ?_⟩
  · exact Expr.toJson_injective (Json.compact_injective h)
  · exact Expr.toJson_injective (Json.indented_injective h)
  · obtain ⟨e, e', hread, hread', hindented⟩ := Command.exists_shown hstatus hsame
    obtain rfl := Expr.toJson_injective (Json.indented_injective hindented)
    exact ⟨e, hread, hread'⟩

/-- A last alternative that is the literal null and one that is absent; and a name with quotes and
a line break in it. One program in two layouts of its only line. -/
theorem document_determines_absent :
    (Expr.toJson (.choice (.guarded (.bool true) .null (.otherwise .null)))).compact ≠
      (Expr.toJson (.choice (.guarded (.bool true) .null .done))).compact ∧
    (Expr.toJson (.identifier "\"\n\"" 1)).indented ≠
      (Expr.toJson (.identifier "\"\n\"" 2)).indented ∧
    ((Command.parse "- x" true).status = 0 ∧
      Command.parse "- x" true = Command.parse "-(x)" true) ∧
    ∃ e, Expr.ofSource "- x" = .ok e ∧ Expr.ofSource "-(x)" = .ok e := by
  have hstatus : (Command.parse "- x" true).status = 0 := by cbv
  have hsame : Command.parse "- x" true = Command.parse "-(x)" true := by cbv
  refine ⟨fun h => ?_, fun h => ?_, ⟨hstatus, hsame⟩, document_determines.2 _ _ hstatus hsame⟩
  · cases (document_determines.1 _ _).1.mp h
  · cases (document_determines.1 _ _).2.mp h

end ExprLang
