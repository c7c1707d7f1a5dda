import ExprLang.Expr
import ExprLang.Proofs.Token.Spelling

/-!
Properties of all nodes of an expression, whether it was read or built by hand. `Throughout P`
asks for `P` at the top and everywhere below; what an expression needs in order to have a source
text is such a property (`WellNamed`).
-/

namespace ExprLang

mutual

/-- Every node of an expression has a property, the expression itself included. -/
def Expr.Throughout (P : Expr → Prop) : Expr → Prop
  | .number n => P (.number n)
  | .bool b => P (.bool b)
  | .null => P .null
  | .identifier name line => P (.identifier name line)
  | .declare name constant value line =>
      P (.declare name constant value line) ∧ value.Throughout P
  | .assign name value line => P (.assign name value line) ∧ value.Throughout P
  | .sequence items => P (.sequence items) ∧ Expr.AllThroughout P items
  | .block body => P (.block body) ∧ body.Throughout P
  | .choice arms => P (.choice arms) ∧ arms.Throughout P
  | .loop condition body line =>
      P (.loop condition body line) ∧ condition.Throughout P ∧ body.Throughout P
  | .function params body line => P (.function params body line) ∧ body.Throughout P
  | .call callee arguments line =>
      P (.call callee arguments line) ∧ callee.Throughout P ∧ Expr.AllThroughout P arguments
  | .binary op left right line =>
      P (.binary op left right line) ∧ left.Throughout P ∧ right.Throughout P
  | .unary op operand line => P (.unary op operand line) ∧ operand.Throughout P

def Expr.AllThroughout (P : Expr → Prop) : List Expr → Prop
  | [] => True
  | e :: es => e.Throughout P ∧ Expr.AllThroughout P es

def Arms.Throughout (P : Expr → Prop) : Arms → Prop
  | .done => True
  | .otherwise body => body.Throughout P
  | .guarded condition body rest =>
      condition.Throughout P ∧ body.Throughout P ∧ rest.Throughout P

end

/-- The names that a node itself has. -/
def Expr.ownNames : Expr → List String
  | .identifier name _ | .declare name _ _ _ | .assign name _ _ => [name]
  | .function params _ _ => params.map Param.name
  | _ => []

/-- The line that a node itself has, for those that have one. -/
def Expr.ownLines : Expr → List Nat
  | .identifier _ line | .declare _ _ _ line | .assign _ _ line | .loop _ _ line
  | .function _ _ line | .call _ _ line | .binary _ _ _ line | .unary _ _ line => [line]
  | _ => []

/-- A letter or an underscore, then letters, digits and underscores, and no keyword. -/
def IsName (name : String) : Prop := Token.Spells .identifier name.toList

/-- Every name of an expression can stand in a program. -/
def Expr.WellNamed (e : Expr) : Prop :=
  e.Throughout fun node => ∀ name ∈ node.ownNames, IsName name

/-! ## Nodes -/

section

variable {P R : Expr → Prop}

mutual

theorem Expr.Throughout.mono {e : Expr} (h : e.Throughout P) (hPR : ∀ node, P node → R node) :
    e.Throughout R := by
  match e, h with
  | .number _, h | .bool _, h | .null, h | .identifier .., h => exact hPR _ h
  | .declare .., ⟨h, hvalue⟩ | .assign .., ⟨h, hvalue⟩ => exact ⟨hPR _ h, hvalue.mono hPR⟩
  | .sequence _, ⟨h, hitems⟩ => exact ⟨hPR _ h, Expr.AllThroughout.mono hitems hPR⟩
  | .block _, ⟨h, hbody⟩ | .function .., ⟨h, hbody⟩ => exact ⟨hPR _ h, hbody.mono hPR⟩
  | .choice _, ⟨h, harms⟩ => exact ⟨hPR _ h, harms.mono hPR⟩
  | .loop .., ⟨h, hcondition, hbody⟩ => exact ⟨hPR _ h, hcondition.mono hPR, hbody.mono hPR⟩
  | .call .., ⟨h, hcallee, harguments⟩ =>
    exact ⟨hPR _ h, hcallee.mono hPR, Expr.AllThroughout.mono harguments hPR⟩
  | .binary .., ⟨h, hleft, hright⟩ => exact ⟨hPR _ h, hleft.mono hPR, hright.mono hPR⟩
  | .unary .., ⟨h, hoperand⟩ => exact ⟨hPR _ h, hoperand.mono hPR⟩

theorem Expr.AllThroughout.mono {es : List Expr} (h : Expr.AllThroughout P es)
    (hPR : ∀ node, P node → R node) : Expr.AllThroughout R es := by
  match es, h with
  | [], _ => trivial
  | _ :: _, ⟨h, hmore⟩ => exact ⟨h.mono hPR, Expr.AllThroughout.mono hmore hPR⟩

theorem Arms.Throughout.mono {arms : Arms} (h : arms.Throughout P)
    (hPR : ∀ node, P node → R node) : arms.Throughout R := by
  match arms, h with
  | .done, _ => trivial
  | .otherwise _, h => exact Expr.Throughout.mono h hPR
  | .guarded .., ⟨hcondition, hbody, hrest⟩ =>
    exact ⟨hcondition.mono hPR, hbody.mono hPR, hrest.mono hPR⟩

end

end

/-! ## Names -/

theorem IsName.exists_cons {name : String} (h : IsName name) :
    ∃ c cs, name.toList = c :: cs ∧ Token.isNameStart c = true ∧
      ∀ d ∈ cs, Token.isNamePart d = true := by
  unfold IsName at h
  generalize name.toList = text at h
  cases h with
  | fixed hfixed => cases hfixed
  | identifier hc hcs hword => exact ⟨_, _, rfl, hc, hcs⟩

theorem IsName.not_fixed {name : String} (h : IsName name) (kind : TokenKind) :
    kind.fixedSpelling? ≠ some name := by
  unfold IsName at h
  rw [← String.ofList_toList (s := name)]
  generalize name.toList = text at h
  cases h with
  | fixed hfixed => cases hfixed
  | identifier hc hcs hword => exact hword kind

end ExprLang
