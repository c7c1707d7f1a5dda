import ExprLang.Command
import ExprLang.Proofs.Expr.Nodes
import ExprLang.Proofs.Grammar.Shape
import ExprLang.Proofs.Lines.Layout
import ExprLang.Proofs.Text.Decimal
import ExprLang.Proofs.Text.Sexp

/-!
The printed form determines an expression, but for its lines. It is read back in two steps. The
text is a list of lists and words (`Sexp.text_injective`), if no name contains a space or a
parenthesis. In such a list the first word tells what the node is, the number of items tells the
two kinds of minus sign apart, and a leaf is a number, a keyword or a name by its first character
(`Expr.ofSexp?_toSexp`).

* `Expr.plain_toSexp`: the words of a printed form can be told apart;
* `Expr.ofSexp?_toSexp`: the lists of a printed form are read back;
* `printed_determines`: both together.
-/

namespace ExprLang

/-! ## Reading -/

/-- The infix operator that is written like this. -/
def BinaryOp.ofSymbol? (s : String) : Option BinaryOp := all.find? fun op => op.symbol == s

/-- The prefix operator that is written like this. -/
def UnaryOp.ofSymbol? (s : String) : Option UnaryOp :=
  [UnaryOp.negate, .not].find? fun op => op.symbol == s

/-- A leaf from its word. -/
def Expr.ofWord (s : String) : Expr :=
  match Decimal.signed? s with
  | some n => .number n
  | none =>
    if s = "true" then .bool true
    else if s = "false" then .bool false
    else if s = "null" then .null
    else .identifier s 1

/-- Parameters from words. -/
def Param.ofWords? : List Sexp → Option (List Param)
  | [] => some []
  | .word "const" :: .word name :: rest => (Param.ofWords? rest).map (⟨name, true⟩ :: ·)
  | .word name :: rest => (Param.ofWords? rest).map (⟨name, false⟩ :: ·)
  | .list _ :: _ => none

/-- A node from its first word and the expressions behind it. -/
def Expr.ofParts? (head : String) (parts : List Expr) : Option Expr :=
  match head, parts with
  | "let", [.identifier name _, value] => some (.declare name false value 1)
  | "const", [.identifier name _, value] => some (.declare name true value 1)
  | "=", [.identifier name _, value] => some (.assign name value 1)
  | "seq", items => some (.sequence items)
  | "block", [body] => some (.block body)
  | "while", [condition, body] => some (.loop condition body 1)
  | "call", callee :: arguments => some (.call callee arguments 1)
  | symbol, [left, right] => (BinaryOp.ofSymbol? symbol).map fun op => .binary op left right 1
  | symbol, [operand] => (UnaryOp.ofSymbol? symbol).map fun op => .unary op operand 1
  | _, _ => none

mutual

/-- The expression, on one line, that has a given printed form. -/
def Expr.ofSexp? : Sexp → Option Expr
  | .word s => some (Expr.ofWord s)
  | .list [.word "func", .list params, body] =>
    match Param.ofWords? params, Expr.ofSexp? body with
    | some params, some body => some (.function params body 1)
    | _, _ => none
  | .list (.word "if" :: arms) => (Arms.ofSexps? arms).map .choice
  | .list (.word head :: parts) => (Expr.ofSexps? parts).bind (Expr.ofParts? head)
  | .list _ => none

def Expr.ofSexps? : List Sexp → Option (List Expr)
  | [] => some []
  | x :: xs =>
    match Expr.ofSexp? x, Expr.ofSexps? xs with
    | some e, some es => some (e :: es)
    | _, _ => none

def Arms.ofSexps? : List Sexp → Option Arms
  | [] => some .done
  | .list [.word "else", body] :: _ => (Expr.ofSexp? body).map .otherwise
  | .list [condition, body] :: rest =>
    match Expr.ofSexp? condition, Expr.ofSexp? body, Arms.ofSexps? rest with
    | some condition, some body, some rest => some (.guarded condition body rest)
    | _, _, _ => none
  | _ => none

end

/-! ## The words of a printed form -/

theorem IsName.isWord {name : String} (h : IsName name) : Sexp.IsWord name := by
  obtain ⟨c, cs, hlist, hc, hcs⟩ := h.exists_cons
  have hpart : ∀ d ∈ name.toList, Token.isNamePart d = true := by
    rw [hlist]
    exact List.forall_mem_cons.mpr ⟨by simp [Token.isNamePart, hc], hcs⟩
  refine ⟨by simp [hlist], fun d hd => ?_⟩
  cases hdelimiter : Sexp.isDelimiter d with
  | false => rfl
  | true =>
    simp only [Sexp.isDelimiter, Bool.or_eq_true, beq_iff_eq] at hdelimiter
    rcases hdelimiter with (rfl | rfl) | rfl <;> exact absurd (hpart _ hd) (by decide)

theorem isWord_ofInt (n : Int) : Sexp.IsWord (Decimal.ofInt n) := by
  have hdigits : ∀ m : Nat, ∀ c ∈ (Decimal.ofNat m).toList, Sexp.isDelimiter c = false := by
    intro m c hc
    cases hdelimiter : Sexp.isDelimiter c with
    | false => rfl
    | true =>
      simp only [Sexp.isDelimiter, Bool.or_eq_true, beq_iff_eq] at hdelimiter
      rcases hdelimiter with (rfl | rfl) | rfl <;>
        exact absurd (Decimal.isDigit_of_mem_ofNat hc) (by decide)
  unfold Decimal.ofInt
  split
  · refine ⟨by simp, fun c hc => ?_⟩
    rw [String.toList_append] at hc
    rcases List.mem_append.mp hc with hc | hc
    · obtain rfl : c = '-' := by simpa using hc
      rfl
    · exact hdigits _ c hc
  · exact ⟨(Decimal.spells_ofNat _).ne_nil, hdigits _⟩

theorem isWord_binary (op : BinaryOp) : Sexp.IsWord op.symbol := by
  cases op <;> exact Sexp.isWord_of_check rfl

theorem isWord_unary (op : UnaryOp) : Sexp.IsWord op.symbol := by
  cases op <;> exact Sexp.isWord_of_check rfl

theorem plain_words {params : List Param} (h : ∀ name ∈ params.map Param.name, IsName name) :
    Sexp.AllPlain (params.flatMap Param.words) := by
  refine Sexp.allPlain_iff.mpr fun x hx => ?_
  obtain ⟨p, hp, hx⟩ := List.mem_flatMap.mp hx
  have hname := (h p.name (List.mem_map_of_mem hp)).isWord
  unfold Param.words at hx
  split at hx
  · rcases List.mem_cons.mp hx with rfl | hx
    · exact Sexp.isWord_of_check rfl
    · cases List.mem_singleton.mp hx
      exact hname
  · cases List.mem_singleton.mp hx
    exact hname

mutual

theorem Expr.plain_toSexp {e : Expr} (h : e.WellNamed) : e.toSexp.Plain := by
  match e, h with
  | .number n, _ => exact isWord_ofInt _
  | .bool true, _ | .bool false, _ | .null, _ => exact Sexp.isWord_of_check rfl
  | .identifier name _, h => exact IsName.isWord (h name List.mem_cons_self)
  | .declare name true value _, ⟨hname, hvalue⟩ | .declare name false value _, ⟨hname, hvalue⟩ =>
    exact ⟨Sexp.isWord_of_check rfl, (hname name List.mem_cons_self).isWord, value.plain_toSexp hvalue,
      trivial⟩
  | .assign name value _, ⟨hname, hvalue⟩ =>
    exact ⟨Sexp.isWord_of_check rfl, (hname name List.mem_cons_self).isWord, value.plain_toSexp hvalue,
      trivial⟩
  | .sequence items, ⟨_, hitems⟩ => exact ⟨Sexp.isWord_of_check rfl, Expr.plain_toSexps hitems⟩
  | .block body, ⟨_, hbody⟩ => exact ⟨Sexp.isWord_of_check rfl, body.plain_toSexp hbody, trivial⟩
  | .choice arms, ⟨_, harms⟩ => exact ⟨Sexp.isWord_of_check rfl, arms.plain_toSexps harms⟩
  | .loop condition body _, ⟨_, hcondition, hbody⟩ =>
    exact ⟨Sexp.isWord_of_check rfl, condition.plain_toSexp hcondition, body.plain_toSexp hbody, trivial⟩
  | .function params body _, ⟨hparams, hbody⟩ =>
    exact ⟨Sexp.isWord_of_check rfl, plain_words hparams, body.plain_toSexp hbody, trivial⟩
  | .call callee arguments _, ⟨_, hcallee, harguments⟩ =>
    exact ⟨Sexp.isWord_of_check rfl, callee.plain_toSexp hcallee, Expr.plain_toSexps harguments⟩
  | .binary op left right _, ⟨_, hleft, hright⟩ =>
    exact ⟨isWord_binary op, left.plain_toSexp hleft, right.plain_toSexp hright, trivial⟩
  | .unary op operand _, ⟨_, hoperand⟩ =>
    exact ⟨isWord_unary op, operand.plain_toSexp hoperand, trivial⟩

theorem Expr.plain_toSexps {es : List Expr}
    (h : Expr.AllThroughout (fun node => ∀ name ∈ node.ownNames, IsName name) es) :
    Sexp.AllPlain (Expr.toSexps es) := by
  match es, h with
  | [], _ => exact trivial
  | e :: es, ⟨he, hes⟩ => exact ⟨e.plain_toSexp he, Expr.plain_toSexps hes⟩

theorem Arms.plain_toSexps {arms : Arms}
    (h : arms.Throughout fun node => ∀ name ∈ node.ownNames, IsName name) :
    Sexp.AllPlain arms.toSexps := by
  match arms, h with
  | .done, _ => exact trivial
  | .otherwise body, h =>
    exact ⟨⟨Sexp.isWord_of_check rfl, body.plain_toSexp h, trivial⟩, trivial⟩
  | .guarded condition body rest, ⟨hcondition, hbody, hrest⟩ =>
    exact ⟨⟨condition.plain_toSexp hcondition, body.plain_toSexp hbody, trivial⟩,
      rest.plain_toSexps hrest⟩

end

/-! ## Reading back -/

/-- No name is read as a number. -/
theorem IsName.not_signed {name : String} (h : IsName name) : Decimal.signed? name = none := by
  obtain ⟨c, cs, hlist, hc, -⟩ := h.exists_cons
  have hdigit : Decimal.digit? c = none := by
    have := Token.not_isDigit_of_isNameStart hc
    unfold Decimal.digit?
    exact if_neg (by simpa [Token.isDigit] using this)
  unfold Decimal.signed?
  rw [hlist]
  dsimp only
  split
  · next heq =>
    cases heq
    cases hc
  · next heq =>
    cases heq
    cases hc
  · simp [Decimal.digits?, Decimal.extend?, hdigit]

theorem IsName.ofSexp? {name : String} (h : IsName name) :
    Expr.ofSexp? (.word name) = some (.identifier name 1) := by
  have htrue : name ≠ "true" := fun he => h.not_fixed .trueWord (by rw [he]; rfl)
  have hfalse : name ≠ "false" := fun he => h.not_fixed .falseWord (by rw [he]; rfl)
  have hnull : name ≠ "null" := fun he => h.not_fixed .nullWord (by rw [he]; rfl)
  rw [Expr.ofSexp?, Expr.ofWord, h.not_signed]
  dsimp only
  rw [if_neg htrue, if_neg hfalse, if_neg hnull]

theorem Param.ofWords?_words {params : List Param}
    (h : ∀ name ∈ params.map Param.name, IsName name) :
    Param.ofWords? (params.flatMap Param.words) = some params := by
  induction params with
  | nil => rfl
  | cons p params ih =>
    obtain ⟨hp, hparams⟩ := List.forall_mem_cons.mp h
    obtain ⟨name, constant⟩ := p
    cases constant with
    | true =>
      have hread : Param.ofWords? (Param.words ⟨name, true⟩ ++ params.flatMap Param.words) =
        (Param.ofWords? (params.flatMap Param.words)).map (⟨name, true⟩ :: ·) := rfl
      rw [List.flatMap_cons, hread, ih hparams]
      rfl
    | false =>
      have hne : name ≠ "const" := fun he => hp.not_fixed .constWord (by rw [he]; rfl)
      have hread : Param.ofWords? (Param.words ⟨name, false⟩ ++ params.flatMap Param.words) =
          (Param.ofWords? (params.flatMap Param.words)).map (⟨name, false⟩ :: ·) := by
        show Param.ofWords? (.word name :: params.flatMap Param.words) = _
        rw [Param.ofWords?.eq_3]
        exact fun _ _ _ => hne
      rw [List.flatMap_cons, hread, ih hparams]
      rfl

/-- The word in front of the last body stands for no condition. -/
theorem Expr.toSexp_ne_else {e : Expr} (h : e.WellNamed) : e.toSexp ≠ .word "else" := by
  intro he
  cases e with
  | number n =>
    have hread := Decimal.signed?_ofInt n
    rw [Sexp.word.inj he] at hread
    cases hread
  | bool b => cases b <;> exact absurd (Sexp.word.inj he) (by decide)
  | null => exact absurd (Sexp.word.inj he) (by decide)
  | identifier name line =>
    exact (h name List.mem_cons_self).not_fixed .elseWord (by rw [Sexp.word.inj he]; rfl)
  | _ => cases he

theorem Expr.ofParts?_binary (op : BinaryOp) (left right : Expr) :
    Expr.ofParts? op.symbol [left, right] = some (.binary op left right 1) := by
  cases op <;> rfl

theorem Expr.ofParts?_unary (op : UnaryOp) (operand : Expr) :
    Expr.ofParts? op.symbol [operand] = some (.unary op operand 1) := by
  cases op <;> rfl

theorem Expr.ofSexps?_cons {x : Sexp} {xs : List Sexp} {e : Expr} {es : List Expr}
    (hx : Expr.ofSexp? x = some e) (hxs : Expr.ofSexps? xs = some es) :
    Expr.ofSexps? (x :: xs) = some (e :: es) := by
  rw [Expr.ofSexps?, hx, hxs]

theorem Expr.ofSexps?_single {x : Sexp} {e : Expr} (hx : Expr.ofSexp? x = some e) :
    Expr.ofSexps? [x] = some [e] :=
  Expr.ofSexps?_cons hx rfl

theorem Expr.ofSexps?_pair {x y : Sexp} {e e' : Expr}
    (hx : Expr.ofSexp? x = some e) (hy : Expr.ofSexp? y = some e') :
    Expr.ofSexps? [x, y] = some [e, e'] :=
  Expr.ofSexps?_cons hx (Expr.ofSexps?_single hy)

/-- All lists but functions and choices are read part by part. -/
theorem Expr.ofSexp?_list (head : String) {parts : List Sexp} {es : List Expr}
    (hparts : Expr.ofSexps? parts = some es) (hfunc : head ≠ "func" := by decide)
    (hif : head ≠ "if" := by decide) :
    Expr.ofSexp? (.list (.word head :: parts)) = Expr.ofParts? head es := by
  rw [Expr.ofSexp?.eq_4, hparts]
  · rfl
  · exact fun _ _ _ => hfunc
  · exact hif

mutual

theorem Expr.ofSexp?_toSexp {e : Expr} (h : e.WellNamed) :
    Expr.ofSexp? e.toSexp = some (e.relabel oneLine) := by
  match e, h with
  | .number n, _ =>
    rw [Expr.toSexp, Expr.ofSexp?, Expr.ofWord, Decimal.signed?_ofInt]
    rfl
  | .bool true, _ | .bool false, _ | .null, _ => rfl
  | .identifier name _, h => exact (h name List.mem_cons_self).ofSexp?
  | .declare name true value _, ⟨hname, hvalue⟩ =>
    have hleaf := (hname name List.mem_cons_self).ofSexp?
    exact Expr.ofSexp?_list "const" (Expr.ofSexps?_pair hleaf (Expr.ofSexp?_toSexp hvalue))
  | .declare name false value _, ⟨hname, hvalue⟩ =>
    have hleaf := (hname name List.mem_cons_self).ofSexp?
    exact Expr.ofSexp?_list "let" (Expr.ofSexps?_pair hleaf (Expr.ofSexp?_toSexp hvalue))
  | .assign name value _, ⟨hname, hvalue⟩ =>
    have hleaf := (hname name List.mem_cons_self).ofSexp?
    exact Expr.ofSexp?_list "=" (Expr.ofSexps?_pair hleaf (Expr.ofSexp?_toSexp hvalue))
  | .sequence items, ⟨_, hitems⟩ =>
    exact Expr.ofSexp?_list "seq" (Expr.ofSexps?_toSexps hitems)
  | .block body, ⟨_, hbody⟩ =>
    exact Expr.ofSexp?_list "block" (Expr.ofSexps?_single (Expr.ofSexp?_toSexp hbody))
  | .choice arms, ⟨_, harms⟩ =>
    rw [Expr.toSexp, Expr.ofSexp?, Arms.ofSexps?_toSexps harms]
    rfl
  | .loop condition body _, ⟨_, hcondition, hbody⟩ =>
    exact Expr.ofSexp?_list "while"
      (Expr.ofSexps?_pair (Expr.ofSexp?_toSexp hcondition) (Expr.ofSexp?_toSexp hbody))
  | .function params body _, ⟨hparams, hbody⟩ =>
    rw [Expr.toSexp, Expr.ofSexp?, Param.ofWords?_words hparams, Expr.ofSexp?_toSexp hbody]
    rfl
  | .call callee arguments _, ⟨_, hcallee, harguments⟩ =>
    exact Expr.ofSexp?_list "call"
      (Expr.ofSexps?_cons (Expr.ofSexp?_toSexp hcallee) (Expr.ofSexps?_toSexps harguments))
  | .binary op left right _, ⟨_, hleft, hright⟩ =>
    have hparts := Expr.ofSexps?_pair (Expr.ofSexp?_toSexp hleft) (Expr.ofSexp?_toSexp hright)
    exact (Expr.ofSexp?_list op.symbol hparts (by cases op <;> decide) (by cases op <;> decide)).trans
      (Expr.ofParts?_binary op _ _)
  | .unary op operand _, ⟨_, hoperand⟩ =>
    have hparts := Expr.ofSexps?_single (Expr.ofSexp?_toSexp hoperand)
    exact (Expr.ofSexp?_list op.symbol hparts (by cases op <;> decide) (by cases op <;> decide)).trans
      (Expr.ofParts?_unary op _)

theorem Expr.ofSexps?_toSexps {es : List Expr}
    (h : Expr.AllThroughout (fun node => ∀ name ∈ node.ownNames, IsName name) es) :
    Expr.ofSexps? (Expr.toSexps es) = some (Expr.relabelAll oneLine es) := by
  match es, h with
  | [], _ => rfl
  | e :: es, ⟨he, hes⟩ =>
    rw [Expr.toSexps, Expr.ofSexps?, Expr.ofSexp?_toSexp he, Expr.ofSexps?_toSexps hes]
    rfl

theorem Arms.ofSexps?_toSexps {arms : Arms}
    (h : arms.Throughout fun node => ∀ name ∈ node.ownNames, IsName name) :
    Arms.ofSexps? arms.toSexps = some (arms.relabel oneLine) := by
  match arms, h with
  | .done, _ => rfl
  | .otherwise body, h =>
    rw [Arms.toSexps, Arms.ofSexps?, Expr.ofSexp?_toSexp h]
    rfl
  | .guarded condition body rest, ⟨hcondition, hbody, hrest⟩ =>
    rw [Arms.toSexps, Arms.ofSexps?, Expr.ofSexp?_toSexp hcondition, Expr.ofSexp?_toSexp hbody,
      Arms.ofSexps?_toSexps hrest]
    · rfl
    · exact fun helse => condition.toSexp_ne_else hcondition helse

end

/-! ## Printed forms -/

mutual

/-- A printed form shows no lines. -/
theorem Expr.toSexp_relabel (f : Nat → Nat) (e : Expr) : (e.relabel f).toSexp = e.toSexp := by
  match e with
  | .number _ | .bool _ | .null | .identifier _ _ => rfl
  | .declare _ _ value _ | .assign _ value _ =>
    simp only [Expr.relabel, Expr.toSexp, value.toSexp_relabel f]
  | .sequence items => simp only [Expr.relabel, Expr.toSexp, Expr.toSexps_relabelAll f items]
  | .block body | .function _ body _ =>
    simp only [Expr.relabel, Expr.toSexp, body.toSexp_relabel f]
  | .choice arms => simp only [Expr.relabel, Expr.toSexp, arms.toSexps_relabel f]
  | .loop condition body _ =>
    simp only [Expr.relabel, Expr.toSexp, condition.toSexp_relabel f, body.toSexp_relabel f]
  | .call callee arguments _ =>
    simp only [Expr.relabel, Expr.toSexp, callee.toSexp_relabel f,
      Expr.toSexps_relabelAll f arguments]
  | .binary _ left right _ =>
    simp only [Expr.relabel, Expr.toSexp, left.toSexp_relabel f, right.toSexp_relabel f]
  | .unary _ operand _ => simp only [Expr.relabel, Expr.toSexp, operand.toSexp_relabel f]

theorem Expr.toSexps_relabelAll (f : Nat → Nat) (es : List Expr) :
    Expr.toSexps (Expr.relabelAll f es) = Expr.toSexps es := by
  match es with
  | [] => rfl
  | e :: es =>
    simp only [Expr.relabelAll, Expr.toSexps, e.toSexp_relabel f, Expr.toSexps_relabelAll f es]

theorem Arms.toSexps_relabel (f : Nat → Nat) (arms : Arms) :
    (arms.relabel f).toSexps = arms.toSexps := by
  match arms with
  | .done => rfl
  | .otherwise body => simp only [Arms.relabel, Arms.toSexps, body.toSexp_relabel f]
  | .guarded condition body rest =>
    simp only [Arms.relabel, Arms.toSexps, condition.toSexp_relabel f, body.toSexp_relabel f,
      rest.toSexps_relabel f]

end

theorem Expr.printed_eq_iff {e e' : Expr} (h : e.WellNamed) (h' : e'.WellNamed) :
    e.printed = e'.printed ↔ e.relabel oneLine = e'.relabel oneLine := by
  constructor
  · intro hprinted
    have hsexp := Sexp.text_injective (Expr.plain_toSexp h) (Expr.plain_toSexp h') hprinted
    have hread := Expr.ofSexp?_toSexp h
    rw [hsexp, Expr.ofSexp?_toSexp h'] at hread
    exact (Option.some.inj hread).symm
  · intro hsame
    rw [printed, ← e.toSexp_relabel oneLine, hsame, e'.toSexp_relabel oneLine, printed]

/-- Two texts without faults that are shown alike are expressions with the same form. -/
theorem Command.exists_shown {source source' : String} {json : Bool}
    (hstatus : (Command.parse source json).status = 0)
    (hsame : Command.parse source json = Command.parse source' json) :
    ∃ e e', Expr.ofSource source = .ok e ∧ Expr.ofSource source' = .ok e' ∧
      (if json then e.toJson.indented else e.printed) =
        if json then e'.toJson.indented else e'.printed := by
  have hshown : ∀ {text : String}, (Command.parse text json).status = 0 →
      ∃ e, Expr.ofSource text = .ok e ∧ Command.parse text json =
        ⟨0, (if json then e.toJson.indented else e.printed) ++ "\n", ""⟩ := by
    intro text h
    unfold Command.parse at h ⊢
    cases hread : Expr.ofSource text with
    | error f =>
      rw [hread] at h
      cases h
    | ok e => exact ⟨e, rfl, rfl⟩
  obtain ⟨e, hread, he⟩ := hshown hstatus
  obtain ⟨e', hread', he'⟩ := hshown (hsame ▸ hstatus)
  refine ⟨e, e', hread, hread', ?_⟩
  rw [he, he'] at hsame
  have houtput := congrArg (fun r => r.output.toList) hsame
  simp only [String.toList_append, List.append_cancel_right_eq] at houtput
  exact String.toList_inj.mp houtput

/-- Two expressions of any shape, whose names are names, have the same printed form exactly if
they differ in nothing but their lines. Two texts that are shown alike are such expressions. -/
theorem printed_determines :
    (∀ e e' : Expr, e.WellNamed → e'.WellNamed →
      (e.printed = e'.printed ↔ e.relabel oneLine = e'.relabel oneLine)) ∧
    (∀ source source' : String, (Command.parse source false).status = 0 →
      Command.parse source false = Command.parse source' false →
      ∃ e e', Expr.ofSource source = .ok e ∧ Expr.ofSource source' = .ok e' ∧
        e.relabel oneLine = e'.relabel oneLine) := by
  refine ⟨fun e e' => Expr.printed_eq_iff, fun source source' hstatus hsame => ?_⟩
  obtain ⟨e, e', hread, hread', hprinted⟩ := Command.exists_shown hstatus hsame
  exact ⟨e, e', hread, hread',
    (Expr.printed_eq_iff (wellNamed_ofSource hread) (wellNamed_ofSource hread')).mp hprinted⟩

/-- A number that no text stands for, behind a name that is also the word for sequences, on
other lines; and one program in two layouts. -/
theorem printed_determines_seq :
    (Expr.WellNamed (.binary .subtract (.identifier "seq" 3) (.number (-1)) 7) ∧
      Expr.printed (.binary .subtract (.identifier "seq" 3) (.number (-1)) 7) = "(- seq -1)") ∧
    (∀ e : Expr, e.WellNamed → e.printed = "(- seq -1)" →
      e.relabel oneLine = .binary .subtract (.identifier "seq" 1) (.number (-1)) 1) ∧
    ((Command.parse "call(-x)" false).status = 0 ∧
      Command.parse "call(-x)" false = Command.parse "(call)\n(-(x),)" false) ∧
    ∃ e e', Expr.ofSource "call(-x)" = .ok e ∧ Expr.ofSource "(call)\n(-(x),)" = .ok e' ∧
      e.relabel oneLine = e'.relabel oneLine := by
  have hname : IsName "seq" := by
    show Token.Spells .identifier ['s', 'e', 'q']
    refine .identifier rfl (List.all_eq_true.mp rfl) fun kind => ?_
    cases kind <;> decide
  have hnamed : Expr.WellNamed (.binary .subtract (.identifier "seq" 3) (.number (-1)) 7) :=
    ⟨List.forall_mem_nil _, List.forall_mem_singleton.mpr hname, List.forall_mem_nil _⟩
  have hprinted : Expr.printed (.binary .subtract (.identifier "seq" 3) (.number (-1)) 7) =
      "(- seq -1)" := by cbv
  have hstatus : (Command.parse "call(-x)" false).status = 0 := by cbv
  have hsame : Command.parse "call(-x)" false = Command.parse "(call)\n(-(x),)" false := by cbv
  refine ⟨⟨hnamed, hprinted⟩, fun e he hshown => ?_, ⟨hstatus, hsame⟩, ?_⟩
  · exact (printed_determines.1 _ _ he hnamed).mp (hshown.trans hprinted.symm)
  · exact printed_determines.2 _ _ hstatus hsame

end ExprLang
