import ExprLang.Expr.Parser

/-!
The grammar as a relation: `Derives p ts x need` says that the tokens `ts`, all of them,
are a phrase of the production `p` with the tree `x`. The relation knows neither cursor
nor nesting limit. Its last index is how many levels of nesting a reader of the phrase
has to have free.

* `Derives.not_end`: no phrase contains an end mark;
* `Derives.opens`: which kinds of token a phrase can begin with.
-/

namespace ExprLang.Grammar

/-- An operator with the operand behind it, and the operator's line. -/
structure Link where
  op : BinaryOp
  right : Expr
  line : Nat

/-- Operands behind a first one, joined from the left. -/
def Link.join (first : Expr) (links : List Link) : Expr :=
  links.foldl (fun left link => .binary link.op left link.right link.line) first

/-- The arguments of a call, and the line of the parenthesis in front of them. -/
structure Call where
  arguments : List Expr
  line : Nat

/-- Calls behind a callee, from the left. -/
def Call.join (callee : Expr) (calls : List Call) : Expr :=
  calls.foldl (fun callee call => .call callee call.arguments call.line) callee

/-- The kind of token that a prefix operator is written as. -/
def prefixKind : UnaryOp → TokenKind
  | .negate => .minus
  | .not => .bang

/-- The productions. A chain is known by the loosest operators it may join. -/
inductive Production where
  | sequence
  /-- The items behind the first one, each behind a semicolon. -/
  | items
  | declaration | assignment
  | chain (looseness : Nat)
  /-- The operands behind the first one, each behind an operator of one looseness. -/
  | links (looseness : Nat)
  | operand | application
  /-- The calls behind a callee. -/
  | calls
  | arguments | primary
  /-- What stands behind `if` or `elif`. -/
  | alternatives
  /-- What stands behind the body of a guard. -/
  | furtherArms
  | body

/-- What a phrase of a production is read as. -/
abbrev Production.Tree : Production → Type
  | .items | .arguments => List Expr
  | .links _ => List Link
  | .calls => List Call
  | .alternatives | .furtherArms => Arms
  | .sequence | .declaration | .assignment | .chain _ | .operand | .application
  | .primary | .body => Expr

/-- One parameter. -/
inductive IsParameter : List Token → Param → Prop where
  | plain {name : Token} (hname : name.kind = .identifier) :
      IsParameter [name] ⟨name.lexeme, false⟩
  | constant {word name : Token} (hword : word.kind = .constWord)
      (hname : name.kind = .identifier) : IsParameter [word, name] ⟨name.lexeme, true⟩

/-- Parameters with commas between them; a comma may follow the last one. -/
inductive AreParameters : List Token → List Param → Prop where
  | none : AreParameters [] []
  | last {ts : List Token} {p : Param} (h : IsParameter ts p) : AreParameters ts [p]
  | more {ts us : List Token} {comma : Token} {p : Param} {ps : List Param}
      (h : IsParameter ts p) (hcomma : comma.kind = .comma) (hmore : AreParameters us ps) :
      AreParameters (ts ++ comma :: us) (p :: ps)

/-- The grammar. Parentheses leave no node, and a sequence of one item is that item. -/
inductive Derives : (p : Production) → List Token → p.Tree → Nat → Prop where
  | sequence {ts us : List Token} {first : Expr} {more : List Expr} {m n : Nat}
      (hfirst : Derives .declaration ts first m) (hmore : Derives .items us more n) :
      Derives .sequence (ts ++ us)
        (if more.isEmpty then first else .sequence (first :: more)) (max m n)
  | noItems : Derives .items [] [] 0
  | item {semicolon : Token} {ts us : List Token} {e : Expr} {es : List Expr} {m n : Nat}
      (hsemicolon : semicolon.kind = .semicolon) (hitem : Derives .declaration ts e m)
      (hitems : Derives .items us es n) :
      Derives .items (semicolon :: (ts ++ us)) (e :: es) (max m n)
  | binding {constant : Bool} {word name equal : Token} {ts : List Token} {value : Expr} {n : Nat}
      (hword : word.kind = if constant then .constWord else .letWord)
      (hname : name.kind = .identifier) (hequal : equal.kind = .equal)
      (hvalue : Derives .declaration ts value n) :
      Derives .declaration (word :: name :: equal :: ts)
        (.declare name.lexeme constant value word.line) (n + 1)
  | function {word opening closing arrow : Token} {ts us : List Token} {params : List Param}
      {inside : Expr} {n : Nat} (hword : word.kind = .funcWord)
      (hopening : opening.kind = .leftParen) (hparams : AreParameters ts params)
      (hclosing : closing.kind = .rightParen) (harrow : arrow.kind = .arrow)
      (hinside : Derives .body us inside n) :
      Derives .declaration (word :: opening :: (ts ++ closing :: arrow :: us))
        (.function params inside word.line) (n + 1)
  | loop {word opening closing : Token} {ts us : List Token} {condition inside : Expr}
      {m n : Nat} (hword : word.kind = .whileWord) (hopening : opening.kind = .leftParen)
      (hcondition : Derives .sequence ts condition m) (hclosing : closing.kind = .rightParen)
      (hinside : Derives .body us inside n) :
      Derives .declaration (word :: opening :: (ts ++ closing :: us))
        (.loop condition inside word.line) (max m n + 1)
  | simple {ts : List Token} {e : Expr} {n : Nat} (h : Derives .assignment ts e n) :
      Derives .declaration ts e (n + 1)
  | noAssignment {ts : List Token} {e : Expr} {n : Nat}
      (h : Derives (.chain BinaryOp.loosest) ts e n) : Derives .assignment ts e n
  | assign {equal : Token} {ts us : List Token} {name : String} {line : Nat} {value : Expr}
      {m n : Nat} (htarget : Derives (.chain BinaryOp.loosest) ts (.identifier name line) m)
      (hequal : equal.kind = .equal) (hvalue : Derives .declaration us value n) :
      Derives .assignment (ts ++ equal :: us) (.assign name value equal.line) (max m n)
  | single {ts : List Token} {e : Expr} {n : Nat} (h : Derives .operand ts e n) :
      Derives (.chain 0) ts e n
  | chain {k : Nat} {ts us : List Token} {first : Expr} {links : List Link} {m n : Nat}
      (hfirst : Derives (.chain k) ts first m) (hlinks : Derives (.links (k + 1)) us links n) :
      Derives (.chain (k + 1)) (ts ++ us) (Link.join first links) (max m n)
  | noLinks {k : Nat} : Derives (.links k) [] [] 0
  | link {k : Nat} {sign : Token} {op : BinaryOp} {ts us : List Token} {right : Expr}
      {links : List Link} {m n : Nat} (hsign : BinaryOp.ofKindAt? (k + 1) sign.kind = some op)
      (hright : Derives (.chain k) ts right m) (hlinks : Derives (.links (k + 1)) us links n) :
      Derives (.links (k + 1)) (sign :: (ts ++ us)) (⟨op, right, sign.line⟩ :: links)
        (max m n + 1)
  | operator {op : UnaryOp} {sign : Token} {ts : List Token} {e : Expr} {n : Nat}
      (hsign : sign.kind = prefixKind op) (h : Derives .operand ts e n) :
      Derives .operand (sign :: ts) (.unary op e sign.line) (n + 1)
  /-- The least number, whose digits alone are out of range. Nothing calls an operand,
  so no parenthesis that would call the digits can follow. -/
  | least {sign digits : Token} (hsign : sign.kind = .minus) (hdigits : digits.kind = .number)
      (hvalue : Decimal.natural? digits.lexeme = some Int64.minValue.toInt.natAbs) :
      Derives .operand [sign, digits] (.number Int64.minValue) 0
  | applied {ts : List Token} {e : Expr} {n : Nat} (h : Derives .application ts e n) :
      Derives .operand ts e n
  | application {ts us : List Token} {callee : Expr} {calls : List Call} {m n : Nat}
      (hcallee : Derives .primary ts callee m) (hcalls : Derives .calls us calls n) :
      Derives .application (ts ++ us) (Call.join callee calls) (max m n)
  | noCalls : Derives .calls [] [] 0
  | call {opening closing : Token} {ts us : List Token} {args : List Expr} {calls : List Call}
      {m n : Nat} (hopening : opening.kind = .leftParen) (hargs : Derives .arguments ts args m)
      (hclosing : closing.kind = .rightParen) (hcalls : Derives .calls us calls n) :
      Derives .calls (opening :: (ts ++ closing :: us)) (⟨args, opening.line⟩ :: calls)
        (max m n + 1)
  | noArguments : Derives .arguments [] [] 0
  | lastArgument {ts : List Token} {e : Expr} {n : Nat} (h : Derives .declaration ts e n) :
      Derives .arguments ts [e] n
  | argument {comma : Token} {ts us : List Token} {e : Expr} {es : List Expr} {m n : Nat}
      (h : Derives .declaration ts e m) (hcomma : comma.kind = .comma)
      (hmore : Derives .arguments us es n) :
      Derives .arguments (ts ++ comma :: us) (e :: es) (max m n)
  | number {t : Token} {n : Int64} (ht : t.kind = .number)
      (hn : Decimal.signed? t.lexeme = some n) : Derives .primary [t] (.number n) 0
  | trueWord {t : Token} (ht : t.kind = .trueWord) : Derives .primary [t] (.bool true) 0
  | falseWord {t : Token} (ht : t.kind = .falseWord) : Derives .primary [t] (.bool false) 0
  | nullWord {t : Token} (ht : t.kind = .nullWord) : Derives .primary [t] .null 0
  | name {t : Token} (ht : t.kind = .identifier) :
      Derives .primary [t] (.identifier t.lexeme t.line) 0
  | group {opening closing : Token} {ts : List Token} {e : Expr} {n : Nat}
      (hopening : opening.kind = .leftParen) (h : Derives .sequence ts e n)
      (hclosing : closing.kind = .rightParen) :
      Derives .primary (opening :: (ts ++ [closing])) e n
  | block {opening closing : Token} {ts : List Token} {e : Expr} {n : Nat}
      (hopening : opening.kind = .leftBrace) (h : Derives .sequence ts e n)
      (hclosing : closing.kind = .rightBrace) :
      Derives .primary (opening :: (ts ++ [closing])) (.block e) n
  | choice {word : Token} {ts : List Token} {arms : Arms} {n : Nat}
      (hword : word.kind = .ifWord) (h : Derives .alternatives ts arms n) :
      Derives .primary (word :: ts) (.choice arms) n
  | guarded {opening closing : Token} {ts us vs : List Token} {condition inside : Expr}
      {rest : Arms} {l m n : Nat} (hopening : opening.kind = .leftParen)
      (hcondition : Derives .sequence ts condition l) (hclosing : closing.kind = .rightParen)
      (hinside : Derives .body us inside m) (hrest : Derives .furtherArms vs rest n) :
      Derives .alternatives (opening :: (ts ++ closing :: (us ++ vs)))
        (.guarded condition inside rest) (max l (max m n))
  | noArms : Derives .furtherArms [] .done 0
  | elifArm {word : Token} {ts : List Token} {arms : Arms} {n : Nat}
      (hword : word.kind = .elifWord) (h : Derives .alternatives ts arms n) :
      Derives .furtherArms (word :: ts) arms n
  | elseArm {word : Token} {ts : List Token} {e : Expr} {n : Nat}
      (hword : word.kind = .elseWord) (h : Derives .body ts e n) :
      Derives .furtherArms (word :: ts) (.otherwise e) n
  | body {opening closing : Token} {ts : List Token} {e : Expr} {n : Nat}
      (hopening : opening.kind = .leftBrace) (h : Derives .sequence ts e n)
      (hclosing : closing.kind = .rightBrace) :
      Derives .body (opening :: (ts ++ [closing])) e n

/-! ## Tokens of a phrase -/

theorem ofKindAt?_eq_some {k : Nat} {kind : TokenKind} {op : BinaryOp}
    (h : BinaryOp.ofKindAt? k kind = some op) :
    BinaryOp.ofKind? kind = some op ∧ op.looseness = k := by
  simpa [BinaryOp.ofKindAt?, Option.filter_eq_some_iff] using h

theorem IsParameter.not_end {ts : List Token} {p : Param} (h : IsParameter ts p) :
    ∀ t ∈ ts, t.kind ≠ .eof := by
  cases h with
  | plain hname => simp [hname]
  | constant hword hname => simp [hword, hname]

theorem AreParameters.not_end {ts : List Token} {ps : List Param} (h : AreParameters ts ps) :
    ∀ t ∈ ts, t.kind ≠ .eof := by
  induction h with
  | none => simp
  | last h => exact h.not_end
  | more h hcomma _ ih => simp_all [or_imp, h.not_end]

theorem Derives.not_end {p : Production} {ts : List Token} {x : p.Tree} {n : Nat}
    (h : Derives p ts x n) : ∀ t ∈ ts, t.kind ≠ .eof := by
  induction h with
  | binding hword => split at hword <;> simp_all [or_imp]
  | function _ _ hparams => simp_all [or_imp, hparams.not_end]
  | @link _ sign _ _ _ _ _ _ _ hsign =>
    have : sign.kind ≠ .eof := by
      intro he
      simp [he, BinaryOp.ofKindAt?, BinaryOp.ofKind?] at hsign
    simp_all [or_imp]
  | @operator op => cases op <;> simp_all [prefixKind, or_imp]
  | _ => simp_all [or_imp]

/-- Kinds of token that a leaf, a group, a block or a conditional begins with. -/
def opensPrimary (kind : TokenKind) : Prop :=
  kind ∈ [.number, .trueWord, .falseWord, .nullWord, .identifier, .leftParen, .leftBrace, .ifWord]

/-- Kinds of token that an operand begins with. -/
def opensOperand (kind : TokenKind) : Prop := kind ∈ [.minus, .bang] ∨ opensPrimary kind

/-- Kinds of token that a declaration begins with. -/
def opensDeclaration (kind : TokenKind) : Prop :=
  kind ∈ [.letWord, .constWord, .funcWord, .whileWord] ∨ opensOperand kind

/-- What is known of the first token of a phrase. -/
def Production.Opens : Production → TokenKind → Prop
  | .primary | .application => opensPrimary
  | .operand | .chain _ | .assignment => opensOperand
  | .declaration | .sequence => opensDeclaration
  | .items | .links _ | .calls | .arguments | .alternatives | .furtherArms | .body => fun _ => True

/-- Whether phrases of a production contain a token. -/
def Production.Solid : Production → Prop
  | .items | .links _ | .calls | .arguments | .furtherArms => False
  | _ => True

theorem Derives.opens {p : Production} {ts : List Token} {x : p.Tree} {n : Nat}
    (h : Derives p ts x n) (hp : p.Solid) : ∃ t us, ts = t :: us ∧ p.Opens t.kind := by
  induction h with
  | sequence _ _ ih =>
    obtain ⟨t, us, rfl, ht⟩ := ih trivial
    exact ⟨t, _, rfl, ht⟩
  | @binding constant _ _ _ _ _ _ hword =>
    refine ⟨_, _, rfl, ?_⟩
    cases constant <;> simp_all [Production.Opens, opensDeclaration]
  | function hword => exact ⟨_, _, rfl, by simp [Production.Opens, opensDeclaration, hword]⟩
  | loop hword => exact ⟨_, _, rfl, by simp [Production.Opens, opensDeclaration, hword]⟩
  | simple _ ih =>
    obtain ⟨t, us, rfl, ht⟩ := ih trivial
    exact ⟨t, us, rfl, .inr ht⟩
  | noAssignment _ ih => exact ih trivial
  | assign _ _ _ ih =>
    obtain ⟨t, us, rfl, ht⟩ := ih trivial
    exact ⟨t, _, rfl, ht⟩
  | single _ ih => exact ih trivial
  | chain _ _ ih =>
    obtain ⟨t, us, rfl, ht⟩ := ih trivial
    exact ⟨t, _, rfl, ht⟩
  | @operator op _ _ _ _ hsign =>
    refine ⟨_, _, rfl, ?_⟩
    cases op <;> simp_all [Production.Opens, opensOperand, prefixKind]
  | least hsign => exact ⟨_, _, rfl, by simp [Production.Opens, opensOperand, hsign]⟩
  | applied _ ih =>
    obtain ⟨t, us, rfl, ht⟩ := ih trivial
    exact ⟨t, us, rfl, .inr ht⟩
  | application _ _ ih =>
    obtain ⟨t, us, rfl, ht⟩ := ih trivial
    exact ⟨t, _, rfl, ht⟩
  | number ht => exact ⟨_, _, rfl, by simp [Production.Opens, opensPrimary, ht]⟩
  | trueWord ht => exact ⟨_, _, rfl, by simp [Production.Opens, opensPrimary, ht]⟩
  | falseWord ht => exact ⟨_, _, rfl, by simp [Production.Opens, opensPrimary, ht]⟩
  | nullWord ht => exact ⟨_, _, rfl, by simp [Production.Opens, opensPrimary, ht]⟩
  | name ht => exact ⟨_, _, rfl, by simp [Production.Opens, opensPrimary, ht]⟩
  | group ht => exact ⟨_, _, rfl, by simp [Production.Opens, opensPrimary, ht]⟩
  | block ht => exact ⟨_, _, rfl, by simp [Production.Opens, opensPrimary, ht]⟩
  | choice ht => exact ⟨_, _, rfl, by simp [Production.Opens, opensPrimary, ht]⟩
  | guarded => exact ⟨_, _, rfl, trivial⟩
  | body => exact ⟨_, _, rfl, trivial⟩
  | _ => cases hp

/-- A chain is a chain of any greater looseness. -/
theorem Derives.chain_looser {k l : Nat} {ts : List Token} {e : Expr} {n : Nat}
    (h : Derives (.chain k) ts e n) (hle : k ≤ l) : Derives (.chain l) ts e n := by
  induction hle with
  | refl => exact h
  | step _ ih => simpa [Link.join] using Derives.chain ih .noLinks

/-- An operand is a chain of any looseness. -/
theorem Derives.chain_of_operand {ts : List Token} {e : Expr} {n : Nat}
    (h : Derives .operand ts e n) (k : Nat) : Derives (.chain k) ts e n :=
  (Derives.single h).chain_looser (Nat.zero_le k)

/-- A primary phrase is an operand with no call behind it. -/
theorem Derives.uncalled {ts : List Token} {e : Expr} {n : Nat} (h : Derives .primary ts e n) :
    Derives .operand ts e n := by
  simpa [Call.join] using Derives.applied (Derives.application h .noCalls)

end ExprLang.Grammar
