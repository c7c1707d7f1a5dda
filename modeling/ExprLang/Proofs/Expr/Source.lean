import ExprLang.Proofs.Expr.Nodes
import ExprLang.Proofs.Grammar.Recognition
import ExprLang.Proofs.Lines.Layout
import ExprLang.Proofs.Text.Decimal
import ExprLang.Proofs.Token.Spacing

/-!
A source text for every expression that can have one. All parts of a node stand in parentheses,
or in braces where the grammar asks for a body, so that no operator can take hold of a part of
another one and no sequence can run into the one around it. The text is read back as the
expression, up to its lines.

The parentheses cost nesting: a part of an expression is at most three levels deeper than the
whole, and the arguments of a call are so deep.

* `Expr.spelled_tokens`: the text is one of lexemes;
* `Expr.derives`: the grammar derives the expression from it, with three levels for each of the
  expression's own;
* `source_reads_back`: scanner and parser.
-/

namespace ExprLang

/-! ## Expressions that have a source text -/

/-- What the grammar asks of a node itself. -/
def Expr.IsNode (node : Expr) : Prop :=
  (∀ name ∈ node.ownNames, IsName name) ∧
  match node with
  | .number n => 0 ≤ n ∨ n = Int64.minValue
  | .sequence items => 2 ≤ items.length
  | .choice arms => arms.branches ≠ []
  | _ => True

/-- Names are names, numbers are those that have digits, a sequence has two items, a choice has
a guard. -/
def Expr.WellFormed (e : Expr) : Prop := e.Throughout Expr.IsNode

mutual

/-- The number of nodes on the longest path to a leaf. -/
def Expr.levels : Expr → Nat
  | .number _ | .bool _ | .null | .identifier _ _ => 1
  | .declare _ _ value _ | .assign _ value _ => value.levels + 1
  | .sequence items => Expr.levelsAll items + 1
  | .block body | .function _ body _ => body.levels + 1
  | .choice arms => arms.levels + 1
  | .loop condition body _ => max condition.levels body.levels + 1
  | .call callee arguments _ => max callee.levels (Expr.levelsAll arguments) + 1
  | .binary _ left right _ => max left.levels right.levels + 1
  | .unary _ operand _ => operand.levels + 1

def Expr.levelsAll : List Expr → Nat
  | [] => 0
  | e :: es => max e.levels (Expr.levelsAll es)

def Arms.levels : Arms → Nat
  | .done => 0
  | .otherwise body => body.levels
  | .guarded condition body rest => max condition.levels (max body.levels rest.levels)

end

/-! ## The text -/

namespace Token

/-- A mark or a keyword. Places do not matter here. -/
def fixed (kind : TokenKind) : Token := ⟨kind, kind.fixedSpelling?.getD "", 1, 1⟩

def named (name : String) : Token := ⟨.identifier, name, 1, 1⟩

def digits (n : Nat) : Token := ⟨.number, Decimal.ofNat n, 1, 1⟩

def inParens (ts : List Token) : List Token := fixed .leftParen :: (ts ++ [fixed .rightParen])

def inBraces (ts : List Token) : List Token := fixed .leftBrace :: (ts ++ [fixed .rightBrace])

theorem inParens_append (ts us : List Token) :
    inParens ts ++ us = fixed .leftParen :: (ts ++ fixed .rightParen :: us) := by
  rw [inParens, List.cons_append, List.append_assoc]
  rfl

/-- Parts with a mark between each two. -/
def separated (kind : TokenKind) : List (List Token) → List Token
  | [] => []
  | part :: parts => part ++ parts.flatMap (fixed kind :: ·)

end Token

open Token (fixed named digits inParens inBraces separated)

/-- The mark that an operator is written as. -/
def BinaryOp.kind : BinaryOp → TokenKind
  | .add => .plus
  | .subtract => .minus
  | .multiply => .star
  | .divide => .slash
  | .modulus => .percent
  | .less => .less
  | .lessEqual => .lessEqual
  | .greater => .greater
  | .greaterEqual => .greaterEqual
  | .equal => .equalEqual
  | .notEqual => .bangEqual
  | .and => .andAnd
  | .or => .orOr

def Param.tokens (p : Param) : List Token :=
  if p.constant then [fixed .constWord, named p.name] else [named p.name]

mutual

/-- The source text, as tokens. -/
def Expr.tokens : Expr → List Token
  | .number n =>
      if n < 0 then [fixed .minus, digits n.toInt.natAbs] else [digits n.toInt.natAbs]
  | .bool b => [fixed (if b then .trueWord else .falseWord)]
  | .null => [fixed .nullWord]
  | .identifier name _ => [named name]
  | .declare name constant value _ =>
      fixed (if constant then .constWord else .letWord) :: named name :: fixed .equal ::
        inParens value.tokens
  | .assign name value _ => named name :: fixed .equal :: inParens value.tokens
  | .sequence items => separated .semicolon (Expr.groups items)
  | .block body => inBraces body.tokens
  | .choice arms => arms.tokens .ifWord
  | .loop condition body _ =>
      fixed .whileWord :: (inParens condition.tokens ++ inBraces body.tokens)
  | .function params body _ =>
      fixed .funcWord :: (inParens (separated .comma (params.map Param.tokens)) ++
        fixed .arrow :: inBraces body.tokens)
  | .call callee arguments _ =>
      inParens callee.tokens ++ inParens (separated .comma (Expr.groups arguments))
  | .binary op left right _ => inParens left.tokens ++ fixed op.kind :: inParens right.tokens
  | .unary op operand _ => fixed (Grammar.prefixKind op) :: inParens operand.tokens

/-- Every item in parentheses. -/
def Expr.groups : List Expr → List (List Token)
  | [] => []
  | e :: es => inParens e.tokens :: Expr.groups es

/-- Alternatives, the first guard behind a given keyword. -/
def Arms.tokens (keyword : TokenKind) : Arms → List Token
  | .done => []
  | .otherwise body => fixed .elseWord :: inBraces body.tokens
  | .guarded condition body rest =>
      fixed keyword :: (inParens condition.tokens ++ (inBraces body.tokens ++ rest.tokens .elifWord))

end

/-- The source text: lexemes with spaces between them. -/
def Expr.source (e : Expr) : String := String.intercalate " " (e.tokens.map Token.lexeme)

/-! ## Its lexemes -/

namespace Token

theorem spells_fixed {kind : TokenKind} {s : String} (h : kind.fixedSpelling? = some s) :
    Spells (fixed kind).kind (fixed kind).lexeme.toList := by
  show Spells kind (kind.fixedSpelling?.getD "").toList
  rw [h]
  exact .fixed h

theorem spelled_inParens {ts : List Token} (h : Spelled ts) : Spelled (inParens ts) :=
  spelled_cons.mpr ⟨spells_fixed rfl,
    spelled_append.mpr ⟨h, List.forall_mem_singleton.mpr (spells_fixed rfl)⟩⟩

theorem spelled_inBraces {ts : List Token} (h : Spelled ts) : Spelled (inBraces ts) :=
  spelled_cons.mpr ⟨spells_fixed rfl,
    spelled_append.mpr ⟨h, List.forall_mem_singleton.mpr (spells_fixed rfl)⟩⟩

theorem spelled_separated {kind : TokenKind} {s : String} (hkind : kind.fixedSpelling? = some s)
    {parts : List (List Token)} (h : ∀ part ∈ parts, Spelled part) :
    Spelled (separated kind parts) := by
  cases parts with
  | nil => exact List.forall_mem_nil _
  | cons part parts =>
    obtain ⟨hpart, hparts⟩ := List.forall_mem_cons.mp h
    refine spelled_append.mpr ⟨hpart, fun t ht => ?_⟩
    obtain ⟨us, hus, ht⟩ := List.mem_flatMap.mp ht
    exact spelled_cons.mpr ⟨spells_fixed hkind, hparts us hus⟩ t ht

end Token

theorem Param.spelled_tokens {p : Param} (h : IsName p.name) : Token.Spelled p.tokens := by
  unfold Param.tokens
  split
  · exact Token.spelled_cons.mpr ⟨Token.spells_fixed rfl, List.forall_mem_singleton.mpr h⟩
  · exact List.forall_mem_singleton.mpr h

theorem BinaryOp.fixedSpelling?_kind (op : BinaryOp) :
    op.kind.fixedSpelling? = some op.symbol := by
  cases op <;> rfl

theorem UnaryOp.fixedSpelling?_prefixKind (op : UnaryOp) :
    (Grammar.prefixKind op).fixedSpelling? = some op.symbol := by
  cases op <;> rfl

section Spelled

open Token (Spelled spells_fixed spelled_cons spelled_append spelled_inParens spelled_inBraces
  spelled_separated)

mutual

theorem Expr.spelled_tokens {e : Expr} (h : e.WellFormed) : Spelled e.tokens := by
  match e, h with
  | .number n, _ =>
    have hdigits : Spelled [digits n.toInt.natAbs] :=
      List.forall_mem_singleton.mpr (Decimal.spells_ofNat _)
    rw [Expr.tokens]
    split
    · exact spelled_cons.mpr ⟨spells_fixed rfl, hdigits⟩
    · exact hdigits
  | .bool true, _ | .bool false, _ | .null, _ =>
    exact List.forall_mem_singleton.mpr (spells_fixed rfl)
  | .identifier name _, h => exact List.forall_mem_singleton.mpr (h.1 name List.mem_cons_self)
  | .declare name true value _, ⟨hnode, hvalue⟩ | .declare name false value _, ⟨hnode, hvalue⟩ =>
    exact spelled_cons.mpr ⟨spells_fixed rfl, spelled_cons.mpr ⟨hnode.1 name List.mem_cons_self,
      spelled_cons.mpr ⟨spells_fixed rfl, spelled_inParens (Expr.spelled_tokens hvalue)⟩⟩⟩
  | .assign name value _, ⟨hnode, hvalue⟩ =>
    exact spelled_cons.mpr ⟨hnode.1 name List.mem_cons_self,
      spelled_cons.mpr ⟨spells_fixed rfl, spelled_inParens (Expr.spelled_tokens hvalue)⟩⟩
  | .sequence items, ⟨_, hitems⟩ => exact spelled_separated rfl (Expr.spelled_groups hitems)
  | .block body, ⟨_, hbody⟩ => exact spelled_inBraces (Expr.spelled_tokens hbody)
  | .choice arms, ⟨_, harms⟩ => exact Arms.spelled_tokens harms rfl
  | .loop condition body _, ⟨_, hcondition, hbody⟩ =>
    exact spelled_cons.mpr ⟨spells_fixed rfl, spelled_append.mpr
      ⟨spelled_inParens (Expr.spelled_tokens hcondition),
        spelled_inBraces (Expr.spelled_tokens hbody)⟩⟩
  | .function params body _, ⟨hnode, hbody⟩ =>
    have hparams : ∀ part ∈ params.map Param.tokens, Spelled part := by
      intro part hpart
      obtain ⟨p, hp, rfl⟩ := List.mem_map.mp hpart
      exact Param.spelled_tokens (hnode.1 p.name (List.mem_map_of_mem hp))
    exact spelled_cons.mpr ⟨spells_fixed rfl, spelled_append.mpr
      ⟨spelled_inParens (spelled_separated rfl hparams), spelled_cons.mpr
        ⟨spells_fixed rfl, spelled_inBraces (Expr.spelled_tokens hbody)⟩⟩⟩
  | .call callee arguments _, ⟨_, hcallee, harguments⟩ =>
    exact spelled_append.mpr ⟨spelled_inParens (Expr.spelled_tokens hcallee),
      spelled_inParens (spelled_separated rfl (Expr.spelled_groups harguments))⟩
  | .binary op left right _, ⟨_, hleft, hright⟩ =>
    exact spelled_append.mpr ⟨spelled_inParens (Expr.spelled_tokens hleft), spelled_cons.mpr
      ⟨spells_fixed op.fixedSpelling?_kind, spelled_inParens (Expr.spelled_tokens hright)⟩⟩
  | .unary op operand _, ⟨_, hoperand⟩ =>
    exact spelled_cons.mpr ⟨spells_fixed op.fixedSpelling?_prefixKind,
      spelled_inParens (Expr.spelled_tokens hoperand)⟩

theorem Expr.spelled_groups {es : List Expr} (h : Expr.AllThroughout Expr.IsNode es) :
    ∀ part ∈ Expr.groups es, Spelled part := by
  match es, h with
  | [], _ => exact List.forall_mem_nil _
  | e :: es, ⟨he, hes⟩ =>
    exact List.forall_mem_cons.mpr
      ⟨spelled_inParens (Expr.spelled_tokens he), Expr.spelled_groups hes⟩

theorem Arms.spelled_tokens {arms : Arms} (h : arms.Throughout Expr.IsNode) {keyword : TokenKind}
    {s : String} (hkeyword : keyword.fixedSpelling? = some s) : Spelled (arms.tokens keyword) := by
  match arms, h with
  | .done, _ => exact List.forall_mem_nil _
  | .otherwise body, h =>
    exact spelled_cons.mpr ⟨spells_fixed rfl, spelled_inBraces (Expr.spelled_tokens h)⟩
  | .guarded condition body rest, ⟨hcondition, hbody, hrest⟩ =>
    exact spelled_cons.mpr ⟨spells_fixed hkeyword, spelled_append.mpr
      ⟨spelled_inParens (Expr.spelled_tokens hcondition), spelled_append.mpr
        ⟨spelled_inBraces (Expr.spelled_tokens hbody), Arms.spelled_tokens hrest rfl⟩⟩⟩

end

end Spelled

/-! ## Its derivation -/

namespace Grammar

section Phrases

variable {ts : List Token} {e : Expr} {n : Nat}

theorem Derives.alone (h : Derives .declaration ts e n) : Derives .sequence ts e n := by
  simpa using Derives.sequence h .noItems

theorem Derives.declared (h : Derives .operand ts e n) : Derives .declaration ts e (n + 1) :=
  .simple (.noAssignment (h.chain_of_operand _))

theorem Derives.inParens (h : Derives .sequence ts e n) : Derives .operand (inParens ts) e n :=
  (Derives.group rfl h rfl).uncalled

theorem Derives.inBraces (h : Derives .sequence ts e n) : Derives .body (inBraces ts) e n :=
  .body rfl h rfl

end Phrases

/-- Parts that are declarations, none of which needs more levels than the bound. -/
def AreDeclarations (bound : Nat) : List (List Token) → List Expr → Prop :=
  List.Forall₂ fun ts e => ∃ n ≤ bound, Derives .declaration ts e n

theorem AreDeclarations.items {bound : Nat} {parts : List (List Token)} {es : List Expr}
    (h : AreDeclarations bound parts es) :
    ∃ n ≤ bound, Derives .items (parts.flatMap (fixed .semicolon :: ·)) es n := by
  induction h with
  | nil => exact ⟨0, Nat.zero_le _, .noItems⟩
  | cons hfirst _ ih =>
    obtain ⟨m, hm, hfirst⟩ := hfirst
    obtain ⟨n, hn, hmore⟩ := ih
    exact ⟨_, Nat.max_le.mpr ⟨hm, hn⟩, .item rfl hfirst hmore⟩

theorem AreDeclarations.arguments {bound : Nat} {parts : List (List Token)} {es : List Expr}
    (h : AreDeclarations bound parts es) :
    ∃ n ≤ bound, Derives .arguments (separated .comma parts) es n := by
  induction h with
  | nil => exact ⟨0, Nat.zero_le _, .noArguments⟩
  | @cons part e parts es hfirst hmore ih =>
    obtain ⟨m, hm, hfirst⟩ := hfirst
    obtain ⟨n, hn, harguments⟩ := ih
    cases hmore with
    | nil => exact ⟨m, hm, by simpa [separated] using Derives.lastArgument hfirst⟩
    | cons _ _ => exact ⟨_, Nat.max_le.mpr ⟨hm, hn⟩, .argument hfirst rfl harguments⟩

theorem isParameter_tokens (p : Param) : IsParameter p.tokens p := by
  obtain ⟨name, constant⟩ := p
  cases constant with
  | true => exact .constant rfl rfl
  | false => exact .plain rfl

theorem areParameters_tokens (params : List Param) :
    AreParameters (separated .comma (params.map Param.tokens)) params := by
  induction params with
  | nil => exact .none
  | cons p params ih =>
    cases params with
    | nil => simpa [separated] using AreParameters.last (isParameter_tokens p)
    | cons q params => exact .more (isParameter_tokens p) rfl ih

theorem ofKindAt?_fixed (op : BinaryOp) :
    ∃ k < BinaryOp.loosest, BinaryOp.ofKindAt? (k + 1) (fixed op.kind).kind = some op := by
  refine ⟨op.looseness - 1, ?_⟩
  cases op <;> exact ⟨by decide, rfl⟩

/-- Two parts in parentheses with an operator between them. -/
theorem Derives.binary (op : BinaryOp) {ts us : List Token} {left right : Expr} {m n : Nat}
    (hleft : Derives .operand ts left m) (hright : Derives .operand us right n) :
    Derives .declaration (ts ++ fixed op.kind :: us) (.binary op left right 1)
      (max m (n + 1) + 1) := by
  obtain ⟨k, hk, hsign⟩ := ofKindAt?_fixed op
  have hlinks : Derives (.links (k + 1)) (fixed op.kind :: us) [⟨op, right, 1⟩] (n + 1) := by
    simpa [fixed] using Derives.link hsign (hright.chain_of_operand k) .noLinks
  exact .simple (.noAssignment
    ((Derives.chain (hleft.chain_of_operand k) hlinks).chain_looser hk))

theorem derives_natAbs {n : Int64} (h : ¬ n < 0) :
    Derives .operand [digits n.toInt.natAbs] (.number n) 0 := by
  have hread := Decimal.signed?_ofInt n
  rw [Decimal.ofInt, if_neg (by simpa [Int64.lt_iff_toInt_lt] using h)] at hread
  exact (Derives.number (t := digits n.toInt.natAbs) rfl hread).uncalled

theorem derives_least :
    Derives .operand [fixed .minus, digits Int64.minValue.toInt.natAbs]
      (.number Int64.minValue) 0 :=
  .least rfl rfl (Decimal.natural?_ofNat (by decide))

end Grammar

open Grammar

mutual

theorem Expr.derives {e : Expr} (h : e.WellFormed) :
    ∃ need ≤ 3 * e.levels, Derives .sequence e.tokens (e.relabel oneLine) need := by
  match e, h with
  | .number n, h =>
    refine ⟨1, by simp [Expr.levels], Derives.alone (Derives.declared ?_)⟩
    rw [Expr.tokens]
    split
    · next hneg =>
      rcases h.2 with hpos | rfl
      · exact absurd hneg (Int64.not_lt.mpr hpos)
      · exact derives_least
    · next hneg => exact derives_natAbs hneg
  | .bool true, _ => exact ⟨1, by simp [Expr.levels], (Derives.trueWord rfl).uncalled.declared.alone⟩
  | .bool false, _ =>
    exact ⟨1, by simp [Expr.levels], (Derives.falseWord rfl).uncalled.declared.alone⟩
  | .null, _ => exact ⟨1, by simp [Expr.levels], (Derives.nullWord rfl).uncalled.declared.alone⟩
  | .identifier name _, _ =>
    exact ⟨1, by simp [Expr.levels],
      (Derives.name (t := named name) rfl).uncalled.declared.alone⟩
  | .declare name constant value _, ⟨_, hvalue⟩ =>
    obtain ⟨n, hn, hvalue⟩ := Expr.derives hvalue
    refine ⟨n + 1 + 1, by simp only [Expr.levels]; omega, Derives.alone ?_⟩
    exact .binding rfl rfl rfl hvalue.inParens.declared
  | .assign name value _, ⟨_, hvalue⟩ =>
    obtain ⟨n, hn, hvalue⟩ := Expr.derives hvalue
    have htarget := (Derives.name (t := named name) rfl).uncalled.chain_of_operand BinaryOp.loosest
    refine ⟨max 0 (n + 1) + 1, by simp only [Expr.levels]; omega, Derives.alone ?_⟩
    exact .simple (.assign htarget rfl hvalue.inParens.declared)
  | .sequence (first :: second :: more), ⟨_, hfirst, hmore⟩ =>
    obtain ⟨m, hm, hfirst⟩ := Expr.derives hfirst
    obtain ⟨n, hn, hmore⟩ := (Expr.derives_groups hmore).items
    simp only [Expr.levels, Expr.levelsAll] at hn ⊢
    exact ⟨max (m + 1) n, by omega, .sequence hfirst.inParens.declared hmore⟩
  | .sequence [], ⟨hnode, _⟩ => exact absurd hnode.2 (by decide)
  | .sequence [_], ⟨hnode, _⟩ => exact absurd (Nat.le_of_succ_le_succ hnode.2) (by decide)
  | .block body, ⟨_, hbody⟩ =>
    obtain ⟨n, hn, hbody⟩ := Expr.derives hbody
    refine ⟨n + 1, by simp only [Expr.levels]; omega, Derives.alone ?_⟩
    exact (Derives.block rfl hbody rfl).uncalled.declared
  | .choice arms, ⟨hnode, harms⟩ =>
    obtain ⟨n, hn, -, hchoice⟩ := Arms.derives harms
    refine ⟨n + 1, by simp only [Expr.levels]; omega, Derives.alone ?_⟩
    exact (hchoice hnode.2).uncalled.declared
  | .loop condition body _, ⟨_, hcondition, hbody⟩ =>
    obtain ⟨m, hm, hcondition⟩ := Expr.derives hcondition
    obtain ⟨n, hn, hbody⟩ := Expr.derives hbody
    refine ⟨max m n + 1, by simp only [Expr.levels]; omega, Derives.alone ?_⟩
    rw [Expr.tokens, Token.inParens_append]
    exact .loop rfl rfl hcondition rfl hbody.inBraces
  | .function params body _, ⟨_, hbody⟩ =>
    obtain ⟨n, hn, hbody⟩ := Expr.derives hbody
    refine ⟨n + 1, by simp only [Expr.levels]; omega, Derives.alone ?_⟩
    rw [Expr.tokens, Token.inParens_append]
    exact .function rfl rfl (areParameters_tokens params) rfl rfl hbody.inBraces
  | .call callee arguments _, ⟨_, hcallee, harguments⟩ =>
    obtain ⟨m, hm, hcallee⟩ := Expr.derives hcallee
    obtain ⟨n, hn, harguments⟩ := (Expr.derives_groups harguments).arguments
    have hcall : Derives .calls (inParens (separated .comma (Expr.groups arguments)))
        [⟨Expr.relabelAll oneLine arguments, 1⟩] (max n 0 + 1) := .call rfl harguments rfl .noCalls
    refine ⟨max m (max n 0 + 1) + 1, by simp only [Expr.levels]; omega,
      Derives.alone (Derives.declared ?_)⟩
    exact .applied (.application (.group rfl hcallee rfl) hcall)
  | .binary op left right _, ⟨_, hleft, hright⟩ =>
    obtain ⟨m, hm, hleft⟩ := Expr.derives hleft
    obtain ⟨n, hn, hright⟩ := Expr.derives hright
    refine ⟨max m (n + 1) + 1, by simp only [Expr.levels]; omega, Derives.alone ?_⟩
    exact .binary op hleft.inParens hright.inParens
  | .unary op operand _, ⟨_, hoperand⟩ =>
    obtain ⟨n, hn, hoperand⟩ := Expr.derives hoperand
    refine ⟨n + 1 + 1, by simp only [Expr.levels]; omega, Derives.alone (Derives.declared ?_)⟩
    exact .operator rfl hoperand.inParens

theorem Expr.derives_groups {es : List Expr} (h : Expr.AllThroughout Expr.IsNode es) :
    AreDeclarations (3 * Expr.levelsAll es + 1) (Expr.groups es) (Expr.relabelAll oneLine es) := by
  match es, h with
  | [], _ => exact .nil
  | e :: es, ⟨he, hes⟩ =>
    obtain ⟨n, hn, he⟩ := Expr.derives he
    have hmore := Expr.derives_groups hes
    simp only [Expr.levelsAll]
    refine .cons ⟨n + 1, by omega, he.inParens.declared⟩ (hmore.imp fun us e' h => ?_)
    obtain ⟨m, hm, h⟩ := h
    exact ⟨m, by omega, h⟩

theorem Arms.derives {arms : Arms} (h : arms.Throughout Expr.IsNode) :
    ∃ need ≤ 3 * arms.levels,
      Derives .furtherArms (arms.tokens .elifWord) (arms.relabel oneLine) need ∧
      (arms.branches ≠ [] →
        Derives .primary (arms.tokens .ifWord) (.choice (arms.relabel oneLine)) need) := by
  match arms, h with
  | .done, _ => exact ⟨0, Nat.zero_le _, .noArms, fun hne => absurd rfl hne⟩
  | .otherwise body, h =>
    obtain ⟨n, hn, hbody⟩ := Expr.derives h
    exact ⟨n, hn, .elseArm rfl hbody.inBraces, fun hne => absurd rfl hne⟩
  | .guarded condition body rest, ⟨hcondition, hbody, hrest⟩ =>
    obtain ⟨l, hl, hcondition⟩ := Expr.derives hcondition
    obtain ⟨m, hm, hbody⟩ := Expr.derives hbody
    obtain ⟨n, hn, hrest, -⟩ := Arms.derives hrest
    have halternatives : Derives .alternatives (inParens condition.tokens ++
        (inBraces body.tokens ++ rest.tokens .elifWord))
        ((Arms.guarded condition body rest).relabel oneLine) (max l (max m n)) := by
      rw [Token.inParens_append]
      exact .guarded rfl hcondition rfl hbody.inBraces hrest
    refine ⟨max l (max m n), by simp only [Arms.levels]; omega, ?_, fun _ => ?_⟩
    · exact .elifArm rfl halternatives
    · exact .choice rfl halternatives

end

/-! ## Reading it -/

/-- The fault of too many levels has no line that could be replaced. -/
theorem Fault.eq_tooDeep_of_relabel {fault : Fault} {limit : Nat} {f : Nat → Nat}
    (h : fault.relabel f = .tooDeep limit) : fault = .tooDeep limit := by
  cases fault <;> cases h
  rfl

/-- Lexemes with spaces between them are read as what the grammar derives from them, up to lines, if
there are enough levels, and this alone decides. -/
theorem Grammar.Derives.ofSource_spaced {ts : List Token} (hts : Token.Spelled ts) {e : Expr} {need : Nat}
    (h : Derives .sequence ts e need) :
    (need ≤ maxNesting →
      ∃ e', Expr.ofSource (String.intercalate " " (ts.map Token.lexeme)) = .ok e' ∧
        e'.relabel oneLine = e.relabel oneLine) ∧
    (¬ need ≤ maxNesting →
      Expr.ofSource (String.intercalate " " (ts.map Token.lexeme)) =
        .error (.tooDeep maxNesting)) := by
  obtain ⟨us, hscan, hkeys⟩ := Token.ofSource_spaced hts
  have hlast : (ts ++ [fixed .eof]).getLast?.map Token.kind = some .eof := by simp [fixed]
  have hprogram : program (ts ++ [fixed .eof]) = _ := h.program_eq rfl []
  have halike : transcribeResult oneLine id (Expr.ofTokens us) =
      transcribeResult oneLine id (Expr.ofTokens (ts ++ [fixed .eof])) := by
    refine ofTokens_alike (fun _ => rfl) rfl (transcribe_oneLine (hkeys.trans ?_))
    rw [List.map_append]
    rfl
  rw [ofTokens_eq_program hlast, hprogram] at halike
  rw [Expr.ofSource_eq hscan]
  constructor
  · intro henough
    rw [if_pos henough] at halike
    rcases transcribeResult_eq halike with ⟨e', e'', he', he'', hsame⟩ | ⟨_, _, _, hfault, _⟩
    · cases he''
      exact ⟨e', he', hsame⟩
    · cases hfault
  · intro hfew
    rw [if_neg hfew] at halike
    rcases transcribeResult_eq halike with ⟨_, _, _, hok, _⟩ | ⟨fault, _, hfault, hdeep, hsame⟩
    · cases hok
    · cases hdeep
      rw [Fault.reword_id, Fault.reword_id] at hsame
      exact hfault.trans (congrArg _ (Fault.eq_tooDeep_of_relabel hsame))

/-- The text is read as the expression if there are enough levels, and this alone decides. -/
theorem Expr.ofSource_source {e : Expr} (h : e.WellFormed) :
    ∃ need ≤ 3 * e.levels,
      (need ≤ maxNesting →
        ∃ e', Expr.ofSource e.source = .ok e' ∧ e'.relabel oneLine = e.relabel oneLine) ∧
      (¬ need ≤ maxNesting → Expr.ofSource e.source = .error (.tooDeep maxNesting)) := by
  obtain ⟨need, hneed, hderives⟩ := Expr.derives h
  obtain ⟨hread, hdeep⟩ := hderives.ofSource_spaced (Expr.spelled_tokens h)
  refine ⟨need, hneed, fun henough => ?_, hdeep⟩
  obtain ⟨e', he', hsame⟩ := hread henough
  exact ⟨e', he', hsame.trans (e.relabel_relabel oneLine oneLine)⟩

/-- Every expression that has a source text is read back from it, up to its lines, unless it is
nested too deep; and an expression of at most 200 levels is not, whatever its width. -/
theorem source_reads_back (e : Expr) (h : e.WellFormed) :
    ((∃ e', Expr.ofSource e.source = .ok e' ∧ e'.relabel oneLine = e.relabel oneLine) ∨
      Expr.ofSource e.source = .error (.tooDeep maxNesting)) ∧
    (e.levels ≤ 200 →
      ∃ e', Expr.ofSource e.source = .ok e' ∧ e'.relabel oneLine = e.relabel oneLine) := by
  obtain ⟨need, hneed, hread, hdeep⟩ := Expr.ofSource_source h
  constructor
  · by_cases henough : need ≤ maxNesting
    · exact .inl (hread henough)
    · exact .inr (hdeep henough)
  · intro hlevels
    refine hread (Nat.le_trans hneed ?_)
    unfold maxNesting
    omega

/-- A function literal as callee, the least number in front of a brace, and a sequence in a
sequence. -/
def leastCalled : Expr :=
  .call
    (.function [⟨"x", true⟩]
      (.choice (.guarded (.identifier "x" 3) (.number Int64.minValue) .done)) 2)
    [.sequence [.number 1, .sequence [.null, .number 2]]] 7

theorem source_reads_back_leastCalled :
    (leastCalled.WellFormed ∧ leastCalled.levels ≤ 200 ∧ leastCalled.source =
      "( func ( const x ) => \x7b if ( x ) \x7b - 9223372036854775808 \x7d \x7d ) " ++
        "( ( ( 1 ) ; ( ( null ) ; ( 2 ) ) ) )") ∧
    ∃ e, Expr.ofSource leastCalled.source = .ok e ∧
      e.relabel oneLine = leastCalled.relabel oneLine := by
  have hx : ∀ name ∈ ["x"], IsName name := by
    refine List.forall_mem_singleton.mpr ?_
    show Token.Spells .identifier ['x']
    refine .identifier rfl (List.forall_mem_nil _) fun kind => ?_
    cases kind <;> decide
  have hnone : ∀ name ∈ ([] : List String), IsName name := List.forall_mem_nil _
  have hnamed : leastCalled.WellFormed :=
    ⟨⟨hnone, trivial⟩, ⟨⟨hx, trivial⟩, ⟨hnone, List.cons_ne_nil _ _⟩,
        ⟨hx, trivial⟩, ⟨hnone, .inr rfl⟩, trivial⟩,
      ⟨⟨hnone, by decide⟩, ⟨hnone, .inl (by decide)⟩,
        ⟨⟨hnone, by decide⟩, ⟨hnone, trivial⟩, ⟨hnone, .inl (by decide)⟩, trivial⟩, trivial⟩,
      trivial⟩
  have hlevels : leastCalled.levels ≤ 200 := by decide
  exact ⟨⟨hnamed, hlevels, by cbv⟩, (source_reads_back leastCalled hnamed).2 hlevels⟩

end ExprLang
