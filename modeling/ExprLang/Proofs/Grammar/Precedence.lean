import ExprLang.Proofs.Grammar.Nesting
import Mathlib.Data.List.Forall2
import Mathlib.Data.List.Induction

/-!
Which operands an operator takes. Here the rule is one about trees, in which no production of the
grammar occurs: read from left to right a tree is the chain that was written, to the left of an
operator no operator binds less than it, and to the right of it all bind more. For each chain of
operands and operators there is one such tree, and it is the one that the parser gives.

* `Expr.Graded.derives`: every such tree is derived by the grammar;
* `exists_graded`: every chain has such a tree;
* `ofTokens_chain`: the parser gives it, and gives no other.
-/

namespace ExprLang

/-- The operators that bind alike, from those that bind least to those that bind most. -/
def BinaryOp.classes : List (List BinaryOp) :=
  [[.or], [.and], [.equal, .notEqual], [.less, .lessEqual, .greater, .greaterEqual],
    [.add, .subtract], [.multiply, .divide, .modulus]]

/-- How tightly an operator binds: the place of its class. -/
def BinaryOp.tightness (op : BinaryOp) : Nat := BinaryOp.classes.findIdx (op ∈ ·)

theorem BinaryOp.looseness_add_tightness (op : BinaryOp) :
    op.looseness + op.tightness = BinaryOp.loosest := by
  cases op <;> rfl

theorem BinaryOp.looseness_le_iff {o op : BinaryOp} :
    o.looseness ≤ op.looseness ↔ op.tightness ≤ o.tightness := by
  have := o.looseness_add_tightness
  have := op.looseness_add_tightness
  omega

theorem BinaryOp.looseness_lt_iff {o op : BinaryOp} :
    o.looseness < op.looseness ↔ op.tightness < o.tightness := by
  rw [← Nat.not_le, BinaryOp.looseness_le_iff, Nat.not_le]

theorem BinaryOp.looseness_pos (op : BinaryOp) : 0 < op.looseness := by
  cases op <;> decide

namespace Grammar

/-! ## Chains and their trees -/

/-- What a tree is read as from left to right: operands, and operators with their lines. -/
inductive Symbol where
  | operand (e : Expr)
  | sign (op : BinaryOp) (line : Nat)

/-- An operator and the operand behind it. -/
def Link.symbols (link : Link) : List Symbol := [.sign link.op link.line, .operand link.right]

/-- A chain: its first operand and the operators with the other ones. -/
def chainSymbols (first : Expr) (links : List Link) : List Symbol :=
  .operand first :: links.flatMap Link.symbols

/-- A token of a chain. Operands are names and numbers in range, operators are told by how they
are written. -/
inductive IsSymbol : Token → Symbol → Prop where
  | name {t : Token} (ht : t.kind = .identifier) :
      IsSymbol t (.operand (.identifier t.lexeme t.line))
  | number {t : Token} {n : Int64} (ht : t.kind = .number)
      (hn : Decimal.signed? t.lexeme = some n) : IsSymbol t (.operand (.number n))
  | sign {t : Token} {op : BinaryOp} (ht : t.kind.fixedSpelling? = some op.symbol) :
      IsSymbol t (.sign op t.line)

end Grammar

open Grammar

/-- The operands and operators of a tree, from left to right. -/
def Expr.inOrder : Expr → List Symbol
  | .binary op left right line => left.inOrder ++ .sign op line :: right.inOrder
  | e => [.operand e]

/-- The operator that a tree applies last. -/
def Expr.operator? : Expr → Option BinaryOp
  | .binary op .. => some op
  | _ => none

/-- Every operator has operators to its left that bind at least as tightly, and operators to its
right that bind more tightly. -/
def Expr.Graded : Expr → Prop
  | .binary op left right _ =>
    left.Graded ∧ right.Graded ∧ (∀ o ∈ left.operator?, op.tightness ≤ o.tightness) ∧
      ∀ o ∈ right.operator?, op.tightness < o.tightness
  | _ => True

/-- The rule can be checked on a tree. -/
instance Expr.decidableGraded : DecidablePred Expr.Graded
  | .binary op left right _ =>
    have := Expr.decidableGraded left
    have := Expr.decidableGraded right
    inferInstanceAs (Decidable (left.Graded ∧ right.Graded ∧
      (∀ o ∈ left.operator?, op.tightness ≤ o.tightness) ∧
        ∀ o ∈ right.operator?, op.tightness < o.tightness))
  | .number _ | .bool _ | .null | .identifier .. | .declare .. | .assign .. | .sequence _
  | .block _ | .choice _ | .loop .. | .function .. | .call .. | .unary .. =>
    .isTrue trivial

/-- A further operator and operand behind a tree. It takes what is to its left up to the next
operator that binds less. -/
def Expr.attach (link : Link) : Expr → Expr
  | .binary op left right line =>
    if op.tightness < link.op.tightness then .binary op left (right.attach link) line
    else .binary link.op (.binary op left right line) link.right link.line
  | e => .binary link.op e link.right link.line

namespace Grammar

/-! ## Graded trees are derived -/

theorem ofKind?_of_symbol {kind : TokenKind} {op : BinaryOp}
    (h : kind.fixedSpelling? = some op.symbol) : BinaryOp.ofKind? kind = some op := by
  cases op <;> cases kind <;> first | rfl | exact absurd h (by decide)

theorem IsSymbol.derives {t : Token} {e : Expr} (h : IsSymbol t (.operand e)) :
    Derives .operand [t] e 0 := by
  cases h with
  | name ht => exact (Derives.name ht).uncalled
  | number ht hn => exact (Derives.number ht hn).uncalled

theorem Link.join_concat (first : Expr) (links : List Link) (link : Link) :
    Link.join first (links ++ [link]) =
      .binary link.op (Link.join first links) link.right link.line := by
  rw [Link.join, List.foldl_append]
  rfl

/-- One more operator and operand at the end of the links. -/
theorem Derives.links_concat {k : Nat} {us ts : List Token} {links : List Link} {m n : Nat}
    {sign : Token} {op : BinaryOp} {right : Expr} (hlinks : Derives (.links (k + 1)) us links m)
    (hsign : BinaryOp.ofKindAt? (k + 1) sign.kind = some op)
    (hright : Derives (.chain k) ts right n) :
    ∃ l ≤ m + n + 1, Derives (.links (k + 1)) (us ++ sign :: ts)
      (links ++ [⟨op, right, sign.line⟩]) l := by
  induction links generalizing us m with
  | nil =>
    cases hlinks with
    | noLinks =>
      have hlink := Derives.link hsign hright .noLinks
      rw [List.append_nil] at hlink
      exact ⟨_, by omega, hlink⟩
  | cons link links ih =>
    cases hlinks with
    | link hfirst hmember hmore =>
      obtain ⟨l, hl, hconcat⟩ := ih hmore
      have hlink := Derives.link hfirst hmember hconcat
      rw [← List.append_assoc] at hlink
      exact ⟨_, by omega, hlink⟩

/-- An operator behind a chain of operators that bind no less, in front of one of operators that
bind more. -/
theorem Derives.chain_binary {k : Nat} {ts us : List Token} {left right : Expr} {m n : Nat}
    {sign : Token} {op : BinaryOp} (hleft : Derives (.chain (k + 1)) ts left m)
    (hsign : BinaryOp.ofKindAt? (k + 1) sign.kind = some op)
    (hright : Derives (.chain k) us right n) :
    ∃ l ≤ m + n + 1, Derives (.chain (k + 1)) (ts ++ sign :: us)
      (.binary op left right sign.line) l := by
  cases hleft with
  | chain hfirst hlinks =>
    obtain ⟨l, hl, hconcat⟩ := hlinks.links_concat hsign hright
    have hchain := Derives.chain hfirst hconcat
    rw [← List.append_assoc, Link.join_concat] at hchain
    exact ⟨_, by omega, hchain⟩

end Grammar

/-- A graded tree is derived from the tokens of its symbols, at every looseness that its operators
do not exceed. It needs no more levels than it has operators, one between each two operands. -/
theorem Expr.Graded.derives {e : Expr} (h : e.Graded) {ts : List Token}
    (hts : List.Forall₂ IsSymbol ts e.inOrder) {k : Nat}
    (hk : ∀ op ∈ e.operator?, op.looseness ≤ k) :
    ∃ n, 2 * n < ts.length ∧ Derives (.chain k) ts e n := by
  fun_induction Expr.inOrder e generalizing ts k with
  | case1 op left right line ihleft ihright =>
    obtain ⟨hleft, hright, hbefore, hbehind⟩ := h
    have hus := List.forall₂_take_append _ _ _ hts
    have hvs := List.forall₂_drop_append _ _ _ hts
    rw [← List.take_append_drop left.inOrder.length ts]
    generalize List.take left.inOrder.length ts = us at hus ⊢
    generalize List.drop left.inOrder.length ts = vs at hvs ⊢
    cases hvs with
    | @cons sign _ vs _ hsign hvs =>
      cases hsign with
      | sign hsign =>
        -- The operator decides at which looseness the two sides are chains.
        obtain ⟨l, hl⟩ := Nat.exists_eq_add_one_of_ne_zero op.looseness_pos.ne'
        have hat : BinaryOp.ofKindAt? (l + 1) sign.kind = some op := by
          simp [BinaryOp.ofKindAt?, ofKind?_of_symbol hsign, hl]
        obtain ⟨m, hm, hleft⟩ := ihleft hleft hus (k := l + 1) fun o ho =>
          hl ▸ BinaryOp.looseness_le_iff.mpr (hbefore o ho)
        obtain ⟨n, hn, hright⟩ := ihright hright hvs (k := l) fun o ho =>
          Nat.le_of_lt_succ (Nat.lt_of_lt_of_eq (BinaryOp.looseness_lt_iff.mpr (hbehind o ho)) hl)
        obtain ⟨need, hneed, hbinary⟩ := hleft.chain_binary hat hright
        refine ⟨need, ?_, hbinary.chain_looser (hl ▸ hk op rfl)⟩
        simp only [List.length_append, List.length_cons]
        omega
  | case2 e he =>
    cases hts with
    | cons hsymbol hnil =>
      cases hnil with
      | nil => exact ⟨0, by simp, hsymbol.derives.chain_of_operand k⟩

/-! ## Every chain has a graded tree -/

section Operand

variable {e : Expr}

theorem Expr.inOrder_of_operator? (h : e.operator? = none) : e.inOrder = [.operand e] := by
  unfold Expr.inOrder
  split
  · cases h
  · rfl

theorem Expr.graded_of_operator? (h : e.operator? = none) : e.Graded := by
  unfold Expr.Graded
  split
  · cases h
  · trivial

/-- An operator in front of a single operand. -/
theorem Expr.graded_binary {op : BinaryOp} {left : Expr} {line : Nat} (h : e.operator? = none)
    (hleft : left.Graded) (hbefore : ∀ o ∈ left.operator?, op.tightness ≤ o.tightness) :
    (Expr.binary op left e line).Graded :=
  ⟨hleft, Expr.graded_of_operator? h, hbefore, by simp [h]⟩

end Operand

section Attach

variable {link : Link}

theorem Expr.inOrder_attach (h : link.right.operator? = none) (e : Expr) :
    (e.attach link).inOrder = e.inOrder ++ link.symbols := by
  have hright := Expr.inOrder_of_operator? h
  fun_induction Expr.attach link e with
  | case1 op left right line hless ih => simp [Expr.inOrder, ih]
  | case2 op left right line hless => rw [Expr.inOrder, hright, Link.symbols]
  | case3 e he => rw [Expr.inOrder, hright, Link.symbols]

theorem Expr.operator?_attach {e : Expr} {op : BinaryOp} (h : op ∈ (e.attach link).operator?) :
    op = link.op ∨ op ∈ e.operator? := by
  unfold Expr.attach at h
  split at h
  · split at h
    · exact .inr h
    · exact .inl (Option.some.inj h).symm
  · exact .inl (Option.some.inj h).symm

theorem Expr.graded_attach (h : link.right.operator? = none) {e : Expr} (he : e.Graded) :
    (e.attach link).Graded := by
  fun_induction Expr.attach link e with
  | case1 op left right line hless ih =>
    obtain ⟨hleft, hinside, hbefore, hbehind⟩ := he
    refine ⟨hleft, ih hinside, hbefore, fun o ho => ?_⟩
    rcases Expr.operator?_attach ho with rfl | ho
    · exact hless
    · exact hbehind o ho
  | case2 op left right line hless =>
    refine Expr.graded_binary h he fun o ho => ?_
    cases ho
    exact Nat.le_of_not_lt hless
  | case3 e hother =>
    refine Expr.graded_binary h he fun o ho => ?_
    unfold Expr.operator? at ho
    split at ho
    · exact absurd rfl (hother _ _ _ _)
    · cases ho

end Attach

namespace Grammar

/-- The operands have no operators of their own. -/
def AreBare (symbols : List Symbol) : Prop :=
  ∀ e, Symbol.operand e ∈ symbols → e.operator? = none

theorem areBare_of_tokens {ts : List Token} {symbols : List Symbol}
    (h : List.Forall₂ IsSymbol ts symbols) : AreBare symbols := by
  intro e he
  induction h with
  | nil => cases he
  | cons hsymbol _ ih =>
    rcases List.mem_cons.mp he with rfl | he
    · cases hsymbol <;> rfl
    · exact ih he

theorem chainSymbols_concat (first : Expr) (links : List Link) (link : Link) :
    chainSymbols first (links ++ [link]) = chainSymbols first links ++ link.symbols := by
  simp [chainSymbols]

section Trees

variable {first : Expr} {links : List Link}

theorem AreBare.of_concat {link : Link} (h : AreBare (chainSymbols first (links ++ [link]))) :
    AreBare (chainSymbols first links) ∧ link.right.operator? = none := by
  rw [chainSymbols_concat] at h
  exact ⟨fun e he => h e (List.mem_append_left _ he), h _ (by simp [Link.symbols])⟩

theorem exists_graded (h : AreBare (chainSymbols first links)) :
    ∃ e : Expr, e.inOrder = chainSymbols first links ∧ e.Graded := by
  induction links using List.reverseRecOn with
  | nil =>
    have hfirst := h first List.mem_cons_self
    exact ⟨first, Expr.inOrder_of_operator? hfirst, Expr.graded_of_operator? hfirst⟩
  | append_singleton links link ih =>
    obtain ⟨hbare, hlink⟩ := h.of_concat
    obtain ⟨e, horder, hgraded⟩ := ih hbare
    refine ⟨e.attach link, ?_, Expr.graded_attach hlink hgraded⟩
    rw [Expr.inOrder_attach hlink, horder, chainSymbols_concat]

theorem operator?_join {level : Nat} (hfirst : first.operator? = none)
    (hlevel : ∀ link ∈ links, link.op.tightness = level) :
    ∀ o ∈ (Link.join first links).operator?, o.tightness = level := by
  induction links using List.reverseRecOn with
  | nil => simp [Link.join, hfirst]
  | append_singleton links link _ =>
    intro o ho
    rw [Link.join_concat] at ho
    cases ho
    exact hlevel link (by simp)

/-- Operators that bind alike, joined from the left: each has all those before it to its left. -/
theorem join_graded (h : AreBare (chainSymbols first links)) {level : Nat}
    (hlevel : ∀ link ∈ links, link.op.tightness = level) :
    (Link.join first links).inOrder = chainSymbols first links ∧
      (Link.join first links).Graded := by
  have hfirst := h first List.mem_cons_self
  induction links using List.reverseRecOn with
  | nil => exact ⟨Expr.inOrder_of_operator? hfirst, Expr.graded_of_operator? hfirst⟩
  | append_singleton links link ih =>
    obtain ⟨hbare, hlink⟩ := h.of_concat
    obtain ⟨hlinks, hlast⟩ := List.forall_mem_append.mp hlevel
    obtain ⟨horder, hgraded⟩ := ih hbare hlinks
    have hright := Expr.inOrder_of_operator? hlink
    rw [Link.join_concat, chainSymbols_concat, Expr.inOrder, horder, hright, Link.symbols]
    refine ⟨rfl, Expr.graded_binary hlink hgraded fun o ho => ?_⟩
    rw [hlast link List.mem_cons_self, operator?_join hfirst hlinks o ho]

end Trees

end Grammar

/-! ## The parser on chains -/

theorem Expr.Graded.program {ts : List Token} {e : Expr} (h : e.Graded)
    (hts : List.Forall₂ IsSymbol ts e.inOrder) :
    ∃ n, 2 * n < ts.length ∧ Derives .sequence ts e (n + 1) := by
  obtain ⟨n, hn, hchain⟩ := h.derives hts fun o _ =>
    Nat.le.intro o.looseness_add_tightness
  exact ⟨n, hn, hchain.program_of_chain le_rfl⟩

/-- What the parser says of the tokens of a graded tree. -/
theorem Expr.Graded.ofTokens {ts : List Token} {e : Expr} (h : e.Graded)
    (hts : List.Forall₂ IsSymbol ts e.inOrder) {mark : Token} (hmark : mark.kind = .eof) :
    Expr.ofTokens (ts ++ [mark]) = .ok e ∨
      maxNesting ≤ ts.length / 2 ∧
        Expr.ofTokens (ts ++ [mark]) = .error (.tooDeep maxNesting) := by
  obtain ⟨n, hn, hprogram⟩ := h.program hts
  rw [hprogram.ofTokens_append hmark]
  split
  · exact .inl rfl
  · exact .inr ⟨by omega, rfl⟩

namespace Grammar

/-- A chain of fewer operators than there are levels is never too deep. -/
theorem ofTokens_chain_short {ts : List Token} {first : Expr} {links : List Link} {mark : Token}
    (hts : List.Forall₂ IsSymbol ts (chainSymbols first links)) (hmark : mark.kind = .eof)
    (hshort : links.length < maxNesting) :
    Expr.ofTokens (ts ++ [mark]) ≠ .error (.tooDeep maxNesting) := by
  obtain ⟨e, horder, hgraded⟩ := exists_graded (areBare_of_tokens hts)
  have hlength : ts.length = 2 * links.length + 1 := by
    rw [hts.length_eq, chainSymbols, List.length_cons, List.length_flatMap]
    simp [Link.symbols, Nat.mul_comm]
  rcases hgraded.ofTokens (horder ▸ hts) hmark with hread | ⟨hlong, -⟩
  · simp [hread]
  · omega

/-- A chain of names and numbers with operators between them is read, unless it is too deep, as
the only tree with these symbols from left to right in which no operator has one to its left that
binds less, or one to its right that does not bind more. So operators that bind alike are joined
from the left. -/
theorem ofTokens_chain {ts : List Token} {first : Expr} {links : List Link} {mark : Token}
    (hts : List.Forall₂ IsSymbol ts (chainSymbols first links)) (hmark : mark.kind = .eof)
    (hroom : Expr.ofTokens (ts ++ [mark]) ≠ .error (.tooDeep maxNesting)) :
    ∃ e, Expr.ofTokens (ts ++ [mark]) = .ok e ∧
      (∀ tree : Expr, tree.inOrder = chainSymbols first links ∧ tree.Graded ↔ tree = e) ∧
      ∀ level, (∀ link ∈ links, link.op.tightness = level) → e = Link.join first links := by
  have hbare := areBare_of_tokens hts
  obtain ⟨e, horder, hgraded⟩ := exists_graded hbare
  have hunique (tree : Expr) :
      tree.inOrder = chainSymbols first links ∧ tree.Graded ↔ tree = e := by
    constructor
    · rintro ⟨htree, hgradedTree⟩
      obtain ⟨_, -, hderives⟩ := hgraded.program (horder ▸ hts)
      obtain ⟨_, -, htree⟩ := hgradedTree.program (htree ▸ hts)
      exact htree.sequence_unique hderives
    · rintro rfl
      exact ⟨horder, hgraded⟩
  refine ⟨e, ?_, hunique, fun level hlevel => ?_⟩
  · exact (hgraded.ofTokens (horder ▸ hts) hmark).resolve_right fun h => hroom h.2
  · exact ((hunique _).mp (join_graded hbare hlevel)).symm

/-- `a - 1 - b * 2 == c < d` -/
def mixedTokens : List Token :=
  [⟨.identifier, "a", 1, 1⟩, ⟨.minus, "-", 1, 3⟩, ⟨.number, "1", 1, 5⟩, ⟨.minus, "-", 1, 7⟩,
    ⟨.identifier, "b", 1, 9⟩, ⟨.star, "*", 1, 11⟩, ⟨.number, "2", 1, 13⟩,
    ⟨.equalEqual, "==", 1, 15⟩, ⟨.identifier, "c", 1, 18⟩, ⟨.less, "<", 1, 20⟩,
    ⟨.identifier, "d", 1, 22⟩]

/-- The operators of `mixedTokens` and the operands behind them. -/
def mixedLinks : List Link :=
  [⟨.subtract, .number 1, 1⟩, ⟨.subtract, .identifier "b" 1, 1⟩, ⟨.multiply, .number 2, 1⟩,
    ⟨.equal, .identifier "c" 1, 1⟩, ⟨.less, .identifier "d" 1, 1⟩]

/-- `((a - 1) - (b * 2)) == (c < d)` -/
def mixedTree : Expr :=
  .binary .equal
    (.binary .subtract (.binary .subtract (.identifier "a" 1) (.number 1) 1)
      (.binary .multiply (.identifier "b" 1) (.number 2) 1) 1)
    (.binary .less (.identifier "c" 1) (.identifier "d" 1) 1) 1

theorem mixedTokens_symbols :
    List.Forall₂ IsSymbol mixedTokens (chainSymbols (.identifier "a" 1) mixedLinks) :=
  .cons (.name rfl) (.cons (.sign rfl) (.cons (.number rfl rfl) (.cons (.sign rfl)
    (.cons (.name rfl) (.cons (.sign rfl) (.cons (.number rfl rfl) (.cons (.sign rfl)
      (.cons (.name rfl) (.cons (.sign rfl) (.cons (.name rfl) .nil))))))))))

theorem ofTokens_chain_mixed :
    (List.Forall₂ IsSymbol mixedTokens (chainSymbols (.identifier "a" 1) mixedLinks) ∧
      (mark .eof).kind = .eof ∧
      Expr.ofTokens (mixedTokens ++ [mark .eof]) ≠ .error (.tooDeep maxNesting)) ∧
    Expr.ofTokens (mixedTokens ++ [mark .eof]) = .ok mixedTree := by
  have hroom := ofTokens_chain_short mixedTokens_symbols (kind_mark .eof) (by decide)
  obtain ⟨e, hread, hunique, -⟩ := ofTokens_chain mixedTokens_symbols (kind_mark .eof) hroom
  have htree : mixedTree = e := (hunique mixedTree).mp ⟨rfl, by decide⟩
  exact ⟨⟨mixedTokens_symbols, kind_mark .eof, hroom⟩, htree ▸ hread⟩

end Grammar

end ExprLang
