import ExprLang.Proofs.Grammar.Ebnf

/-!
Reading with a stack and one token of lookahead. The stack holds what is still expected. A token
that is expected is taken from the input; every other item on top of the stack is replaced by its
parts, and where there is a choice, the next token decides it.

That the next token can decide is a property of the grammar, and it is checked by computation
(`safe_factored`): with tables of the kinds that phrases begin with and of those that can follow
them, alternatives begin differently, and an optional part begins differently from what can
follow it.

So no step loses a word that agrees with the input as far as the next token (`Run.keeps`), and
all that was read can be completed with any word of the stack (`Run.completes`). A reader that
works like this stops at the first token that no word has there.
-/

namespace ExprLang.Grammar

namespace Ebnf

/-! ## First and following tokens -/

/-- The kinds that a leaf, a group, a block or a conditional begins with. -/
def firstPrimary : List TokenKind :=
  [.number, .trueWord, .falseWord, .nullWord, .identifier, .leftParen, .leftBrace, .ifWord]

/-- The kinds that an operand begins with. -/
def firstUnary : List TokenKind := .minus :: .bang :: firstPrimary

/-- The kinds that a declaration begins with. -/
def firstDeclaration : List TokenKind :=
  .letWord :: .constWord :: .funcWord :: .whileWord :: firstUnary

/-- The kinds that a phrase can begin with. -/
def firstOf : Nonterminal → List TokenKind
  | .sequence | .declaration | .arguments => firstDeclaration
  | .params => [.constWord, .identifier]
  | .assignment | .logicOr | .logicAnd | .equality | .comparison | .term | .factor
  | .unary => firstUnary
  | .call | .primary => firstPrimary
  | .conditional => [.ifWord]

/-- The kinds that can follow a declaration. -/
def followDeclaration : List TokenKind := [.eof, .rightParen, .rightBrace, .semicolon, .comma]

/-- The kinds that can follow an equality of two operands or a phrase that binds less. -/
def followEquality : List TokenKind := [.andAnd, .orOr, .equal] ++ followDeclaration

/-- The kinds that can follow a sum. -/
def followTerm : List TokenKind :=
  [.less, .lessEqual, .greater, .greaterEqual, .equalEqual, .bangEqual] ++ followEquality

/-- The kinds that can follow an operand. -/
def followUnary : List TokenKind := [.star, .slash, .percent, .plus, .minus] ++ followTerm

/-- The kinds that can follow a phrase. -/
def followOf : Nonterminal → List TokenKind
  | .sequence => [.eof, .rightParen, .rightBrace]
  | .params | .arguments => [.rightParen]
  | .declaration | .assignment => followDeclaration
  | .logicOr => .equal :: followDeclaration
  | .logicAnd => [.orOr, .equal] ++ followDeclaration
  | .equality => followEquality
  | .comparison => [.equalEqual, .bangEqual] ++ followEquality
  | .term => followTerm
  | .factor => [.plus, .minus] ++ followTerm
  | .unary | .call => followUnary
  | .primary | .conditional => .leftParen :: followUnary

/-- Whether there is a word without tokens. No phrase of a rule is empty. -/
def nullable : Ebnf → Bool
  | token _ | phrase _ => false
  | both a b => a.nullable && b.nullable
  | either a b => a.nullable || b.nullable
  | many _ | maybe _ => true

/-- The kinds that words begin with. -/
def first : Ebnf → List TokenKind
  | token kinds => kinds
  | phrase name => firstOf name
  | both a b => a.first ++ if a.nullable then b.first else []
  | either a b => a.first ++ b.first
  | many a | maybe a => a.first

/-- Whether no kind is in both lists. -/
def apart (ks ls : List TokenKind) : Bool := ks.all fun k => !ls.contains k

/-- Whether the next token decides all choices, where the kinds `follow` can come behind. -/
def safe : Ebnf → List TokenKind → Bool
  | token kinds, _ => !kinds.isEmpty
  | phrase name, follow => follow.all (followOf name).contains
  | both a b, follow =>
      a.safe (b.first ++ if b.nullable then follow else []) && b.safe follow
  | either a b, follow =>
      a.safe follow && b.safe follow && !a.nullable && !b.nullable && apart a.first b.first
  | many a, follow => a.safe (a.first ++ follow) && !a.nullable && apart a.first follow
  | maybe a, follow => a.safe follow && !a.nullable && apart a.first follow

end Ebnf

open Ebnf

theorem nullable_factored (name : Nonterminal) : (factored name).nullable = false := by
  cases name <;> rfl

theorem first_factored (name : Nonterminal) :
    (factored name).first.all (firstOf name).contains = true := by
  cases name <;> rfl

theorem safe_factored (name : Nonterminal) : (factored name).safe (followOf name) = true := by
  cases name <;> rfl

/-! ## Words -/

/-- A word without tokens is one of a nullable expression, and every other word begins with a kind
that the expression can begin with. -/
theorem Matches.first {e : Ebnf} {w : List TokenKind} (h : Matches factored e w) :
    match w with
    | [] => e.nullable = true
    | k :: _ => k ∈ e.first := by
  induction h with
  | token h => exact h
  | @phrase name w _ ih =>
    cases w with
    | nil =>
      rw [nullable_factored] at ih
      cases ih
    | cons k w =>
      show k ∈ firstOf name
      simpa using List.all_eq_true.mp (first_factored name) k ih
  | @both a b u v _ _ iha ihb =>
    cases u with
    | nil =>
      cases v with
      | nil => simp_all [nullable]
      | cons k v => simp_all [Ebnf.first]
    | cons k u => exact List.mem_append_left _ iha
  | @left a b w _ ih =>
    cases w with
    | nil => simp_all [nullable]
    | cons k w => exact List.mem_append_left _ ih
  | @right a b w _ ih =>
    cases w with
    | nil => simp_all [nullable]
    | cons k w => exact List.mem_append_right _ ih
  | none | absent => rfl
  | @more a u v _ _ iha ihmore =>
    cases u with
    | nil => exact ihmore
    | cons k u => exact iha
  | @present a w _ ih =>
    cases w with
    | nil => rfl
    | cons k w => exact ih

/-- A word of a stack: words of its items, from the top. -/
def MatchesAll : List Ebnf → List TokenKind → Prop
  | [], w => w = []
  | e :: stack, w => ∃ u v, w = u ++ v ∧ Matches factored e u ∧ MatchesAll stack v

/-- The kinds that words of a stack begin with. -/
def firstAll : List Ebnf → List TokenKind
  | [] => []
  | e :: stack => e.first ++ if e.nullable then firstAll stack else []

/-- Whether the next token decides all choices of a stack. -/
def safeAll : List Ebnf → Bool
  | [] => true
  | e :: stack => e.safe (firstAll stack) && safeAll stack

theorem MatchesAll.first {stack : List Ebnf} {k : TokenKind} {w : List TokenKind}
    (h : MatchesAll stack (k :: w)) : k ∈ firstAll stack := by
  induction stack with
  | nil => cases h
  | cons e stack ih =>
    obtain ⟨u, v, hw, he, hstack⟩ := h
    have hfirst := he.first
    cases u with
    | nil =>
      cases hw
      have hnull : e.nullable = true := hfirst
      rw [firstAll, if_pos hnull]
      exact List.mem_append_right _ (ih hstack)
    | cons l u =>
      cases hw
      exact List.mem_append_left _ hfirst

/-! ## Steps -/

/-- Whether the next token is of one of these kinds. -/
def begins (kinds : List TokenKind) : List Token → Bool
  | [] => false
  | t :: _ => kinds.contains t.kind

theorem begins_iff {kinds : List TokenKind} {t : Token} {ts : List Token} :
    begins kinds (t :: ts) = true ↔ t.kind ∈ kinds := by
  simp [begins]

theorem begins_eq_false_iff {kinds : List TokenKind} {t : Token} {ts : List Token} :
    begins kinds (t :: ts) = false ↔ t.kind ∉ kinds := by
  simp [begins]

/-- What the item on top of a stack is replaced by. An option that cannot be left out may also be
taken. -/
inductive Expands (ts : List Token) : List Ebnf → List Ebnf → Prop where
  | phrase {name : Nonterminal} {stack : List Ebnf} :
      Expands ts (.phrase name :: stack) (factored name :: stack)
  | both {a b : Ebnf} {stack : List Ebnf} : Expands ts (.both a b :: stack) (a :: b :: stack)
  | left {a b : Ebnf} {stack : List Ebnf} (h : begins a.first ts = true) :
      Expands ts (.either a b :: stack) (a :: stack)
  | right {a b : Ebnf} {stack : List Ebnf} (h : begins a.first ts = false) :
      Expands ts (.either a b :: stack) (b :: stack)
  | more {a : Ebnf} {stack : List Ebnf} (h : begins a.first ts = true) :
      Expands ts (.many a :: stack) (a :: .many a :: stack)
  | enough {a : Ebnf} {stack : List Ebnf} (h : begins a.first ts = false) :
      Expands ts (.many a :: stack) stack
  | present {a : Ebnf} {stack : List Ebnf}
      (h : begins a.first ts = true ∨ begins (firstAll stack) ts = false) :
      Expands ts (.maybe a :: stack) (a :: stack)
  | absent {a : Ebnf} {stack : List Ebnf} (h : begins a.first ts = false) :
      Expands ts (.maybe a :: stack) stack

/-- `Run stack ts stack' rest`: with this stack the tokens are read up to the rest, and then the
other stack is left. -/
inductive Run : List Ebnf → List Token → List Ebnf → List Token → Prop where
  | refl {stack : List Ebnf} {ts : List Token} : Run stack ts stack ts
  | expand {stack stack₁ stack' : List Ebnf} {ts rest : List Token} (h : Expands ts stack stack₁)
      (hrun : Run stack₁ ts stack' rest) : Run stack ts stack' rest
  | shift {kinds : List TokenKind} {stack stack' : List Ebnf} {t : Token} {ts rest : List Token}
      (h : t.kind ∈ kinds) (hrun : Run stack ts stack' rest) :
      Run (.token kinds :: stack) (t :: ts) stack' rest

theorem Run.trans {stack stack' stack'' : List Ebnf} {ts us vs : List Token}
    (h : Run stack ts stack' us) (h' : Run stack' us stack'' vs) : Run stack ts stack'' vs := by
  induction h with
  | refl => exact h'
  | expand h _ ih => exact .expand h (ih h')
  | shift h _ ih => exact .shift h (ih h')

/-! ## Nothing wrong is read -/

theorem Expands.completes {ts : List Token} {stack stack' : List Ebnf}
    (h : Expands ts stack stack') {w : List TokenKind} (hw : MatchesAll stack' w) :
    MatchesAll stack w := by
  cases h with
  | phrase =>
    obtain ⟨u, v, rfl, hu, hv⟩ := hw
    exact ⟨u, v, rfl, .phrase hu, hv⟩
  | both =>
    obtain ⟨u, v, rfl, hu, v', w', rfl, hv, hw⟩ := hw
    exact ⟨u ++ v', w', (List.append_assoc ..).symm, .both hu hv, hw⟩
  | left =>
    obtain ⟨u, v, rfl, hu, hv⟩ := hw
    exact ⟨u, v, rfl, .left hu, hv⟩
  | right =>
    obtain ⟨u, v, rfl, hu, hv⟩ := hw
    exact ⟨u, v, rfl, .right hu, hv⟩
  | more =>
    obtain ⟨u, v, rfl, hu, v', w', rfl, hv, hw⟩ := hw
    exact ⟨u ++ v', w', (List.append_assoc ..).symm, .more hu hv, hw⟩
  | enough => exact ⟨[], w, rfl, .none, hw⟩
  | present =>
    obtain ⟨u, v, rfl, hu, hv⟩ := hw
    exact ⟨u, v, rfl, .present hu, hv⟩
  | absent => exact ⟨[], w, rfl, .absent, hw⟩

/-- What was read, with any word of the stack that is left behind it, is a word of the stack at
the start. -/
theorem Run.completes {stack stack' : List Ebnf} {ts rest : List Token}
    (h : Run stack ts stack' rest) :
    ∃ before, ts = before ++ rest ∧
      ∀ w, MatchesAll stack' w → MatchesAll stack (before.map Token.kind ++ w) := by
  induction h with
  | refl => exact ⟨[], rfl, fun w hw => hw⟩
  | expand h _ ih =>
    obtain ⟨before, hts, hwords⟩ := ih
    exact ⟨before, hts, fun w hw => h.completes (hwords w hw)⟩
  | @shift kinds _ _ t _ _ h _ ih =>
    obtain ⟨before, hts, hwords⟩ := ih
    exact ⟨t :: before, congrArg (t :: ·) hts,
      fun w hw => ⟨[t.kind], before.map Token.kind ++ w, rfl, .token h, hwords w hw⟩⟩

/-! ## Nothing right is missed -/

theorem not_mem_of_apart {ks ls : List TokenKind} (h : apart ks ls = true) {k : TokenKind}
    (hk : k ∈ ks) : k ∉ ls := by
  simpa using List.all_eq_true.mp h k hk

theorem apart_mono {ks ls ls' : List TokenKind} (hsub : ls ⊆ ls') (h : apart ks ls' = true) :
    apart ks ls = true := by
  refine List.all_eq_true.mpr fun k hk => ?_
  have hnot : k ∉ ls := fun hmem => not_mem_of_apart h hk (hsub hmem)
  simpa using hnot

/-- Fewer kinds that can follow make no choice harder. -/
theorem safe_mono {e : Ebnf} {follow follow' : List TokenKind} (hsub : follow ⊆ follow')
    (h : e.safe follow' = true) : e.safe follow = true := by
  induction e generalizing follow follow' with
  | token kinds => exact h
  | phrase name =>
    exact List.all_eq_true.mpr fun k hk => List.all_eq_true.mp h k (hsub hk)
  | both a b iha ihb =>
    simp only [safe, Bool.and_eq_true] at h ⊢
    refine ⟨iha ?_ h.1, ihb hsub h.2⟩
    split
    · exact List.append_subset.mpr
        ⟨List.subset_append_left _ _, List.Subset.trans hsub (List.subset_append_right _ _)⟩
    · exact fun k hk => hk
  | either a b iha ihb =>
    simp only [safe, Bool.and_eq_true] at h ⊢
    exact ⟨⟨⟨⟨iha hsub h.1.1.1.1, ihb hsub h.1.1.1.2⟩, h.1.1.2⟩, h.1.2⟩, h.2⟩
  | many a ih =>
    simp only [safe, Bool.and_eq_true] at h ⊢
    refine ⟨⟨ih ?_ h.1.1, h.1.2⟩, apart_mono hsub h.2⟩
    exact List.append_subset.mpr
      ⟨List.subset_append_left _ _, List.Subset.trans hsub (List.subset_append_right _ _)⟩
  | maybe a ih =>
    simp only [safe, Bool.and_eq_true] at h ⊢
    exact ⟨⟨ih hsub h.1.1, h.1.2⟩, apart_mono hsub h.2⟩

theorem Expands.safe {ts : List Token} {stack stack' : List Ebnf} (h : Expands ts stack stack')
    (hsafe : safeAll stack = true) : safeAll stack' = true := by
  cases h with
  | @phrase name stack =>
    simp only [safeAll, Bool.and_eq_true] at hsafe ⊢
    refine ⟨safe_mono (fun k hk => ?_) (safe_factored name), hsafe.2⟩
    simpa using List.all_eq_true.mp hsafe.1 k hk
  | both => simpa [safeAll, Ebnf.safe, firstAll, and_assoc] using hsafe
  | left =>
    simp only [safeAll, Ebnf.safe, Bool.and_eq_true] at hsafe ⊢
    exact ⟨hsafe.1.1.1.1.1, hsafe.2⟩
  | right =>
    simp only [safeAll, Ebnf.safe, Bool.and_eq_true] at hsafe ⊢
    exact ⟨hsafe.1.1.1.1.2, hsafe.2⟩
  | more =>
    have hmany := hsafe
    simp only [safeAll, Ebnf.safe, Bool.and_eq_true] at hsafe
    simp only [safeAll, Bool.and_eq_true] at hmany ⊢
    exact ⟨hsafe.1.1.1, hmany⟩
  | enough | absent =>
    simp only [safeAll, Bool.and_eq_true] at hsafe
    exact hsafe.2
  | present =>
    simp only [safeAll, Ebnf.safe, Bool.and_eq_true] at hsafe ⊢
    exact ⟨hsafe.1.1.1, hsafe.2⟩

/-- What a word of an expression begins with, if the expression has no empty word. -/
theorem Matches.first_append {e : Ebnf} {u v w : List TokenKind} {k : TokenKind}
    (h : Matches factored e u) (hnull : e.nullable = false) (hw : k :: w = u ++ v) :
    k ∈ e.first := by
  have hfirst := h.first
  cases u with
  | nil =>
    have hempty : e.nullable = true := hfirst
    rw [hnull] at hempty
    cases hempty
  | cons l u =>
    cases hw
    exact hfirst

/-- A step keeps all words that begin with the next token. -/
theorem Expands.keeps {t : Token} {ts : List Token} {stack stack' : List Ebnf}
    (h : Expands (t :: ts) stack stack') (hsafe : safeAll stack = true) {w : List TokenKind}
    (hw : MatchesAll stack (t.kind :: w)) : MatchesAll stack' (t.kind :: w) := by
  cases h with
  | phrase =>
    obtain ⟨u, v, hw, hu, hv⟩ := hw
    cases hu with
    | phrase hu => exact ⟨u, v, hw, hu, hv⟩
  | both =>
    obtain ⟨_, v, hw, hu, hv⟩ := hw
    cases hu with
    | both ha hb => exact ⟨_, _, hw.trans (List.append_assoc ..), ha, _, v, rfl, hb, hv⟩
  | left h =>
    obtain ⟨u, v, hw, hu, hv⟩ := hw
    simp only [safeAll, Ebnf.safe, Bool.and_eq_true, Bool.not_eq_true'] at hsafe
    cases hu with
    | left hu => exact ⟨u, v, hw, hu, hv⟩
    | right hu =>
      -- Both alternatives would begin with the next token.
      exact absurd (hu.first_append hsafe.1.1.2 hw)
        (not_mem_of_apart hsafe.1.2 (begins_iff.mp h))
  | right h =>
    obtain ⟨u, v, hw, hu, hv⟩ := hw
    simp only [safeAll, Ebnf.safe, Bool.and_eq_true, Bool.not_eq_true'] at hsafe
    cases hu with
    | left hu => exact absurd (hu.first_append hsafe.1.1.1.2 hw) (begins_eq_false_iff.mp h)
    | right hu => exact ⟨u, v, hw, hu, hv⟩
  | more h =>
    obtain ⟨_, v, hw, hu, hv⟩ := hw
    simp only [safeAll, Ebnf.safe, Bool.and_eq_true, Bool.not_eq_true'] at hsafe
    cases hu with
    | none =>
      rw [List.nil_append] at hw
      subst hw
      exact absurd hv.first (not_mem_of_apart hsafe.1.2 (begins_iff.mp h))
    | more ha hmore => exact ⟨_, _, hw.trans (List.append_assoc ..), ha, _, v, rfl, hmore, hv⟩
  | enough h =>
    obtain ⟨_, v, hw, hu, hv⟩ := hw
    simp only [safeAll, Ebnf.safe, Bool.and_eq_true, Bool.not_eq_true'] at hsafe
    cases hu with
    | none => exact hw ▸ hv
    | more ha _ =>
      rw [List.append_assoc] at hw
      exact absurd (ha.first_append hsafe.1.1.2 hw) (begins_eq_false_iff.mp h)
  | present h =>
    obtain ⟨u, v, hw, hu, hv⟩ := hw
    simp only [safeAll, Ebnf.safe, Bool.and_eq_true, Bool.not_eq_true'] at hsafe
    cases hu with
    | present hu => exact ⟨u, v, hw, hu, hv⟩
    | absent =>
      rw [List.nil_append] at hw
      subst hw
      rcases h with h | h
      · exact absurd hv.first (not_mem_of_apart hsafe.1.2 (begins_iff.mp h))
      · exact absurd hv.first (begins_eq_false_iff.mp h)
  | absent h =>
    obtain ⟨u, v, hw, hu, hv⟩ := hw
    simp only [safeAll, Ebnf.safe, Bool.and_eq_true, Bool.not_eq_true'] at hsafe
    cases hu with
    | absent => exact hw ▸ hv
    | present hu => exact absurd (hu.first_append hsafe.1.1.2 hw) (begins_eq_false_iff.mp h)

/-- A run keeps all words that agree with the input up to the next token. -/
theorem Run.keeps {stack stack' : List Ebnf} {before : List Token} {t : Token} {ts : List Token}
    (h : Run stack (before ++ t :: ts) stack' (t :: ts)) (hsafe : safeAll stack = true)
    {w : List TokenKind} (hw : MatchesAll stack (before.map Token.kind ++ t.kind :: w)) :
    MatchesAll stack' (t.kind :: w) := by
  generalize hinput : before ++ t :: ts = input at h
  generalize hrest : t :: ts = rest at h
  induction h generalizing before with
  | refl =>
    subst hrest
    obtain rfl : before = [] := by simpa using hinput
    exact hw
  | expand h _ ih =>
    subst hrest
    subst hinput
    refine ih (h.safe hsafe) ?_ rfl rfl
    cases before with
    | nil => exact h.keeps hsafe hw
    | cons b before => exact h.keeps hsafe hw
  | @shift kinds stack _ b input _ h hrun ih =>
    subst hrest
    cases before with
    | nil =>
      -- The rest would be longer than the input behind the token.
      obtain ⟨skipped, hskipped, -⟩ := hrun.completes
      have hlength := congrArg List.length hskipped
      cases hinput
      simp only [List.length_append, List.length_cons] at hlength
      omega
    | cons c before =>
      cases hinput
      simp only [safeAll, Bool.and_eq_true] at hsafe
      obtain ⟨u, v, hw, hu, hv⟩ := hw
      cases hu with
      | token hkind =>
        cases hw
        exact ih hsafe.2 hv rfl rfl

theorem Run.safe {stack stack' : List Ebnf} {ts rest : List Token}
    (h : Run stack ts stack' rest) (hsafe : safeAll stack = true) : safeAll stack' = true := by
  induction h with
  | refl => exact hsafe
  | expand h _ ih => exact ih (h.safe hsafe)
  | shift _ _ ih =>
    simp only [safeAll, Bool.and_eq_true] at hsafe
    exact ih hsafe.2

/-! ## No stack is hopeless -/

theorem exists_chained {name operand : Nonterminal} {signs : List TokenKind}
    (hname : factored name = chained signs operand)
    (h : ∃ w, Matches factored (.phrase operand) w) : ∃ w, Matches factored (.phrase name) w := by
  obtain ⟨w, hw⟩ := h
  have hchained : Matches factored (chained signs operand) _ := .both hw .none
  exact ⟨_, .phrase (hname ▸ hchained)⟩

theorem exists_phrase (name : Nonterminal) : ∃ w, Matches factored (.phrase name) w := by
  have hmem : ∀ {k : TokenKind} {ks : List TokenKind}, k ∈ k :: ks := List.mem_cons_self
  have hprimary : ∃ w, Matches factored (.phrase .primary) w :=
    ⟨_, .phrase (.left (.left (.left (.token hmem))))⟩
  have hcall : ∃ w, Matches factored (.phrase .call) w := by
    obtain ⟨w, hw⟩ := hprimary
    exact ⟨_, .phrase (.both hw .none)⟩
  have hunary : ∃ w, Matches factored (.phrase .unary) w := by
    obtain ⟨w, hw⟩ := hcall
    exact ⟨_, .phrase (.right hw)⟩
  have hfactor : ∃ w, Matches factored (.phrase .factor) w := exists_chained rfl hunary
  have hterm : ∃ w, Matches factored (.phrase .term) w := exists_chained rfl hfactor
  have hcomparison : ∃ w, Matches factored (.phrase .comparison) w := exists_chained rfl hterm
  have hequality : ∃ w, Matches factored (.phrase .equality) w := exists_chained rfl hcomparison
  have hlogicAnd : ∃ w, Matches factored (.phrase .logicAnd) w := exists_chained rfl hequality
  have hlogicOr : ∃ w, Matches factored (.phrase .logicOr) w := exists_chained rfl hlogicAnd
  have hassignment : ∃ w, Matches factored (.phrase .assignment) w := by
    obtain ⟨w, hw⟩ := hlogicOr
    exact ⟨_, .phrase (.both hw .absent)⟩
  have hdeclaration : ∃ w, Matches factored (.phrase .declaration) w := by
    obtain ⟨w, hw⟩ := hassignment
    exact ⟨_, .phrase (.right hw)⟩
  obtain ⟨w, hw⟩ := hdeclaration
  have hsequence : Matches factored (.phrase .sequence) _ := .phrase (.both hw .none)
  cases name with
  | sequence => exact ⟨_, hsequence⟩
  | declaration => exact ⟨w, hw⟩
  | params => exact ⟨_, .phrase (.both (.both .absent (.token hmem)) .absent)⟩
  | assignment => exact hassignment
  | logicOr => exact hlogicOr
  | logicAnd => exact hlogicAnd
  | equality => exact hequality
  | comparison => exact hcomparison
  | term => exact hterm
  | factor => exact hfactor
  | unary => exact hunary
  | call => exact hcall
  | arguments => exact ⟨_, .phrase (.both hw .absent)⟩
  | primary => exact hprimary
  | conditional =>
    have hgrouped : Matches factored grouped _ :=
      .both (.both (.token hmem) hsequence) (.token hmem)
    have hbraced : Matches factored braced _ :=
      .both (.both (.token hmem) hsequence) (.token hmem)
    exact ⟨_, .phrase (.both (.both (.both (.both (.token hmem) hgrouped) hbraced) .none) .absent)⟩

theorem exists_matches {e : Ebnf} {follow : List TokenKind} (h : e.safe follow = true) :
    ∃ w, Matches factored e w := by
  induction e generalizing follow with
  | token kinds =>
    cases kinds with
    | nil => cases h
    | cons k ks => exact ⟨[k], .token List.mem_cons_self⟩
  | phrase name => exact exists_phrase name
  | both a b iha ihb =>
    simp only [safe, Bool.and_eq_true] at h
    obtain ⟨u, hu⟩ := iha h.1
    obtain ⟨v, hv⟩ := ihb h.2
    exact ⟨u ++ v, .both hu hv⟩
  | either a b iha _ =>
    simp only [safe, Bool.and_eq_true] at h
    obtain ⟨w, hw⟩ := iha h.1.1.1.1
    exact ⟨w, .left hw⟩
  | many a _ => exact ⟨[], .none⟩
  | maybe a _ => exact ⟨[], .absent⟩

theorem exists_matchesAll {stack : List Ebnf} (h : safeAll stack = true) :
    ∃ w, MatchesAll stack w := by
  induction stack with
  | nil => exact ⟨[], rfl⟩
  | cons e stack ih =>
    simp only [safeAll, Bool.and_eq_true] at h
    obtain ⟨u, hu⟩ := exists_matches h.1
    obtain ⟨v, hv⟩ := ih h.2
    exact ⟨u ++ v, u, v, rfl, hu, hv⟩

/-! ## The first error -/

/-- A program: a sequence and an end mark. -/
def programStack : List Ebnf := [.phrase .sequence, .token [.eof]]

theorem matchesAll_programStack {w : List TokenKind} :
    MatchesAll programStack w ↔ ∃ u, w = u ++ [.eof] ∧ Sentence u := by
  constructor
  · rintro ⟨u, v, rfl, hu, v', _, rfl, hv, rfl⟩
    cases hv with
    | token hkind =>
      cases List.mem_singleton.mp hkind
      exact ⟨u, rfl, matches_factored_iff.mp hu⟩
  · rintro ⟨u, rfl, hu⟩
    exact ⟨u, [.eof], rfl, matches_factored_iff.mpr hu, [.eof], [], rfl,
      .token List.mem_cons_self, rfl⟩

/-- Where a program cannot be read on, some program has the tokens that were read, and none has
the next token behind them. -/
theorem Run.first_error {ts rest : List Token} {kinds : List TokenKind} {stack : List Ebnf}
    (h : Run programStack ts (.token kinds :: stack) rest) (hstuck : begins kinds rest = false) :
    ∃ before, ts = before ++ rest ∧ (∃ w, Sentence w ∧ before.map Token.kind <+: w) ∧
      ∀ t us, rest = t :: us →
        (t.kind = .eof → ¬ Sentence (before.map Token.kind)) ∧
        (t.kind ≠ .eof → ∀ w, Sentence w → ¬ before.map Token.kind ++ [t.kind] <+: w) := by
  have hsafe : safeAll programStack = true := rfl
  obtain ⟨before, rfl, hwords⟩ := h.completes
  refine ⟨before, rfl, ?_, ?_⟩
  · obtain ⟨v, hv⟩ := exists_matchesAll (h.safe hsafe)
    obtain ⟨w, hw, hsentence⟩ := matchesAll_programStack.mp (hwords v hv)
    refine ⟨w, hsentence, ?_⟩
    -- What was not read has at least the end mark.
    have hsome : v.length ≠ 0 := by
      obtain ⟨u, _, rfl, hu, -⟩ := hv
      cases hu with
      | token => simp
    have hlength := congrArg List.length hw
    simp only [List.length_append, List.length_cons, List.length_nil] at hlength
    exact List.prefix_of_prefix_length_le (hw ▸ List.prefix_append _ _) (List.prefix_append _ _)
      (by omega)
  · rintro t us rfl
    have hno : ∀ w, ¬ MatchesAll programStack (before.map Token.kind ++ t.kind :: w) := by
      intro w hw
      obtain ⟨u, _, hu, hmatch, -⟩ := h.keeps hsafe hw
      cases hmatch with
      | token hkind =>
        cases hu
        exact begins_eq_false_iff.mp hstuck hkind
    refine ⟨fun hend hsentence => ?_, fun _ w hsentence hbegun => ?_⟩
    · refine hno [] (matchesAll_programStack.mpr ⟨_, ?_, hsentence⟩)
      rw [hend]
    · obtain ⟨tail, rfl⟩ := hbegun
      refine hno (tail ++ [.eof]) (matchesAll_programStack.mpr ⟨_, ?_, hsentence⟩)
      simp

end ExprLang.Grammar
