import ExprLang.Token

/-!
The grammar as a table of rules, each with sequences, alternatives, repetitions and options on its
right, and the lists of kinds of tokens that it derives. This grammar knows only the kinds: it
has no range for numbers, no condition on what can be assigned to, and no bound on nesting.

Two tables derive the same. In the documented one a list is its items with commas in between, and
perhaps a comma behind the last. A reader that sees a comma cannot tell from it whether an item
follows. In the other one, `factored`, what may follow a comma is again a list or nothing, and
the next token decides.

* `documented`: the rules;
* `matches_factored_iff`: the second table derives the same words.
-/

namespace ExprLang.Grammar

/-- What stands on the left of a rule. -/
inductive Nonterminal where
  | sequence | declaration | params | assignment
  | logicOr | logicAnd | equality | comparison | term | factor | unary | call
  | arguments | primary | conditional
  deriving DecidableEq, Repr

/-- What stands on the right of a rule. -/
inductive Ebnf where
  /-- A token of one of these kinds. -/
  | token (kinds : List TokenKind)
  | phrase (name : Nonterminal)
  | both (first second : Ebnf)
  | either (first second : Ebnf)
  | many (part : Ebnf)
  | maybe (part : Ebnf)
  deriving DecidableEq, Repr

namespace Ebnf

instance : Append Ebnf := ⟨both⟩

instance : OrOp Ebnf := ⟨either⟩

/-- A sequence between parentheses. -/
def grouped : Ebnf := token [.leftParen] ++ phrase .sequence ++ token [.rightParen]

/-- A sequence between braces. -/
def braced : Ebnf := token [.leftBrace] ++ phrase .sequence ++ token [.rightBrace]

/-- One parameter. -/
def param : Ebnf := maybe (token [.constWord]) ++ token [.identifier]

/-- Items with commas between them; a comma may follow the last one. -/
def listed (item : Ebnf) : Ebnf :=
  item ++ many (token [.comma] ++ item) ++ maybe (token [.comma])

/-- The same list, where what follows a comma is a list or nothing. -/
def factoredList (name : Nonterminal) (item : Ebnf) : Ebnf :=
  item ++ maybe (token [.comma] ++ maybe (phrase name))

/-- Operands with operators between them. -/
def chained (signs : List TokenKind) (operand : Nonterminal) : Ebnf :=
  phrase operand ++ many (token signs ++ phrase operand)

end Ebnf

open Ebnf

/-- The grammar, as it is documented. -/
def documented : Nonterminal → Ebnf
  | .sequence => phrase .declaration ++ many (token [.semicolon] ++ phrase .declaration)
  | .declaration =>
      token [.letWord, .constWord] ++ token [.identifier] ++ token [.equal] ++ phrase .declaration
      ||| token [.funcWord] ++ token [.leftParen] ++ maybe (phrase .params) ++ token [.rightParen]
        ++ token [.arrow] ++ braced
      ||| token [.whileWord] ++ grouped ++ braced
      ||| phrase .assignment
  | .params => listed param
  | .assignment => phrase .logicOr ++ maybe (token [.equal] ++ phrase .declaration)
  | .logicOr => chained [.orOr] .logicAnd
  | .logicAnd => chained [.andAnd] .equality
  | .equality => chained [.equalEqual, .bangEqual] .comparison
  | .comparison => chained [.less, .lessEqual, .greater, .greaterEqual] .term
  | .term => chained [.plus, .minus] .factor
  | .factor => chained [.star, .slash, .percent] .unary
  | .unary => token [.minus, .bang] ++ phrase .unary ||| phrase .call
  | .call =>
      phrase .primary ++
        many (token [.leftParen] ++ maybe (phrase .arguments) ++ token [.rightParen])
  | .arguments => listed (phrase .declaration)
  | .primary =>
      token [.number, .trueWord, .falseWord, .nullWord, .identifier]
      ||| grouped ||| braced ||| phrase .conditional
  | .conditional =>
      token [.ifWord] ++ grouped ++ braced ++ many (token [.elifWord] ++ grouped ++ braced)
        ++ maybe (token [.elseWord] ++ braced)

/-- The grammar with other rules for lists. -/
def factored : Nonterminal → Ebnf
  | .params => factoredList .params param
  | .arguments => factoredList .arguments (phrase .declaration)
  | name => documented name

/-- `Matches rules e w`: the kinds `w` are a word of `e`. -/
inductive Matches (rules : Nonterminal → Ebnf) : Ebnf → List TokenKind → Prop where
  | token {kinds : List TokenKind} {kind : TokenKind} (h : kind ∈ kinds) :
      Matches rules (.token kinds) [kind]
  | phrase {name : Nonterminal} {w : List TokenKind} (h : Matches rules (rules name) w) :
      Matches rules (.phrase name) w
  | both {a b : Ebnf} {u v : List TokenKind} (ha : Matches rules a u) (hb : Matches rules b v) :
      Matches rules (.both a b) (u ++ v)
  | left {a b : Ebnf} {w : List TokenKind} (h : Matches rules a w) : Matches rules (.either a b) w
  | right {a b : Ebnf} {w : List TokenKind} (h : Matches rules b w) : Matches rules (.either a b) w
  | none {a : Ebnf} : Matches rules (.many a) []
  | more {a : Ebnf} {u v : List TokenKind} (ha : Matches rules a u)
      (hmore : Matches rules (.many a) v) : Matches rules (.many a) (u ++ v)
  | absent {a : Ebnf} : Matches rules (.maybe a) []
  | present {a : Ebnf} {w : List TokenKind} (h : Matches rules a w) : Matches rules (.maybe a) w

/-- The words of the grammar, without end marks. -/
def Sentence (w : List TokenKind) : Prop := Matches documented (.phrase .sequence) w

/-! ## End marks -/

/-- Whether an end mark stands on the right of a rule. -/
def Ebnf.mentionsEnd : Ebnf → Bool
  | .token kinds => kinds.contains .eof
  | .phrase _ => false
  | .both a b | .either a b => a.mentionsEnd || b.mentionsEnd
  | .many a | .maybe a => a.mentionsEnd

theorem mentionsEnd_documented (name : Nonterminal) : (documented name).mentionsEnd = false := by
  cases name <;> rfl

theorem Matches.no_end {e : Ebnf} {w : List TokenKind} (h : Matches documented e w)
    (he : e.mentionsEnd = false) : .eof ∉ w := by
  induction h with
  | token h =>
    intro hend
    cases List.mem_singleton.mp hend
    simp_all [Ebnf.mentionsEnd]
  | phrase _ ih => exact ih (mentionsEnd_documented _)
  | _ => simp_all [Ebnf.mentionsEnd]

/-! ## Both tables -/

section Tables

variable {rules rules' : Nonterminal → Ebnf}

/-- A table derives the words of another one, if it derives those of its right sides. -/
theorem Matches.transfer (hrules : ∀ name w, Matches rules' (rules name) w →
      Matches rules' (rules' name) w) {e : Ebnf} {w : List TokenKind} (h : Matches rules e w) :
    Matches rules' e w := by
  induction h with
  | token h => exact .token h
  | phrase _ ih => exact .phrase (hrules _ _ ih)
  | both _ _ iha ihb => exact .both iha ihb
  | left _ ih => exact .left ih
  | right _ ih => exact .right ih
  | none => exact .none
  | more _ _ iha ihmore => exact .more iha ihmore
  | absent => exact .absent
  | present _ ih => exact .present ih

/-- What follows the first item of a list, in the other form. -/
theorem matches_factored_tail {name : Nonterminal} {item : Ebnf}
    (hname : rules name = factoredList name item) {u v : List TokenKind}
    (hitems : Matches rules (many (token [.comma] ++ item)) u)
    (hcomma : Matches rules (maybe (token [.comma])) v) :
    Matches rules (maybe (token [.comma] ++ maybe (phrase name))) (u ++ v) := by
  generalize he : many (token [.comma] ++ item) = e at hitems
  induction hitems with
  | none =>
    cases hcomma with
    | absent => exact .absent
    | present h =>
      have hlast := Matches.both h (.absent (a := phrase name))
      rw [List.append_nil] at hlast
      exact .present hlast
  | more hpart _ _ ih =>
    cases he
    cases hpart with
    | both hc hitem =>
      have hrest : Matches rules (factoredList name item) _ := .both hitem (ih rfl)
      rw [← hname] at hrest
      rw [List.append_assoc, List.append_assoc]
      exact .present (.both hc (.present (.phrase hrest)))
  | _ => cases he

theorem matches_factoredList {name : Nonterminal} {item : Ebnf}
    (hname : rules name = factoredList name item) {w : List TokenKind}
    (h : Matches rules (listed item) w) : Matches rules (factoredList name item) w := by
  cases h with
  | both h hcomma =>
    cases h with
    | both hitem hitems =>
      rw [List.append_assoc]
      exact .both hitem (matches_factored_tail hname hitems hcomma)

theorem matches_list {item : Ebnf} {u v w : List TokenKind} (hitem : Matches rules item u)
    (hitems : Matches rules (many (token [.comma] ++ item)) v)
    (hcomma : Matches rules (maybe (token [.comma])) w) :
    Matches rules (listed item) (u ++ v ++ w) :=
  .both (.both hitem hitems) hcomma

theorem matches_listed {name : Nonterminal} {item : Ebnf} (hname : rules name = listed item)
    {w : List TokenKind} (h : Matches rules (factoredList name item) w) :
    Matches rules (listed item) w := by
  cases h with
  | both hitem htail =>
    cases htail with
    | absent => simpa using matches_list hitem .none .absent
    | present htail =>
      cases htail with
      | both hc hmore =>
        cases hmore with
        | absent => simpa using matches_list hitem .none (.present hc)
        | present hmore =>
          cases hmore with
          | phrase hmore =>
            rw [hname] at hmore
            cases hmore with
            | both h hcomma =>
              cases h with
              | both hitem' hitems =>
                simpa using matches_list hitem (.more (.both hc hitem') hitems) hcomma

end Tables

theorem matches_factored_iff {e : Ebnf} {w : List TokenKind} :
    Matches factored e w ↔ Matches documented e w := by
  constructor
  · refine Matches.transfer fun name w h => ?_
    cases name with
    | params | arguments => exact matches_listed rfl h
    | _ => exact h
  · refine Matches.transfer fun name w h => ?_
    cases name with
    | params | arguments => exact matches_factoredList rfl h
    | _ => exact h

end ExprLang.Grammar
