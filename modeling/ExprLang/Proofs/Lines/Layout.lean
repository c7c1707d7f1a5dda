import ExprLang.Program
import ExprLang.Proofs.Lines.Evaluation
import ExprLang.Proofs.Lines.Reading
import Mathlib

/-!
Layout has no influence. Two texts with the same lexemes in the same order are read alike,
whatever stands between the lexemes, and what they are read as runs alike: with all lines taken
for the first one (`oneLine`), expressions, faults, values and states are the same.

* `ofTokens_alike`: tokens with the same transcript are read alike;
* `Expr.eval_alike`: expressions that differ in lines at most run alike, step by step;
* `layout_irrelevant`: both together, from the text to the outcome.
-/

namespace ExprLang

open Grammar

/-- Every line is the first one. -/
def oneLine : Nat → Nat := fun _ => 1

/-- The lexeme of a token, where the grammar reads it. -/
def Token.content? (t : Token) : Option String :=
  if t.kind = .number ∨ t.kind = .identifier then some t.lexeme else none

/-! ## Reading -/

theorem ofTokens_alike {line : Nat → Nat} {word : String → String} {ts us : List Token}
    (hword : ∀ w, word (word w) = word w) (hfirst : line 1 = 1)
    (h : ts.map (Token.transcribe line word) = us.map (Token.transcribe line word)) :
    transcribeResult line word (Expr.ofTokens ts) =
      transcribeResult line word (Expr.ofTokens us) := by
  rw [← ofTokens_transcribe hword ts hfirst, h, ofTokens_transcribe hword us hfirst]

/-- Results of reading that are the same up to lines and words. -/
theorem transcribeResult_eq {line : Nat → Nat} {word : String → String}
    {x y : Except Fault Expr} (h : transcribeResult line word x = transcribeResult line word y) :
    (∃ e e', x = .ok e ∧ y = .ok e' ∧ e.relabel line = e'.relabel line) ∨
    (∃ fault fault', x = .error fault ∧ y = .error fault' ∧
      (fault.relabel line).reword word = (fault'.relabel line).reword word) := by
  cases x with
  | ok e =>
    cases y with
    | ok e' => exact .inl ⟨e, e', rfl, rfl, Except.ok.inj h⟩
    | error fault' => cases h
  | error fault =>
    cases y with
    | ok e' => cases h
    | error fault' => exact .inr ⟨fault, fault', rfl, rfl, Except.error.inj h⟩

/-- Tokens of the same kinds with the same lexemes have one transcript on one line. -/
theorem transcribe_oneLine {ts us : List Token}
    (h : ts.map (fun t => (t.kind, t.lexeme)) = us.map fun t => (t.kind, t.lexeme)) :
    ts.map (Token.transcribe oneLine id) = us.map (Token.transcribe oneLine id) := by
  have hfactor : Token.transcribe oneLine id =
      (fun p : TokenKind × String => (⟨p.1, p.2, 1, 1⟩ : Token)) ∘ fun t => (t.kind, t.lexeme) := by
    funext t
    simp only [Token.transcribe, oneLine, id, ite_self, Function.comp_apply]
  rw [hfactor, ← List.map_map, h, List.map_map]

/-- Tokens of the same kinds and on the same lines, with the same numbers and names, have one
transcript without the other lexemes. -/
theorem transcribe_wordless {ts us : List Token}
    (h : ts.map (fun t => (t.kind, t.content?, t.line)) =
      us.map fun t => (t.kind, t.content?, t.line)) :
    ts.map (Token.transcribe id fun _ => "") = us.map (Token.transcribe id fun _ => "") := by
  have hfactor : Token.transcribe id (fun _ => "") =
      (fun p : TokenKind × Option String × Nat => (⟨p.1, p.2.1.getD "", p.2.2, 1⟩ : Token)) ∘
        fun t => (t.kind, t.content?, t.line) := by
    funext t
    simp only [Token.transcribe, Token.content?, id, Function.comp_apply]
    split <;> rfl
  rw [hfactor, ← List.map_map, h, List.map_map]

/-! ## Running -/

namespace Machine

/-- Outcomes that differ in lines at most: the same is written, values look the same, faults are
of one kind and have one message, and results and states are the same, once every line is the
first one. -/
structure Outcome.Alike (o o' : Outcome) : Prop where
  output : o.state.output = o'.state.output
  text : ∀ v v', o.result = .ok v → o'.result = .ok v' → v.text = v'.text
  fault : ∀ f f', o.result = .error f → o'.result = .error f' →
    f.kind = f'.kind ∧ (f.relabel oneLine).message = (f'.relabel oneLine).message
  same : o.relabel oneLine = o'.relabel oneLine

theorem Outcome.alike_of_relabel {o o' : Outcome} (h : o.relabel oneLine = o'.relabel oneLine) :
    o.Alike o' := by
  have hresult : relabelResult oneLine o.result = relabelResult oneLine o'.result :=
    congrArg Outcome.result h
  have houtput : (o.relabel oneLine).state.output = (o'.relabel oneLine).state.output := by rw [h]
  refine ⟨houtput, fun v v' hv hv' => ?_, fun f f' hf hf' => ?_, h⟩
  · rw [hv, hv'] at hresult
    rw [← Value.text_relabel oneLine v, Except.ok.inj hresult, Value.text_relabel]
  · rw [hf, hf'] at hresult
    have hfault : f.relabel oneLine = f'.relabel oneLine := Except.error.inj hresult
    refine ⟨?_, congrArg Fault.message hfault⟩
    rw [← Fault.kind_relabel oneLine f, hfault, Fault.kind_relabel]

end Machine

open Machine

theorem Expr.eval_alike {e e' : Expr} (h : e.relabel oneLine = e'.relabel oneLine)
    (limits : Limits) (n : Nat) (s : ScopeId) (state : State) :
    Option.Rel Outcome.Alike (e.eval limits n s state) (e'.eval limits n s state) := by
  have hmap : (e.eval limits n s state).map (Outcome.relabel oneLine) =
      (e'.eval limits n s state).map (Outcome.relabel oneLine) := by
    rw [← Expr.eval_relabel, h, Expr.eval_relabel]
  cases hrun : e.eval limits n s state with
  | none =>
    rw [hrun, Option.map_none, eq_comm, Option.map_eq_none_iff] at hmap
    rw [hmap]
    exact .none
  | some o =>
    rw [hrun, Option.map_some, eq_comm, Option.map_eq_some_iff] at hmap
    obtain ⟨o', hrun', ho⟩ := hmap
    rw [hrun']
    exact .some (Outcome.alike_of_relabel ho.symm)

/-! ## From the text to the outcome -/

theorem Expr.ofSource_eq {source : String} {ts : List Token} (h : Token.ofSource source = .ok ts) :
    Expr.ofSource source = Expr.ofTokens ts := by
  unfold Expr.ofSource
  rw [h]
  rfl

/-- Texts with the same lexemes are either programs that differ in lines at most and run
alike, in every scope of every state and within every number of steps; or both are refused, and
the faults differ in the line at most. For lists of tokens, whether they come from a text or
not, columns and the lexemes of tokens other than numbers and names have no influence on the
expression; on a fault they have an influence only through the words that it quotes. -/
theorem layout_irrelevant :
    (∀ a b ts us, Token.ofSource a = .ok ts → Token.ofSource b = .ok us →
      ts.map (fun t => (t.kind, t.lexeme)) = us.map (fun t => (t.kind, t.lexeme)) →
      (∃ e e', Expr.ofSource a = .ok e ∧ Expr.ofSource b = .ok e' ∧
        e.relabel oneLine = e'.relabel oneLine ∧
        ∀ limits n s state,
          Option.Rel Outcome.Alike (e.eval limits n s state) (e'.eval limits n s state)) ∨
      (∃ fault fault', Expr.ofSource a = .error fault ∧ Expr.ofSource b = .error fault' ∧
        fault.relabel oneLine = fault'.relabel oneLine)) ∧
    (∀ ts us : List Token,
      ts.map (fun t => (t.kind, t.content?, t.line)) =
        us.map (fun t => (t.kind, t.content?, t.line)) →
      (∃ e, Expr.ofTokens ts = .ok e ∧ Expr.ofTokens us = .ok e) ∨
      (∃ fault fault', Expr.ofTokens ts = .error fault ∧ Expr.ofTokens us = .error fault' ∧
        fault.kind = fault'.kind ∧
        fault.reword (fun _ => "") = fault'.reword fun _ => "")) := by
  refine ⟨fun a b ts us ha hb h => ?_, fun ts us h => ?_⟩
  · have hread : transcribeResult oneLine id (Expr.ofTokens ts) =
        transcribeResult oneLine id (Expr.ofTokens us) :=
      ofTokens_alike (fun _ => rfl) rfl (transcribe_oneLine h)
    rw [Expr.ofSource_eq ha, Expr.ofSource_eq hb]
    rcases transcribeResult_eq hread with
      ⟨e, e', he, he', hsame⟩ | ⟨fault, fault', hf, hf', hsame⟩
    · exact .inl ⟨e, e', he, he', hsame, Expr.eval_alike hsame⟩
    · exact .inr ⟨fault, fault', hf, hf', by simpa only [Fault.reword_id] using hsame⟩
  · have hread : transcribeResult id (fun _ => "") (Expr.ofTokens ts) =
        transcribeResult id (fun _ => "") (Expr.ofTokens us) :=
      ofTokens_alike (fun _ => rfl) rfl (transcribe_wordless h)
    rcases transcribeResult_eq hread with
      ⟨e, e', he, he', hsame⟩ | ⟨fault, fault', hf, hf', hsame⟩
    · rw [Expr.relabel_id, Expr.relabel_id] at hsame
      exact .inl ⟨e, he, hsame ▸ he'⟩
    · rw [Fault.relabel_id, Fault.relabel_id] at hsame
      refine .inr ⟨fault, fault', hf, hf', ?_, hsame⟩
      rw [← Fault.kind_reword (fun _ => "") fault, hsame, Fault.kind_reword]

/-- A program on three lines. -/
def spread : String := "let f = func(x) =>\n  \x7b x / 0 \x7d;\nf(1)"

/-- The same program on one line. -/
def packed : String := "let f=func(x)=>\x7bx/0\x7d;f(1)"

/-- What is in the programs, apart from places. -/
def spreadLexemes : List (TokenKind × String) :=
  [(.letWord, "let"), (.identifier, "f"), (.equal, "="), (.funcWord, "func"), (.leftParen, "("),
    (.identifier, "x"), (.rightParen, ")"), (.arrow, "=>"), (.leftBrace, "\x7b"),
    (.identifier, "x"), (.slash, "/"), (.number, "0"), (.rightBrace, "\x7d"), (.semicolon, ";"),
    (.identifier, "f"), (.leftParen, "("), (.number, "1"), (.rightParen, ")"), (.eof, "")]

theorem spread_lexemes :
    (Token.ofSource spread).map (·.map fun t => (t.kind, t.lexeme)) = .ok spreadLexemes := by
  cbv

theorem packed_lexemes :
    (Token.ofSource packed).map (·.map fun t => (t.kind, t.lexeme)) = .ok spreadLexemes := by
  cbv

theorem exists_of_map_eq_ok {ε α β : Type} {x : Except ε α} {f : α → β} {b : β}
    (h : x.map f = .ok b) : ∃ a, x = .ok a ∧ f a = b := by
  cases x with
  | error e => cases h
  | ok a => exact ⟨a, rfl, Except.ok.inj h⟩

/-- Two layouts of one program that fails when it runs; and a word in the wrong place, spelled
in two ways. -/
theorem layout_irrelevant_spread :
    (∃ ts us, Token.ofSource spread = .ok ts ∧ Token.ofSource packed = .ok us ∧
      ts.map (fun t => (t.kind, t.lexeme)) = us.map (fun t => (t.kind, t.lexeme))) ∧
    (∃ e e', Expr.ofSource spread = .ok e ∧ Expr.ofSource packed = .ok e' ∧
      e.relabel oneLine = e'.relabel oneLine ∧
      ∀ limits n s state,
        Option.Rel Outcome.Alike (e.eval limits n s state) (e'.eval limits n s state)) ∧
    ∃ fault fault',
      Expr.ofTokens [⟨.letWord, "let", 1, 1⟩, ⟨.eof, "", 1, 4⟩] = .error fault ∧
      Expr.ofTokens [⟨.letWord, "LET", 1, 5⟩, ⟨.eof, "end", 1, 1⟩] = .error fault' ∧
      fault.kind = fault'.kind := by
  obtain ⟨ts, hts, hlexemes⟩ := exists_of_map_eq_ok spread_lexemes
  obtain ⟨us, hus, hlexemes'⟩ := exists_of_map_eq_ok packed_lexemes
  have hsame : ts.map (fun t => (t.kind, t.lexeme)) = us.map (fun t => (t.kind, t.lexeme)) :=
    hlexemes.trans hlexemes'.symm
  refine ⟨⟨ts, us, hts, hus, hsame⟩, ?_, ?_⟩
  · rcases layout_irrelevant.1 spread packed ts us hts hus hsame with hread | ⟨fault, _, hf, -⟩
    · exact hread
    · have hok : (Expr.ofSource spread).toBool = true := by cbv
      rw [hf] at hok
      cases hok
  · rcases layout_irrelevant.2 [⟨.letWord, "let", 1, 1⟩, ⟨.eof, "", 1, 4⟩]
        [⟨.letWord, "LET", 1, 5⟩, ⟨.eof, "end", 1, 1⟩] (by decide) with
      ⟨e, he, -⟩ | ⟨fault, fault', hf, hf', hkind, -⟩
    · have hno : (Expr.ofTokens [⟨.letWord, "let", 1, 1⟩, ⟨.eof, "", 1, 4⟩]).toBool = false := by
        cbv
      rw [he] at hno
      cases hno
    · exact ⟨fault, fault', hf, hf', hkind⟩

end ExprLang
