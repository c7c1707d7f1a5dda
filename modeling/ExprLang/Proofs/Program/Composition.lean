import ExprLang.Program
import ExprLang.Proofs.Evaluation.Adequacy
import ExprLang.Proofs.Grammar.Height
import ExprLang.Proofs.Lines.Evaluation
import ExprLang.Proofs.Lines.Reading
import ExprLang.Proofs.Token.Joining
import Mathlib

/-!
Programs compose. With a semicolon between them two programs are one program, which does what
the first does and then, if that gives a value, what the second does, in the same scope. The
lines of the second program are greater by the number of line feeds in the first.

* `Derives.join`: two sequences with a semicolon between them;
* `evaluates_append_iff`: the evaluation of such a sequence;
* `Expr.eval_lowered`: a program on lower lines, and which lines of its outcome are its own;
* `programs_compose`: from the texts to the outcome.
-/

namespace ExprLang

/-- Items as one expression. A single one stands for itself. -/
def Expr.ofItems : List Expr → Expr
  | [e] => e
  | es => .sequence es

namespace Grammar

/-! ## The grammar -/

theorem Derives.items_append {semicolon : Token} (hsemicolon : semicolon.kind = .semicolon)
    {vs : List Token} {y : Expr} {ys : List Expr} {k l : Nat}
    (hy : Derives .declaration vs y k) {ws : List Token} (hys : Derives .items ws ys l) :
    ∀ {us : List Token} {xs : List Expr} {n : Nat}, Derives .items us xs n →
      Derives .items (us ++ semicolon :: (vs ++ ws)) (xs ++ y :: ys) (max n (max k l))
  | _, _, _, .noItems => by
    rw [Nat.zero_max]
    exact .item hsemicolon hy hys
  | _, _, _, .item hs hitem hitems => by
    have hrest := items_append hsemicolon hy hys hitems
    rw [List.cons_append, List.append_assoc, Nat.max_assoc]
    exact .item hs hitem hrest

/-- The items of a sequence. -/
theorem Derives.sequence_items {ts : List Token} {e : Expr} {n : Nat}
    (h : Derives .sequence ts e n) :
    ∃ us vs x xs k l, ts = us ++ vs ∧ e = Expr.ofItems (x :: xs) ∧ n = max k l ∧
      Derives .declaration us x k ∧ Derives .items vs xs l := by
  cases h with
  | sequence hfirst hmore =>
    refine ⟨_, _, _, _, _, _, rfl, ?_, rfl, hfirst, hmore⟩
    next xs _ _ => cases xs <;> rfl

/-- Two sequences with a semicolon between them are a sequence, which needs no more levels. -/
theorem Derives.join {ts us : List Token} {a b : Expr} {m n : Nat} {semicolon : Token}
    (ha : Derives .sequence ts a m) (hsemicolon : semicolon.kind = .semicolon)
    (hb : Derives .sequence us b n) :
    ∃ x xs y ys, a = Expr.ofItems (x :: xs) ∧ b = Expr.ofItems (y :: ys) ∧
      Derives .sequence (ts ++ semicolon :: us) (.sequence (x :: xs ++ y :: ys)) (max m n) := by
  obtain ⟨ts₁, ts₂, x, xs, k, l, rfl, rfl, rfl, hx, hxs⟩ := ha.sequence_items
  obtain ⟨us₁, us₂, y, ys, k', l', rfl, rfl, rfl, hy, hys⟩ := hb.sequence_items
  refine ⟨x, xs, y, ys, rfl, rfl, ?_⟩
  have hjoin := Derives.sequence hx (Derives.items_append hsemicolon hy hys hxs)
  simpa [Nat.max_assoc] using hjoin

/-! ## The parser -/

theorem getLast?_of_ofTokens {ts : List Token} {e : Expr} (h : Expr.ofTokens ts = .ok e) :
    ts.getLast?.map Token.kind = some .eof := by
  unfold Expr.ofTokens at h
  split at h
  · cases h
  · next last hlast =>
    split at h
    · next hend => rw [hlast, Option.map_some, hend]
    · cases h

/-- Two programs with a semicolon in place of the first one's end mark. -/
theorem ofTokens_join {before us : List Token} {mark semicolon : Token} {a b : Expr}
    (hbefore : ∀ t ∈ before, t.kind ≠ .eof) (hsemicolon : semicolon.kind = .semicolon)
    (ha : Expr.ofTokens (before ++ [mark]) = .ok a) (hb : Expr.ofTokens us = .ok b) :
    ∃ x xs y ys, a = Expr.ofItems (x :: xs) ∧ b = Expr.ofItems (y :: ys) ∧
      Expr.ofTokens (before ++ semicolon :: us) = .ok (.sequence (x :: xs ++ y :: ys)) := by
  have hmark : mark.kind = .eof := by simpa using getLast?_of_ofTokens ha
  have hlast := getLast?_of_ofTokens hb
  obtain ⟨last, hmem, hend⟩ := Option.map_eq_some_iff.mp hlast
  obtain ⟨mark', behind, hmark', hus⟩ := exists_end (List.mem_of_getLast? hmem) hend
  obtain ⟨m, hm, ha, -⟩ := derives_of_ofTokens ha
  obtain ⟨n, hn, hb, -⟩ := derives_of_ofTokens hb
  rw [beforeEnd_append hbefore hmark] at ha
  obtain ⟨x, xs, y, ys, hxs, hys, hjoin⟩ := ha.join hsemicolon hb
  refine ⟨x, xs, y, ys, hxs, hys, ?_⟩
  have hlast' : (before ++ semicolon :: us).getLast?.map Token.kind = some .eof := by
    cases us with
    | nil => cases hlast
    | cons u us => simpa using hlast
  have hsplit : before ++ semicolon :: us =
      (before ++ semicolon :: beforeEnd us) ++ mark' :: behind := by
    rw [List.append_assoc, List.cons_append, ← hus]
  rw [ofTokens_eq_program hlast', hsplit, hjoin.program_eq hmark',
    if_pos (Nat.max_le.mpr ⟨hm, hn⟩)]
  rfl

/-- Tokens on lower lines are read as the expression on lower lines. -/
theorem ofTokens_lowered {ts us : List Token} {e : Expr} {k : Nat} (h : Expr.ofTokens ts = .ok e)
    (hus : us.map (fun t => (t.kind, t.lexeme, t.line)) =
      ts.map fun t => (t.kind, t.lexeme, t.line + k)) :
    Expr.ofTokens us = .ok (e.relabel (· + k)) := by
  have hfactor : ∀ line : Nat → Nat, Token.transcribe line id =
      (fun p : TokenKind × String × Nat => (⟨p.1, p.2.1, p.2.2, 1⟩ : Token)) ∘
        fun t => (t.kind, t.lexeme, line t.line) := by
    intro line
    funext t
    simp only [Token.transcribe, id, ite_self, Function.comp_apply]
  have hmap : us.map (Token.transcribe id id) = ts.map (Token.transcribe (· + k) id) := by
    rw [hfactor, hfactor, ← List.map_map, ← List.map_map]
    exact congrArg _ hus
  have hread : Expr.ofTokens (ts.map (Token.transcribe (· + k) id)) = .ok (e.relabel (· + k)) :=
    ofTokens_transcribe_ok (fun _ => rfl) ts h
  have hplain := ofTokens_transcribe (fun _ => rfl : ∀ w, id (id w) = id w) us (rfl : id 1 = 1)
  rw [hmap, hread] at hplain
  cases hresult : Expr.ofTokens us with
  | ok e' =>
    rw [hresult] at hplain
    rw [Except.ok.inj hplain, Expr.relabel_id]
  | error fault =>
    rw [hresult] at hplain
    cases hplain

end Grammar

/-! ## The rules -/

section Rules

variable {limits : Limits} {d : Nat} {s : ScopeId} {w w' : World} {r : Except Fault Value}

theorem evaluates_ofItems {x : Expr} {xs : List Expr} :
    Evaluates limits d s (.expr (.ofItems (x :: xs))) w r w' ↔
      Evaluates limits d s (.expr (.sequence (x :: xs))) w r w' := by
  cases xs with
  | nil =>
    constructor
    · exact .lastItem
    · intro h
      cases h with
      | lastItem h => exact h
  | cons y ys => exact Iff.rfl

/-- Items behind others are evaluated only if those give a value. -/
theorem evaluates_append_iff {x y : Expr} {xs ys : List Expr} :
    Evaluates limits d s (.expr (.sequence (x :: xs ++ y :: ys))) w r w' ↔
      (∃ f, r = .error f ∧ Evaluates limits d s (.expr (.sequence (x :: xs))) w (.error f) w') ∨
      ∃ v w₁, Evaluates limits d s (.expr (.sequence (x :: xs))) w (.ok v) w₁ ∧
        Evaluates limits d s (.expr (.sequence (y :: ys))) w₁ r w' := by
  induction xs generalizing x w with
  | nil =>
    constructor
    · intro h
      cases h with
      | item hitem hitems => exact .inr ⟨_, _, .lastItem hitem, hitems⟩
      | itemFails hitem => exact .inl ⟨_, rfl, .lastItem hitem⟩
    · rintro (⟨f, rfl, h⟩ | ⟨v, w₁, h, hitems⟩)
      · cases h with
        | lastItem hitem => exact .itemFails hitem
      · cases h with
        | lastItem hitem => exact .item hitem hitems
  | cons z xs ih =>
    constructor
    · intro h
      cases h with
      | item hitem hitems =>
        rcases ih.mp hitems with ⟨f, rfl, hfails⟩ | ⟨v, w₁, hxs, hys⟩
        · exact .inl ⟨f, rfl, .item hitem hfails⟩
        · exact .inr ⟨v, w₁, .item hitem hxs, hys⟩
      | itemFails hitem => exact .inl ⟨_, rfl, .itemFails hitem⟩
    · rintro (⟨f, rfl, h⟩ | ⟨v, w₁, h, hys⟩)
      · cases h with
        | item hitem hxs => exact .item hitem (ih.mpr (.inl ⟨f, rfl, hxs⟩))
        | itemFails hitem => exact .itemFails hitem
      · cases h with
        | item hitem hxs => exact .item hitem (ih.mpr (.inr ⟨v, w₁, hxs, hys⟩))

end Rules

/-! ## Lower lines -/

/-- A line of the program that runs, marked as such. -/
def ownLine (l : Nat) : Nat := 2 * l + 1

/-- A line that was there before the program ran, marked as such. -/
def otherLine (l : Nat) : Nat := 2 * l

/-- Takes the marks away. The program's own lines are lowered by `k`. -/
def unmark (k l : Nat) : Nat := l / 2 + if l % 2 = 1 then k else 0

theorem unmark_ownLine (k l : Nat) : unmark k (ownLine l) = l + k := by
  unfold unmark ownLine
  rw [if_pos (by omega)]
  omega

theorem unmark_otherLine (k l : Nat) : unmark k (otherLine l) = l := by
  unfold unmark otherLine
  rw [if_neg (by omega)]
  omega

open Machine

/-- An evaluation in which every line is marked, so that its outcome tells which lines stem from
the expression and which from the state. -/
def Expr.evalMarked (limits : Limits) (n : Nat) (e : Expr) (s : ScopeId) (state : State) :
    Option Outcome :=
  (e.relabel ownLine).eval limits n s (state.relabel otherLine)

/-- An expression on lower lines runs as on its own lines, with its own lines lower in the
outcome and no others. -/
theorem Expr.eval_lowered (k : Nat) (limits : Limits) (n : Nat) (e : Expr) (s : ScopeId)
    (state : State) :
    (e.relabel (· + k)).eval limits n s state =
      (e.evalMarked limits n s state).map (Outcome.relabel (unmark k)) := by
  have hown : unmark k ∘ ownLine = (· + k) := funext (unmark_ownLine k)
  rw [Expr.evalMarked, ← Expr.eval_relabel, Expr.relabel_relabel, hown,
    State.relabel_cancel (unmark_otherLine k)]

theorem Expr.eval_unmarked (limits : Limits) (n : Nat) (e : Expr) (s : ScopeId) (state : State) :
    e.eval limits n s state =
      (e.evalMarked limits n s state).map (Outcome.relabel (unmark 0)) := by
  rw [← Expr.eval_lowered]
  exact congrArg (fun e' : Expr => e'.eval limits n s state) e.relabel_id.symm

/-! ## Composition -/

open Grammar

theorem Expr.ofSource_eq_ok_iff {source : String} {e : Expr} :
    Expr.ofSource source = .ok e ↔
      ∃ ts, Token.ofSource source = .ok ts ∧ Expr.ofTokens ts = .ok e := by
  unfold Expr.ofSource
  cases Token.ofSource source with
  | error f =>
    constructor
    · intro h
      cases h
    · rintro ⟨ts, h, -⟩
      cases h
  | ok ts =>
    constructor
    · exact fun h => ⟨ts, rfl, h⟩
    · rintro ⟨us, hus, h⟩
      cases hus
      exact h

/-- The expression that two programs with a semicolon between them are. -/
theorem ofSource_compose {first second : String} {a b : Expr}
    (ha : Expr.ofSource first = .ok a) (hb : Expr.ofSource second = .ok b) :
    ∃ x xs y ys, a = Expr.ofItems (x :: xs) ∧
      b.relabel (· + first.toList.count '\n') = Expr.ofItems (y :: ys) ∧
      Expr.ofSource (first ++ ";" ++ second) = .ok (.sequence (x :: xs ++ y :: ys)) := by
  obtain ⟨ts, hts, ha⟩ := Expr.ofSource_eq_ok_iff.mp ha
  obtain ⟨us, hus, hb⟩ := Expr.ofSource_eq_ok_iff.mp hb
  obtain ⟨before, mark, us', rfl, hbefore, hjoin, hlower⟩ := Token.ofSource_join hts hus
  have hb' := ofTokens_lowered hb hlower
  have hsemicolon : (⟨.semicolon, ";", mark.line, mark.column⟩ : Token).kind = .semicolon := rfl
  obtain ⟨x, xs, y, ys, hxs, hys, hab⟩ := ofTokens_join hbefore hsemicolon ha hb'
  exact ⟨x, xs, y, ys, hxs, hys, Expr.ofSource_eq_ok_iff.mpr ⟨_, hjoin, hab⟩⟩

/-- A sequence of items runs as the first items and, if these give a value, the others. -/
theorem eval_sequence_append {x y : Expr} {xs ys : List Expr} {limits : Limits} {s : ScopeId}
    {state : State} {o : Outcome} :
    (∃ n, (Expr.sequence (x :: xs ++ y :: ys)).eval limits n s state = some o) ↔
      (∃ n f, (Expr.ofItems (x :: xs)).eval limits n s state = some o ∧ o.result = .error f) ∨
      ∃ n m v o₁, (Expr.ofItems (x :: xs)).eval limits n s state = some o₁ ∧ o₁.result = .ok v ∧
        (Expr.ofItems (y :: ys)).eval limits m s o₁.state = some o := by
  obtain ⟨w, d⟩ := state
  rw [eval_iff_evaluates, evaluates_append_iff]
  constructor
  · rintro ⟨hcalls, ⟨f, hf, h⟩ | ⟨v, w₁, h, h'⟩⟩
    · rw [← hf, ← evaluates_ofItems] at h
      obtain ⟨n, hn⟩ := (eval_iff_evaluates ..).mpr ⟨hcalls, h⟩
      exact .inl ⟨n, f, hn, hf⟩
    · obtain ⟨n, hn⟩ := eval_of_evaluates (evaluates_ofItems.mpr h)
      obtain ⟨m, hm⟩ := (eval_iff_evaluates ..).mpr ⟨hcalls, evaluates_ofItems.mpr h'⟩
      exact .inr ⟨n, m, v, _, hn, rfl, hm⟩
  · rintro (⟨n, f, hn, hf⟩ | ⟨n, m, v, o₁, hn, hv, hm⟩)
    · obtain ⟨hcalls, h⟩ := evaluates_of_eval hn
      rw [evaluates_ofItems, hf] at h
      exact ⟨hcalls, .inl ⟨f, hf, h⟩⟩
    · obtain ⟨hcalls, h⟩ := evaluates_of_eval hn
      obtain ⟨r₁, ⟨w₁, d₁⟩⟩ := o₁
      cases hcalls
      cases hv
      obtain ⟨hcalls', h'⟩ := evaluates_of_eval hm
      exact ⟨hcalls', .inr ⟨v, w₁, evaluates_ofItems.mp h, evaluates_ofItems.mp h'⟩⟩

/-- Two programs with a semicolon between them are a program. In any scope of any state it ends
as the first program does, if that ends with a fault; and if that gives a value, it ends as the
second program does behind it, with the lines that stem from the second program lower by the
line feeds of the first. It ends in no other way. -/
theorem programs_compose {first second : String} {a b : Expr}
    (ha : Expr.ofSource first = .ok a) (hb : Expr.ofSource second = .ok b) :
    ∃ ab, Expr.ofSource (first ++ ";" ++ second) = .ok ab ∧
      (∀ limits s state o, (∃ n, ab.eval limits n s state = some o) ↔
        (∃ n f, a.eval limits n s state = some o ∧ o.result = .error f) ∨
        ∃ n m v o₁ o₂, a.eval limits n s state = some o₁ ∧ o₁.result = .ok v ∧
          b.evalMarked limits m s o₁.state = some o₂ ∧
          o = o₂.relabel (unmark (first.toList.count '\n'))) ∧
      ∀ limits n s state, b.eval limits n s state =
        (b.evalMarked limits n s state).map (Outcome.relabel (unmark 0)) := by
  obtain ⟨x, xs, y, ys, rfl, hys, hab⟩ := ofSource_compose ha hb
  refine ⟨_, hab, fun limits s state o => ?_, fun limits n s state => b.eval_unmarked ..⟩
  rw [eval_sequence_append, ← hys]
  refine or_congr_right ?_
  constructor
  · rintro ⟨n, m, v, o₁, hn, hv, hm⟩
    rw [Expr.eval_lowered, Option.map_eq_some_iff] at hm
    obtain ⟨o₂, ho₂, rfl⟩ := hm
    exact ⟨n, m, v, o₁, o₂, hn, hv, ho₂, rfl⟩
  · rintro ⟨n, m, v, o₁, o₂, hn, hv, ho₂, rfl⟩
    refine ⟨n, m, v, o₁, hn, hv, ?_⟩
    rw [Expr.eval_lowered, ho₂, Option.map_some]

/-- A division by zero on the first line of the second program is on the third line of both. -/
theorem programs_compose_division :
    (Expr.ofSource "let x = 0;\n\nx" =
        .ok (.sequence [.declare "x" false (.number 0) 1, .identifier "x" 3]) ∧
      Expr.ofSource "1 / x" = .ok (.binary .divide (.number 1) (.identifier "x" 1) 1)) ∧
    ∃ ab, Expr.ofSource ("let x = 0;\n\nx" ++ ";" ++ "1 / x") = .ok ab ∧
      ∃ n o, ab.eval .usual n State.rootScope .fresh = some o ∧
        o.result = .error (.divisionByZero 3) := by
  obtain ⟨a, ha⟩ : ∃ a, a = Expr.sequence [.declare "x" false (.number 0) 1, .identifier "x" 3] :=
    ⟨_, rfl⟩
  obtain ⟨b, hb⟩ : ∃ b, b = Expr.binary .divide (.number 1) (.identifier "x" 1) 1 := ⟨_, rfl⟩
  rw [← ha, ← hb]
  have hread : Expr.ofSource "let x = 0;\n\nx" = .ok a := by
    rw [ha]
    cbv
  have hread' : Expr.ofSource "1 / x" = .ok b := by
    rw [hb]
    cbv
  have hrun : ((a.eval .usual 9 State.rootScope .fresh).bind fun o₁ =>
      (b.evalMarked .usual 9 State.rootScope o₁.state).map fun o₂ =>
        (o₁.result, (o₂.relabel (unmark ("let x = 0;\n\nx".toList.count '\n'))).result)) =
      some (.ok (.number 0), .error (.divisionByZero 3)) := by
    rw [ha, hb]
    cbv
  obtain ⟨o₁, ho₁, hrun⟩ := Option.bind_eq_some_iff.mp hrun
  obtain ⟨o₂, ho₂, hresults⟩ := Option.map_eq_some_iff.mp hrun
  obtain ⟨hvalue, hfault⟩ := Prod.mk.inj hresults
  obtain ⟨ab, hab, hends, -⟩ := programs_compose hread hread'
  obtain ⟨n, hn⟩ := (hends .usual State.rootScope .fresh _).mpr
    (.inr ⟨9, 9, _, o₁, o₂, ho₁, hvalue, ho₂, rfl⟩)
  exact ⟨⟨hread, hread'⟩, ab, hab, n, _, hn, hfault⟩

end ExprLang
