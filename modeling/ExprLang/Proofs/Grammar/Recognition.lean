import ExprLang.Proofs.Grammar.Completeness
import ExprLang.Proofs.Grammar.EndMark
import ExprLang.Proofs.Grammar.Soundness

/-!
The parser against the grammar. A list of tokens is an expression exactly if the tokens in
front of its first end mark are a sequence of the grammar, unless they are nested too
deep. The expression is unique, and what stands behind the mark has no influence.

* `Derives.sequence_unique`: the grammar is unambiguous;
* `ofTokens_eq_ok_iff_derives`: soundness and completeness of `Expr.ofTokens`.
-/

namespace ExprLang.Grammar

/-- The tokens in front of the first end mark. -/
def beforeEnd (ts : List Token) : List Token := ts.takeWhile fun t => t.kind != .eof

/-- The tokens of a program, as a phrase of the grammar. -/
def DerivesProgram (ts : List Token) (e : Expr) : Prop :=
  ∃ need, Derives .sequence (beforeEnd ts) e need

theorem stopsAt_end {mark : Token} (hmark : mark.kind = .eof) (behind : List Token) :
    StopsAt 9 (mark :: behind) :=
  stopsAt_cons.mpr (by simp [hmark, reach, BinaryOp.ofKind?])

theorem beforeEnd_append {ts : List Token} (hts : ∀ t ∈ ts, t.kind ≠ .eof) {mark : Token}
    (hmark : mark.kind = .eof) (behind : List Token) : beforeEnd (ts ++ mark :: behind) = ts := by
  unfold beforeEnd
  rw [List.takeWhile_append_of_pos (by simpa using hts)]
  simp [hmark]

/-- A list with an end mark is what stands before the first one, the mark, and the rest. -/
theorem exists_end {ts : List Token} {t : Token} (ht : t ∈ ts) (hk : t.kind = .eof) :
    ∃ mark behind, mark.kind = .eof ∧ ts = beforeEnd ts ++ mark :: behind := by
  induction ts with
  | nil => cases ht
  | cons u us ih =>
    by_cases hu : u.kind = .eof
    · exact ⟨u, us, hu, by simp [beforeEnd, hu]⟩
    · have ht : t ∈ us := by
        rcases List.mem_cons.mp ht with rfl | ht
        · exact absurd hk hu
        · exact ht
      obtain ⟨mark, behind, hm, he⟩ := ih ht
      refine ⟨mark, behind, hm, ?_⟩
      have : beforeEnd (u :: us) = u :: beforeEnd us := by simp [beforeEnd, hu]
      rw [this, List.cons_append, ← he]

/-- No tokens are two sequences. A reader with room for both would read both. -/
theorem Derives.sequence_unique {ts : List Token} {e e' : Expr} {m n : Nat}
    (h : Derives .sequence ts e m) (h' : Derives .sequence ts e' n) : e = e' := by
  have hstop : StopsAt 9 [] := fun t us hts => by cases hts
  have hread := h.reads (max m n) [] hstop
  rw [h'.reads (max m n) [] hstop, within, within, if_pos (Nat.le_max_left ..),
    if_pos (Nat.le_max_right ..)] at hread
  cases hread
  rfl

/-! ## Whole programs -/

theorem program_eq (ts : List Token) :
    program ts = (do
      let (e, rest) ← (sequence maxNesting ts).plain
      if rest.head?.map Token.kind = some .eof then .ok e
      else .error (.expected .endOfProgram rest)) := by
  unfold program
  cases sequence maxNesting ts <;> rfl

/-- A program up to its end mark, or the fact that it is nested too deep. -/
theorem Derives.program_eq {ts : List Token} {e : Expr} {need : Nat}
    (h : Derives .sequence ts e need) {mark : Token} (hmark : mark.kind = .eof)
    (behind : List Token) :
    program (ts ++ mark :: behind) =
      if need ≤ maxNesting then .ok e else .error .tooDeep := by
  rw [Grammar.program_eq, h.reads maxNesting _ (stopsAt_end hmark behind), within]
  split
  · rw [ok_bind]
    simp [hmark]
  · rfl

theorem derivesProgram_of_program {ts : List Token} {e : Expr} (h : program ts = .ok e) :
    DerivesProgram ts e := by
  rw [program_eq] at h
  obtain ⟨x, rest, hx, h₁⟩ := ok_of_bind h
  dsimp only at h₁
  split at h₁
  · next hend =>
    cases h₁
    obtain ⟨us, n, rfl, hd⟩ := sound .sequence ts maxNesting _ rest hx
    cases rest with
    | nil => cases hend
    | cons mark behind =>
      have hmark : mark.kind = .eof := by simpa using hend
      exact ⟨n, by rwa [beforeEnd_append hd.not_end hmark]⟩
  · cases h₁

/-- The fault that a program ends with, where `tail` is behind its tokens. -/
theorem program_append {ts tail : List Token}
    (h : (sequence maxNesting (ts ++ tail)).plain = beyond tail (sequence maxNesting ts).plain) :
    program (ts ++ tail) = match (sequence maxNesting ts).plain with
      | .ok (e, rest) =>
          if (rest ++ tail).head?.map Token.kind = some .eof then .ok e
          else .error (.expected .endOfProgram (rest ++ tail))
      | .error (.expected what rest) => .error (.expected what (rest ++ tail))
      | .error refusal => .error refusal := by
  rw [program_eq, h]
  cases (sequence maxNesting ts).plain with
  | ok p => rfl
  | error refusal => cases refusal <;> rfl

/-- A refusal only shows the first of the remaining tokens. -/
theorem toFault_expected (what : Expected) (rest : List Token) (mark : Token)
    (behind : List Token) :
    (Refusal.expected what (rest ++ mark :: behind)).toFault =
      (Refusal.expected what (rest ++ [mark])).toFault := by
  cases rest <;> rfl

/-- What stands behind an end mark has no influence on a program, nor on its faults. -/
theorem program_end {mark : Token} (hmark : mark.kind = .eof) (ts behind : List Token) :
    (program (ts ++ mark :: behind)).mapError Refusal.toFault =
      (program (ts ++ [mark])).mapError Refusal.toFault := by
  rw [program_append (bounded hmark .sequence ts maxNesting),
    program_append (bounded hmark .sequence ts maxNesting)]
  cases (sequence maxNesting ts).plain with
  | ok p =>
    obtain ⟨e, rest⟩ := p
    have hhead : (rest ++ mark :: behind).head? = (rest ++ [mark]).head? := by
      cases rest <;> rfl
    dsimp only
    rw [hhead]
    split
    · rfl
    · exact congrArg Except.error (toFault_expected _ rest mark behind)
  | error refusal =>
    cases refusal with
    | expected what rest => exact congrArg Except.error (toFault_expected what rest mark behind)
    | invalidTarget target line => rfl
    | tooDeep => rfl

/-! ## The parser -/

theorem ofTokens_eq_program {ts : List Token} (h : ts.getLast?.map Token.kind = some .eof) :
    Expr.ofTokens ts = (program ts).mapError Refusal.toFault := by
  obtain ⟨last, hlast, hkind⟩ := Option.map_eq_some_iff.mp h
  unfold Expr.ofTokens
  rw [hlast]
  exact if_pos hkind

theorem mapError_eq_ok_iff {ε ε' α : Type} {f : ε → ε'} {x : Except ε α} {a : α} :
    x.mapError f = .ok a ↔ x = .ok a := by
  constructor
  · intro h
    cases x with
    | ok b =>
      cases h
      rfl
    | error r => cases h
  · rintro rfl
    rfl

/-- Where the last token is an end mark and the nesting stays in its limit, the parser
returns the expression that the grammar derives from the tokens in front of the first end
mark. There is at most one, and the tokens behind that mark change neither an expression
nor a fault. -/
theorem ofTokens_eq_ok_iff_derives (ts : List Token)
    (hend : ts.getLast?.map Token.kind = some .eof)
    (hdeep : Expr.ofTokens ts ≠ .error (.tooDeep maxNesting)) :
    (∀ e, Expr.ofTokens ts = .ok e ↔ DerivesProgram ts e) ∧
    (∀ e e', DerivesProgram ts e → DerivesProgram ts e' → e = e') ∧
    (∀ before mark behind, ts = before ++ mark :: behind → mark.kind = .eof →
      Expr.ofTokens ts = Expr.ofTokens (before ++ [mark])) := by
  refine ⟨fun e => ⟨fun h => ?_, fun h => ?_⟩, ?_, ?_⟩
  · rw [ofTokens_eq_program hend, mapError_eq_ok_iff] at h
    exact derivesProgram_of_program h
  · obtain ⟨need, h⟩ := h
    obtain ⟨last, hlast, hkind⟩ := Option.map_eq_some_iff.mp hend
    obtain ⟨mark, behind, hmark, hts⟩ := exists_end (List.mem_of_getLast? hlast) hkind
    have hprogram := h.program_eq hmark behind
    rw [← hts] at hprogram
    rw [ofTokens_eq_program hend, hprogram] at hdeep ⊢
    by_cases hneed : need ≤ maxNesting
    · rw [if_pos hneed]
      rfl
    · rw [if_neg hneed] at hdeep
      exact absurd rfl hdeep
  · rintro e e' ⟨m, h⟩ ⟨n, h'⟩
    exact h.sequence_unique h'
  · intro before mark behind hts hmark
    rw [ofTokens_eq_program hend, ofTokens_eq_program (by simp [hmark]), hts]
    exact program_end hmark before behind

/-- `(x) = -9223372036854775808`, with a parenthesis behind the end mark. -/
def leastTokens : List Token :=
  [⟨.leftParen, "(", 1, 1⟩, ⟨.identifier, "x", 1, 2⟩, ⟨.rightParen, ")", 1, 3⟩,
    ⟨.equal, "=", 2, 1⟩, ⟨.minus, "-", 3, 1⟩, ⟨.number, "9223372036854775808", 3, 2⟩,
    ⟨.eof, "", 3, 21⟩, ⟨.leftParen, "(", 3, 21⟩, ⟨.eof, "", 3, 22⟩]

theorem leastTokens_derives : ∃ need ≤ maxNesting, Derives .sequence (leastTokens.take 6)
    (.assign "x" (.number Int64.minValue) 2) need := by
  have hname : Derives .operand [⟨.identifier, "x", 1, 2⟩] (.identifier "x" 1) _ :=
    .applied (.application (.name rfl) .noCalls)
  have hgroup : Derives .operand (leastTokens.take 3) (.identifier "x" 1) _ :=
    .applied (.application (.group rfl (.sequence (.simple (.noAssignment
      (hname.chain_of_operand _))) .noItems) rfl) .noCalls)
  have hvalue : Derives .declaration ((leastTokens.drop 4).take 2) (.number Int64.minValue) _ :=
    .simple (.noAssignment ((Derives.least rfl rfl (by decide)).chain_of_operand _))
  exact ⟨_, by decide,
    .sequence (.simple (.assign (hgroup.chain_of_operand _) rfl hvalue)) .noItems⟩

theorem leastTokens_read :
    (leastTokens.getLast?.map Token.kind = some .eof ∧
      Expr.ofTokens leastTokens ≠ .error (.tooDeep maxNesting)) ∧
    Expr.ofTokens leastTokens = .ok (.assign "x" (.number Int64.minValue) 2) ∧
    Expr.ofTokens leastTokens = Expr.ofTokens (leastTokens.take 7) := by
  obtain ⟨need, hneed, h⟩ := leastTokens_derives
  have hend : leastTokens.getLast?.map Token.kind = some .eof := rfl
  have hprogram : program leastTokens = .ok (.assign "x" (.number Int64.minValue) 2) :=
    (h.program_eq rfl (leastTokens.drop 7)).trans (if_pos hneed)
  have hdeep : Expr.ofTokens leastTokens ≠ .error (.tooDeep maxNesting) := by
    rw [ofTokens_eq_program hend, hprogram]
    exact fun he => by cases he
  obtain ⟨hread, -, hbehind⟩ := ofTokens_eq_ok_iff_derives leastTokens hend hdeep
  exact ⟨⟨hend, hdeep⟩, (hread _).mpr ⟨need, h⟩,
    hbehind (leastTokens.take 6) _ (leastTokens.drop 7) rfl rfl⟩

end ExprLang.Grammar
