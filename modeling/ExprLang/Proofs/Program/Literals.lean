import ExprLang.Proofs.Evaluation.Adequacy
import ExprLang.Proofs.Expr.Source
import ExprLang.Proofs.Grammar.Precedence
import ExprLang.Proofs.Program.Stages
import ExprLang.Proofs.Token.Position

/-!
Numbers in programs. A minus sign in front of digits is an operator with an operand, except for the
digits of 2^63, which are out of range without the sign and the least number with it. What is shown
of a number is digits with at most one minus sign, and so an operand that gives the number again.

* `Expr.Gives`: an expression that gives a number everywhere and leaves nothing behind but scopes;
* `standsFor_of_inRange`, `operand_refused`: minus signs and digits, read or refused;
* `Token.scans_literal`: they are scanned as what they are, with any white space in between;
* `numbers_read_back`: whole programs.
-/

namespace ExprLang

/-! ## Steps -/

namespace Machine

/-- The machine gets from one configuration to another in so many steps. -/
def Takes (limits : Limits) (n : Nat) (c c' : Config) : Prop :=
  ∀ m, run limits (n + m) c = run limits m c'

variable {limits : Limits} {n n' : Nat} {c c' c'' : Config}

theorem Takes.refl (c : Config) : Takes limits 0 c c := fun m => by rw [Nat.zero_add]

theorem Takes.trans (h : Takes limits n c c') (h' : Takes limits n' c' c'') :
    Takes limits (n + n') c c'' := by
  intro m
  rw [Nat.add_assoc, h, h']

theorem Takes.step (h : step limits c = .next c') (h' : Takes limits n c' c'') :
    Takes limits (n + 1) c c'' := by
  intro m
  rw [Nat.add_right_comm, run, h]
  exact h' m

/-- The run of a machine that takes fewer steps than it may to its last configuration. -/
theorem Takes.run_eq (h : Takes limits n c c') {o : Outcome}
    (hdone : Machine.step limits c' = .done o) {m : Nat} (hm : n < m) :
    run limits m c = some o := by
  obtain ⟨k, rfl⟩ := Nat.exists_eq_add_of_lt hm
  rw [Nat.add_assoc, h, run, hdone]

end Machine

open Machine

/-! ## Numbers as values -/

/-- After so many steps the machine has the number as the value of the expression, in whatever
scope it starts and whatever frames are waiting. It has written nothing. -/
def Expr.Gives (e : Expr) (steps : Nat) (n : Int64) : Prop :=
  ∀ (limits : Limits) (s : ScopeId) (frames : List Frame) (st : Store) (output : String)
    (calls : Nat), ∃ st', Takes limits steps (.eval e s frames st output calls)
      (.give (.number n) frames st' output calls)

/-- The number is the value of the expression by the rules, in every scope, and nothing changes but
that there are more scopes. -/
def Expr.IsWorth (e : Expr) (n : Int64) : Prop :=
  ∀ (limits : Limits) (d : Nat) (s : ScopeId) (w : World), ∃ st,
    Evaluates limits d s (.expr e) w (.ok (.number n)) { w with store := st }

theorem Expr.gives_number (n : Int64) : (Expr.number n).Gives 1 n :=
  fun _ _ _ st _ _ => ⟨st, .step rfl (.refl _)⟩

section Gives

variable {e : Expr} {steps : Nat} {n : Int64} (h : e.Gives steps n)

include h

theorem Expr.Gives.negate (line : Nat) : (Expr.unary .negate e line).Gives (steps + 2) (-n) := by
  intro limits s frames st output calls
  obtain ⟨st', hst'⟩ := h limits st.size (.operand .negate line :: frames) (st.child s) output calls
  exact ⟨st', .step rfl (hst'.trans (.step rfl (.refl _)))⟩

theorem Expr.Gives.eval (hsteps : steps < patience) (limits : Limits) (s : ScopeId)
    (state : State) : ∃ st, e.eval limits patience s state =
      some ⟨.ok (.number n), ⟨⟨st, state.output⟩, state.calls⟩⟩ := by
  obtain ⟨st, hst⟩ := h limits s [] state.store state.output state.calls
  exact ⟨st, hst.run_eq rfl hsteps⟩

theorem Expr.Gives.isWorth : e.IsWorth n := by
  intro limits d s w
  obtain ⟨st, hst⟩ := h limits s [] w.store w.output d
  have hrun : e.eval limits (steps + 1) s ⟨w, d⟩ =
      some ⟨.ok (.number n), ⟨{ w with store := st }, d⟩⟩ := hst.run_eq rfl (Nat.lt_succ_self _)
  exact ⟨st, (evaluates_of_eval hrun).2⟩

/-- Two such operands get to the operator, the left one first. -/
theorem Expr.Gives.binary {e' : Expr} {steps' : Nat} {n' : Int64} (h' : e'.Gives steps' n')
    (hsteps : steps + steps' + 3 < patience) (op : BinaryOp) (line : Nat) (limits : Limits)
    (s : ScopeId) (state : State) : ∃ st, (Expr.binary op e e' line).eval limits patience s state =
      some ⟨op.apply line (.number n) (.number n'), ⟨⟨st, state.output⟩, state.calls⟩⟩ := by
  obtain ⟨st, hst⟩ := h limits state.store.size [.left op e' line s] (state.store.child s)
    state.output state.calls
  obtain ⟨st', hst'⟩ := h' limits st.size [.right op (.number n) line] (st.child s) state.output
    state.calls
  have hright : Takes limits (steps' + 1 + 1)
      (.give (.number n) [.left op e' line s] st state.output state.calls)
      (.answer (op.apply line (.number n) (.number n')) [] st' state.output state.calls) :=
    .step rfl (hst'.trans (.step rfl (.refl _)))
  refine ⟨st', Takes.run_eq (.step rfl (hst.trans hright)) ?_ (by omega)⟩
  cases op.apply line (.number n) (.number n') <;> rfl

end Gives

/-! ## Digits behind minus signs -/

/-- Whether digits for a number can stand behind so many minus signs. -/
def InRange (signs v : Nat) : Prop := v < 2 ^ 63 ∨ v = 2 ^ 63 ∧ 1 ≤ signs

/-- So many minus signs, and then digits, which stand on a line. -/
inductive IsLiteral (digits : List Char) (line : Nat) : Nat → List Token → Prop where
  | digits {t : Token} (ht : t.kind = .number) (hlexeme : t.lexeme = String.ofList digits)
      (hline : t.line = line) : IsLiteral digits line 0 [t]
  | sign {t : Token} {ts : List Token} {k : Nat} (ht : t.kind = .minus)
      (h : IsLiteral digits line k ts) : IsLiteral digits line (k + 1) (t :: ts)

namespace Grammar

/-- The tokens are an operand that gives a number. Neither reading it nor evaluating it takes more
than the number of tokens allows. -/
def StandsFor (ts : List Token) (n : Int64) : Prop :=
  ∃ e need steps, Derives .operand ts e need ∧ need < ts.length ∧ e.Gives steps n ∧
    steps ≤ 2 * ts.length

theorem StandsFor.negate {ts : List Token} {n : Int64} (h : StandsFor ts n) {sign : Token}
    (hsign : sign.kind = .minus) : StandsFor (sign :: ts) (-n) := by
  obtain ⟨e, need, steps, hoperand, hneed, hgives, hsteps⟩ := h
  have hnegation : Derives .operand (sign :: ts) (.unary .negate e sign.line) (need + 1) :=
    .operator hsign hoperand
  exact ⟨_, _, _, hnegation, Nat.succ_lt_succ hneed, hgives.negate sign.line,
    by rw [List.length_cons]; omega⟩

theorem ofInt_neg_one_pow_succ (k : Nat) (z : Int) :
    Int64.ofInt ((-1) ^ (k + 1) * z) = -Int64.ofInt ((-1) ^ k * z) := by
  rw [← Int64.ofInt_neg, pow_succ]
  congr 1
  ring

section Literal

variable {digits : List Char} {line k : Nat} {ts : List Token} (h : IsLiteral digits line k ts)
  (hne : digits ≠ []) (hdigits : ∀ c ∈ digits, Token.isDigit c = true)

include h hne hdigits

theorem standsFor_of_small (hsmall : Nat.ofDigitChars 10 digits 0 < 2 ^ 63) :
    StandsFor ts (Int64.ofInt ((-1) ^ k * Nat.ofDigitChars 10 digits 0)) := by
  induction h with
  | @digits t ht hlexeme =>
    have hmax : Int64.maxValue.toInt = 2 ^ 63 - 1 := rfl
    have hread : Decimal.signed? t.lexeme = some (Int64.ofInt (Nat.ofDigitChars 10 digits 0)) := by
      rw [hlexeme]
      exact Decimal.signed?_of_digits hne hdigits (by omega)
    rw [pow_zero, one_mul]
    exact ⟨_, _, _, (Derives.number ht hread).uncalled, by simp, Expr.gives_number _, by simp⟩
  | sign ht _ ih =>
    rw [ofInt_neg_one_pow_succ]
    exact ih.negate ht

/-- The last of the minus signs belongs to the number. -/
theorem standsFor_of_least (hleast : Nat.ofDigitChars 10 digits 0 = 2 ^ 63) (hk : 1 ≤ k) :
    StandsFor ts (Int64.ofInt ((-1) ^ k * Nat.ofDigitChars 10 digits 0)) := by
  induction h with
  | digits => exact absurd hk (by decide)
  | sign hsign h ih =>
    cases h with
    | @digits t ht hlexeme =>
      have hread : Decimal.natural? t.lexeme = some Int64.minValue.toInt.natAbs := by
        rw [hlexeme, Decimal.natural?_of_digits hne hdigits (by rw [hleast]; decide), hleast]
        rfl
      rw [hleast]
      exact ⟨_, _, _, .least hsign ht hread, by simp, Expr.gives_number _, by simp⟩
    | sign =>
      rw [ofInt_neg_one_pow_succ]
      exact (ih (Nat.succ_pos _)).negate hsign

/-- Digits in range give their number, with the sign that so many minus signs make. -/
theorem standsFor_of_inRange (hrange : InRange k (Nat.ofDigitChars 10 digits 0)) :
    StandsFor ts (Int64.ofInt ((-1) ^ k * Nat.ofDigitChars 10 digits 0)) := by
  rcases hrange with hsmall | ⟨hleast, hk⟩
  · exact standsFor_of_small h hne hdigits hsmall
  · exact standsFor_of_least h hne hdigits hleast hk

/-- Behind a minus sign of a literal there is another one, or digits of another number than
2^63. -/
theorem isLeastMagnitude_eq_false (hvalue : Nat.ofDigitChars 10 digits 0 ≠ 2 ^ 63)
    (rest : List Token) : ∀ t ts', ts ++ rest = t :: ts' → isLeastMagnitude t ts' = false := by
  intro t ts' hts
  cases h with
  | digits ht hlexeme =>
    cases hts
    have hread : Decimal.natural? t.lexeme ≠ some Int64.minValue.toInt.natAbs := by
      intro hread
      rw [hlexeme] at hread
      exact hvalue (Decimal.eq_of_natural? hne hdigits hread).symm
    rw [isLeastMagnitude, beq_false_of_ne hread, Bool.and_false, Bool.false_and]
  | sign ht =>
    cases hts
    simp [isLeastMagnitude, ht]

/-- Digits out of range are refused where they stand, if there is a level of nesting for each of the
minus signs in front of them. -/
theorem operand_refused (hrange : ¬ InRange k (Nat.ofDigitChars 10 digits 0)) {room : Nat}
    (hroom : k ≤ room) (rest : List Token) :
    ∃ t, (operand room (ts ++ rest)).plain = .error (.expected .wordNumber (t :: rest)) ∧
      t.quoted? = some (String.ofList digits) ∧ t.line = line := by
  unfold InRange at hrange
  induction h generalizing room with
  | @digits t ht hlexeme hline =>
    have hmax : Int64.maxValue.toInt = 2 ^ 63 - 1 := rfl
    have hread : Decimal.signed? t.lexeme = none := by
      rw [hlexeme]
      exact Decimal.signed?_of_large hne hdigits (by omega)
    refine ⟨t, ?_, by rw [Token.quoted?, if_neg (by simp [ht]), hlexeme], hline⟩
    rw [List.singleton_append, operand_plain_other room (by simp [ht]), application_plain,
      primary_plain_cons, ht]
    simp only [hread]
    rfl
  | sign hsign h ih =>
    obtain ⟨room, rfl⟩ := Nat.exists_eq_add_of_le' (Nat.le_trans (Nat.succ_pos _) hroom)
    have hroom : _ ≤ room := Nat.le_of_succ_le_succ hroom
    obtain ⟨t, hrefused, ht⟩ := ih (by omega) hroom
    refine ⟨t, ?_, ht⟩
    rw [List.cons_append, operand_plain_minus _ hsign
      (isLeastMagnitude_eq_false h hne hdigits (by omega) rest), negation_plain_succ, hrefused]
    rfl

end Literal

/-! ## Programs as tokens -/

section

variable {ts us : List Token} {sign mark : Token} {n : Int64} (hmark : mark.kind = .eof)

include hmark

theorem StandsFor.ofTokens (h : StandsFor ts n) (hshort : ts.length ≤ maxNesting) :
    ∃ e steps, Expr.ofTokens (ts ++ [mark]) = .ok e ∧ e.Gives steps n ∧ steps ≤ 2 * ts.length := by
  obtain ⟨e, need, steps, hoperand, hneed, hgives, hsteps⟩ := h
  refine ⟨e, steps, ?_, hgives, hsteps⟩
  rw [((hoperand.chain_of_operand 0).program_of_chain (Nat.zero_le _)).ofTokens_append hmark]
  exact if_pos (by omega)

/-- An operand behind an operator, with a chain in front of the operator that binds no less. -/
theorem Derives.ofTokens_behind {op : BinaryOp} {left right : Expr} {m l : Nat}
    (hleft : Derives (.chain op.looseness) ts left m) (hsign : sign.kind = op.kind)
    (hright : Derives .operand us right l) :
    ∃ total ≤ m + l + 2, Expr.ofTokens (ts ++ sign :: us ++ [mark]) =
      if total ≤ maxNesting then .ok (.binary op left right sign.line)
      else .error (.tooDeep maxNesting) := by
  obtain ⟨k, hk⟩ := Nat.exists_eq_add_one_of_ne_zero op.looseness_pos.ne'
  have hat : BinaryOp.ofKindAt? (k + 1) sign.kind = some op := by
    rw [hsign, ← hk]
    cases op <;> rfl
  have hloosest : k + 1 ≤ BinaryOp.loosest := by
    rw [← hk]
    exact Nat.le.intro op.looseness_add_tightness
  rw [hk] at hleft
  obtain ⟨need, hneed, hbinary⟩ := hleft.chain_binary hat (hright.chain_of_operand k)
  exact ⟨need + 1, by omega, (hbinary.program_of_chain hloosest).ofTokens_append hmark⟩

end

theorem chain_refused {room : Nat} {ts : List Token} {refusal : Refusal}
    (h : (operand room ts).plain = .error refusal) (k : Nat) :
    (chain k room ts).plain = .error refusal := by
  induction k with
  | zero => exact (chain_plain_zero room ts).trans h
  | succ k ih =>
    rw [chain_plain_succ, ih]
    rfl

/-- What is refused as an operand at the start of a program is refused as a program. -/
theorem program_refused {t : Token} {ts : List Token} {refusal : Refusal}
    (ht : t.kind ∉ [.letWord, .constWord, .funcWord, .whileWord])
    (h : (operand 999 (t :: ts)).plain = .error refusal) :
    program (t :: ts) = .error refusal := by
  have hroom : maxNesting = 999 + 1 := rfl
  rw [program_eq, sequence_plain, hroom, declaration_plain_other _ ht, assignment_plain,
    chain_refused h]
  rfl

theorem ofTokens_refused {digits : List Char} {line k : Nat} {ts : List Token} {mark : Token}
    (h : IsLiteral digits line k ts) (hne : digits ≠ [])
    (hdigits : ∀ c ∈ digits, Token.isDigit c = true) (hmark : mark.kind = .eof)
    (hrange : ¬ InRange k (Nat.ofDigitChars 10 digits 0)) (hshort : k < maxNesting) :
    Expr.ofTokens (ts ++ [mark]) =
      .error (.syntaxError .wordNumber (some (String.ofList digits)) line) := by
  obtain ⟨t, hrefused, hquoted, rfl⟩ :=
    operand_refused h hne hdigits hrange (Nat.le_of_lt_succ hshort) [mark]
  have hprogram : program (ts ++ [mark]) = .error (.expected .wordNumber [t, mark]) := by
    cases h with
    | digits ht => exact program_refused (by simp [ht]) hrefused
    | sign ht => exact program_refused (by simp [ht]) hrefused
  rw [ofTokens_eq_program (by simp [hmark]), hprogram, ← hquoted]
  rfl

end Grammar

/-! ## The text -/

namespace Token

/-- Minus signs and digits, each behind the text in front of it, and more text. -/
def literal (gaps : List (List Char)) (gap digits rest : List Char) : List Char :=
  gaps.flatMap (· ++ ['-']) ++ (gap ++ (digits ++ rest))

theorem literal_cons (front : List Char) (gaps : List (List Char)) (gap digits rest : List Char) :
    literal (front :: gaps) gap digits rest =
      front ++ (['-'] ++ literal gaps gap digits rest) := by
  simp [literal]

/-- They are scanned as what they are, if there is only white space between them and no further
digit behind them. -/
theorem scans_literal {gaps : List (List Char)} {gap digits rest : List Char}
    (hgaps : ∀ front ∈ gaps, Blanks front) (hgap : Blanks gap) (hne : digits ≠ [])
    (hdigits : ∀ c ∈ digits, isDigit c = true) (hrest : ∀ c ∈ rest.head?, isDigit c = false)
    (p : Place) :
    ∃ ts, IsLiteral digits (p.line + (gaps.flatten ++ gap).count '\n') gaps.length ts ∧
      ∀ items, Scans (p.afterAll (literal gaps gap digits [])) rest items →
        Scans p (literal gaps gap digits rest) (ts.map .ok ++ items) := by
  induction gaps generalizing p with
  | nil =>
    have hlongest : Longest .number digits (digits ++ rest) :=
      ((Spells.number hne hdigits).longest_iff rest).mpr hrest
    refine ⟨[⟨.number, String.ofList digits, (p.afterAll gap).line, (p.afterAll gap).column⟩],
      .digits rfl rfl (line_afterAll p gap), fun items hitems => ?_⟩
    have hplace : literal [] gap digits [] = gap ++ digits := by simp [literal]
    rw [hplace] at hitems
    show Scans p (gap ++ (digits ++ rest)) _
    exact .token hgap hlongest hitems
  | cons front gaps ih =>
    obtain ⟨hfront, hgaps⟩ := List.forall_mem_cons.mp hgaps
    obtain ⟨ts, hliteral, hscans⟩ := ih hgaps (p.afterAll (front ++ ['-']))
    have hminus : Spells .minus "-".toList := .fixed rfl
    have hlongest : Longest .minus ['-'] (['-'] ++ literal gaps gap digits rest) :=
      (hminus.longest_iff _).mpr fun _ _ => rfl
    have hline : (p.afterAll (front ++ ['-'])).line + (gaps.flatten ++ gap).count '\n' =
        p.line + ((front :: gaps).flatten ++ gap).count '\n' := by
      have hsign : List.count '\n' ['-'] = 0 := rfl
      simp only [line_afterAll, List.flatten_cons, List.count_append]
      omega
    rw [hline] at hliteral
    refine ⟨⟨.minus, "-", (p.afterAll front).line, (p.afterAll front).column⟩ :: ts,
      .sign rfl hliteral, fun items hitems => ?_⟩
    rw [literal_cons, ← List.append_assoc, afterAll_append] at hitems
    rw [literal_cons]
    exact .token hfront hlongest (hscans items hitems)

theorem isDigit_of_isBlank {c : Char} (hc : isBlank c = true) : isDigit c = false :=
  grows_of_isBlank hc .number

/-- Tokens behind which there is only white space. -/
theorem exists_ofSource {q : Place} {text trail : List Char} {ts : List Token}
    (htrail : Blanks trail)
    (h : ∀ items, Scans q trail items → Scans .start text (ts.map .ok ++ items)) :
    ∃ mark, mark.kind = .eof ∧ ofSource (String.ofList text) = .ok (ts ++ [mark]) := by
  have hscans := h _ (.done htrail)
  refine ⟨⟨.eof, "", (q.afterAll trail).line, (q.afterAll trail).column⟩, rfl, ?_⟩
  rw [ofSource_eq_ok_iff, items, String.toList_ofList, itemsFrom_eq_iff_scans, List.map_append]
  exact hscans

theorem ofSource_literal {gaps : List (List Char)} {gap digits trail : List Char}
    (hgaps : ∀ front ∈ gaps, Blanks front) (hgap : Blanks gap) (htrail : Blanks trail)
    (hne : digits ≠ []) (hdigits : ∀ c ∈ digits, isDigit c = true) :
    ∃ ts mark, mark.kind = .eof ∧
      ofSource (String.ofList (literal gaps gap digits trail)) = .ok (ts ++ [mark]) ∧
      IsLiteral digits (1 + (gaps.flatten ++ gap).count '\n') gaps.length ts := by
  obtain ⟨ts, hliteral, hscans⟩ := scans_literal hgaps hgap hne hdigits
    (fun c hc => isDigit_of_isBlank (htrail c (List.mem_of_mem_head? hc))) .start
  obtain ⟨mark, hmark, hread⟩ := exists_ofSource htrail hscans
  exact ⟨ts, mark, hmark, hread, hliteral⟩

/-! ## Numbers as they are shown -/

/-- Tokens like those of the text that is shown of a number. -/
def IsNumeral (n : Int64) (ts : List Token) : Prop :=
  ∃ line, IsLiteral (Decimal.ofNat n.toInt.natAbs).toList line (if n.toInt < 0 then 1 else 0) ts

theorem mem_text_number {n : Int64} {c : Char} (h : c ∈ (Value.text (.number n)).toList) :
    c = '-' ∨ isDigit c = true := by
  rw [Value.text, Decimal.ofInt] at h
  split at h
  · rw [String.toList_append] at h
    rcases List.mem_append.mp h with hsign | hdigit
    · exact .inl (List.mem_singleton.mp hsign)
    · exact .inr (Decimal.isDigit_of_mem_ofNat hdigit)
  · exact .inr (Decimal.isDigit_of_mem_ofNat h)

theorem head_nil : ∀ c ∈ ([] : List Char).head?, isDigit c = false := fun _ hc => by cases hc

theorem scans_numeral (n : Int64) {gap rest : List Char} (hgap : Blanks gap)
    (hrest : ∀ c ∈ rest.head?, isDigit c = false) (p : Place) :
    ∃ ts, IsNumeral n ts ∧
      ∀ items, Scans (p.afterAll (gap ++ (Value.text (.number n)).toList)) rest items →
        Scans p (gap ++ ((Value.text (.number n)).toList ++ rest)) (ts.map .ok ++ items) := by
  have hne := Decimal.ofNat_ne_nil n.toInt.natAbs
  have hdigits : ∀ c ∈ (Decimal.ofNat n.toInt.natAbs).toList, isDigit c = true :=
    fun _ => Decimal.isDigit_of_mem_ofNat
  unfold IsNumeral
  rw [Value.text, Decimal.ofInt]
  split
  · obtain ⟨ts, hliteral, hscans⟩ := scans_literal (List.forall_mem_singleton.mpr hgap) blanks_nil
      hne hdigits hrest p
    refine ⟨ts, ⟨_, hliteral⟩, ?_⟩
    simpa [literal] using hscans
  · obtain ⟨ts, hliteral, hscans⟩ := scans_literal (List.forall_mem_nil _) hgap hne hdigits hrest p
    refine ⟨ts, ⟨_, hliteral⟩, ?_⟩
    simpa [literal] using hscans

theorem ofSource_numeral (n : Int64) :
    ∃ ts mark, mark.kind = .eof ∧ ofSource (Value.text (.number n)) = .ok (ts ++ [mark]) ∧
      IsNumeral n ts := by
  obtain ⟨ts, hnumeral, hscans⟩ := scans_numeral n blanks_nil head_nil .start
  obtain ⟨mark, hmark, hread⟩ := exists_ofSource blanks_nil hscans
  rw [List.nil_append, List.append_nil, String.ofList_toList] at hread
  exact ⟨ts, mark, hmark, hread, hnumeral⟩

/-- Of the marks of the operators, only an equal sign makes a longer one. -/
theorem grows_operator (op : BinaryOp) {c : Char} (hc : c ≠ '=') : grows op.kind c = false := by
  cases op <;> simp [BinaryOp.kind, grows, isWordKind, keywords, hc]

/-- Two numbers with an operator between them, and white space. -/
theorem ofSource_operator (m n : Int64) (op : BinaryOp) {gap gap' : List Char} (hgap : Blanks gap)
    (hgap' : Blanks gap') :
    ∃ ts sign us mark, mark.kind = .eof ∧
      ofSource (Value.text (.number m) ++ String.ofList gap ++ op.symbol ++ String.ofList gap' ++
        Value.text (.number n)) = .ok (ts ++ sign :: us ++ [mark]) ∧
      IsNumeral m ts ∧ (sign.kind = op.kind ∧ sign.line = 1 + gap.count '\n') ∧
      IsNumeral n us := by
  obtain ⟨back, hback⟩ : ∃ back, back = gap' ++ ((Value.text (.number n)).toList ++ []) := ⟨_, rfl⟩
  have hequal : ∀ c ∈ back, c ≠ '=' := by
    rintro c hc rfl
    rw [hback, List.append_nil] at hc
    rcases List.mem_append.mp hc with hblank | hnumber
    · exact absurd (hgap' _ hblank) (by decide)
    · exact absurd (mem_text_number hnumber) (by decide)
  have hlongest : Longest op.kind op.symbol.toList (op.symbol.toList ++ back) :=
    ((Spells.fixed op.fixedSpelling?_kind).longest_iff back).mpr fun c hc =>
      grows_operator op (hequal c (List.mem_of_mem_head? hc))
  have hdigit : ∀ c ∈ (gap ++ (op.symbol.toList ++ back)).head?, isDigit c = false := by
    cases gap with
    | nil =>
      intro c hc
      cases op <;> cases hc <;> rfl
    | cons d gap =>
      intro c hc
      cases hc
      exact isDigit_of_isBlank (hgap _ (.head _))
  obtain ⟨q, hq⟩ : ∃ q, q = Place.start.afterAll (Value.text (.number m)).toList := ⟨_, rfl⟩
  have hline : (q.afterAll gap).line = 1 + gap.count '\n' := by
    have hbreaks : (Value.text (.number m)).toList.count '\n' = 0 :=
      List.count_eq_zero.mpr fun hc => absurd (mem_text_number hc) (by decide)
    rw [line_afterAll, hq, line_afterAll, hbreaks]
    rfl
  obtain ⟨ts, hts, hscans⟩ := scans_numeral m blanks_nil hdigit .start
  obtain ⟨us, hus, hscans'⟩ :=
    scans_numeral n hgap' head_nil (q.afterAll (gap ++ op.symbol.toList))
  rw [List.nil_append, ← hq] at hscans
  rw [← hback] at hscans'
  obtain ⟨sign, hsign⟩ : ∃ sign : Token, sign =
      ⟨op.kind, String.ofList op.symbol.toList, (q.afterAll gap).line, (q.afterAll gap).column⟩ :=
    ⟨_, rfl⟩
  have hall : ∀ items, Scans ((q.afterAll (gap ++ op.symbol.toList)).afterAll
      (gap' ++ (Value.text (.number n)).toList)) [] items →
      Scans .start ([] ++ ((Value.text (.number m)).toList ++ (gap ++ (op.symbol.toList ++ back))))
        ((ts ++ sign :: us).map .ok ++ items) := by
    intro items hitems
    rw [List.map_append, List.append_assoc, List.map_cons, hsign]
    exact hscans _ (.token hgap hlongest (hscans' items hitems))
  obtain ⟨mark, hmark, hread⟩ := exists_ofSource blanks_nil hall
  refine ⟨ts, sign, us, mark, hmark, ?_, hts, by rw [hsign]; exact ⟨rfl, hline⟩, hus⟩
  rw [← hread, hback]
  simp only [String.ofList_append, String.ofList_toList, List.nil_append, List.append_nil,
    String.append_assoc]

end Token

open Grammar (StandsFor standsFor_of_inRange maxNesting)

theorem IsLiteral.length_eq {digits : List Char} {line k : Nat} {ts : List Token}
    (h : IsLiteral digits line k ts) : ts.length = k + 1 := by
  induction h with
  | digits => rfl
  | sign _ _ ih => exact congrArg Nat.succ ih

/-- Only kinds and lexemes tell whether tokens are a literal. -/
theorem IsLiteral.of_keys {digits : List Char} {line k : Nat} {ts us : List Token}
    (h : IsLiteral digits line k ts) (hkeys : us.map Token.key = ts.map Token.key) :
    ∃ line', IsLiteral digits line' k us := by
  induction h generalizing us with
  | @digits t ht hlexeme =>
    obtain ⟨u, us, rfl, hu, hnil⟩ := List.map_eq_cons_iff.mp hkeys
    obtain rfl := List.map_eq_nil_iff.mp hnil
    obtain ⟨hkind, hsame⟩ := Prod.mk.inj hu
    exact ⟨u.line, .digits (hkind.trans ht) (hsame.trans hlexeme) rfl⟩
  | @sign t ts k ht _ ih =>
    obtain ⟨u, us, rfl, hu, hmore⟩ := List.map_eq_cons_iff.mp hkeys
    obtain ⟨line', hmore⟩ := ih hmore
    exact ⟨line', .sign ((Prod.mk.inj hu).1.trans ht) hmore⟩

section Numeral

variable {n : Int64} {ts : List Token} (h : Token.IsNumeral n ts)

include h

theorem Token.IsNumeral.length_le : ts.length ≤ 2 := by
  obtain ⟨line, hliteral⟩ := h
  rw [hliteral.length_eq]
  split <;> decide

/-- What is shown of a number is an operand that gives the number. -/
theorem Token.IsNumeral.standsFor : StandsFor ts n := by
  obtain ⟨line, hliteral⟩ := h
  have hmin : -2 ^ 63 ≤ n.toInt := n.minValue_le_toInt
  have hmax : n.toInt ≤ 2 ^ 63 - 1 := n.toInt_le
  have hrange : InRange (if n.toInt < 0 then 1 else 0) n.toInt.natAbs := by
    unfold InRange
    split <;> omega
  have hvalue : (-1) ^ (if n.toInt < 0 then 1 else 0) * (n.toInt.natAbs : Int) = n.toInt := by
    split <;> omega
  have hstands := standsFor_of_inRange hliteral (Decimal.ofNat_ne_nil _)
    (fun _ => Decimal.isDigit_of_mem_ofNat) (by rwa [Decimal.ofDigitChars_ofNat])
  rwa [Decimal.ofDigitChars_ofNat, hvalue, Int64.ofInt_toInt] at hstands

end Numeral

/-! ## Whole programs -/

/-- In every scope of every state and under any limits a program ends with a result, and leaves
nothing behind but scopes. -/
def Answers (source : String) (r : Except Fault Value) : Prop :=
  ∀ (limits : Limits) (s : ScopeId) (state : State), ∃ st,
    State.evalSource limits source s state = some ⟨r, ⟨⟨st, state.output⟩, state.calls⟩⟩

theorem answers_of_standsFor {source : String} {ts : List Token} {mark : Token} {n : Int64}
    (hread : Token.ofSource source = .ok (ts ++ [mark])) (hmark : mark.kind = .eof)
    (h : StandsFor ts n) (hshort : ts.length ≤ maxNesting) : Answers source (.ok (.number n)) := by
  intro limits s state
  obtain ⟨e, steps, he, hgives, hsteps⟩ := h.ofTokens hmark hshort
  have hbound : 2 * maxNesting < patience := by decide
  rw [State.evalSource_of_expr ((Expr.ofSource_eq hread).trans he)]
  exact hgives.eval (by omega) limits s state

section Literal

variable {gaps : List (List Char)} {gap digits trail : List Char} (hshort : gaps.length ≤ 999)
  (hgaps : ∀ front ∈ gaps, Token.Blanks front) (hgap : Token.Blanks gap)
  (htrail : Token.Blanks trail) (hne : digits ≠ [])
  (hdigits : ∀ c ∈ digits, Token.isDigit c = true)

include hshort hgaps hgap htrail hne hdigits

theorem answers_literal (hrange : InRange gaps.length (Nat.ofDigitChars 10 digits 0)) :
    Answers (String.ofList (Token.literal gaps gap digits trail))
      (.ok (.number (Int64.ofInt ((-1) ^ gaps.length * Nat.ofDigitChars 10 digits 0)))) := by
  obtain ⟨ts, mark, hmark, hread, hliteral⟩ := Token.ofSource_literal hgaps hgap htrail hne hdigits
  have hlength : ts.length ≤ 1000 := hliteral.length_eq ▸ Nat.succ_le_succ hshort
  exact answers_of_standsFor hread hmark (standsFor_of_inRange hliteral hne hdigits hrange) hlength

theorem literal_refused (hrange : ¬ InRange gaps.length (Nat.ofDigitChars 10 digits 0)) :
    Expr.ofSource (String.ofList (Token.literal gaps gap digits trail)) =
      .error (.syntaxError .wordNumber (some (String.ofList digits))
        (1 + (gaps.flatten ++ gap).count '\n')) := by
  obtain ⟨ts, mark, hmark, hread, hliteral⟩ := Token.ofSource_literal hgaps hgap htrail hne hdigits
  exact (Expr.ofSource_eq hread).trans
    (Grammar.ofTokens_refused hliteral hne hdigits hmark hrange (Nat.lt_succ_of_le hshort))

end Literal

theorem answers_text (n : Int64) : Answers (Value.text (.number n)) (.ok (.number n)) := by
  obtain ⟨ts, mark, hmark, hread, hnumeral⟩ := Token.ofSource_numeral n
  exact answers_of_standsFor hread hmark hnumeral.standsFor
    (Nat.le_trans hnumeral.length_le (by decide))

theorem answers_operator (m n : Int64) (op : BinaryOp) {gap gap' : List Char}
    (hgap : Token.Blanks gap) (hgap' : Token.Blanks gap') :
    Answers (Value.text (.number m) ++ String.ofList gap ++ op.symbol ++ String.ofList gap' ++
      Value.text (.number n)) (op.apply (1 + gap.count '\n') (.number m) (.number n)) := by
  intro limits s state
  obtain ⟨ts, sign, us, mark, hmark, hread, hm, ⟨hsign, hline⟩, hn⟩ :=
    Token.ofSource_operator m n op hgap hgap'
  have hlengths := And.intro hm.length_le hn.length_le
  obtain ⟨left, need, steps, hleft, hneed, hgives, hsteps⟩ := hm.standsFor
  obtain ⟨right, need', steps', hright, hneed', hgives', hsteps'⟩ := hn.standsFor
  obtain ⟨total, htotal, hprogram⟩ :=
    (hleft.chain_of_operand op.looseness).ofTokens_behind hmark hsign hright
  have hmax : maxNesting = 1000 := rfl
  have hbound : 1000 < patience := by decide
  rw [if_pos (by omega), hline, ← Expr.ofSource_eq hread] at hprogram
  rw [State.evalSource_of_expr hprogram]
  exact hgives.binary hgives' (by omega) op _ limits s state

/-- Digits of any length behind minus signs give their number with its sign, wrapped to 64 bits, if
the digits are in range, which 2^63 is behind a sign only; otherwise they are refused where they
stand, with these words. What is shown of a number gives the number again, alone and behind an
operator: in the text of two numbers, and as the tokens behind any chain that the operator can have
in front of it, unless the chain is nested so deep that no room is left. Wherever else the grammar
asks for an operand, these tokens are one as well. -/
theorem numbers_read_back :
    (∀ (gaps : List (List Char)) (gap digits trail : List Char), gaps.length ≤ 999 →
      (∀ front ∈ gaps, Token.Blanks front) → Token.Blanks gap → Token.Blanks trail →
      digits ≠ [] → (∀ c ∈ digits, Token.isDigit c = true) →
      (InRange gaps.length (Nat.ofDigitChars 10 digits 0) →
        Answers (String.ofList (Token.literal gaps gap digits trail))
          (.ok (.number (Int64.ofInt ((-1) ^ gaps.length * Nat.ofDigitChars 10 digits 0))))) ∧
      (¬ InRange gaps.length (Nat.ofDigitChars 10 digits 0) →
        Expr.ofSource (String.ofList (Token.literal gaps gap digits trail)) =
          .error (.syntaxError .wordNumber (some (String.ofList digits))
            (1 + (gaps.flatten ++ gap).count '\n')))) ∧
    (∀ found line, (Fault.syntaxError .wordNumber (some found) line).message =
      "[line " ++ toString line ++ "] " ++ ("Syntax error at " ++ ("'" ++ found ++ "'") ++ ": " ++
        "number literal does not fit in a 64-bit integer")) ∧
    (∀ n, Answers (Value.text (.number n)) (.ok (.number n))) ∧
    (∀ (m n : Int64) (op : BinaryOp) (gap gap' : List Char), Token.Blanks gap → Token.Blanks gap' →
      Answers (Value.text (.number m) ++ String.ofList gap ++ op.symbol ++ String.ofList gap' ++
        Value.text (.number n)) (op.apply (1 + gap.count '\n') (.number m) (.number n))) ∧
    ∀ (n : Int64) (shown : List Token) (mark : Token) (us : List Token),
      Token.ofSource (Value.text (.number n)) = .ok (shown ++ [mark]) →
      us.map Token.key = shown.map Token.key →
      ∃ right need, need ≤ 1 ∧ Grammar.Derives .operand us right need ∧
        right.IsWorth n ∧
        ∀ (source : String) (ts : List Token) (sign mark : Token) (op : BinaryOp) (left : Expr)
          (need : Nat), Token.ofSource source = .ok (ts ++ sign :: us ++ [mark]) →
          mark.kind = .eof → sign.kind = op.kind →
          Grammar.Derives (.chain op.looseness) ts left need →
          (need + 3 ≤ maxNesting → Expr.ofSource source = .ok (.binary op left right sign.line)) ∧
          (Expr.ofSource source = .ok (.binary op left right sign.line) ∨
            Expr.ofSource source = .error (.tooDeep maxNesting)) := by
  refine ⟨fun gaps gap digits trail hshort hgaps hgap htrail hne hdigits =>
      ⟨answers_literal hshort hgaps hgap htrail hne hdigits,
        literal_refused hshort hgaps hgap htrail hne hdigits⟩,
    fun _ _ => rfl, answers_text, fun m n op gap gap' => answers_operator m n op, ?_⟩
  intro n shown mark us hshown hkeys
  obtain ⟨ts', mark', -, hread', line, hliteral⟩ := Token.ofSource_numeral n
  rw [hshown] at hread'
  obtain ⟨rfl, -⟩ := List.append_inj' (Except.ok.inj hread') rfl
  obtain ⟨line', hliteral⟩ := hliteral.of_keys hkeys
  have hnumeral : Token.IsNumeral n us := ⟨line', hliteral⟩
  have hlength := hnumeral.length_le
  obtain ⟨right, need, steps, hright, hneed, hgives, -⟩ := hnumeral.standsFor
  refine ⟨right, need, by omega, hright, hgives.isWorth, ?_⟩
  intro source ts sign mark op left m hread hmark hsign hleft
  obtain ⟨total, htotal, hprogram⟩ := hleft.ofTokens_behind hmark hsign hright
  rw [← Expr.ofSource_eq hread] at hprogram
  refine ⟨fun hroom => hprogram.trans (if_pos (by omega)), ?_⟩
  split at hprogram
  · exact .inl hprogram
  · exact .inr hprogram

/-- 2^63 behind two minus signs, a larger number with a zero in front on a second line, the least
number behind an operator, and a number behind a chain. -/
theorem numbers_read_back_least :
    Answers "- -9223372036854775808" (.ok (.number Int64.minValue)) ∧
    Expr.ofSource "-\n09223372036854775809" =
      .error (.syntaxError .wordNumber (some "09223372036854775809") 2) ∧
    Answers "-1--9223372036854775808" (.ok (.number Int64.maxValue)) ∧
    ∃ right, right.IsWorth (-7) ∧ Expr.ofSource "x*2/-7" =
        .ok (.binary .divide (.binary .multiply (.identifier "x" 1) (.number 2) 1) right 1) := by
  obtain ⟨hliteral, -, -, hbetween, hbehind⟩ := numbers_read_back
  have hblanks : ∀ front ∈ [[], [' ']], Token.Blanks front :=
    List.forall_mem_cons.mpr ⟨Token.blanks_nil, List.forall_mem_singleton.mpr
      (List.forall_mem_singleton.mpr rfl)⟩
  have hbreak : Token.Blanks ['\n'] := List.forall_mem_singleton.mpr rfl
  refine ⟨?_, ?_, ?_, ?_⟩
  · exact (hliteral [[], [' ']] [] "9223372036854775808".toList [] (by decide) hblanks
      Token.blanks_nil Token.blanks_nil (by decide) (List.all_eq_true.mp (by decide))).1
      (.inr ⟨by decide, by decide⟩)
  · exact (hliteral [[]] ['\n'] "09223372036854775809".toList [] (by decide)
      (List.forall_mem_singleton.mpr Token.blanks_nil) hbreak Token.blanks_nil (by decide)
      (List.all_eq_true.mp (by decide))).2 (by unfold InRange; decide)
  · exact hbetween (-1) Int64.minValue .subtract [] [] Token.blanks_nil Token.blanks_nil
  · have hleft : Grammar.Derives (.chain BinaryOp.divide.looseness)
        [⟨.identifier, "x", 1, 1⟩, ⟨.star, "*", 1, 2⟩, ⟨.number, "2", 1, 3⟩]
        (.binary .multiply (.identifier "x" 1) (.number 2) 1) 1 :=
      .chain (.single (Grammar.Derives.name rfl).uncalled)
        (.link rfl (.single (Grammar.Derives.number rfl rfl).uncalled) .noLinks)
    obtain ⟨right, need, -, -, hgives, hread⟩ := hbehind (-7)
      [⟨.minus, "-", 1, 1⟩, ⟨.number, "7", 1, 2⟩] ⟨.eof, "", 1, 3⟩
      [⟨.minus, "-", 1, 5⟩, ⟨.number, "7", 1, 6⟩] (by cbv) rfl
    exact ⟨right, hgives, (hread "x*2/-7" _ ⟨.slash, "/", 1, 4⟩ ⟨.eof, "", 1, 7⟩ .divide _ 1
      (by cbv) rfl rfl hleft).1 (by decide)⟩

end ExprLang
