import ExprLang.Proofs.Grammar.Derivation
import ExprLang.Proofs.Grammar.Reading

/-!
What the grammar derives, the productions read. A production is greedy, so the tokens
behind a phrase must not be able to carry it on. `reach` gives each kind of token the
level of the tightest phrase that it can carry on, and `StopsAt` asks for a level above
that of the production. Then a reader with `need` free levels of nesting reads exactly
the phrase, and one with less refuses it as too deep (`Derives.reads`).
-/

namespace ExprLang.Grammar

/-- The level of the tightest phrase that a token of the kind can carry on: 0 for a
conditional, 1 for an application, one more than the looseness for a chain, 8 for an
assignment and 9 for a sequence. -/
def reach : TokenKind → Nat
  | .elifWord | .elseWord => 0
  | .leftParen => 1
  | .equal => 8
  | .semicolon => 9
  | kind =>
    match BinaryOp.ofKind? kind with
    | some op => op.looseness + 1
    | none => 10

/-- No token in front of the tokens carries on a phrase of a level. -/
def StopsAt (level : Nat) (ts : List Token) : Prop :=
  ∀ t us, ts = t :: us → level < reach t.kind

theorem StopsAt.mono {k l : Nat} {ts : List Token} (h : StopsAt l ts) (hk : k ≤ l) :
    StopsAt k ts :=
  fun t us hts => Nat.lt_of_le_of_lt hk (h t us hts)

theorem stopsAt_cons {l : Nat} {t : Token} {ts : List Token} :
    StopsAt l (t :: ts) ↔ l < reach t.kind :=
  ⟨fun h => h t ts rfl, fun h u us he => by cases he; exact h⟩

theorem StopsAt.kind_ne {l : Nat} {t : Token} {ts : List Token} {kind : TokenKind}
    (h : StopsAt l (t :: ts)) (hk : reach kind ≤ l) : t.kind ≠ kind := by
  rintro rfl
  exact absurd (stopsAt_cons.mp h) (by omega)

theorem reach_of_operator {kind : TokenKind} {op : BinaryOp}
    (h : BinaryOp.ofKind? kind = some op) : reach kind = op.looseness + 1 := by
  cases kind <;> simp_all [reach, BinaryOp.ofKind?]

theorem StopsAt.no_operator {k l : Nat} {t : Token} {ts : List Token}
    (h : StopsAt l (t :: ts)) (hk : k + 1 ≤ l) : BinaryOp.ofKindAt? k t.kind = none := by
  cases ho : BinaryOp.ofKindAt? k t.kind with
  | none => rfl
  | some op =>
    obtain ⟨hop, hl⟩ := ofKindAt?_eq_some ho
    have := stopsAt_cons.mp h
    rw [reach_of_operator hop] at this
    omega

/-! ## What a reader with bounded room finds -/

/-- A thing read with `need` levels of nesting, where `room` are free. -/
def within {α : Type} (room need : Nat) (x : α) (rest : List Token) :
    Except Refusal (α × List Token) :=
  if need ≤ room then .ok (x, rest) else .error .tooDeep

theorem ok_bind {α β : Type} (a : α) (f : α → Except Refusal β) :
    (Except.ok a >>= f) = f a := rfl

theorem within_bind {α β : Type} {room m n : Nat} {x : α} {y : β} {rest rest' : List Token}
    {f : α × List Token → Except Refusal (β × List Token)}
    (h : f (x, rest) = within room n y rest') :
    (within room m x rest >>= f) = within room (max m n) y rest' := by
  unfold within
  by_cases hm : m ≤ room
  · rw [if_pos hm, ok_bind, h]
    by_cases hn : n ≤ room
    · rw [within, if_pos hn, if_pos (Nat.max_le.mpr ⟨hm, hn⟩)]
    · rw [within, if_neg hn, if_neg (by omega)]
  · rw [if_neg hm, if_neg (by omega)]
    rfl

theorem within_map {α β : Type} {room m : Nat} {x : α} {y : β} {rest rest' : List Token}
    {f : α × List Token → Except Refusal (β × List Token)} (h : f (x, rest) = .ok (y, rest')) :
    (within room m x rest >>= f) = within room m y rest' := by
  rw [within_bind (n := 0) (by simpa [within] using h), Nat.max_zero]

theorem within_succ {α : Type} (room need : Nat) (x : α) (rest : List Token) :
    within (room + 1) (need + 1) x rest = within room need x rest := by
  simp [within]

theorem within_zero {α : Type} (need : Nat) (x : α) (rest : List Token) :
    within 0 (need + 1) x rest = .error .tooDeep := by
  simp [within]

/-- The production reads the phrase in front of any tokens that do not carry it on. -/
def Reads : (p : Production) → List Token → p.Tree → Nat → Prop
  | .sequence, ts, x, need => ∀ room rest, StopsAt 9 rest →
      (sequence room (ts ++ rest)).plain = within room need x rest
  | .items, ts, x, need => ∀ room rest, StopsAt 9 rest →
      (furtherItems room (ts ++ rest)).plain = within room need x rest
  | .declaration, ts, x, need => ∀ room rest, StopsAt 8 rest →
      (declaration room (ts ++ rest)).plain = within room need x rest
  | .assignment, ts, x, need => ∀ room rest, StopsAt 8 rest →
      (assignment room (ts ++ rest)).plain = within room need x rest
  | .chain k, ts, x, need => ∀ room rest, StopsAt (k + 1) rest →
      (chain k room (ts ++ rest)).plain = within room need x rest
  | .links 0, _, _, _ => True
  | .links (k + 1), ts, x, need => ∀ room left rest, StopsAt (k + 2) rest →
      linked k room left (ts ++ rest) = within room need (Link.join left x) rest
  | .operand, ts, x, need => ∀ room rest, StopsAt 1 rest →
      (operand room (ts ++ rest)).plain = within room need x rest
  | .application, ts, x, need => ∀ room rest, StopsAt 1 rest →
      (application room (ts ++ rest)).plain = within room need x rest
  | .calls, ts, x, need => ∀ room callee rest, StopsAt 1 rest →
      called room callee (ts ++ rest) = within room need (Call.join callee x) rest
  | .arguments, ts, x, need => ∀ room closing rest, closing.kind = .rightParen →
      (arguments room (ts ++ closing :: rest)).plain = within room need x (closing :: rest)
  | .primary, ts, x, need => ∀ room rest, StopsAt 0 rest →
      (primary room (ts ++ rest)).plain = within room need x rest
  | .alternatives, ts, x, need => ∀ room keyword rest, StopsAt 0 rest →
      (alternatives room keyword (ts ++ rest)).plain = within room need x rest
  | .furtherArms, ts, x, need => ∀ room rest, StopsAt 0 rest →
      furtherArms room (ts ++ rest) = within room need x rest
  | .body, ts, x, need => ∀ owner room rest,
      (body owner room (ts ++ rest)).plain = within room need x rest

/-! ## Phrases that may be empty -/

theorem Derives.items_stop {us rest : List Token} {es : List Expr} {n : Nat}
    (h : Derives .items us es n) (hrest : StopsAt 9 rest) : StopsAt 8 (us ++ rest) := by
  cases h with
  | noItems => exact hrest.mono (by decide)
  | item hsemicolon => exact stopsAt_cons.mpr (by simp [hsemicolon, reach])

theorem Derives.links_stop {k : Nat} {us rest : List Token} {ls : List Link} {n : Nat}
    (h : Derives (.links (k + 1)) us ls n) (hrest : StopsAt (k + 2) rest) :
    StopsAt (k + 1) (us ++ rest) := by
  cases h with
  | noLinks => exact hrest.mono (by omega)
  | link hsign =>
    obtain ⟨hop, hl⟩ := ofKindAt?_eq_some hsign
    exact stopsAt_cons.mpr (by rw [reach_of_operator hop]; omega)

theorem Derives.calls_stop {us rest : List Token} {cs : List Call} {n : Nat}
    (h : Derives .calls us cs n) (hrest : StopsAt 1 rest) : StopsAt 0 (us ++ rest) := by
  cases h with
  | noCalls => exact hrest.mono (by decide)
  | call hopening => exact stopsAt_cons.mpr (by simp [hopening, reach])

theorem stopsAt_rightParen {t : Token} (h : t.kind = .rightParen) (ts : List Token) :
    StopsAt 9 (t :: ts) :=
  stopsAt_cons.mpr (by simp [h, reach, BinaryOp.ofKind?])

theorem stopsAt_rightBrace {t : Token} (h : t.kind = .rightBrace) (ts : List Token) :
    StopsAt 9 (t :: ts) :=
  stopsAt_cons.mpr (by simp [h, reach, BinaryOp.ofKind?])

theorem stopsAt_comma {t : Token} (h : t.kind = .comma) (ts : List Token) :
    StopsAt 9 (t :: ts) :=
  stopsAt_cons.mpr (by simp [h, reach, BinaryOp.ofKind?])

theorem IsParameter.reads {ts : List Token} {p : Param} (h : IsParameter ts p)
    (rest : List Token) :
    (parameters (ts ++ rest)).plain = furtherParameters p rest := by
  cases h with
  | plain hname =>
    rw [List.cons_append, parameters_plain_other (by simp [hname]) (by simp [hname]),
      expect_of_kind hname]
    rfl
  | constant hword hname =>
    rw [List.cons_append, parameters_plain_const hword, List.cons_append, expect_of_kind hname]
    rfl

theorem AreParameters.reads {ts : List Token} {ps : List Param} (h : AreParameters ts ps)
    {closing : Token} (hclosing : closing.kind = .rightParen) (rest : List Token) :
    (parameters (ts ++ closing :: rest)).plain = .ok (ps, closing :: rest) := by
  induction h with
  | none => exact parameters_plain_close hclosing rest
  | last h =>
    rw [h.reads, furtherParameters, if_neg (by simp [hclosing])]
  | more h hcomma _ ih =>
    rw [List.append_assoc, h.reads, List.cons_append, furtherParameters, if_pos hcomma, ih]
    rfl

/-! ## The digits of the least number -/

theorem natural_not_signed {s : String}
    (h : Decimal.natural? s = some Int64.minValue.toInt.natAbs) : Decimal.signed? s = none := by
  have hlarge : Int64.maxValue.toInt < 9223372036854775808 := by decide
  unfold Decimal.natural? at h
  unfold Decimal.signed?
  dsimp only at h ⊢
  obtain ⟨hvalue, -⟩ := Option.filter_eq_some_iff.mp h
  split at hvalue
  · next hs => simp [hs, hvalue, hlarge]
  · next cs hplus =>
    cases hs : s.toList with
    | nil => simp [hs, Decimal.digits?] at hvalue
    | cons c cs =>
      rw [hs] at hvalue
      by_cases hc : c = '-'
      · subst hc
        simp [Decimal.digits?, Decimal.extend?, Decimal.digit?] at hvalue
      · have hc' : c ≠ '+' := fun he => hplus cs (by rw [hs, he])
        simp [hc, hc', hvalue, hlarge]

theorem Derives.number_leaf {digits : Token} {ts : List Token} {e : Expr} {n : Nat}
    (h : Derives .primary (digits :: ts) e n) (hk : digits.kind = .number) :
    ∃ v, Decimal.signed? digits.lexeme = some v := by
  cases h with
  | number _ hn => exact ⟨_, hn⟩
  | _ => simp_all

/-- An operand does not begin with the digits of the least number, since they are no leaf. -/
theorem Derives.not_least {ts : List Token} {e : Expr} {n : Nat}
    (h : Derives .operand ts e n) (rest : List Token) :
    ∀ d r, ts ++ rest = d :: r → isLeastMagnitude d r = false := by
  intro d r hd
  by_cases hk : d.kind = .number
  · have hleaf : ∃ v, Decimal.signed? d.lexeme = some v := by
      cases h with
      | @operator op _ _ _ _ hsign =>
        cases hd
        cases op <;> simp_all [prefixKind]
      | least hsign =>
        cases hd
        simp_all
      | applied h =>
        cases h with
        | application hcallee =>
          obtain ⟨t, us, rfl, -⟩ := hcallee.opens trivial
          cases hd
          exact hcallee.number_leaf hk
    obtain ⟨v, hv⟩ := hleaf
    have hn : Decimal.natural? d.lexeme ≠ some Int64.minValue.toInt.natAbs := by
      intro hn
      rw [natural_not_signed hn] at hv
      cases hv
    rw [isLeastMagnitude, beq_false_of_ne hn, Bool.and_false, Bool.false_and]
  · simp [isLeastMagnitude, hk]
/-! ## One rule after the other -/

section
variable {ts us vs : List Token} {l m n : Nat}

theorem reads_sequence {first : Expr} {more : List Expr} (hmore : Derives .items us more n)
    (ihfirst : Reads .declaration ts first m) (ihmore : Reads .items us more n) :
    Reads .sequence (ts ++ us) (if more.isEmpty then first else .sequence (first :: more))
      (max m n) := by
  intro room rest hrest
  rw [sequence_plain, List.append_assoc, ihfirst room _ (hmore.items_stop hrest)]
  refine within_bind ?_
  simp only [ihmore room rest hrest]
  exact within_map rfl

theorem reads_noItems : Reads .items [] [] 0 := by
  intro room rest hrest
  cases rest with
  | nil => exact furtherItems_plain_nil room
  | cons t us =>
    rw [List.nil_append, furtherItems_plain_cons, if_neg (hrest.kind_ne (by decide))]
    rfl

theorem reads_item {semicolon : Token} {e : Expr} {es : List Expr}
    (hsemicolon : semicolon.kind = .semicolon) (hitems : Derives .items us es n)
    (ihitem : Reads .declaration ts e m) (ihitems : Reads .items us es n) :
    Reads .items (semicolon :: (ts ++ us)) (e :: es) (max m n) := by
  intro room rest hrest
  rw [List.cons_append, furtherItems_plain_cons, if_pos hsemicolon, List.append_assoc,
    ihitem room _ (hitems.items_stop hrest)]
  refine within_bind ?_
  simp only [ihitems room rest hrest]
  exact within_map rfl

theorem reads_binding {constant : Bool} {word name equal : Token} {value : Expr}
    (hword : word.kind = if constant then .constWord else .letWord)
    (hname : name.kind = .identifier) (hequal : equal.kind = .equal)
    (ih : Reads .declaration ts value n) :
    Reads .declaration (word :: name :: equal :: ts)
      (.declare name.lexeme constant value word.line) (n + 1) := by
  intro room rest hrest
  cases room with
  | zero => rw [declaration_plain_zero, within_zero]
  | succ room =>
    have hdispatch : (declaration (room + 1) (word :: name :: equal :: (ts ++ rest))).plain =
        (binding constant room word (name :: equal :: (ts ++ rest))).plain := by
      cases constant with
      | false => exact declaration_plain_let room (by simpa using hword) _
      | true => exact declaration_plain_const room (by simpa using hword) _
    rw [List.cons_append, List.cons_append, List.cons_append, hdispatch, binding_plain,
      within_succ]
    simp only [expect_of_kind hname, expect_of_kind hequal, ok_bind, ih room rest hrest]
    exact within_map rfl

theorem reads_function {word opening closing arrow : Token} {params : List Param} {inside : Expr}
    (hword : word.kind = .funcWord) (hopening : opening.kind = .leftParen)
    (hparams : AreParameters ts params) (hclosing : closing.kind = .rightParen)
    (harrow : arrow.kind = .arrow) (ih : Reads .body us inside n) :
    Reads .declaration (word :: opening :: (ts ++ closing :: arrow :: us))
      (.function params inside word.line) (n + 1) := by
  intro room rest hrest
  cases room with
  | zero => rw [declaration_plain_zero, within_zero]
  | succ room =>
    rw [List.cons_append, List.cons_append, List.append_assoc, List.cons_append,
      List.cons_append, declaration_plain_func room hword, within_succ]
    simp only [expect_of_kind hopening, hparams.reads hclosing, expect_of_kind hclosing,
      expect_of_kind harrow, ok_bind, ih .function room rest]
    exact within_map rfl

theorem reads_loop {word opening closing : Token} {condition inside : Expr}
    (hword : word.kind = .whileWord) (hopening : opening.kind = .leftParen)
    (hclosing : closing.kind = .rightParen) (ihcondition : Reads .sequence ts condition m)
    (ihinside : Reads .body us inside n) :
    Reads .declaration (word :: opening :: (ts ++ closing :: us))
      (.loop condition inside word.line) (max m n + 1) := by
  intro room rest hrest
  cases room with
  | zero => rw [declaration_plain_zero, within_zero]
  | succ room =>
    rw [List.cons_append, List.cons_append, List.append_assoc, List.cons_append,
      declaration_plain_while room hword, within_succ]
    simp only [expect_of_kind hopening, ok_bind,
      ihcondition room _ (stopsAt_rightParen hclosing _)]
    refine within_bind ?_
    simp only [expect_of_kind hclosing, ok_bind, ihinside (.keyword "while") room rest]
    exact within_map rfl

theorem reads_simple {e : Expr} (h : Derives .assignment ts e n)
    (ih : Reads .assignment ts e n) : Reads .declaration ts e (n + 1) := by
  intro room rest hrest
  obtain ⟨t, us, rfl, ht⟩ := h.opens trivial
  cases room with
  | zero => rw [declaration_plain_zero, within_zero]
  | succ room =>
    have hother : t.kind ∉ [.letWord, .constWord, .funcWord, .whileWord] := by
      intro hk
      simp only [List.mem_cons, List.not_mem_nil, or_false] at hk
      rcases hk with hk | hk | hk | hk <;>
        simp [Production.Opens, opensOperand, opensPrimary, hk] at ht
    rw [List.cons_append, declaration_plain_other room hother, within_succ]
    exact ih room rest hrest

theorem reads_noAssignment {e : Expr} (ih : Reads (.chain BinaryOp.loosest) ts e n) :
    Reads .assignment ts e n := by
  intro room rest hrest
  rw [assignment_plain, ih room rest (hrest.mono (by decide))]
  cases rest with
  | nil => exact within_map rfl
  | cons t us => exact within_map (if_neg (hrest.kind_ne (by decide)))

theorem reads_assign {equal : Token} {name : String} {line : Nat} {value : Expr}
    (hequal : equal.kind = .equal)
    (ihtarget : Reads (.chain BinaryOp.loosest) ts (.identifier name line) m)
    (ihvalue : Reads .declaration us value n) :
    Reads .assignment (ts ++ equal :: us) (.assign name value equal.line) (max m n) := by
  intro room rest hrest
  have hstop : StopsAt 7 (equal :: (us ++ rest)) :=
    stopsAt_cons.mpr (by simp [hequal, reach])
  rw [assignment_plain, List.append_assoc, List.cons_append, ihtarget room _ hstop]
  refine within_bind ?_
  simp only [if_pos hequal, ihvalue room rest hrest]
  exact within_map rfl

theorem reads_single {e : Expr} (ih : Reads .operand ts e n) : Reads (.chain 0) ts e n := by
  intro room rest hrest
  rw [chain_plain_zero]
  exact ih room rest hrest

theorem reads_chain {k : Nat} {first : Expr} {links : List Link}
    (hlinks : Derives (.links (k + 1)) us links n) (ihfirst : Reads (.chain k) ts first m)
    (ihlinks : Reads (.links (k + 1)) us links n) :
    Reads (.chain (k + 1)) (ts ++ us) (Link.join first links) (max m n) := by
  intro room rest hrest
  rw [chain_plain_succ, List.append_assoc, ihfirst room _ (hlinks.links_stop hrest)]
  exact within_bind (ihlinks room _ rest hrest)

theorem reads_noLinks (k : Nat) : Reads (.links k) [] [] 0 := by
  cases k with
  | zero => trivial
  | succ k =>
    intro room left rest hrest
    cases rest with
    | nil => exact linked_nil k room left
    | cons t us => exact linked_none (hrest.no_operator (by omega)) room left us

theorem reads_link {k : Nat} {sign : Token} {op : BinaryOp} {right : Expr} {links : List Link}
    (hsign : BinaryOp.ofKindAt? (k + 1) sign.kind = some op)
    (hlinks : Derives (.links (k + 1)) us links n) (ihright : Reads (.chain k) ts right m)
    (ihlinks : Reads (.links (k + 1)) us links n) :
    Reads (.links (k + 1)) (sign :: (ts ++ us)) (⟨op, right, sign.line⟩ :: links)
      (max m n + 1) := by
  intro room left rest hrest
  cases room with
  | zero => rw [List.cons_append, linked_zero hsign, within_zero]
  | succ room =>
    rw [List.cons_append, linked_succ hsign, List.append_assoc,
      ihright room _ (hlinks.links_stop hrest), within_succ]
    exact within_bind (ihlinks room _ rest hrest)

theorem reads_operator {op : UnaryOp} {sign : Token} {e : Expr} (hsign : sign.kind = prefixKind op)
    (h : Derives .operand ts e n) (ih : Reads .operand ts e n) :
    Reads .operand (sign :: ts) (.unary op e sign.line) (n + 1) := by
  intro room rest hrest
  have hdispatch : (operand room (sign :: (ts ++ rest))).plain =
      (negation op room sign (ts ++ rest)).plain := by
    cases op with
    | negate => exact operand_plain_minus room hsign (h.not_least rest)
    | not => exact operand_plain_bang room hsign _
  rw [List.cons_append, hdispatch]
  cases room with
  | zero => rw [negation_plain_zero, within_zero]
  | succ room =>
    rw [negation_plain_succ, ih room rest hrest, within_succ]
    exact within_map rfl

theorem reads_least {sign digits : Token} (hsign : sign.kind = .minus)
    (hdigits : digits.kind = .number)
    (hvalue : Decimal.natural? digits.lexeme = some Int64.minValue.toInt.natAbs) :
    Reads .operand [sign, digits] (.number Int64.minValue) 0 := by
  intro room rest hrest
  have hleast : isLeastMagnitude digits rest := by
    cases rest with
    | nil => simp [isLeastMagnitude, hdigits, hvalue]
    | cons t us =>
      have hcall : t.kind ≠ .leftParen := hrest.kind_ne (by decide)
      simp [isLeastMagnitude, hdigits, hvalue, hcall]
  rw [List.cons_append, List.cons_append, List.nil_append, operand_plain_least room hsign hleast]
  rfl

theorem reads_applied {e : Expr} (h : Derives .application ts e n)
    (ih : Reads .application ts e n) : Reads .operand ts e n := by
  intro room rest hrest
  obtain ⟨t, us, rfl, ht⟩ := h.opens trivial
  have hother : t.kind ∉ [.minus, .bang] := by
    intro hk
    simp only [List.mem_cons, List.not_mem_nil, or_false] at hk
    rcases hk with hk | hk <;> simp [Production.Opens, opensPrimary, hk] at ht
  rw [List.cons_append, operand_plain_other room hother]
  exact ih room rest hrest

theorem reads_application {callee : Expr} {calls : List Call} (hcalls : Derives .calls us calls n)
    (ihcallee : Reads .primary ts callee m) (ihcalls : Reads .calls us calls n) :
    Reads .application (ts ++ us) (Call.join callee calls) (max m n) := by
  intro room rest hrest
  rw [application_plain, List.append_assoc, ihcallee room _ (hcalls.calls_stop hrest)]
  exact within_bind (ihcalls room _ rest hrest)

theorem reads_noCalls : Reads .calls [] [] 0 := by
  intro room callee rest hrest
  cases rest with
  | nil => exact called_nil room callee
  | cons t us => exact called_other (hrest.kind_ne (by decide)) room callee us

theorem reads_call {opening closing : Token} {args : List Expr} {calls : List Call}
    (hopening : opening.kind = .leftParen) (hclosing : closing.kind = .rightParen)
    (ihargs : Reads .arguments ts args m) (ihcalls : Reads .calls us calls n) :
    Reads .calls (opening :: (ts ++ closing :: us)) (⟨args, opening.line⟩ :: calls)
      (max m n + 1) := by
  intro room callee rest hrest
  cases room with
  | zero => rw [List.cons_append, called_zero hopening, within_zero]
  | succ room =>
    rw [List.cons_append, called_succ hopening, List.append_assoc, List.cons_append,
      ihargs room _ _ hclosing, within_succ]
    refine within_bind ?_
    simp only [expect_of_kind hclosing, ok_bind]
    exact ihcalls room _ rest hrest

theorem reads_noArguments : Reads .arguments [] [] 0 := by
  intro room closing rest hclosing
  exact arguments_plain_close room (by simp [hclosing])

/-- A declaration does not begin with a closing parenthesis. -/
theorem Derives.not_close {e : Expr} (h : Derives .declaration ts e n) (rest : List Token) :
    (ts ++ rest).head?.map Token.kind ≠ some .rightParen := by
  obtain ⟨t, us, rfl, ht⟩ := h.opens trivial
  intro hk
  simp only [List.cons_append, List.head?_cons, Option.map_some, Option.some.injEq] at hk
  simp [Production.Opens, opensDeclaration, opensOperand, opensPrimary, hk] at ht

theorem reads_lastArgument {e : Expr} (h : Derives .declaration ts e n)
    (ih : Reads .declaration ts e n) : Reads .arguments ts [e] n := by
  intro room closing rest hclosing
  rw [arguments_plain_other room (h.not_close _),
    ih room _ ((stopsAt_rightParen hclosing rest).mono (by decide))]
  exact within_map (if_neg (by simp [hclosing]))

theorem reads_argument {comma : Token} {e : Expr} {es : List Expr}
    (h : Derives .declaration ts e m) (hcomma : comma.kind = .comma)
    (ih : Reads .declaration ts e m) (ihmore : Reads .arguments us es n) :
    Reads .arguments (ts ++ comma :: us) (e :: es) (max m n) := by
  intro room closing rest hclosing
  rw [List.append_assoc, List.cons_append, arguments_plain_other room (h.not_close _),
    ih room _ ((stopsAt_comma hcomma _).mono (by decide))]
  refine within_bind ?_
  simp only [if_pos hcomma, ihmore room closing rest hclosing]
  exact within_map rfl

theorem reads_group {opening closing : Token} {e : Expr} (hopening : opening.kind = .leftParen)
    (hclosing : closing.kind = .rightParen) (ih : Reads .sequence ts e n) :
    Reads .primary (opening :: (ts ++ [closing])) e n := by
  intro room rest hrest
  rw [List.cons_append, primary_plain_cons, List.append_assoc, List.cons_append, List.nil_append]
  simp only [hopening, ih room _ (stopsAt_rightParen hclosing rest)]
  refine within_map ?_
  simp only [expect_of_kind hclosing, ok_bind]

theorem reads_block {opening closing : Token} {e : Expr} (hopening : opening.kind = .leftBrace)
    (hclosing : closing.kind = .rightBrace) (ih : Reads .sequence ts e n) :
    Reads .primary (opening :: (ts ++ [closing])) (.block e) n := by
  intro room rest hrest
  rw [List.cons_append, primary_plain_cons, List.append_assoc, List.cons_append, List.nil_append]
  simp only [hopening, ih room _ (stopsAt_rightBrace hclosing rest)]
  refine within_map ?_
  simp only [expect_of_kind hclosing, ok_bind]

theorem reads_choice {word : Token} {arms : Arms} (hword : word.kind = .ifWord)
    (ih : Reads .alternatives ts arms n) : Reads .primary (word :: ts) (.choice arms) n := by
  intro room rest hrest
  rw [List.cons_append, primary_plain_cons]
  simp only [hword, ih room _ rest hrest]
  exact within_map rfl

theorem reads_guarded {opening closing : Token} {condition inside : Expr} {arms : Arms}
    (hopening : opening.kind = .leftParen) (hclosing : closing.kind = .rightParen)
    (ihcondition : Reads .sequence ts condition l) (ihinside : Reads .body us inside m)
    (iharms : Reads .furtherArms vs arms n) :
    Reads .alternatives (opening :: (ts ++ closing :: (us ++ vs)))
      (.guarded condition inside arms) (max l (max m n)) := by
  intro room keyword rest hrest
  rw [List.cons_append, List.append_assoc, List.cons_append, List.append_assoc,
    alternatives_plain]
  simp only [expect_of_kind hopening, ok_bind,
    ihcondition room _ (stopsAt_rightParen hclosing _)]
  refine within_bind ?_
  simp only [expect_of_kind hclosing, ok_bind, ihinside (.keyword keyword) room (vs ++ rest)]
  refine within_bind ?_
  simp only [iharms room rest hrest]
  exact within_map rfl

theorem reads_noArms : Reads .furtherArms [] .done 0 := by
  intro room rest hrest
  cases rest with
  | nil => rfl
  | cons t us =>
    rw [List.nil_append, furtherArms, if_neg (hrest.kind_ne (by decide)),
      if_neg (hrest.kind_ne (by decide))]
    rfl

theorem reads_elifArm {word : Token} {arms : Arms} (hword : word.kind = .elifWord)
    (ih : Reads .alternatives ts arms n) : Reads .furtherArms (word :: ts) arms n := by
  intro room rest hrest
  rw [List.cons_append, furtherArms, if_pos hword]
  exact ih room _ rest hrest

theorem reads_elseArm {word : Token} {e : Expr} (hword : word.kind = .elseWord)
    (ih : Reads .body ts e n) : Reads .furtherArms (word :: ts) (.otherwise e) n := by
  intro room rest hrest
  rw [List.cons_append, furtherArms, if_neg (by simp [hword]), if_pos hword,
    ih (.keyword "else") room rest]
  exact within_map rfl

theorem reads_body {opening closing : Token} {e : Expr} (hopening : opening.kind = .leftBrace)
    (hclosing : closing.kind = .rightBrace) (ih : Reads .sequence ts e n) :
    Reads .body (opening :: (ts ++ [closing])) e n := by
  intro owner room rest
  rw [List.cons_append, List.append_assoc, List.cons_append, List.nil_append, body_plain]
  simp only [expect_of_kind hopening, ok_bind, ih room _ (stopsAt_rightBrace hclosing rest)]
  refine within_map ?_
  simp only [expect_of_kind hclosing, ok_bind]

end

/-- The productions read what the grammar derives. -/
theorem Derives.reads {p : Production} {ts : List Token} {x : p.Tree} {n : Nat}
    (h : Derives p ts x n) : Reads p ts x n := by
  induction h with
  | sequence _ hmore ih₁ ih₂ => exact reads_sequence hmore ih₁ ih₂
  | noItems => exact reads_noItems
  | item hsemicolon _ hitems ih₁ ih₂ => exact reads_item hsemicolon hitems ih₁ ih₂
  | binding hword hname hequal _ ih => exact reads_binding hword hname hequal ih
  | function hword hopening hparams hclosing harrow _ ih =>
    exact reads_function hword hopening hparams hclosing harrow ih
  | loop hword hopening _ hclosing _ ih₁ ih₂ => exact reads_loop hword hopening hclosing ih₁ ih₂
  | simple h ih => exact reads_simple h ih
  | noAssignment _ ih => exact reads_noAssignment ih
  | assign _ hequal _ ih₁ ih₂ => exact reads_assign hequal ih₁ ih₂
  | single _ ih => exact reads_single ih
  | chain _ hlinks ih₁ ih₂ => exact reads_chain hlinks ih₁ ih₂
  | noLinks => exact reads_noLinks _
  | link hsign _ hlinks ih₁ ih₂ => exact reads_link hsign hlinks ih₁ ih₂
  | operator hsign h ih => exact reads_operator hsign h ih
  | least hsign hdigits hvalue => exact reads_least hsign hdigits hvalue
  | applied h ih => exact reads_applied h ih
  | application _ hcalls ih₁ ih₂ => exact reads_application hcalls ih₁ ih₂
  | noCalls => exact reads_noCalls
  | call hopening _ hclosing _ ih₁ ih₂ => exact reads_call hopening hclosing ih₁ ih₂
  | noArguments => exact reads_noArguments
  | lastArgument h ih => exact reads_lastArgument h ih
  | argument h hcomma _ ih₁ ih₂ => exact reads_argument h hcomma ih₁ ih₂
  | number ht hn =>
    intro room rest _
    rw [List.cons_append, primary_plain_cons]
    simp [ht, hn, within]
  | trueWord ht =>
    intro room rest _
    rw [List.cons_append, primary_plain_cons]
    simp [ht, within]
  | falseWord ht =>
    intro room rest _
    rw [List.cons_append, primary_plain_cons]
    simp [ht, within]
  | nullWord ht =>
    intro room rest _
    rw [List.cons_append, primary_plain_cons]
    simp [ht, within]
  | name ht =>
    intro room rest _
    rw [List.cons_append, primary_plain_cons]
    simp [ht, within]
  | group hopening _ hclosing ih => exact reads_group hopening hclosing ih
  | block hopening _ hclosing ih => exact reads_block hopening hclosing ih
  | choice hword _ ih => exact reads_choice hword ih
  | guarded hopening _ hclosing _ _ ih₁ ih₂ ih₃ =>
    exact reads_guarded hopening hclosing ih₁ ih₂ ih₃
  | noArms => exact reads_noArms
  | elifArm hword _ ih => exact reads_elifArm hword ih
  | elseArm hword _ ih => exact reads_elseArm hword ih
  | body hopening _ hclosing ih => exact reads_body hopening hclosing ih

end ExprLang.Grammar
