import ExprLang.Proofs.Grammar.Height

/-!
The limit on nesting, to the level. A derivation is taken as data here, so that what it needs is a
function of it: `Derivation.need` goes through the derivation and counts, member by member, without
a parser and without a limit. The parser reads a program exactly if its derivation needs no more
than `maxNesting` levels, and otherwise refuses it as too deep (`ofTokens_nesting`).

* `Derivation.derives`, `Derives.exists_derivation`: these are the derivations of the grammar;
* `ofTokens_eq_need`: the parser against the need of a derivation;
* `Climbs`: programs of which each one needs a level more than the one before.
-/

namespace ExprLang.Grammar

/-- The greatest of several numbers; zero if there are none. -/
def greatest (ns : List Nat) : Nat := ns.foldr max 0

/-- What the members of a chain behind its first one need, each one level more than it would
need in the place before: the `i`-th of them `i` levels more than by itself. -/
def stepped (ns : List Nat) : List Nat := ns.mapIdx fun i n => i + 1 + n

/-- What is counted for a phrase: one number, or one for each member of a list. -/
abbrev Production.Need : Production → Type
  | .items | .links _ | .calls | .arguments => List Nat
  | _ => Nat

/-- A derivation of the tokens of a phrase, with their tree. -/
inductive Derivation : (p : Production) → List Token → p.Tree → Type where
  | sequence {ts us : List Token} {first : Expr} {more : List Expr}
      (dfirst : Derivation .declaration ts first) (dmore : Derivation .items us more) :
      Derivation .sequence (ts ++ us) (if more.isEmpty then first else .sequence (first :: more))
  | noItems : Derivation .items [] []
  | item {semicolon : Token} {ts us : List Token} {e : Expr} {es : List Expr}
      (hsemicolon : semicolon.kind = .semicolon) (ditem : Derivation .declaration ts e)
      (ditems : Derivation .items us es) :
      Derivation .items (semicolon :: (ts ++ us)) (e :: es)
  | binding {constant : Bool} {word name equal : Token} {ts : List Token} {value : Expr}
      (hword : word.kind = if constant then .constWord else .letWord)
      (hname : name.kind = .identifier) (hequal : equal.kind = .equal)
      (dvalue : Derivation .declaration ts value) :
      Derivation .declaration (word :: name :: equal :: ts)
        (.declare name.lexeme constant value word.line)
  | function {word opening closing arrow : Token} {ts us : List Token} {params : List Param}
      {inside : Expr} (hword : word.kind = .funcWord) (hopening : opening.kind = .leftParen)
      (hparams : AreParameters ts params) (hclosing : closing.kind = .rightParen)
      (harrow : arrow.kind = .arrow) (dinside : Derivation .body us inside) :
      Derivation .declaration (word :: opening :: (ts ++ closing :: arrow :: us))
        (.function params inside word.line)
  | loop {word opening closing : Token} {ts us : List Token} {condition inside : Expr}
      (hword : word.kind = .whileWord) (hopening : opening.kind = .leftParen)
      (dcondition : Derivation .sequence ts condition) (hclosing : closing.kind = .rightParen)
      (dinside : Derivation .body us inside) :
      Derivation .declaration (word :: opening :: (ts ++ closing :: us))
        (.loop condition inside word.line)
  | simple {ts : List Token} {e : Expr} (d : Derivation .assignment ts e) :
      Derivation .declaration ts e
  | noAssignment {ts : List Token} {e : Expr} (d : Derivation (.chain BinaryOp.loosest) ts e) :
      Derivation .assignment ts e
  | assign {equal : Token} {ts us : List Token} {name : String} {line : Nat} {value : Expr}
      (dtarget : Derivation (.chain BinaryOp.loosest) ts (.identifier name line))
      (hequal : equal.kind = .equal) (dvalue : Derivation .declaration us value) :
      Derivation .assignment (ts ++ equal :: us) (.assign name value equal.line)
  | single {ts : List Token} {e : Expr} (d : Derivation .operand ts e) : Derivation (.chain 0) ts e
  | chain {k : Nat} {ts us : List Token} {first : Expr} {links : List Link}
      (dfirst : Derivation (.chain k) ts first) (dlinks : Derivation (.links (k + 1)) us links) :
      Derivation (.chain (k + 1)) (ts ++ us) (Link.join first links)
  | noLinks {k : Nat} : Derivation (.links k) [] []
  | link {k : Nat} {sign : Token} {op : BinaryOp} {ts us : List Token} {right : Expr}
      {links : List Link} (hsign : BinaryOp.ofKindAt? (k + 1) sign.kind = some op)
      (dright : Derivation (.chain k) ts right) (dlinks : Derivation (.links (k + 1)) us links) :
      Derivation (.links (k + 1)) (sign :: (ts ++ us)) (⟨op, right, sign.line⟩ :: links)
  | operator {op : UnaryOp} {sign : Token} {ts : List Token} {e : Expr}
      (hsign : sign.kind = prefixKind op) (d : Derivation .operand ts e) :
      Derivation .operand (sign :: ts) (.unary op e sign.line)
  | least {sign digits : Token} (hsign : sign.kind = .minus) (hdigits : digits.kind = .number)
      (hvalue : Decimal.natural? digits.lexeme = some Int64.minValue.toInt.natAbs) :
      Derivation .operand [sign, digits] (.number Int64.minValue)
  | applied {ts : List Token} {e : Expr} (d : Derivation .application ts e) :
      Derivation .operand ts e
  | application {ts us : List Token} {callee : Expr} {calls : List Call}
      (dcallee : Derivation .primary ts callee) (dcalls : Derivation .calls us calls) :
      Derivation .application (ts ++ us) (Call.join callee calls)
  | noCalls : Derivation .calls [] []
  | call {opening closing : Token} {ts us : List Token} {args : List Expr} {calls : List Call}
      (hopening : opening.kind = .leftParen) (dargs : Derivation .arguments ts args)
      (hclosing : closing.kind = .rightParen) (dcalls : Derivation .calls us calls) :
      Derivation .calls (opening :: (ts ++ closing :: us)) (⟨args, opening.line⟩ :: calls)
  | noArguments : Derivation .arguments [] []
  | lastArgument {ts : List Token} {e : Expr} (d : Derivation .declaration ts e) :
      Derivation .arguments ts [e]
  | argument {comma : Token} {ts us : List Token} {e : Expr} {es : List Expr}
      (d : Derivation .declaration ts e) (hcomma : comma.kind = .comma)
      (dmore : Derivation .arguments us es) : Derivation .arguments (ts ++ comma :: us) (e :: es)
  | number {t : Token} {n : Int64} (ht : t.kind = .number)
      (hn : Decimal.signed? t.lexeme = some n) : Derivation .primary [t] (.number n)
  | trueWord {t : Token} (ht : t.kind = .trueWord) : Derivation .primary [t] (.bool true)
  | falseWord {t : Token} (ht : t.kind = .falseWord) : Derivation .primary [t] (.bool false)
  | nullWord {t : Token} (ht : t.kind = .nullWord) : Derivation .primary [t] .null
  | name {t : Token} (ht : t.kind = .identifier) :
      Derivation .primary [t] (.identifier t.lexeme t.line)
  | group {opening closing : Token} {ts : List Token} {e : Expr}
      (hopening : opening.kind = .leftParen) (d : Derivation .sequence ts e)
      (hclosing : closing.kind = .rightParen) :
      Derivation .primary (opening :: (ts ++ [closing])) e
  | block {opening closing : Token} {ts : List Token} {e : Expr}
      (hopening : opening.kind = .leftBrace) (d : Derivation .sequence ts e)
      (hclosing : closing.kind = .rightBrace) :
      Derivation .primary (opening :: (ts ++ [closing])) (.block e)
  | choice {word : Token} {ts : List Token} {arms : Arms} (hword : word.kind = .ifWord)
      (d : Derivation .alternatives ts arms) : Derivation .primary (word :: ts) (.choice arms)
  | guarded {opening closing : Token} {ts us vs : List Token} {condition inside : Expr}
      {rest : Arms} (hopening : opening.kind = .leftParen)
      (dcondition : Derivation .sequence ts condition) (hclosing : closing.kind = .rightParen)
      (dinside : Derivation .body us inside) (drest : Derivation .furtherArms vs rest) :
      Derivation .alternatives (opening :: (ts ++ closing :: (us ++ vs)))
        (.guarded condition inside rest)
  | noArms : Derivation .furtherArms [] .done
  | elifArm {word : Token} {ts : List Token} {arms : Arms} (hword : word.kind = .elifWord)
      (d : Derivation .alternatives ts arms) : Derivation .furtherArms (word :: ts) arms
  | elseArm {word : Token} {ts : List Token} {e : Expr} (hword : word.kind = .elseWord)
      (d : Derivation .body ts e) : Derivation .furtherArms (word :: ts) (.otherwise e)
  | body {opening closing : Token} {ts : List Token} {e : Expr}
      (hopening : opening.kind = .leftBrace) (d : Derivation .sequence ts e)
      (hclosing : closing.kind = .rightBrace) : Derivation .body (opening :: (ts ++ [closing])) e

/-- The levels of nesting that a derivation needs. A declaration and the operand of a prefix
operator are one level deeper than what they stand in. So is each further operand of a chain, and
the arguments of each further call, and these levels add up along the chain. -/
def Derivation.need {p : Production} {ts : List Token} {x : p.Tree} : Derivation p ts x → p.Need
  | .sequence dfirst dmore => max dfirst.need (greatest dmore.need)
  | .noItems => []
  | .item _ ditem ditems => ditem.need :: ditems.need
  | .binding _ _ _ dvalue => dvalue.need + 1
  | .function _ _ _ _ _ dinside => dinside.need + 1
  | .loop _ _ dcondition _ dinside => max dcondition.need dinside.need + 1
  | .simple d => d.need + 1
  | .noAssignment d => d.need
  | .assign dtarget _ dvalue => max dtarget.need dvalue.need
  | .single d => d.need
  | .chain dfirst dlinks => max dfirst.need (greatest (stepped dlinks.need))
  | .noLinks => []
  | .link _ dright dlinks => dright.need :: dlinks.need
  | .operator _ d => d.need + 1
  | .least _ _ _ => 0
  | .applied d => d.need
  | .application dcallee dcalls => max dcallee.need (greatest (stepped dcalls.need))
  | .noCalls => []
  | .call _ dargs _ dcalls => greatest dargs.need :: dcalls.need
  | .noArguments => []
  | .lastArgument d => [d.need]
  | .argument d _ dmore => d.need :: dmore.need
  | .number _ _ | .trueWord _ | .falseWord _ | .nullWord _ | .name _ => 0
  | .group _ d _ | .block _ d _ | .body _ d _ => d.need
  | .choice _ d => d.need
  | .guarded _ dcondition _ dinside drest => max dcondition.need (max dinside.need drest.need)
  | .noArms => 0
  | .elifArm _ d => d.need
  | .elseArm _ d => d.need

/-! ## The derivations of the grammar -/

/-- The levels that a phrase needs, also one that is a list. -/
def Production.level : (p : Production) → p.Need → Nat
  | .items, ns | .arguments, ns => greatest ns
  | .links _, ns | .calls, ns => greatest (stepped ns)
  | .sequence, n | .declaration, n | .assignment, n | .chain _, n | .operand, n
  | .application, n | .primary, n | .alternatives, n | .furtherArms, n | .body, n => n

theorem max_greatest_succ (m : Nat) (ns : List Nat) :
    max (m + 1) (greatest (ns.map (· + 1))) = max m (greatest ns) + 1 := by
  induction ns with
  | nil => simp [greatest]
  | cons n ns ih =>
    simp only [greatest, List.map_cons, List.foldr_cons] at ih ⊢
    omega

/-- A member in front makes one more level of what the others need. -/
theorem greatest_stepped_cons (n : Nat) (ns : List Nat) :
    greatest (stepped (n :: ns)) = max n (greatest (stepped ns)) + 1 := by
  have hlater : (ns.mapIdx fun i n => i + 1 + 1 + n) = (stepped ns).map (· + 1) := by
    simp only [stepped, List.mapIdx_eq_zipIdx_map, List.map_map]
    refine List.map_congr_left fun x _ => ?_
    simp only [Function.comp_apply]
    omega
  rw [← max_greatest_succ, ← hlater, stepped, List.mapIdx_cons, Nat.zero_add, Nat.add_comm 1 n]
  rfl

theorem Derives.need_eq {p : Production} {ts : List Token} {x : p.Tree} {m n : Nat}
    (h : Derives p ts x m) (hn : m = n) : Derives p ts x n :=
  hn ▸ h

/-- A derivation is one of the grammar, and needs what the grammar says. -/
theorem Derivation.derives {p : Production} {ts : List Token} {x : p.Tree}
    (d : Derivation p ts x) : Derives p ts x (p.level d.need) := by
  induction d with
  | sequence _ _ ihfirst ihmore => exact .sequence ihfirst ihmore
  | noItems => exact .noItems
  | item hsemicolon _ _ ihitem ihitems => exact .item hsemicolon ihitem ihitems
  | binding hword hname hequal _ ih => exact .binding hword hname hequal ih
  | function hword hopening hparams hclosing harrow _ ih =>
    exact .function hword hopening hparams hclosing harrow ih
  | loop hword hopening _ hclosing _ ihcondition ihinside =>
    exact .loop hword hopening ihcondition hclosing ihinside
  | simple _ ih => exact .simple ih
  | noAssignment _ ih => exact .noAssignment ih
  | assign _ hequal _ ihtarget ihvalue => exact .assign ihtarget hequal ihvalue
  | single _ ih => exact .single ih
  | chain _ _ ihfirst ihlinks => exact .chain ihfirst ihlinks
  | noLinks => exact .noLinks
  | link hsign dright dlinks ihright ihlinks =>
    exact (Derives.link hsign ihright ihlinks).need_eq
      (greatest_stepped_cons dright.need dlinks.need).symm
  | operator hsign _ ih => exact .operator hsign ih
  | least hsign hdigits hvalue => exact .least hsign hdigits hvalue
  | applied _ ih => exact .applied ih
  | application _ _ ihcallee ihcalls => exact .application ihcallee ihcalls
  | noCalls => exact .noCalls
  | call hopening dargs hclosing dcalls ihargs ihcalls =>
    exact (Derives.call hopening ihargs hclosing ihcalls).need_eq
      (greatest_stepped_cons (greatest dargs.need) dcalls.need).symm
  | noArguments => exact .noArguments
  | lastArgument d ih => exact (Derives.lastArgument ih).need_eq (Nat.max_zero d.need).symm
  | argument _ hcomma _ ih ihmore => exact .argument ih hcomma ihmore
  | number ht hn => exact .number ht hn
  | trueWord ht => exact .trueWord ht
  | falseWord ht => exact .falseWord ht
  | nullWord ht => exact .nullWord ht
  | name ht => exact .name ht
  | group hopening _ hclosing ih => exact .group hopening ih hclosing
  | block hopening _ hclosing ih => exact .block hopening ih hclosing
  | choice hword _ ih => exact .choice hword ih
  | guarded hopening _ hclosing _ _ ihcondition ihinside ihrest =>
    exact .guarded hopening ihcondition hclosing ihinside ihrest
  | noArms => exact .noArms
  | elifArm hword _ ih => exact .elifArm hword ih
  | elseArm hword _ ih => exact .elseArm hword ih
  | body hopening _ hclosing ih => exact .body hopening ih hclosing

/-- Whatever the grammar derives has a derivation. -/
theorem Derives.exists_derivation {p : Production} {ts : List Token} {x : p.Tree} {n : Nat}
    (h : Derives p ts x n) : Nonempty (Derivation p ts x) := by
  induction h with
  | sequence _ _ ihfirst ihmore => exact .map2 .sequence ihfirst ihmore
  | noItems => exact ⟨.noItems⟩
  | item hsemicolon _ _ ihitem ihitems => exact .map2 (.item hsemicolon) ihitem ihitems
  | binding hword hname hequal _ ih => exact .map (.binding hword hname hequal) ih
  | function hword hopening hparams hclosing harrow _ ih =>
    exact .map (.function hword hopening hparams hclosing harrow) ih
  | loop hword hopening _ hclosing _ ihcondition ihinside =>
    exact .map2 (.loop hword hopening · hclosing) ihcondition ihinside
  | simple _ ih => exact .map .simple ih
  | noAssignment _ ih => exact .map .noAssignment ih
  | assign _ hequal _ ihtarget ihvalue => exact .map2 (.assign · hequal) ihtarget ihvalue
  | single _ ih => exact .map .single ih
  | chain _ _ ihfirst ihlinks => exact .map2 .chain ihfirst ihlinks
  | noLinks => exact ⟨.noLinks⟩
  | link hsign _ _ ihright ihlinks => exact .map2 (.link hsign) ihright ihlinks
  | operator hsign _ ih => exact .map (.operator hsign) ih
  | least hsign hdigits hvalue => exact ⟨.least hsign hdigits hvalue⟩
  | applied _ ih => exact .map .applied ih
  | application _ _ ihcallee ihcalls => exact .map2 .application ihcallee ihcalls
  | noCalls => exact ⟨.noCalls⟩
  | call hopening _ hclosing _ ihargs ihcalls =>
    exact .map2 (.call hopening · hclosing) ihargs ihcalls
  | noArguments => exact ⟨.noArguments⟩
  | lastArgument _ ih => exact .map .lastArgument ih
  | argument _ hcomma _ ih ihmore => exact .map2 (.argument · hcomma) ih ihmore
  | number ht hn => exact ⟨.number ht hn⟩
  | trueWord ht => exact ⟨.trueWord ht⟩
  | falseWord ht => exact ⟨.falseWord ht⟩
  | nullWord ht => exact ⟨.nullWord ht⟩
  | name ht => exact ⟨.name ht⟩
  | group hopening _ hclosing ih => exact .map (.group hopening · hclosing) ih
  | block hopening _ hclosing ih => exact .map (.block hopening · hclosing) ih
  | choice hword _ ih => exact .map (.choice hword) ih
  | guarded hopening _ hclosing _ _ ihcondition ihinside ihrest =>
    obtain ⟨drest⟩ := ihrest
    exact .map2 (.guarded hopening · hclosing · drest) ihcondition ihinside
  | noArms => exact ⟨.noArms⟩
  | elifArm hword _ ih => exact .map (.elifArm hword) ih
  | elseArm hword _ ih => exact .map (.elseArm hword) ih
  | body hopening _ hclosing ih => exact .map (.body hopening · hclosing) ih

theorem derivesProgram_iff {ts : List Token} {e : Expr} :
    DerivesProgram ts e ↔ Nonempty (Derivation .sequence (beforeEnd ts) e) :=
  ⟨fun ⟨_, h⟩ => h.exists_derivation, fun ⟨d⟩ => ⟨_, d.derives⟩⟩

/-! ## The limit -/

theorem Derives.ofTokens_eq {ts : List Token} (hend : ts.getLast?.map Token.kind = some .eof)
    {e : Expr} {need : Nat} (h : Derives .sequence (beforeEnd ts) e need) :
    Expr.ofTokens ts = if need ≤ maxNesting then .ok e else .error (.tooDeep maxNesting) := by
  obtain ⟨last, hlast, hkind⟩ := Option.map_eq_some_iff.mp hend
  obtain ⟨ending, behind, hending, hts⟩ := exists_end (List.mem_of_getLast? hlast) hkind
  have hprogram := h.program_eq hending behind
  rw [← hts] at hprogram
  rw [ofTokens_eq_program hend, hprogram]
  split <;> rfl

/-- What the parser makes of a phrase in front of an end mark. -/
theorem Derives.ofTokens_append {ts : List Token} {e : Expr} {need : Nat}
    (h : Derives .sequence ts e need) {mark : Token} (hmark : mark.kind = .eof) :
    Expr.ofTokens (ts ++ [mark]) =
      if need ≤ maxNesting then .ok e else .error (.tooDeep maxNesting) := by
  have hlast : (ts ++ [mark]).getLast?.map Token.kind = some .eof := by simp [hmark]
  have hbefore : beforeEnd (ts ++ [mark]) = ts := beforeEnd_append h.not_end hmark []
  exact Derives.ofTokens_eq hlast (hbefore.symm ▸ h)

/-- The parser reads what has a derivation that needs no more levels than there are, and refuses
what has one that needs more. -/
theorem ofTokens_eq_need {ts : List Token} (hend : ts.getLast?.map Token.kind = some .eof)
    {e : Expr} (d : Derivation .sequence (beforeEnd ts) e) :
    Expr.ofTokens ts = if d.need ≤ maxNesting then .ok e else .error (.tooDeep maxNesting) :=
  d.derives.ofTokens_eq hend

/-! ## Programs that climb level by level -/

/-- Of these programs exactly the first ones are read, as many as there are levels; the others are
nested too deep. -/
def Climbs (programs : Nat → List Token) : Prop :=
  ∀ n, (n < maxNesting → ∃ e, Expr.ofTokens (programs n ++ [mark .eof]) = .ok e) ∧
    (maxNesting ≤ n → Expr.ofTokens (programs n ++ [mark .eof]) = .error (.tooDeep maxNesting))

theorem climbs_of_derives {programs : Nat → List Token}
    (h : ∀ n, ∃ e, Derives .sequence (programs n) e (n + 1)) : Climbs programs := by
  intro n
  obtain ⟨e, he⟩ := h n
  have hread : Expr.ofTokens (programs n ++ [mark .eof]) = _ := he.ofTokens_append rfl
  constructor
  · intro hn
    exact ⟨e, hread.trans (if_pos hn)⟩
  · intro hn
    exact hread.trans (if_neg (Nat.not_le.mpr (Nat.lt_succ_of_le hn)))

/-- A chain as a program of its own. -/
theorem Derives.program_of_chain {k : Nat} {ts : List Token} {e : Expr} {n : Nat}
    (h : Derives (.chain k) ts e n) (hk : k ≤ BinaryOp.loosest) :
    Derives .sequence ts e (n + 1) := by
  have hsequence := Derives.sequence (.simple (.noAssignment (h.chain_looser hk))) .noItems
  rwa [List.append_nil, Nat.max_zero] at hsequence

/-- A zero in pairs of parentheses. -/
def nestedGroups (n : Nat) : List Token :=
  List.replicate n (mark .leftParen) ++ zeroToken :: List.replicate n (mark .rightParen)

/-- A zero behind prefix operators. -/
def prefixedZero (sign : Token) (n : Nat) : List Token := List.replicate n sign ++ [zeroToken]

/-- Zeros with one operator between each two. -/
def foldedZeros (sign : Token) (n : Nat) : List Token :=
  zeroToken :: (List.replicate n [sign, zeroToken]).flatten

/-- A zero with empty calls behind it. -/
def emptyCalls (n : Nat) : List Token :=
  zeroToken :: (List.replicate n [mark .leftParen, mark .rightParen]).flatten

theorem derives_nestedGroups (n : Nat) :
    Derives .sequence (nestedGroups n) (.number 0) (n + 1) := by
  induction n with
  | zero => exact (Derives.single derives_zero).program_of_chain (Nat.zero_le _)
  | succ n ih =>
    have hgroup := Derives.group (kind_mark .leftParen) ih (kind_mark .rightParen)
    have hprogram := (Derives.single hgroup.uncalled).program_of_chain (Nat.zero_le _)
    have hshape : nestedGroups (n + 1) =
        mark .leftParen :: (nestedGroups n ++ [mark .rightParen]) := by
      rw [nestedGroups, List.replicate_succ, List.replicate_succ', nestedGroups, List.append_assoc]
      rfl
    exact hshape ▸ hprogram

theorem derives_prefixedZero {op : UnaryOp} {sign : Token} (hsign : sign.kind = prefixKind op)
    (n : Nat) : ∃ e, Derives .operand (prefixedZero sign n) e n := by
  induction n with
  | zero => exact ⟨_, derives_zero⟩
  | succ n ih =>
    obtain ⟨e, he⟩ := ih
    exact ⟨_, .operator hsign he⟩

theorem climbs_prefixedZero {op : UnaryOp} {sign : Token} (hsign : sign.kind = prefixKind op) :
    Climbs (prefixedZero sign) := by
  refine climbs_of_derives fun n => ?_
  obtain ⟨e, he⟩ := derives_prefixedZero hsign n
  exact ⟨e, (Derives.single he).program_of_chain (Nat.zero_le _)⟩

theorem climbs_foldedZeros {op : BinaryOp} {sign : Token}
    (hsign : BinaryOp.ofKind? sign.kind = some op) : Climbs (foldedZeros sign) := by
  obtain ⟨k, hk, hloose⟩ : ∃ k < BinaryOp.loosest, op.looseness = k + 1 := by
    cases op <;> exact ⟨_, by decide, rfl⟩
  have hat : BinaryOp.ofKindAt? (k + 1) sign.kind = some op := by
    simp [BinaryOp.ofKindAt?, hsign, hloose]
  refine climbs_of_derives fun n => ?_
  have hchain := Derives.chain (derives_zero.chain_of_operand k) (derives_zeros hat n)
  rw [Nat.zero_max] at hchain
  exact ⟨_, hchain.program_of_chain hk⟩

theorem climbs_emptyCalls : Climbs emptyCalls := by
  refine climbs_of_derives fun n => ?_
  have hzero : Derives .primary [zeroToken] (.number 0) 0 := .number rfl rfl
  have hcalls := Derives.applied (.application hzero (derives_calls n))
  rw [Nat.zero_max] at hcalls
  exact ⟨_, (Derives.single hcalls).program_of_chain (Nat.zero_le _)⟩

/-- The limit on nesting is exact. Where the grammar has a derivation of the tokens in front of the
first end mark, its need alone decides whether they are read or refused as too deep. Nested
parentheses, prefix operators, the operators of one chain and the calls of one callee each take
one level, and the level that the program itself takes leaves room for 999 of them. -/
theorem ofTokens_nesting :
    (∀ ts : List Token, ts.getLast?.map Token.kind = some .eof →
      (∀ e, DerivesProgram ts e ↔ Nonempty (Derivation .sequence (beforeEnd ts) e)) ∧
      ∀ e, ∀ d : Derivation .sequence (beforeEnd ts) e,
        Expr.ofTokens ts =
          if d.need ≤ maxNesting then .ok e else .error (.tooDeep maxNesting)) ∧
    Climbs nestedGroups ∧
    (∀ op sign, sign.kind = prefixKind op → Climbs (prefixedZero sign)) ∧
    (∀ op sign, BinaryOp.ofKind? sign.kind = some op → Climbs (foldedZeros sign)) ∧
    Climbs emptyCalls :=
  ⟨fun _ hend => ⟨fun _ => derivesProgram_iff, fun _ d => ofTokens_eq_need hend d⟩,
    climbs_of_derives fun n => ⟨_, derives_nestedGroups n⟩,
    fun _ _ hsign => climbs_prefixedZero hsign, fun _ _ hsign => climbs_foldedZeros hsign,
    climbs_emptyCalls⟩

/-- `x(-0)()`, with its end mark. -/
def negatedArgument : List Token :=
  [⟨.identifier, "x", 1, 1⟩, mark .leftParen, mark .minus, zeroToken, mark .rightParen,
    mark .leftParen, mark .rightParen, mark .eof]

/-- An operand as a declaration, with no link on any level of the chain. -/
def Derivation.asDeclaration {ts : List Token} {e : Expr} (d : Derivation .operand ts e) :
    Derivation .declaration (ts ++ [] ++ [] ++ [] ++ [] ++ [] ++ []) e :=
  .simple (.noAssignment (.chain (.chain (.chain (.chain (.chain (.chain (.single d)
    .noLinks) .noLinks) .noLinks) .noLinks) .noLinks) .noLinks))

/-- Its derivation: the argument is one level deep as such, one as a declaration and one behind
the sign, the second call two levels; with the program itself these are four. -/
def negatedArgumentDerivation : Derivation .sequence (beforeEnd negatedArgument)
    (.call (.call (.identifier "x" 1) [.unary .negate (.number 0) 1] 1) [] 1) :=
  let zero : Derivation .operand [zeroToken] (.number 0) :=
    .applied (.application (.number rfl rfl) .noCalls)
  let negated : Derivation .operand [mark .minus, zeroToken] (.unary .negate (.number 0) 1) :=
    .operator rfl zero
  let second : Derivation .calls [mark .leftParen, mark .rightParen] [⟨[], 1⟩] :=
    .call rfl .noArguments rfl .noCalls
  let calls : Derivation .calls (mark .leftParen :: ([mark .minus, zeroToken] ++
      mark .rightParen :: [mark .leftParen, mark .rightParen]))
      [⟨[.unary .negate (.number 0) 1], 1⟩, ⟨[], 1⟩] :=
    .call rfl (.lastArgument negated.asDeclaration) rfl second
  let application : Derivation .operand (beforeEnd negatedArgument) _ :=
    .applied (.application (.name rfl) calls)
  .sequence application.asDeclaration .noItems

/-- Two calls that need four levels; and 999 prefix operators are read, one more is too deep. -/
theorem ofTokens_nesting_boundary :
    (negatedArgument.getLast?.map Token.kind = some .eof ∧ negatedArgumentDerivation.need = 4 ∧
      Expr.ofTokens negatedArgument =
        .ok (.call (.call (.identifier "x" 1) [.unary .negate (.number 0) 1] 1) [] 1)) ∧
    ((mark .minus).kind = prefixKind .negate ∧
      (∃ e, Expr.ofTokens (prefixedZero (mark .minus) 999 ++ [mark .eof]) = .ok e) ∧
      Expr.ofTokens (prefixedZero (mark .minus) 1000 ++ [mark .eof]) = .error (.tooDeep 1000)) := by
  obtain ⟨hread, -, hprefixed, -⟩ := ofTokens_nesting
  have hend : negatedArgument.getLast?.map Token.kind = some .eof := rfl
  have hneed : negatedArgumentDerivation.need = 4 := rfl
  have hfew : negatedArgumentDerivation.need ≤ maxNesting := by
    rw [hneed]
    decide
  have hsign : (mark .minus).kind = prefixKind .negate := rfl
  have hclimbs := hprefixed .negate (mark .minus) hsign
  refine ⟨⟨hend, hneed, ?_⟩, hsign, (hclimbs 999).1 (by decide), (hclimbs 1000).2 (by decide)⟩
  exact ((hread _ hend).2 _ negatedArgumentDerivation).trans (if_pos hfew)

end ExprLang.Grammar
