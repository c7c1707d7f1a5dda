import ExprLang.Program
import ExprLang.Proofs.Expr.Source
import ExprLang.Proofs.Grammar.Height
import ExprLang.Proofs.Token.Position

/-!
The shape of an expression that was read from a text. What the grammar puts into a node comes from
a token, but for the least number: a name from the lexeme of an identifier, a number from that of a
run of digits, a line from any token. What the scanner knows of the tokens of a text is therefore
known of the nodes.

* `Derives.formed`: what the nodes of a phrase have from its tokens, and how many parts they have;
* `Scans.sound`: the spelling and the lines of the tokens of a text;
* `wellNamed_ofSource`, `program_shape`: the two together.
-/

namespace ExprLang

/-- A node is made of tokens with a property: its names and its lines are theirs, and its number, if
it is not the least one. It has as many parts as the grammar gives to its kind. -/
structure Expr.FormedOf (Q : Token → Prop) (node : Expr) : Prop where
  names : ∀ name ∈ node.ownNames, ∃ t, Q t ∧ t.kind = .identifier ∧ t.lexeme = name
  lines : ∀ line ∈ node.ownLines, ∃ t, Q t ∧ t.line = line
  parts :
    match node with
    | .number n => n = Int64.minValue ∨
        ∃ t, Q t ∧ t.kind = .number ∧ Decimal.signed? t.lexeme = some n
    | .sequence items => 2 ≤ items.length
    | .choice arms => arms.branches ≠ []
    | _ => True

namespace Grammar

/-! ## Phrases -/

/-- A property of all nodes of what a phrase is read as. A link or a call is a node once there is
something in front of it. -/
def Production.Throughout (P : Expr → Prop) : (p : Production) → p.Tree → Prop
  | .items, es | .arguments, es => Expr.AllThroughout P es
  | .links _, ls => ∀ link ∈ ls,
      (∀ left, P (.binary link.op left link.right link.line)) ∧ link.right.Throughout P
  | .calls, cs => ∀ call ∈ cs,
      (∀ callee, P (.call callee call.arguments call.line)) ∧ Expr.AllThroughout P call.arguments
  | .alternatives, arms | .furtherArms, arms => Arms.Throughout P arms
  | .sequence, e | .declaration, e | .assignment, e | .chain _, e | .operand, e
  | .application, e | .primary, e | .body, e => Expr.Throughout P e

theorem throughout_join_links {P : Expr → Prop} {links : List Link}
    (hlinks : ∀ link ∈ links,
      (∀ left, P (.binary link.op left link.right link.line)) ∧ link.right.Throughout P)
    {first : Expr} (hfirst : first.Throughout P) : (Link.join first links).Throughout P := by
  induction links generalizing first with
  | nil => exact hfirst
  | cons link links ih =>
    obtain ⟨⟨hnode, hright⟩, hlinks⟩ := List.forall_mem_cons.mp hlinks
    exact ih hlinks ⟨hnode first, hfirst, hright⟩

theorem throughout_join_calls {P : Expr → Prop} {calls : List Call}
    (hcalls : ∀ call ∈ calls,
      (∀ callee, P (.call callee call.arguments call.line)) ∧ Expr.AllThroughout P call.arguments)
    {callee : Expr} (hcallee : callee.Throughout P) : (Call.join callee calls).Throughout P := by
  induction calls generalizing callee with
  | nil => exact hcallee
  | cons call calls ih =>
    obtain ⟨⟨hnode, harguments⟩, hcalls⟩ := List.forall_mem_cons.mp hcalls
    exact ih hcalls ⟨hnode callee, hcallee, harguments⟩

section

variable {Q : Token → Prop}

theorem IsParameter.exists_token {ts : List Token} {p : Param} (h : IsParameter ts p)
    (hts : ∀ t ∈ ts, Q t) : ∃ t, Q t ∧ t.kind = .identifier ∧ t.lexeme = p.name := by
  cases h with
  | plain hname => exact ⟨_, hts _ (by simp), hname, rfl⟩
  | constant _ hname => exact ⟨_, hts _ (by simp), hname, rfl⟩

theorem AreParameters.exists_token {ts : List Token} {ps : List Param} (h : AreParameters ts ps)
    (hts : ∀ t ∈ ts, Q t) :
    ∀ name ∈ ps.map Param.name, ∃ t, Q t ∧ t.kind = .identifier ∧ t.lexeme = name := by
  induction h with
  | none => exact List.forall_mem_nil _
  | last h => exact List.forall_mem_singleton.mpr (h.exists_token hts)
  | more h _ _ ih =>
    obtain ⟨hfirst, hmore⟩ := List.forall_mem_append.mp hts
    exact List.forall_mem_cons.mpr
      ⟨h.exists_token hfirst, ih (List.forall_mem_cons.mp hmore).2⟩

/-- The arms of a conditional begin with a guard. -/
theorem Derives.branches_ne_nil {ts : List Token} {arms : Arms} {n : Nat}
    (h : Derives .alternatives ts arms n) : arms.branches ≠ [] := by
  cases h with
  | guarded => exact List.cons_ne_nil _ _

/-- What the nodes of a phrase have is from its tokens. -/
theorem Derives.formed {p : Production} {ts : List Token} {x : p.Tree} {n : Nat}
    (h : Derives p ts x n) (hts : ∀ t ∈ ts, Q t) : p.Throughout (Expr.FormedOf Q) x := by
  have honly : ∀ {t : Token}, Q t → ∀ line ∈ [t.line], ∃ t, Q t ∧ t.line = line :=
    fun ht => List.forall_mem_singleton.mpr ⟨_, ht, rfl⟩
  induction h with
  | @sequence _ _ first more _ _ _ _ ihfirst ihmore =>
    obtain ⟨hfirst, hmore⟩ := List.forall_mem_append.mp hts
    show Expr.Throughout _ (if more.isEmpty then first else .sequence (first :: more))
    split
    · exact ihfirst hfirst
    · next hsome =>
      have htwo : 2 ≤ (first :: more).length :=
        Nat.succ_le_succ (List.length_pos_iff.mpr (by simpa using hsome))
      exact ⟨⟨List.forall_mem_nil _, List.forall_mem_nil _, htwo⟩, ihfirst hfirst, ihmore hmore⟩
  | item _ _ _ ihitem ihitems =>
    obtain ⟨hitem, hitems⟩ := List.forall_mem_append.mp (List.forall_mem_cons.mp hts).2
    exact ⟨ihitem hitem, ihitems hitems⟩
  | binding _ hname _ _ ih =>
    obtain ⟨hword, hmore⟩ := List.forall_mem_cons.mp hts
    obtain ⟨hown, hmore⟩ := List.forall_mem_cons.mp hmore
    exact ⟨⟨List.forall_mem_singleton.mpr ⟨_, hown, hname, rfl⟩, honly hword, trivial⟩,
      ih (List.forall_mem_cons.mp hmore).2⟩
  | function _ _ hparams _ _ _ ih =>
    obtain ⟨hword, hmore⟩ := List.forall_mem_cons.mp hts
    obtain ⟨hlist, hmore⟩ := List.forall_mem_append.mp (List.forall_mem_cons.mp hmore).2
    exact ⟨⟨hparams.exists_token hlist, honly hword, trivial⟩,
      ih (List.forall_mem_cons.mp (List.forall_mem_cons.mp hmore).2).2⟩
  | loop _ _ _ _ _ ihcondition ihinside =>
    obtain ⟨hword, hmore⟩ := List.forall_mem_cons.mp hts
    obtain ⟨hcondition, hinside⟩ := List.forall_mem_append.mp (List.forall_mem_cons.mp hmore).2
    exact ⟨⟨List.forall_mem_nil _, honly hword, trivial⟩, ihcondition hcondition,
      ihinside (List.forall_mem_cons.mp hinside).2⟩
  | simple _ ih | noAssignment _ ih | single _ ih | applied _ ih => exact ih hts
  | lastArgument _ ih => exact ⟨ih hts, trivial⟩
  | assign _ _ _ ihtarget ihvalue =>
    obtain ⟨htarget, hvalue⟩ := List.forall_mem_append.mp hts
    obtain ⟨hequal, hvalue⟩ := List.forall_mem_cons.mp hvalue
    exact ⟨⟨(ihtarget htarget).names, honly hequal, trivial⟩, ihvalue hvalue⟩
  | chain _ _ ihfirst ihlinks =>
    obtain ⟨hfirst, hlinks⟩ := List.forall_mem_append.mp hts
    exact throughout_join_links (ihlinks hlinks) (ihfirst hfirst)
  | link _ _ _ ihright ihlinks =>
    obtain ⟨hsign, hmore⟩ := List.forall_mem_cons.mp hts
    obtain ⟨hright, hlinks⟩ := List.forall_mem_append.mp hmore
    exact List.forall_mem_cons.mpr
      ⟨⟨fun _ => ⟨List.forall_mem_nil _, honly hsign, trivial⟩, ihright hright⟩, ihlinks hlinks⟩
  | operator _ _ ih =>
    obtain ⟨hsign, hoperand⟩ := List.forall_mem_cons.mp hts
    exact ⟨⟨List.forall_mem_nil _, honly hsign, trivial⟩, ih hoperand⟩
  | least => exact ⟨List.forall_mem_nil _, List.forall_mem_nil _, .inl rfl⟩
  | application _ _ ihcallee ihcalls =>
    obtain ⟨hcallee, hcalls⟩ := List.forall_mem_append.mp hts
    exact throughout_join_calls (ihcalls hcalls) (ihcallee hcallee)
  | call _ _ _ _ ihargs ihcalls =>
    obtain ⟨hopening, hmore⟩ := List.forall_mem_cons.mp hts
    obtain ⟨hargs, hcalls⟩ := List.forall_mem_append.mp hmore
    exact List.forall_mem_cons.mpr
      ⟨⟨fun _ => ⟨List.forall_mem_nil _, honly hopening, trivial⟩, ihargs hargs⟩,
        ihcalls (List.forall_mem_cons.mp hcalls).2⟩
  | argument _ _ _ ih ihmore =>
    obtain ⟨hfirst, hmore⟩ := List.forall_mem_append.mp hts
    exact ⟨ih hfirst, ihmore (List.forall_mem_cons.mp hmore).2⟩
  | number ht hn =>
    exact ⟨List.forall_mem_nil _, List.forall_mem_nil _, .inr ⟨_, hts _ (by simp), ht, hn⟩⟩
  | name ht =>
    exact ⟨List.forall_mem_singleton.mpr ⟨_, hts _ (by simp), ht, rfl⟩, honly (hts _ (by simp)),
      trivial⟩
  | trueWord | falseWord | nullWord =>
    exact ⟨List.forall_mem_nil _, List.forall_mem_nil _, trivial⟩
  | group _ _ _ ih | body _ _ _ ih =>
    exact ih (List.forall_mem_append.mp (List.forall_mem_cons.mp hts).2).1
  | block _ _ _ ih =>
    exact ⟨⟨List.forall_mem_nil _, List.forall_mem_nil _, trivial⟩,
      ih (List.forall_mem_append.mp (List.forall_mem_cons.mp hts).2).1⟩
  | choice _ harms ih =>
    exact ⟨⟨List.forall_mem_nil _, List.forall_mem_nil _, harms.branches_ne_nil⟩,
      ih (List.forall_mem_cons.mp hts).2⟩
  | guarded _ _ _ _ _ ihcondition ihinside ihrest =>
    obtain ⟨hcondition, hmore⟩ := List.forall_mem_append.mp (List.forall_mem_cons.mp hts).2
    obtain ⟨hinside, hrest⟩ := List.forall_mem_append.mp (List.forall_mem_cons.mp hmore).2
    exact ⟨ihcondition hcondition, ihinside hinside, ihrest hrest⟩
  | elifArm _ _ ih | elseArm _ _ ih => exact ih (List.forall_mem_cons.mp hts).2
  | noLinks | noCalls => exact List.forall_mem_nil _
  | noItems | noArguments | noArms => trivial

end

end Grammar

/-! ## Tokens -/

namespace Token

/-- Every token but the end mark is spelled as its kind asks for, and every token is on a line of
the text. -/
theorem Scans.sound {p : Place} {cs : List Char} {items : List Item} (h : Scans p cs items) :
    ∀ t, .ok t ∈ items → (t.kind ≠ .eof → Spells t.kind t.lexeme.toList) ∧
      p.line ≤ t.line ∧ t.line ≤ p.line + cs.count '\n' := by
  have hfront : ∀ (p : Place) (gap rest : List Char), p.line ≤ (p.afterAll gap).line ∧
      (p.afterAll gap).line ≤ p.line + (gap ++ rest).count '\n' := by
    intro p gap rest
    rw [line_afterAll, List.count_append]
    omega
  -- What is on a line of the rest of a text is on a line of the text.
  have hback : ∀ {p : Place} {front rest : List Char} {line : Nat},
      (p.afterAll front).line ≤ line ∧ line ≤ (p.afterAll front).line + rest.count '\n' →
      p.line ≤ line ∧ line ≤ p.line + (front ++ rest).count '\n' := by
    intro p front rest line h
    rw [line_afterAll] at h
    rw [List.count_append]
    omega
  induction h with
  | @done p gap =>
    intro t ht
    cases List.mem_singleton.mp ht
    exact ⟨fun hkind => absurd rfl hkind, by simpa using hfront p gap []⟩
  | @token p gap lexeme rest _ _ _ hlexeme _ ih =>
    intro t ht
    rcases List.mem_cons.mp ht with heq | ht
    · cases heq
      refine ⟨fun _ => ?_, hfront p gap (lexeme ++ rest)⟩
      rw [String.toList_ofList]
      exact hlexeme.spells
    · obtain ⟨hspells, hline⟩ := ih t ht
      exact ⟨hspells, by simpa using hback hline⟩
  | @stray p gap rest c _ _ _ _ _ ih =>
    intro t ht
    rcases List.mem_cons.mp ht with heq | ht
    · cases heq
    · obtain ⟨hspells, hline⟩ := ih t ht
      exact ⟨hspells, by simpa using hback hline⟩

/-- What a text of so many lines can have as a token. -/
structure Sound (lines : Nat) (t : Token) : Prop where
  spells : t.kind ≠ .eof → Spells t.kind t.lexeme.toList
  line_pos : 1 ≤ t.line
  line_le : t.line ≤ lines

theorem sound_of_ofSource {source : String} {ts : List Token} (h : ofSource source = .ok ts) :
    ∀ t ∈ ts, t.Sound (1 + source.toList.count '\n') := by
  intro t ht
  have hscans : Scans .start source.toList (items source) := scans_itemsFrom ..
  rw [ofSource_eq_ok_iff.mp h] at hscans
  obtain ⟨hspells, hpos, hle⟩ := hscans.sound t (List.mem_map_of_mem ht)
  exact ⟨hspells, hpos, hle⟩

end Token

/-! ## Programs -/

theorem formed_ofSource {source : String} {e : Expr} (h : Expr.ofSource source = .ok e) :
    e.Throughout (Expr.FormedOf (Token.Sound (1 + source.toList.count '\n'))) := by
  unfold Expr.ofSource at h
  cases hts : Token.ofSource source with
  | error f =>
    rw [hts] at h
    cases h
  | ok ts =>
    rw [hts] at h
    obtain ⟨need, -, hderives, -⟩ := Grammar.derives_of_ofTokens h
    exact hderives.formed fun t ht => Token.sound_of_ofSource hts t (List.takeWhile_subset _ ht)

namespace Expr.FormedOf

variable {lines : Nat} {node : Expr} (h : node.FormedOf (Token.Sound lines))

include h

theorem isName : ∀ name ∈ node.ownNames, IsName name := by
  intro name hname
  obtain ⟨t, ht, hkind, rfl⟩ := h.names name hname
  have hspells := ht.spells (by rw [hkind]; decide)
  rwa [hkind] at hspells

theorem isNode : node.IsNode := by
  refine ⟨h.isName, ?_⟩
  have hparts := h.parts
  cases node with
  | number n =>
    rcases hparts with hleast | ⟨t, ht, hkind, hread⟩
    · exact .inr hleast
    · have hspells := ht.spells (by rw [hkind]; decide)
      rw [hkind] at hspells
      obtain ⟨hne, hdigits⟩ := hspells.digits
      rw [← String.ofList_toList (s := t.lexeme)] at hread
      exact .inl (Decimal.nonneg_of_signed? hne hdigits hread)
  | sequence items => exact hparts
  | choice arms => exact hparts
  | _ => trivial

theorem line_mem : ∀ line ∈ node.ownLines, 1 ≤ line ∧ line ≤ lines := by
  intro line hline
  obtain ⟨t, ht, rfl⟩ := h.lines line hline
  exact ⟨ht.line_pos, ht.line_le⟩

end Expr.FormedOf

theorem wellNamed_ofSource {source : String} {e : Expr} (h : Expr.ofSource source = .ok e) :
    e.WellNamed :=
  (formed_ofSource h).mono fun _ hnode => hnode.isName

/-- In an expression that was read from a text, every name, at any depth, is a letter or an
underscore with letters, digits and underscores behind it, and no keyword; every number is
nonnegative or the least one; every sequence has two items and every conditional a guard; and every
line is a line of the text. -/
theorem program_shape {source : String} {e : Expr} (h : Expr.ofSource source = .ok e) :
    e.Throughout fun node =>
      node.IsNode ∧ ∀ line ∈ node.ownLines, 1 ≤ line ∧ line ≤ 1 + source.toList.count '\n' :=
  (formed_ofSource h).mono fun _ hnode => ⟨hnode.isNode, hnode.line_mem⟩

/-- The least number and other minus signs, a sequence in a conditional, and a call on the last of
three lines. -/
theorem program_shape_lines :
    ∃ e, Expr.ofSource "if (-9223372036854775808 < -x_1) \x7b\nlet y = 1;\nf(y) \x7d" = .ok e ∧
      e.Throughout fun node =>
        node.IsNode ∧ ∀ line ∈ node.ownLines, 1 ≤ line ∧ line ≤ 3 := by
  have hread : Expr.ofSource "if (-9223372036854775808 < -x_1) \x7b\nlet y = 1;\nf(y) \x7d" =
      .ok (.choice (.guarded
        (.binary .less (.number Int64.minValue) (.unary .negate (.identifier "x_1" 1) 1) 1)
        (.sequence [.declare "y" false (.number 1) 2,
          .call (.identifier "f" 3) [.identifier "y" 3] 3]) .done)) := by cbv
  exact ⟨_, hread, program_shape hread⟩

end ExprLang
