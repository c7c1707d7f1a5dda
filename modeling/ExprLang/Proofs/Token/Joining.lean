import ExprLang.Proofs.Token.Position

/-!
Two texts with a semicolon between them. No lexeme reaches over a semicolon, so the tokens of
such a text are those of the first part, the semicolon, and those of the second part, which
stand as many lines lower as the first part has line feeds.

* `Spells.eq_of_semicolon`: a semicolon is a lexeme on its own;
* `Scans.join`: the items of the text;
* `Scans.moved`: a text that starts on another line;
* `ofSource_join`: the tokens of the text.
-/

namespace ExprLang.Token

/-! ## No lexeme reaches over a semicolon -/

theorem Spells.eq_of_semicolon {kind : TokenKind} {cs : List Char} (h : Spells kind cs)
    (hmem : ';' ∈ cs) : cs = [';'] := by
  cases h with
  | fixed h =>
    cases kind with
    | number | identifier | eof => cases h
    | semicolon =>
      cases h
      rfl
    | _ =>
      cases h
      revert hmem
      decide
  | number hne hdigits => exact absurd (hdigits _ hmem) (by decide)
  | identifier hc hcs hkeyword =>
    rcases List.mem_cons.mp hmem with rfl | hmem
    · exact absurd hc (by decide)
    · exact absurd (hcs _ hmem) (by decide)

/-- A lexeme is not longer for a semicolon that follows somewhere behind it. -/
theorem Longest.before_semicolon {kind : TokenKind} {lexeme rest : List Char}
    (h : Longest kind lexeme (lexeme ++ rest)) (more : List Char) :
    Longest kind lexeme (lexeme ++ (rest ++ ';' :: more)) := by
  refine ⟨h.spells, List.prefix_append .., fun kind' cs hspells hfront => ?_⟩
  rw [← List.append_assoc] at hfront
  rcases Nat.lt_or_ge (lexeme ++ rest).length cs.length with hlong | hshort
  · -- It would contain the semicolon, behind at least one other character.
    obtain ⟨tail, rfl⟩ : lexeme ++ rest <+: cs :=
      List.prefix_of_prefix_length_le (List.prefix_append ..) hfront (Nat.le_of_lt hlong)
    have htail : tail <+: ';' :: more := (List.prefix_append_right_inj _).mp hfront
    cases tail with
    | nil => simp at hlong
    | cons c tail =>
      obtain ⟨rfl, -⟩ := List.cons_prefix_cons.mp htail
      have hone := congrArg List.length (hspells.eq_of_semicolon (by simp))
      have hsome : lexeme.length ≠ 0 := by simpa using h.spells.ne_nil
      simp only [List.length_append, List.length_cons, List.length_nil] at hone
      omega
  · exact h.longest kind' cs hspells
      (List.prefix_of_prefix_length_le hfront (List.prefix_append ..) hshort)

theorem longest_semicolon (more : List Char) : Longest .semicolon [';'] ([';'] ++ more) := by
  have htaken : lexeme? ';' more = some (.semicolon, 0) := rfl
  exact (lexeme?_eq_some_iff.mp htaken).2

/-! ## Items -/

/-- What stands behind the last token of `first`, if that is a text without faults: the semicolon
in place of the end mark, then the items of the second text. -/
theorem Scans.join {p : Place} {first : List Char} {items : List Item} (h : Scans p first items)
    {ts : List Token} (hts : items = ts.map .ok) {second : List Char} {items' : List Item}
    (h' : Scans ((p.afterAll first).after ';') second items') :
    ∃ before mark, ts = before ++ [mark] ∧ (∀ t ∈ before, t.kind ≠ .eof) ∧
      Scans p (first ++ ';' :: second)
        (before.map .ok ++ .ok ⟨.semicolon, ";", mark.line, mark.column⟩ :: items') := by
  induction h generalizing ts with
  | @done p gap hgap =>
    obtain ⟨mark, hmark⟩ : ∃ mark, ts = [mark] := by
      obtain ⟨mark, rest, rfl, -, hrest⟩ := List.map_eq_cons_iff.mp hts.symm
      rw [List.map_eq_nil_iff.mp hrest]
      exact ⟨mark, rfl⟩
    subst hmark
    cases hts
    refine ⟨[], _, rfl, List.forall_mem_nil _, ?_⟩
    have hplace : (p.afterAll gap).after ';' = p.afterAll (gap ++ [';']) := by
      rw [afterAll_append]
      rfl
    rw [hplace] at h'
    exact .token hgap (longest_semicolon second) h'
  | @token p gap lexeme rest kind items hgap hlexeme hrest ih =>
    obtain ⟨t, us, rfl, ht, hus⟩ := List.map_eq_cons_iff.mp hts.symm
    cases ht
    rw [← List.append_assoc, afterAll_append] at h'
    obtain ⟨before, mark, rfl, hbefore, hjoin⟩ := ih hus.symm h'
    refine ⟨_ :: before, mark, rfl,
      List.forall_mem_cons.mpr ⟨hlexeme.spells.kind_ne_eof, hbefore⟩, ?_⟩
    rw [List.append_assoc, List.append_assoc]
    exact .token hgap (hlexeme.before_semicolon second) hjoin
  | stray hgap hc hnone hrest =>
    obtain ⟨t, us, -, ht, -⟩ := List.map_eq_cons_iff.mp hts.symm
    cases ht

/-- A text that starts `k` lines lower has the same tokens `k` lines lower. -/
theorem Scans.moved {p : Place} {cs : List Char} {items : List Item} (h : Scans p cs items)
    {ts : List Token} (hts : items = ts.map .ok) {p' : Place} {k : Nat}
    (hline : p'.line = p.line + k) :
    ∃ ts' : List Token, Scans p' cs (ts'.map .ok) ∧
      ts'.map (fun t => (t.kind, t.lexeme, t.line)) =
        ts.map fun t => (t.kind, t.lexeme, t.line + k) := by
  have hmoved : ∀ gap, (p'.afterAll gap).line = (p.afterAll gap).line + k := by
    intro gap
    rw [line_afterAll, line_afterAll, hline]
    omega
  induction h generalizing ts p' with
  | @done p gap hgap =>
    refine ⟨[⟨.eof, "", (p'.afterAll gap).line, (p'.afterAll gap).column⟩], .done hgap, ?_⟩
    obtain ⟨mark, rest, rfl, hmark, hrest⟩ := List.map_eq_cons_iff.mp hts.symm
    cases hmark
    rw [List.map_eq_nil_iff.mp hrest]
    simp only [List.map_cons, List.map_nil, hmoved]
  | @token p gap lexeme rest kind items hgap hlexeme hrest ih =>
    obtain ⟨t, us, rfl, ht, hus⟩ := List.map_eq_cons_iff.mp hts.symm
    cases ht
    obtain ⟨us', hscans, hsame⟩ := ih hus.symm (hmoved (gap ++ lexeme)) fun more => by
      rw [← afterAll_append, ← afterAll_append, hmoved]
    refine ⟨⟨kind, String.ofList lexeme, (p'.afterAll gap).line, (p'.afterAll gap).column⟩ :: us',
      .token hgap hlexeme hscans, ?_⟩
    simp only [List.map_cons, hmoved, hsame]
  | stray hgap hc hnone hrest =>
    obtain ⟨t, us, -, ht, -⟩ := List.map_eq_cons_iff.mp hts.symm
    cases ht

/-! ## Tokens -/

/-- The tokens of two texts with a semicolon between them: those of the first text with the
semicolon for their end mark, and those of the second text on lower lines. -/
theorem ofSource_join {a b : String} {ts us : List Token} (ha : ofSource a = .ok ts)
    (hb : ofSource b = .ok us) :
    ∃ before mark us', ts = before ++ [mark] ∧ (∀ t ∈ before, t.kind ≠ .eof) ∧
      ofSource (a ++ ";" ++ b) =
        .ok (before ++ ⟨.semicolon, ";", mark.line, mark.column⟩ :: us') ∧
      us'.map (fun t => (t.kind, t.lexeme, t.line)) =
        us.map fun t => (t.kind, t.lexeme, t.line + a.toList.count '\n') := by
  have hscans : Scans .start a.toList (items a) := scans_itemsFrom ..
  have hscans' : Scans .start b.toList (items b) := scans_itemsFrom ..
  have hline : ((Place.start.afterAll a.toList).after ';').line =
      Place.start.line + a.toList.count '\n' := line_afterAll ..
  obtain ⟨us', hmoved, hsame⟩ := hscans'.moved (ofSource_eq_ok_iff.mp hb) hline
  obtain ⟨before, mark, hts, hbefore, hjoin⟩ := hscans.join (ofSource_eq_ok_iff.mp ha) hmoved
  refine ⟨before, mark, us', hts, hbefore, ?_, hsame⟩
  have htext : (a ++ ";" ++ b).toList = a.toList ++ ';' :: b.toList := by
    simp
  rw [ofSource_eq_ok_iff, items, htext, hjoin.itemsFrom_eq, List.map_append, List.map_cons]

end ExprLang.Token
