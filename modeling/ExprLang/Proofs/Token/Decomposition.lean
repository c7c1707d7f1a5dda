import ExprLang.Proofs.Token.Spelling

/-!
The items of a text. `Scans p text items` takes a text apart without running a lexer: it is
white space and lexemes in turn, each lexeme the longest that can be taken where it stands,
and a character that starts no lexeme stands for itself. The items of a text are the only
ones that come about in this way (`itemsFrom_eq_iff_scans`), and its tokens are its items up
to the first fault (`items_decompose`).
-/

namespace ExprLang.Token

/-- White space, of any length. -/
def Blanks (cs : List Char) : Prop := ∀ c ∈ cs, isBlank c = true

/-- `Scans p text items`: the text, which starts at the place `p`, is made of these items
and of white space in front of them, between them and behind them. -/
inductive Scans : Place → List Char → List Item → Prop where
  | done {p : Place} {gap : List Char} (hgap : Blanks gap) :
      Scans p gap [.ok ⟨.eof, "", (p.afterAll gap).line, (p.afterAll gap).column⟩]
  | token {p : Place} {gap lexeme rest : List Char} {kind : TokenKind} {items : List Item}
      (hgap : Blanks gap) (hlexeme : Longest kind lexeme (lexeme ++ rest))
      (hrest : Scans (p.afterAll (gap ++ lexeme)) rest items) :
      Scans p (gap ++ (lexeme ++ rest))
        (.ok ⟨kind, String.ofList lexeme, (p.afterAll gap).line, (p.afterAll gap).column⟩ :: items)
  /-- A character that is no white space and starts no lexeme. -/
  | stray {p : Place} {gap rest : List Char} {c : Char} {items : List Item}
      (hgap : Blanks gap) (hc : isBlank c = false)
      (hnone : ∀ kind cs, Spells kind cs → ¬ cs <+: c :: rest)
      (hrest : Scans (p.afterAll (gap ++ [c])) rest items) :
      Scans p (gap ++ c :: rest)
        (.error (.unexpectedCharacter c (p.afterAll gap).line (p.afterAll gap).column) :: items)

/-! ## One item after the other -/

/-- What was seen before stands in front of the items. -/
theorem itemsFrom_seen : ∀ (p : Place) (cs : List Char) (seen : List Item),
    itemsFrom p cs seen = seen.reverse ++ itemsFrom p cs []
  | p, [], seen => by
    rw [itemsFrom, itemsFrom]
    exact List.reverse_cons
  | p, c :: cs, seen => by
    rw [itemsFrom, itemsFrom]
    split
    · exact itemsFrom_seen _ cs seen
    · split
      · next kind n _ =>
        dsimp only
        rw [itemsFrom_seen _ (cs.drop n) (_ :: seen), itemsFrom_seen _ (cs.drop n) [_],
          List.reverse_cons, List.append_assoc]
        rfl
      · rw [itemsFrom_seen _ cs (_ :: seen), itemsFrom_seen _ cs [_], List.reverse_cons,
          List.append_assoc]
        rfl
termination_by _ cs => cs.length
decreasing_by all_goals simp only [List.length_drop, List.length_cons]; omega

theorem itemsFrom_nil (p : Place) :
    itemsFrom p [] [] = [.ok ⟨.eof, "", p.line, p.column⟩] := by
  rw [itemsFrom]
  rfl

theorem itemsFrom_blank {c : Char} (hc : isBlank c = true) (p : Place) (cs : List Char) :
    itemsFrom p (c :: cs) [] = itemsFrom (p.after c) cs [] := by
  rw [itemsFrom, if_pos hc]

theorem itemsFrom_lexeme {c : Char} {cs : List Char} {kind : TokenKind} {n : Nat}
    (hc : isBlank c = false) (h : lexeme? c cs = some (kind, n)) (p : Place) :
    itemsFrom p (c :: cs) [] =
      .ok ⟨kind, String.ofList (c :: cs.take n), p.line, p.column⟩ ::
        itemsFrom (p.afterAll (c :: cs.take n)) (cs.drop n) [] := by
  rw [itemsFrom, if_neg (by simp [hc]), h]
  exact itemsFrom_seen ..

theorem itemsFrom_stray {c : Char} {cs : List Char} (hc : isBlank c = false)
    (h : lexeme? c cs = none) (p : Place) :
    itemsFrom p (c :: cs) [] =
      .error (.unexpectedCharacter c p.line p.column) :: itemsFrom (p.after c) cs [] := by
  rw [itemsFrom, if_neg (by simp [hc]), h]
  exact itemsFrom_seen ..

theorem itemsFrom_gap {gap : List Char} (hgap : Blanks gap) (p : Place) (cs : List Char) :
    itemsFrom p (gap ++ cs) [] = itemsFrom (p.afterAll gap) cs [] := by
  induction gap generalizing p with
  | nil => rfl
  | cons c gap ih =>
    obtain ⟨hc, hgap⟩ := List.forall_mem_cons.mp hgap
    rw [List.cons_append, itemsFrom_blank hc, ih hgap]
    rfl

/-! ## The items and the text -/

theorem afterAll_append (p : Place) (cs ds : List Char) :
    p.afterAll (cs ++ ds) = (p.afterAll cs).afterAll ds :=
  List.foldl_append

theorem blanks_nil : Blanks [] := List.forall_mem_nil _

theorem blanks_cons {c : Char} {gap : List Char} (hc : isBlank c = true) (hgap : Blanks gap) :
    Blanks (c :: gap) :=
  List.forall_mem_cons.mpr ⟨hc, hgap⟩

/-- White space in front belongs to the first gap. -/
theorem Scans.blank {p : Place} {c : Char} {cs : List Char} {items : List Item}
    (hc : isBlank c = true) (h : Scans (p.after c) cs items) : Scans p (c :: cs) items := by
  cases h with
  | done hgap => exact .done (blanks_cons hc hgap)
  | token hgap hlexeme hrest => exact .token (blanks_cons hc hgap) hlexeme hrest
  | stray hgap hd hnone hrest => exact .stray (blanks_cons hc hgap) hd hnone hrest

theorem scans_itemsFrom (p : Place) (cs : List Char) : Scans p cs (itemsFrom p cs []) := by
  obtain ⟨n, hn⟩ : ∃ n, n = cs.length := ⟨_, rfl⟩
  induction n using Nat.strongRecOn generalizing p cs with
  | _ n ih =>
    subst hn
    cases cs with
    | nil =>
      rw [itemsFrom_nil]
      exact .done blanks_nil
    | cons c cs =>
      cases hc : isBlank c with
      | true =>
        rw [itemsFrom_blank hc]
        exact .blank hc (ih _ (by simp) _ cs rfl)
      | false =>
        cases htaken : lexeme? c cs with
        | some taken =>
          obtain ⟨kind, m⟩ := taken
          obtain ⟨-, hlongest⟩ := lexeme?_eq_some_iff.mp htaken
          have hsplit : c :: cs = [] ++ (c :: cs.take m ++ cs.drop m) := by simp
          have hrest := ih _ (by simp only [List.length_drop, List.length_cons]; omega)
            (p.afterAll (c :: cs.take m)) (cs.drop m) rfl
          rw [itemsFrom_lexeme hc htaken, hsplit]
          refine .token blanks_nil ?_ hrest
          rwa [List.cons_append, List.take_append_drop]
        | none =>
          have hsplit : c :: cs = [] ++ c :: cs := rfl
          rw [itemsFrom_stray hc htaken, hsplit]
          exact .stray blanks_nil hc (lexeme?_eq_none_iff.mp htaken) (ih _ (by simp) _ cs rfl)

/-- A text can be taken apart in one way only. -/
theorem Scans.itemsFrom_eq {p : Place} {cs : List Char} {items : List Item}
    (h : Scans p cs items) : itemsFrom p cs [] = items := by
  induction h with
  | done hgap =>
    have h := itemsFrom_gap hgap
    simp only [← itemsFrom_nil, ← h, List.append_nil]
  | @token p gap lexeme rest kind items hgap hlexeme _ ih =>
    obtain ⟨c, cs, rfl⟩ := List.exists_cons_of_ne_nil hlexeme.spells.ne_nil
    have htaken : lexeme? c (cs ++ rest) = some (kind, cs.length) := by
      refine lexeme?_eq_some_iff.mpr ⟨by simp, ?_⟩
      simpa using hlexeme
    rw [itemsFrom_gap hgap, List.cons_append,
      itemsFrom_lexeme hlexeme.spells.not_isBlank htaken, List.take_left, List.drop_left,
      ← afterAll_append, ih]
  | stray hgap hc hnone _ ih =>
    rw [itemsFrom_gap hgap, itemsFrom_stray hc (lexeme?_eq_none_iff.mpr hnone), ← ih,
      afterAll_append]
    rfl

theorem itemsFrom_eq_iff_scans {p : Place} {cs : List Char} {items : List Item} :
    itemsFrom p cs [] = items ↔ Scans p cs items :=
  ⟨fun h => h ▸ scans_itemsFrom p cs, Scans.itemsFrom_eq⟩

/-! ## End marks -/

/-- Whether an item is an end mark. -/
def Item.isEnd : Item → Bool
  | .ok t => t.kind = .eof
  | .error _ => false

theorem Scans.countP_isEnd {p : Place} {cs : List Char} {items : List Item}
    (h : Scans p cs items) : items.countP Item.isEnd = 1 := by
  induction h with
  | done => rfl
  | token _ hlexeme _ ih =>
    rw [List.countP_cons, ih, if_neg (by simpa [Item.isEnd] using hlexeme.spells.kind_ne_eof)]
  | stray _ _ _ _ ih => rw [List.countP_cons, ih, if_neg (by simp [Item.isEnd])]

theorem Scans.getLast? {p : Place} {cs : List Char} {items : List Item}
    (h : Scans p cs items) : items.getLast? =
      some (.ok ⟨.eof, "", (p.afterAll cs).line, (p.afterAll cs).column⟩) := by
  induction h with
  | done => rfl
  | token _ _ _ ih => rw [List.getLast?_cons, ih, ← afterAll_append, List.append_assoc]; rfl
  | stray _ _ _ _ ih =>
    rw [List.getLast?_cons, ih, ← afterAll_append, List.append_assoc]
    rfl

/-! ## Tokens -/

/-- Items are tokens throughout, or tokens up to a fault. -/
theorem tokens_or_fault (items : List Item) :
    (∃ ts : List Token, items = ts.map .ok) ∨
      ∃ (ts : List Token) (f : Fault) (rest : List Item), items = ts.map .ok ++ .error f :: rest := by
  induction items with
  | nil => exact .inl ⟨[], rfl⟩
  | cons item items ih =>
    cases item with
    | error f => exact .inr ⟨[], f, items, rfl⟩
    | ok t =>
      rcases ih with ⟨ts, rfl⟩ | ⟨ts, f, rest, rfl⟩
      · exact .inl ⟨t :: ts, rfl⟩
      · exact .inr ⟨t :: ts, f, rest, rfl⟩

theorem mapM_tokens (ts : List Token) : (ts.map .ok : List Item).mapM id = .ok ts := by
  induction ts with
  | nil => rfl
  | cons t ts ih =>
    rw [List.map_cons, List.mapM_cons, ih]
    rfl

theorem mapM_fault (ts : List Token) (f : Fault) (rest : List Item) :
    (ts.map .ok ++ .error f :: rest : List Item).mapM id = .error f := by
  induction ts with
  | nil => rfl
  | cons t ts ih =>
    rw [List.map_cons, List.cons_append, List.mapM_cons, ih]
    rfl

theorem ofSource_eq_ok_iff {source : String} {ts : List Token} :
    ofSource source = .ok ts ↔ items source = ts.map .ok := by
  constructor
  · intro h
    rw [ofSource] at h
    rcases tokens_or_fault (items source) with ⟨ts', hitems⟩ | ⟨ts', f, rest, hitems⟩
    · rw [hitems, mapM_tokens] at h
      cases h
      exact hitems
    · rw [hitems, mapM_fault] at h
      cases h
  · intro h
    rw [ofSource, h, mapM_tokens]

theorem ofSource_eq_error_iff {source : String} {f : Fault} :
    ofSource source = .error f ↔
      ∃ (ts : List Token) (rest : List Item), items source = ts.map .ok ++ .error f :: rest := by
  constructor
  · intro h
    rw [ofSource] at h
    rcases tokens_or_fault (items source) with ⟨ts, hitems⟩ | ⟨ts, f', rest, hitems⟩
    · rw [hitems, mapM_tokens] at h
      cases h
    · rw [hitems, mapM_fault] at h
      cases h
      exact ⟨ts, rest, hitems⟩
  · rintro ⟨ts, rest, h⟩
    rw [ofSource, h, mapM_fault]

theorem exists_fault_iff {source : String} :
    (∃ f, ofSource source = .error f) ↔ ∃ f, .error f ∈ items source := by
  constructor
  · rintro ⟨f, h⟩
    obtain ⟨ts, rest, hitems⟩ := ofSource_eq_error_iff.mp h
    exact ⟨f, by simp [hitems]⟩
  · rintro ⟨f, hf⟩
    cases hscan : ofSource source with
    | error g => exact ⟨g, rfl⟩
    | ok ts =>
      rw [ofSource_eq_ok_iff.mp hscan] at hf
      simp at hf

/-- The items of a text are white space and longest lexemes in turn, with the characters in
between that start none, and this in the only possible way. One end mark is among them, the
last item. The tokens of a text are all its items, if these are tokens, and otherwise there
is the first fault in their place. -/
theorem items_decompose (source : String) :
    (∀ is, items source = is ↔ Scans .start source.toList is) ∧
    ((items source).countP Item.isEnd = 1 ∧
      ∃ line column, (items source).getLast? = some (.ok ⟨.eof, "", line, column⟩)) ∧
    (∀ ts, ofSource source = .ok ts ↔ items source = ts.map .ok) ∧
    (∀ f, ofSource source = .error f ↔
      ∃ (ts : List Token) (rest : List Item), items source = ts.map .ok ++ .error f :: rest) := by
  have hscans : Scans .start source.toList (items source) := scans_itemsFrom ..
  exact ⟨fun is => itemsFrom_eq_iff_scans, ⟨hscans.countP_isEnd, _, _, hscans.getLast?⟩,
    fun ts => ofSource_eq_ok_iff, fun f => ofSource_eq_error_iff⟩

end ExprLang.Token
