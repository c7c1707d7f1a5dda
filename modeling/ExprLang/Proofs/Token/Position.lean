import ExprLang.Proofs.Token.Decomposition
import Mathlib.Data.List.DropRight

/-!
Where items stand. A lexer carries a place along and moves it over one character after the other.
Here the place is counted instead, from the text that stands in front of an item.

* `afterAll_start`: the place that is carried along is the one that is counted;
* `Cut`: a text as white space and items in turn, and `gap_unique`: there is one way to see it so;
* `Scans.pairwise_precedes`: items come in the order of their places;
* `items_placed`: every item of a text stands where it says.
-/

namespace ExprLang.Token

/-! ## Places, counted -/

/-- The place behind a text, counted from the text alone: each line feed in it is a line, and each
character behind the last line feed, or from the start if there is none, is a column. -/
def Place.counted (before : List Char) : Place :=
  ⟨1 + before.count '\n', 1 + (before.rtakeWhile (· ≠ '\n')).length⟩

theorem line_afterAll (p : Place) (cs : List Char) :
    (p.afterAll cs).line = p.line + cs.count '\n' := by
  induction cs generalizing p with
  | nil => rfl
  | cons c cs ih =>
    have hline : (p.after c).line = p.line + if c = '\n' then 1 else 0 := by
      unfold Place.after
      split <;> rfl
    have hcons : p.afterAll (c :: cs) = (p.after c).afterAll cs := rfl
    rw [hcons, ih, hline, List.count_cons]
    simp only [beq_iff_eq]
    omega

theorem column_afterAll_start (cs : List Char) :
    (Place.start.afterAll cs).column = (Place.counted cs).column := by
  induction cs using List.reverseRecOn with
  | nil => rfl
  | append_singleton cs c ih =>
    have hlast : Place.start.afterAll (cs ++ [c]) = (Place.start.afterAll cs).after c :=
      afterAll_append ..
    rw [hlast, Place.after, Place.counted, List.rtakeWhile_concat]
    by_cases hc : c = '\n'
    · simp [hc]
    · simp only [if_neg hc, ih, Place.counted]
      simp [hc]
      omega

theorem afterAll_start (cs : List Char) : Place.start.afterAll cs = .counted cs := by
  have hline : (Place.start.afterAll cs).line = (Place.counted cs).line := line_afterAll ..
  have hcolumn := column_afterAll_start cs
  cases hplace : Place.start.afterAll cs with
  | mk line column =>
    rw [hplace] at hline hcolumn
    cases hline
    cases hcolumn
    rfl

/-! ## The order of places -/

/-- The order in which a text is read: line by line, each from its first column on. -/
def Place.Before (p q : Place) : Prop :=
  p.line < q.line ∨ p.line = q.line ∧ p.column < q.column

theorem Place.Before.trans {p q r : Place} (h : p.Before q) (h' : q.Before r) : p.Before r := by
  unfold Place.Before at *
  omega

theorem Place.before_after (p : Place) (c : Char) : p.Before (p.after c) := by
  unfold Place.Before Place.after
  split <;> simp

theorem Place.Before.afterAll {p q : Place} (h : p.Before q) (cs : List Char) :
    p.Before (q.afterAll cs) := by
  induction cs generalizing q with
  | nil => exact h
  | cons c cs ih => exact ih (h.trans (q.before_after c))

theorem Place.before_afterAll (p : Place) {cs : List Char} (hcs : cs ≠ []) :
    p.Before (p.afterAll cs) := by
  obtain ⟨c, cs, rfl⟩ := List.exists_cons_of_ne_nil hcs
  exact (p.before_after c).afterAll cs

/-! ## Items in a text -/

/-- The characters of a text that an item is about. -/
def Item.text : Item → List Char
  | .ok t => t.lexeme.toList
  | .error (.unexpectedCharacter c _ _) => [c]
  | .error _ => []

/-- The place that an item names: of the first character of a token, or of a stray one. -/
def Item.place? : Item → Option Place
  | .ok t => some ⟨t.line, t.column⟩
  | .error (.unexpectedCharacter _ line column) => some ⟨line, column⟩
  | .error _ => none

/-- Items with white space in front of each, as a text. -/
def covered (pieces : List (List Char × Item)) : List Char :=
  pieces.flatMap fun piece => piece.1 ++ Item.text piece.2

/-- The text is made of these pieces, each of them white space and an item. -/
structure Cut (text : List Char) (pieces : List (List Char × Item)) : Prop where
  gaps : ∀ piece ∈ pieces, Blanks piece.1
  text_eq : covered pieces = text

/-- White space in front of something else can be told from it. -/
theorem gap_unique {gap gap' : List Char} {c c' : Char} {rest rest' : List Char}
    (hgap : Blanks gap) (hgap' : Blanks gap') (hc : isBlank c = false) (hc' : isBlank c' = false)
    (h : gap ++ c :: rest = gap' ++ c' :: rest') : gap = gap' ∧ c :: rest = c' :: rest' := by
  refine run_cancel hgap hgap' (fun d hd => ?_) (fun d hd => ?_) h
  · cases hd
    exact hc
  · cases hd
    exact hc'

theorem covered_cons (gap : List Char) (item : Item) (pieces : List (List Char × Item)) :
    covered ((gap, item) :: pieces) = gap ++ (Item.text item ++ covered pieces) := by
  rw [covered, List.flatMap_cons, List.append_assoc]
  rfl

theorem Cut.cons {gap cs rest : List Char} {item : Item} {pieces : List (List Char × Item)}
    (hgap : Blanks gap) (htext : Item.text item = cs) (h : Cut rest pieces) :
    Cut (gap ++ (cs ++ rest)) ((gap, item) :: pieces) :=
  ⟨List.forall_mem_cons.mpr ⟨hgap, h.gaps⟩, by rw [covered_cons, h.text_eq, htext]⟩

theorem Scans.exists_cut {p : Place} {text : List Char} {items : List Item}
    (h : Scans p text items) : ∃ pieces, Cut text pieces ∧ pieces.map Prod.snd = items := by
  induction h with
  | @done p gap hgap =>
    refine ⟨[(gap, _)], ⟨List.forall_mem_singleton.mpr hgap, ?_⟩, rfl⟩
    simp [Item.text, covered]
  | @token p gap lexeme rest kind items hgap _ _ ih =>
    obtain ⟨pieces, hcut, rfl⟩ := ih
    exact ⟨(gap, .ok ⟨kind, String.ofList lexeme, _, _⟩) :: pieces,
      .cons hgap String.toList_ofList hcut, rfl⟩
  | @stray p gap rest c items hgap _ _ _ ih =>
    obtain ⟨pieces, hcut, rfl⟩ := ih
    have htext : Item.text (.error (.unexpectedCharacter c (p.afterAll gap).line
      (p.afterAll gap).column)) = [c] := rfl
    exact ⟨_, .cons hgap htext hcut, rfl⟩

/-- The first piece of a text is what it starts with, if that is white space and an item that
starts with something else. -/
theorem Cut.head {gap : List Char} {c : Char} {cs rest : List Char}
    {pieces : List (List Char × Item)} {item : Item} {items : List Item}
    (h : Cut (gap ++ (c :: cs ++ rest)) pieces) (hitems : pieces.map Prod.snd = item :: items)
    (hgap : Blanks gap) (hc : isBlank c = false) (htext : Item.text item = c :: cs) :
    ∃ more, pieces = (gap, item) :: more ∧ Cut rest more ∧ more.map Prod.snd = items := by
  obtain ⟨⟨gap', item'⟩, more, rfl, rfl, hmore⟩ := List.map_eq_cons_iff.mp hitems
  obtain ⟨hgap', hgaps⟩ := List.forall_mem_cons.mp h.gaps
  have heq := h.text_eq
  rw [covered_cons, htext] at heq
  obtain ⟨rfl, hrest⟩ := gap_unique hgap' hgap hc hc heq
  exact ⟨more, rfl, ⟨hgaps, (List.append_right_inj (c :: cs)).mp hrest⟩, hmore⟩

/-- In a text that starts at `p`, every item names the place to which what stands in front of it
leads. -/
def PlacedFrom (p : Place) (pieces : List (List Char × Item)) : Prop :=
  ∀ front gap item back, pieces = front ++ (gap, item) :: back →
    Item.place? item = some (p.afterAll (covered front ++ gap))

theorem PlacedFrom.cons {p : Place} {gap cs : List Char} {item : Item}
    {pieces : List (List Char × Item)} (hitem : Item.place? item = some (p.afterAll gap))
    (htext : Item.text item = cs) (h : PlacedFrom (p.afterAll (gap ++ cs)) pieces) :
    PlacedFrom p ((gap, item) :: pieces) := by
  intro front gap' item' back hpieces
  cases front with
  | nil =>
    cases hpieces
    exact hitem
  | cons piece front =>
    obtain ⟨rfl, hmore⟩ := List.cons_eq_cons.mp hpieces
    rw [h front gap' item' back hmore, covered_cons, htext, ← afterAll_append]
    simp only [List.append_assoc]

theorem Scans.placedFrom {p : Place} {text : List Char} {items : List Item}
    (h : Scans p text items) {pieces : List (List Char × Item)} (hcut : Cut text pieces)
    (hitems : pieces.map Prod.snd = items) : PlacedFrom p pieces := by
  induction h generalizing pieces with
  | @done p last hlast =>
    obtain ⟨⟨gap, item⟩, more, rfl, rfl, hmore⟩ := List.map_eq_cons_iff.mp hitems
    obtain rfl := List.map_eq_nil_iff.mp hmore
    obtain rfl : gap = last := by simpa [covered, Item.text] using hcut.text_eq
    exact .cons rfl rfl fun front _ _ _ hnil => by cases front <;> cases hnil
  | @token p last lexeme rest kind items hlast hlexeme _ ih =>
    obtain ⟨c, cs, rfl⟩ := List.exists_cons_of_ne_nil hlexeme.spells.ne_nil
    obtain ⟨more, rfl, hmore, hmoreItems⟩ :=
      hcut.head hitems hlast hlexeme.spells.not_isBlank String.toList_ofList
    exact .cons rfl String.toList_ofList (ih hmore hmoreItems)
  | @stray p last rest c items hlast hc _ _ ih =>
    have hcut : Cut (last ++ ([c] ++ rest)) pieces := hcut
    obtain ⟨more, rfl, hmore, hmoreItems⟩ := hcut.head hitems hlast hc rfl
    exact .cons rfl rfl (ih hmore hmoreItems)

/-! ## Items in order -/

/-- The first item names a place before that of the second. -/
def Item.Precedes (i j : Item) : Prop :=
  ∃ p q, Item.place? i = some p ∧ Item.place? j = some q ∧ p.Before q

/-- What is before the start of a text is before its items. -/
theorem Scans.behind {p q : Place} {text : List Char} {items : List Item} (h : Scans p text items)
    (hq : q.Before p) : ∀ i ∈ items, ∃ r, Item.place? i = some r ∧ q.Before r := by
  induction h with
  | @done p gap => exact List.forall_mem_singleton.mpr ⟨_, rfl, hq.afterAll gap⟩
  | @token p gap lexeme _ _ _ _ _ _ ih =>
    exact List.forall_mem_cons.mpr ⟨⟨_, rfl, hq.afterAll gap⟩, ih (hq.afterAll (gap ++ lexeme))⟩
  | @stray p gap _ c _ _ _ _ _ ih =>
    exact List.forall_mem_cons.mpr ⟨⟨_, rfl, hq.afterAll gap⟩, ih (hq.afterAll (gap ++ [c]))⟩

theorem Scans.pairwise_precedes {p : Place} {text : List Char} {items : List Item}
    (h : Scans p text items) : items.Pairwise Item.Precedes := by
  have hlater : ∀ {p : Place} {gap cs rest : List Char} {items : List Item} {i : Item},
      cs ≠ [] → Item.place? i = some (p.afterAll gap) →
      Scans (p.afterAll (gap ++ cs)) rest items → ∀ j ∈ items, Item.Precedes i j := by
    intro p gap cs rest items i hcs hi hrest j hj
    rw [afterAll_append] at hrest
    obtain ⟨r, hr, hbefore⟩ := hrest.behind (Place.before_afterAll _ hcs) j hj
    exact ⟨_, r, hi, hr, hbefore⟩
  induction h with
  | done => exact List.pairwise_singleton ..
  | token _ hlexeme hrest ih =>
    exact List.pairwise_cons.mpr ⟨hlater hlexeme.spells.ne_nil rfl hrest, ih⟩
  | stray _ _ _ hrest ih =>
    exact List.pairwise_cons.mpr ⟨hlater (List.cons_ne_nil _ _) rfl hrest, ih⟩

/-- A text is white space and items in turn, up to the end mark, which stands for no character.
However it is seen so, each item names the place that is counted from what stands in front of it:
its line is one more than the line feeds there, and its column one more than the characters there
behind the last line feed, or from the start of the text. Each item is at a later place than those
in front of it, on a lower line or in a later column of the same line. -/
theorem items_placed (source : String) :
    (∃ pieces, Cut source.toList pieces ∧ pieces.map Prod.snd = items source) ∧
    (∀ pieces, Cut source.toList pieces → pieces.map Prod.snd = items source →
      ∀ front gap item back, pieces = front ++ (gap, item) :: back →
        Item.place? item = some (.counted (covered front ++ gap))) ∧
    (items source).Pairwise Item.Precedes := by
  have hscans : Scans .start source.toList (items source) := scans_itemsFrom ..
  refine ⟨hscans.exists_cut, fun pieces hcut hitems front gap item back hpieces => ?_,
    hscans.pairwise_precedes⟩
  rw [hscans.placedFrom hcut hitems front gap item back hpieces, afterAll_start]

/-- Line feeds end lines, and nothing else does: neither a carriage return nor a line separator. A
stray character and the end of the text are counted alike. -/
example : (items "a\r\n\u2028 b&\n").map Item.place? =
    [some ⟨1, 1⟩, some ⟨2, 3⟩, some ⟨2, 4⟩, some ⟨3, 1⟩] := by
  cbv

end ExprLang.Token
