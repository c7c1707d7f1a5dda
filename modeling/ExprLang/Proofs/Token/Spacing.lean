import ExprLang.Proofs.Token.Position
import Mathlib.Data.List.Chain

/-!
Lexemes in a row, with white space or nothing between them. A lexeme is read as such exactly if
the character behind it would not make it longer (`grows`). White space makes no lexeme longer, and
which lexemes do so with the one in front of them can be said of each two of them (`Merges`). So the
tokens of a text that is made of lexemes are the ones it was made from, exactly if no two that merge
stand side by side.

* `Spells.longest_iff`: where a lexeme is the longest one;
* `grows_iff_merges`: two lexemes side by side;
* `scansAs_piece_iff`, `scansAs_joined_iff`: one lexeme in front of more, and all of them;
* `ofSource_spaced`: lexemes with a space between each two;
* `lexemes_read_back`: the property.
-/

namespace ExprLang.Token

/-! ## What makes a lexeme longer -/

/-- Whether a kind is that of a keyword or a name. -/
def isWordKind (kind : TokenKind) : Bool := kind = .identifier || keywords.contains kind

/-- Whether a character right behind a lexeme of a kind makes it longer. -/
def grows : TokenKind → Char → Bool
  | .number, c => isDigit c
  | .bang, c | .less, c | .greater, c => c == '='
  | .equal, c => c == '=' || c == '>'
  | kind, c => isWordKind kind && isNamePart c

theorem grows_word {kind : TokenKind} (h : isWordKind kind = true) (c : Char) :
    grows kind c = isNamePart c := by
  cases kind with
  | identifier | letWord | constWord | ifWord | elifWord | elseWord | whileWord | funcWord
  | trueWord | falseWord | nullWord => rfl
  | _ => cases h

/-- The first character of a lexeme tells words, numbers and marks from each other. -/
theorem Spells.head_eq {kind : TokenKind} {c : Char} {cs : List Char}
    (h : Spells kind (c :: cs)) :
    isNameStart c = isWordKind kind ∧ isDigit c = decide (kind = .number) := by
  generalize htext : c :: cs = text at h
  cases h with
  | fixed h =>
    cases kind with
    | number | identifier | eof => cases h
    | _ =>
      cases h
      cases htext
      exact ⟨rfl, rfl⟩
  | number hne h =>
    subst htext
    have hc : isDigit c = true := h c (.head _)
    have hdigit := isDigit_iff.mp hc
    have hname : isNameStart c = false :=
      Bool.eq_false_iff.mpr (mt isNameStart_iff.mp (by omega))
    exact ⟨hname, hc⟩
  | identifier hc =>
    cases htext
    exact ⟨hc, not_isDigit_of_isNameStart hc⟩

/-- A run of characters goes on behind `cs` exactly if the next one belongs to it. -/
theorem length_takeWhile_append_iff {p : Char → Bool} {cs : List Char} (hcs : ∀ c ∈ cs, p c = true)
    (rest : List Char) :
    ((cs ++ rest).takeWhile p).length = cs.length ↔ ∀ c ∈ rest.head?, p c = false := by
  rw [List.takeWhile_append_of_pos hcs, List.length_append]
  cases rest with
  | nil => simp
  | cons c rest => cases hc : p c <;> simp [hc]

/-- What the lexer takes of a text that starts like a word. -/
theorem lexeme?_word {c : Char} (hc : isNameStart c = true) (cs : List Char) :
    lexeme? c cs = some (wordKind (String.ofList (c :: cs.takeWhile isNamePart)),
      (cs.takeWhile isNamePart).length) := by
  rw [lexeme?, if_neg (by simp [not_isDigit_of_isNameStart hc]), if_pos hc]

theorem Spells.lexeme?_word_iff {kind : TokenKind} {c : Char} {cs : List Char}
    (h : Spells kind (c :: cs)) (hc : isNameStart c = true) (rest : List Char) :
    lexeme? c (cs ++ rest) = some (kind, cs.length) ↔ ∀ d ∈ rest.head?, isNamePart d = false := by
  have halone := h.lexeme?_eq
  rw [lexeme?_word hc] at halone
  obtain ⟨hkind, hlength⟩ := Prod.mk.inj (Option.some.inj halone)
  have hwhole : cs.takeWhile isNamePart = cs :=
    (List.takeWhile_prefix isNamePart).eq_of_length hlength
  have hparts := List.takeWhile_eq_self_iff.mp hwhole
  rw [← length_takeWhile_append_iff hparts, lexeme?_word hc]
  constructor
  · intro htaken
    exact (Prod.mk.inj (Option.some.inj htaken)).2
  · intro hstop
    have hprefix : cs <+: (cs ++ rest).takeWhile isNamePart := by
      rw [List.takeWhile_append_of_pos hparts]
      exact List.prefix_append ..
    rw [← hprefix.eq_of_length hstop.symm, ← hkind, hwhole]

/-- A mark of one character in front of another character: four of them can be longer. -/
theorem mark?_alone_iff {c : Char} {kind : TokenKind} (h : mark? c none = some (kind, 0))
    (next : Option Char) :
    mark? c next = some (kind, 0) ↔ ∀ d ∈ next, grows kind d = false := by
  unfold mark? at h
  split at h
  case h_12 | h_14 | h_15 =>
    cases h
    cases next <;> simp [mark?, grows]
  case h_13 =>
    cases h
    cases next with
    | none => simp [mark?]
    | some d =>
      by_cases hequal : d = '='
      · simp [mark?, grows, hequal]
      · by_cases hgreater : d = '>' <;> simp [mark?, grows, hequal, hgreater]
  all_goals cases h
  all_goals simp [mark?, grows, isWordKind, keywords]

/-- A mark of two characters can be no longer. -/
theorem grows_of_mark?_pair {c d : Char} {kind : TokenKind} (h : mark? c (some d) = some (kind, 1))
    (e : Char) : grows kind e = false := by
  unfold mark? at h
  split at h
  case h_12 | h_14 | h_15 | h_16 | h_17 =>
    split at h
    · cases h
      rfl
    · cases h
  case h_13 =>
    split at h
    · cases h
      rfl
    · split at h
      · cases h
        rfl
      · cases h
  all_goals cases h

/-- A lexeme is taken as such exactly if the next character does not make it longer. -/
theorem Spells.lexeme?_append_iff {kind : TokenKind} {c : Char} {cs : List Char}
    (h : Spells kind (c :: cs)) (rest : List Char) :
    lexeme? c (cs ++ rest) = some (kind, cs.length) ↔
      ∀ d ∈ rest.head?, grows kind d = false := by
  have halone := h.lexeme?_eq
  cases hdigit : isDigit c with
  | true =>
    obtain rfl : kind = .number := by simpa [hdigit] using h.head_eq.2
    rw [lexeme?, if_pos hdigit] at halone ⊢
    have hdigits : ∀ d ∈ cs, isDigit d = true := by
      have hlength := (Prod.mk.inj (Option.some.inj halone)).2
      exact List.takeWhile_eq_self_iff.mp ((List.takeWhile_prefix isDigit).eq_of_length hlength)
    simpa [grows] using length_takeWhile_append_iff hdigits rest
  | false =>
    cases hname : isNameStart c with
    | true =>
      simp only [grows_word (h.head_eq.1.symm.trans hname)]
      exact h.lexeme?_word_iff hname rest
    | false =>
      have hmark (ds : List Char) : lexeme? c ds = mark? c ds.head? := by
        simp [lexeme?, hdigit, hname]
      rw [hmark] at halone ⊢
      rcases mark?_eq_some halone with ⟨hnone, -⟩ | ⟨d, hone, hhead, -⟩
      · obtain rfl := List.length_eq_zero_iff.mp hnone
        exact mark?_alone_iff halone rest.head?
      · obtain ⟨d, rfl⟩ := List.length_eq_one_iff.mp hone
        exact ⟨fun _ e _ => grows_of_mark?_pair halone e, fun _ => halone⟩

theorem Spells.longest_iff {kind : TokenKind} {lexeme : List Char} (h : Spells kind lexeme)
    (rest : List Char) :
    Longest kind lexeme (lexeme ++ rest) ↔ ∀ d ∈ rest.head?, grows kind d = false := by
  obtain ⟨c, cs, rfl⟩ := List.exists_cons_of_ne_nil h.ne_nil
  rw [← h.lexeme?_append_iff, lexeme?_eq_some_iff, List.take_left, List.cons_append]
  simp

theorem grows_of_isBlank {c : Char} (hc : isBlank c = true) (kind : TokenKind) :
    grows kind c = false := by
  have hdigit : isDigit c = false := by
    rw [Bool.eq_false_iff, ne_eq, isDigit_iff]
    rw [isBlank_iff] at hc
    omega
  have hname : isNameStart c = false := by
    rw [Bool.eq_false_iff, ne_eq, isNameStart_iff]
    rw [isBlank_iff] at hc
    omega
  have hequal : (c == '=') = false := beq_false_of_ne fun h => by simp [h, isBlank] at hc
  have hgreater : (c == '>') = false := beq_false_of_ne fun h => by simp [h, isBlank] at hc
  cases kind <;> simp [grows, isNamePart, hdigit, hname, hequal, hgreater]

/-! ## Lexemes side by side -/

/-- Lexemes that are read as something else if nothing stands between them: a word in front of a
word or a number, two numbers, and an operator that makes a longer one with the mark behind it. -/
def Merges (left right : TokenKind × String) : Prop :=
  isWordKind left.1 = true ∧ (isWordKind right.1 = true ∨ right.1 = .number) ∨
  left.1 = .number ∧ right.1 = .number ∨
  left.2 ∈ ["!", "=", "<", ">"] ∧ right.2.toList.head? = some '=' ∨
  left.2 = "=" ∧ right.2.toList.head? = some '>'

instance (left right : TokenKind × String) : Decidable (Merges left right) :=
  inferInstanceAs (Decidable (_ ∨ _))

/-- A lexeme with one spelling is known by it. -/
theorem Spells.eq_fixed_iff {kind mark : TokenKind} {lexeme spelling : String}
    (h : Spells kind lexeme.toList) (hmark : mark.fixedSpelling? = some spelling) :
    lexeme = spelling ↔ kind = mark := by
  constructor
  · rintro rfl
    exact h.kind_unique (.fixed hmark)
  · rintro rfl
    generalize htext : lexeme.toList = text at h
    cases h with
    | fixed h =>
      cases hmark.symm.trans h
      exact String.toList_inj.mp htext
    | number => cases hmark
    | identifier => cases hmark

theorem grows_iff_merges {left right : TokenKind × String} {c : Char} {cs : List Char}
    (hleft : Spells left.1 left.2.toList) (hright : Spells right.1 right.2.toList)
    (htext : right.2.toList = c :: cs) : grows left.1 c = true ↔ Merges left right := by
  have hbang : left.2 = "!" ↔ left.1 = .bang := hleft.eq_fixed_iff rfl
  have hequal : left.2 = "=" ↔ left.1 = .equal := hleft.eq_fixed_iff rfl
  have hless : left.2 = "<" ↔ left.1 = .less := hleft.eq_fixed_iff rfl
  have hgreater : left.2 = ">" ↔ left.1 = .greater := hleft.eq_fixed_iff rfl
  rw [htext] at hright
  have hnumber : right.1 = .number ↔ isDigit c = true := by simp [hright.head_eq.2]
  simp only [Merges, List.mem_cons, List.not_mem_nil, or_false, hbang, hequal, hless, hgreater,
    hnumber, ← hright.head_eq.1, htext, List.head?_cons, Option.some.injEq]
  cases left.1 <;> simp [grows, isWordKind, keywords, isNamePart]

/-! ## Texts made of lexemes -/

/-- What a token is apart from its place. -/
def key (t : Token) : TokenKind × String := (t.kind, t.lexeme)

/-- The text is scanned without a fault, as tokens like these and an end mark. -/
def ScansAs (p : Place) (text : List Char) (words : List (TokenKind × String)) : Prop :=
  ∃ ts : List Token, Scans p text (ts.map .ok) ∧ ts.map key = words ++ [(.eof, "")]

/-- How a text starts whose first item is a token. -/
theorem Scans.first_token {p : Place} {text : List Char} {t : Token} {items : List Item}
    (h : Scans p text (.ok t :: items)) (hkind : t.kind ≠ .eof) :
    ∃ gap rest, text = gap ++ (t.lexeme.toList ++ rest) ∧ Blanks gap ∧
      Longest t.kind t.lexeme.toList (t.lexeme.toList ++ rest) ∧
      Scans (p.afterAll (gap ++ t.lexeme.toList)) rest items := by
  cases h with
  | done => exact absurd rfl hkind
  | token hgap hlexeme hrest =>
    rw [String.toList_ofList]
    exact ⟨_, _, rfl, hgap, hlexeme, hrest⟩

/-- One lexeme behind white space, in front of more. -/
theorem scansAs_piece_iff {p : Place} {gap rest : List Char} {word : TokenKind × String}
    {words : List (TokenKind × String)} (hgap : Blanks gap)
    (hspells : Spells word.1 word.2.toList) :
    ScansAs p (gap ++ (word.2.toList ++ rest)) (word :: words) ↔
      (∀ c ∈ rest.head?, grows word.1 c = false) ∧
        ScansAs (p.afterAll (gap ++ word.2.toList)) rest words := by
  rw [← hspells.longest_iff]
  constructor
  · rintro ⟨ts, hscans, hkeys⟩
    obtain ⟨t, ts, rfl, rfl, hmore⟩ := List.map_eq_cons_iff.mp hkeys
    obtain ⟨gap', rest', htext, hgap', hlongest, hrest⟩ := hscans.first_token hspells.kind_ne_eof
    obtain ⟨c, cs, hlexeme⟩ := List.exists_cons_of_ne_nil hspells.ne_nil
    have hc : isBlank c = false := Spells.not_isBlank (hlexeme ▸ hspells)
    have hstart : (key t).2.toList = t.lexeme.toList := rfl
    rw [← hstart, hlexeme] at htext
    obtain ⟨rfl, hsame⟩ := gap_unique hgap hgap' hc hc htext
    obtain rfl := (List.append_right_inj (c :: cs)).mp hsame
    exact ⟨hlongest, ts, hrest, hmore⟩
  · rintro ⟨hlongest, ts, hscans, hkeys⟩
    have htoken := Scans.token hgap hlongest hscans
    rw [String.ofList_toList] at htoken
    exact ⟨_ :: ts, htoken, congrArg (_ :: ·) hkeys⟩

/-- Lexemes, each behind the text in front of it, and a last text. -/
def joined : List (List Char × TokenKind × String) → List Char → List Char
  | [], trail => trail
  | (gap, word) :: pieces, trail => gap ++ (word.2.toList ++ joined pieces trail)

/-- Two pieces of which the second follows at once only if the lexemes do not merge. -/
def Apart (a b : List Char × TokenKind × String) : Prop := b.1 = [] → ¬ Merges a.2 b.2

instance : DecidableRel Apart :=
  fun a b => inferInstanceAs (Decidable (b.1 = [] → ¬ Merges a.2 b.2))

/-- What can make a lexeme longer is the lexeme behind it, if that follows at once. -/
theorem grows_joined_iff {gap : List Char} {word : TokenKind × String}
    {pieces : List (List Char × TokenKind × String)} {trail : List Char}
    (hword : Spells word.1 word.2.toList)
    (hpieces : ∀ piece ∈ pieces, Blanks piece.1 ∧ Spells piece.2.1 piece.2.2.toList)
    (htrail : Blanks trail) :
    (∀ c ∈ (joined pieces trail).head?, grows word.1 c = false) ↔
      ∀ piece ∈ pieces.head?, Apart (gap, word) piece := by
  have hblank : ∀ {cs : List Char}, Blanks cs → ∀ c ∈ cs.head?, grows word.1 c = false :=
    fun hcs c hc => grows_of_isBlank (hcs c (List.mem_of_mem_head? hc)) word.1
  cases pieces with
  | nil => simpa [joined] using hblank htrail
  | cons piece pieces =>
    obtain ⟨next, word'⟩ := piece
    obtain ⟨hnext, hword'⟩ := (List.forall_mem_cons.mp hpieces).1
    cases next with
    | nil =>
      obtain ⟨c, cs, htext⟩ := List.exists_cons_of_ne_nil hword'.ne_nil
      have hmerges := grows_iff_merges hword hword' htext
      simp [joined, Apart, htext, ← hmerges]
    | cons c next =>
      have hc := hblank hnext c rfl
      simp [joined, Apart, hc]

/-- Lexemes are scanned as what they are exactly if no two that merge stand side by side. -/
theorem scansAs_joined_iff {pieces : List (List Char × TokenKind × String)} {trail : List Char}
    (hpieces : ∀ piece ∈ pieces, Blanks piece.1 ∧ Spells piece.2.1 piece.2.2.toList)
    (htrail : Blanks trail) (p : Place) :
    ScansAs p (joined pieces trail) (pieces.map Prod.snd) ↔ pieces.IsChain Apart := by
  induction pieces generalizing p with
  | nil => exact ⟨fun _ => .nil, fun _ => ⟨[_], .done htrail, rfl⟩⟩
  | cons piece pieces ih =>
    obtain ⟨gap, word⟩ := piece
    obtain ⟨⟨hgap, hword⟩, hmore⟩ := List.forall_mem_cons.mp hpieces
    rw [List.isChain_cons, List.map_cons, joined, scansAs_piece_iff hgap hword, ih hmore,
      grows_joined_iff hword hmore htrail]

theorem ofSource_joined_iff {pieces : List (List Char × TokenKind × String)} {trail : List Char}
    (hpieces : ∀ piece ∈ pieces, Blanks piece.1 ∧ Spells piece.2.1 piece.2.2.toList)
    (htrail : Blanks trail) :
    (∃ ts, ofSource (String.ofList (joined pieces trail)) = .ok ts ∧
      ts.map key = pieces.map Prod.snd ++ [(.eof, "")]) ↔ pieces.IsChain Apart := by
  rw [← scansAs_joined_iff hpieces htrail .start]
  simp only [ofSource_eq_ok_iff, items, String.toList_ofList, itemsFrom_eq_iff_scans, ScansAs]

theorem isChain_apart_of_gaps {pieces : List (List Char × TokenKind × String)}
    (h : ∀ piece ∈ pieces.tail, piece.1 ≠ []) : pieces.IsChain Apart := by
  induction pieces with
  | nil => exact .nil
  | cons piece pieces ih =>
    refine List.isChain_cons.mpr ⟨fun next hnext hnone => ?_, ih fun next hnext => ?_⟩
    · exact absurd hnone (h next (List.mem_of_mem_head? hnext))
    · exact h next (List.mem_of_mem_tail hnext)

/-! ## Spaces -/

/-- Lexemes as pieces of a text, with a space between each two. -/
def spaced : List (TokenKind × String) → List (List Char × TokenKind × String)
  | [] => []
  | word :: words => ([], word) :: words.map fun w => ([' '], w)

theorem toList_intercalate_space (first : String) (more : List String) :
    (String.intercalate " " (first :: more)).toList =
      first.toList ++ more.flatMap fun s => ' ' :: s.toList := by
  induction more generalizing first with
  | nil => simp
  | cons second more ih =>
    rw [String.intercalate_cons_cons, String.toList_append, String.toList_append, ih,
      List.append_assoc, List.flatMap_cons]
    rfl

theorem joined_spaces (words : List (TokenKind × String)) (trail : List Char) :
    joined (words.map fun w => ([' '], w)) trail =
      (words.map Prod.snd).flatMap (fun s => ' ' :: s.toList) ++ trail := by
  induction words with
  | nil => rfl
  | cons word words ih => simp [joined, ih]

theorem intercalate_eq_joined (words : List (TokenKind × String)) :
    String.intercalate " " (words.map Prod.snd) = String.ofList (joined (spaced words) []) := by
  cases words with
  | nil => rfl
  | cons word words =>
    rw [← String.toList_inj, List.map_cons, toList_intercalate_space, String.toList_ofList, spaced,
      joined, joined_spaces, List.append_nil]
    rfl

/-- An empty lexeme behind the others leaves at most a space. -/
theorem intercalate_empty_eq_joined (words : List (TokenKind × String)) :
    ∃ trail, Blanks trail ∧ String.intercalate " " (words.map Prod.snd ++ [""]) =
      String.ofList (joined (spaced words) trail) := by
  cases words with
  | nil => exact ⟨[], blanks_nil, rfl⟩
  | cons word words =>
    refine ⟨[' '], List.forall_mem_singleton.mpr rfl, ?_⟩
    rw [← String.toList_inj, List.map_cons, List.cons_append, toList_intercalate_space,
      String.toList_ofList, spaced, joined, joined_spaces, List.flatMap_append]
    rfl

theorem map_snd_spaced (words : List (TokenKind × String)) :
    (spaced words).map Prod.snd = words := by
  cases words <;> simp [spaced, Function.comp_def]

theorem gap_of_mem_tail_spaced {words : List (TokenKind × String)}
    {piece : List Char × TokenKind × String} (h : piece ∈ (spaced words).tail) :
    piece.1 = [' '] := by
  cases words with
  | nil => cases h
  | cons word words =>
    obtain ⟨w, -, rfl⟩ := List.mem_map.mp h
    rfl

theorem blanks_of_mem_spaced {words : List (TokenKind × String)}
    {piece : List Char × TokenKind × String} (h : piece ∈ spaced words) : Blanks piece.1 := by
  cases words with
  | nil => cases h
  | cons word words =>
    rcases List.mem_cons.mp h with rfl | htail
    · exact blanks_nil
    · have htail : piece ∈ (spaced (word :: words)).tail := htail
      rw [gap_of_mem_tail_spaced htail]
      exact List.forall_mem_singleton.mpr rfl

theorem ofSource_joined_spaced {words : List (TokenKind × String)}
    (h : ∀ word ∈ words, Spells word.1 word.2.toList) {trail : List Char} (htrail : Blanks trail) :
    ∃ ts, ofSource (String.ofList (joined (spaced words) trail)) = .ok ts ∧
      ts.map key = words ++ [(.eof, "")] := by
  have hpieces : ∀ piece ∈ spaced words, Blanks piece.1 ∧ Spells piece.2.1 piece.2.2.toList := by
    intro piece hpiece
    have hword : piece.2 ∈ words := map_snd_spaced words ▸ List.mem_map_of_mem hpiece
    exact ⟨blanks_of_mem_spaced hpiece, h piece.2 hword⟩
  have hgaps : ∀ piece ∈ (spaced words).tail, piece.1 ≠ [] := fun piece hpiece => by
    simp [gap_of_mem_tail_spaced hpiece]
  have hread := (ofSource_joined_iff hpieces htrail).mpr (isChain_apart_of_gaps hgaps)
  rwa [map_snd_spaced] at hread

/-- Tokens whose lexemes are spelled as their kinds ask for. -/
def Spelled (ts : List Token) : Prop := ∀ t ∈ ts, Spells t.kind t.lexeme.toList

theorem spelled_cons {t : Token} {ts : List Token} :
    Spelled (t :: ts) ↔ Spells t.kind t.lexeme.toList ∧ Spelled ts :=
  List.forall_mem_cons

theorem spelled_append {ts us : List Token} : Spelled (ts ++ us) ↔ Spelled ts ∧ Spelled us :=
  List.forall_mem_append

/-- Lexemes with a space between each two are scanned as what they are. -/
theorem ofSource_spaced {ts : List Token} (h : Spelled ts) :
    ∃ us, ofSource (String.intercalate " " (ts.map lexeme)) = .ok us ∧
      us.map key = ts.map key ++ [(.eof, "")] := by
  have hlexemes : ts.map lexeme = (ts.map key).map Prod.snd := by simp [key]
  have hspells : ∀ word ∈ ts.map key, Spells word.1 word.2.toList := by
    intro word hword
    obtain ⟨t, ht, rfl⟩ := List.mem_map.mp hword
    exact h t ht
  rw [hlexemes, intercalate_eq_joined]
  exact ofSource_joined_spaced hspells blanks_nil

/-! ## Reading back -/

/-- The tokens of a text without faults are spelled right, up to the end mark. -/
theorem Scans.exists_words {p : Place} {text : List Char} {items : List Item}
    (h : Scans p text items) {ts : List Token} (hts : items = ts.map .ok) :
    ∃ words, ts.map key = words ++ [(.eof, "")] ∧
      ∀ word ∈ words, Spells word.1 word.2.toList := by
  induction h generalizing ts with
  | done =>
    obtain ⟨mark, rest, rfl, hmark, hrest⟩ := List.map_eq_cons_iff.mp hts.symm
    obtain rfl := List.map_eq_nil_iff.mp hrest
    cases hmark
    exact ⟨[], rfl, List.forall_mem_nil _⟩
  | token _ hlexeme _ ih =>
    obtain ⟨t, us, rfl, ht, hus⟩ := List.map_eq_cons_iff.mp hts.symm
    cases ht
    obtain ⟨words, hwords, hspells⟩ := ih hus.symm
    refine ⟨_ :: words, congrArg (_ :: ·) hwords, List.forall_mem_cons.mpr ⟨?_, hspells⟩⟩
    rw [key, String.toList_ofList]
    exact hlexeme.spells
  | stray =>
    obtain ⟨t, us, -, ht, -⟩ := List.map_eq_cons_iff.mp hts.symm
    cases ht

/-- Lexemes of any kinds, with white space between each two, are read as what they are, and an end
mark. The same holds if they follow each other at once, exactly if no two do so that merge. So the
lexemes of a text, once more with a space between each two, are read as before, whether the empty
lexeme of the end mark is among them or not. -/
theorem lexemes_read_back :
    (∀ pieces trail, (∀ piece ∈ pieces, Blanks piece.1 ∧ Spells piece.2.1 piece.2.2.toList) →
      Blanks trail →
      ((∀ piece ∈ pieces.tail, piece.1 ≠ []) →
        ∃ ts, ofSource (String.ofList (joined pieces trail)) = .ok ts ∧
          ts.map key = pieces.map Prod.snd ++ [(.eof, "")]) ∧
      ((∃ ts, ofSource (String.ofList (joined pieces trail)) = .ok ts ∧
          ts.map key = pieces.map Prod.snd ++ [(.eof, "")]) ↔ pieces.IsChain Apart)) ∧
    (∀ source ts, ofSource source = .ok ts →
      ∀ lexemes ∈ [ts.map lexeme, ts.dropLast.map lexeme],
        ∃ ts', ofSource (String.intercalate " " lexemes) = .ok ts' ∧ ts'.map key = ts.map key) := by
  refine ⟨fun pieces trail hpieces htrail => ?_, fun source ts hts lexemes hlexemes => ?_⟩
  · have hiff := ofSource_joined_iff hpieces htrail
    exact ⟨fun hgaps => hiff.mpr (isChain_apart_of_gaps hgaps), hiff⟩
  · have hscans : Scans .start source.toList (items source) := scans_itemsFrom ..
    obtain ⟨words, hwords, hspells⟩ := hscans.exists_words (ofSource_eq_ok_iff.mp hts)
    obtain ⟨trail, htrail, htext⟩ : ∃ trail, Blanks trail ∧
        String.intercalate " " lexemes = String.ofList (joined (spaced words) trail) := by
      have hall : ts.map lexeme = words.map Prod.snd ++ [""] := by
        have hsnd := congrArg (List.map Prod.snd) hwords
        simpa [key, Function.comp_def] using hsnd
      simp only [List.mem_cons, List.not_mem_nil, or_false] at hlexemes
      rcases hlexemes with rfl | rfl
      · rw [hall]
        exact intercalate_empty_eq_joined words
      · rw [List.map_dropLast, hall, List.dropLast_concat, intercalate_eq_joined]
        exact ⟨[], blanks_nil, rfl⟩
    rw [htext, hwords]
    exact ofSource_joined_spaced hspells htrail

/-- `a<=`, a wide space and `-007x`: nothing else stands between the lexemes. -/
def tightPieces : List (List Char × TokenKind × String) :=
  [([], .identifier, "a"), ([], .lessEqual, "<="), (['\u2003'], .minus, "-"), ([], .number, "007"),
    ([], .identifier, "x")]

theorem tightPieces_spelled :
    ∀ piece ∈ tightPieces, Blanks piece.1 ∧ Spells piece.2.1 piece.2.2.toList := by
  have ha : lexeme? 'a' [] = some (.identifier, 0) := by decide
  have hx : lexeme? 'x' [] = some (.identifier, 0) := by decide
  have hdigits : lexeme? '0' ['0', '7'] = some (.number, 2) := by decide
  have hwide : Blanks ['\u2003'] := List.forall_mem_singleton.mpr rfl
  simp only [tightPieces, List.forall_mem_cons]
  exact ⟨⟨blanks_nil, (spells_of_lexeme? ha).1⟩, ⟨blanks_nil, .fixed rfl⟩, ⟨hwide, .fixed rfl⟩,
    ⟨blanks_nil, (spells_of_lexeme? hdigits).1⟩, ⟨blanks_nil, (spells_of_lexeme? hx).1⟩,
    List.forall_mem_nil _⟩

/-- These lexemes are read back, also with a space between each two; but `=` and `=>` side by side
are read as `==` and `>`. -/
theorem lexemes_read_back_tight :
    ((∀ piece ∈ tightPieces, Blanks piece.1 ∧ Spells piece.2.1 piece.2.2.toList) ∧
      Blanks ['\n'] ∧ tightPieces.IsChain Apart) ∧
    (∃ ts, ofSource (String.ofList (joined tightPieces ['\n'])) = .ok ts ∧
      ts.map key = tightPieces.map Prod.snd ++ [(.eof, "")] ∧
      ∃ ts', ofSource (String.intercalate " " (ts.map lexeme)) = .ok ts' ∧
        ts'.map key = ts.map key) ∧
    ¬ ∃ ts, ofSource (String.ofList (joined [([], .equal, "="), ([], .arrow, "=>")] [])) = .ok ts ∧
      ts.map key = [(.equal, "="), (.arrow, "=>"), (.eof, "")] := by
  have hchain : tightPieces.IsChain Apart := by decide
  have hend : Blanks ['\n'] := List.forall_mem_singleton.mpr rfl
  obtain ⟨hjoined, hrescan⟩ := lexemes_read_back
  refine ⟨⟨tightPieces_spelled, hend, hchain⟩, ?_, ?_⟩
  · obtain ⟨ts, hts, hkeys⟩ := (hjoined _ _ tightPieces_spelled hend).2.mpr hchain
    exact ⟨ts, hts, hkeys, hrescan _ ts hts _ (by simp)⟩
  · have hmarks : ∀ piece ∈ [([], TokenKind.equal, "="), ([], TokenKind.arrow, "=>")],
        Blanks piece.1 ∧ Spells piece.2.1 piece.2.2.toList := by
      simp only [List.forall_mem_cons]
      exact ⟨⟨blanks_nil, .fixed rfl⟩, ⟨blanks_nil, .fixed rfl⟩, List.forall_mem_nil _⟩
    have hmerging :
        ¬ List.IsChain Apart [([], TokenKind.equal, "="), ([], TokenKind.arrow, "=>")] := by
      decide
    exact mt (hjoined _ _ hmarks blanks_nil).2.mp hmerging

end ExprLang.Token
