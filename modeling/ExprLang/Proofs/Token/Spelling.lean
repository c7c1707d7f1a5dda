import ExprLang.Token.Lexer
import Mathlib.Data.List.TakeWhile

/-!
How tokens are spelled. `Spells kind cs` says which characters make a lexeme of a kind, and
`Longest` which lexeme stands at the front of a text. The lexer finds exactly that one:

* `spells_of_lexeme?`, `Spells.lexeme?_eq`: what the lexer takes is a lexeme, and a lexeme
  alone is taken whole, so that no characters spell two kinds (`Spells.kind_unique`);
* `lexeme?_mono`: behind more text the lexer takes no less;
* `lexeme?_eq_some_iff`, `lexeme?_eq_none_iff`: the lexer against the spellings.
-/

namespace ExprLang.Token

/-- `Spells kind cs`: the characters `cs` are a lexeme of the kind. -/
inductive Spells : TokenKind → List Char → Prop where
  | fixed {kind : TokenKind} {spelling : String} (h : kind.fixedSpelling? = some spelling) :
      Spells kind spelling.toList
  | number {cs : List Char} (hne : cs ≠ []) (h : ∀ c ∈ cs, isDigit c = true) :
      Spells .number cs
  | identifier {c : Char} {cs : List Char} (hc : isNameStart c = true)
      (hcs : ∀ d ∈ cs, isNamePart d = true)
      (hword : ∀ kind, TokenKind.fixedSpelling? kind ≠ some (String.ofList (c :: cs))) :
      Spells .identifier (c :: cs)

/-- `lexeme` is the longest lexeme that the text starts with. -/
structure Longest (kind : TokenKind) (lexeme text : List Char) : Prop where
  spells : Spells kind lexeme
  front : lexeme <+: text
  longest : ∀ kind' cs, Spells kind' cs → cs <+: text → cs.length ≤ lexeme.length

/-! ## Characters -/

theorem isDigit_iff {c : Char} : isDigit c = true ↔ 48 ≤ c.toNat ∧ c.toNat ≤ 57 := by
  simp only [isDigit, Bool.and_eq_true, decide_eq_true_eq]
  rfl

theorem isNameStart_iff {c : Char} : isNameStart c = true ↔
    97 ≤ c.toNat ∧ c.toNat ≤ 122 ∨ 65 ≤ c.toNat ∧ c.toNat ≤ 90 ∨ c.toNat = 95 := by
  have hmark : c = '_' ↔ c.toNat = 95 := ⟨fun h => h ▸ rfl, fun h => Char.toNat_inj.mp h⟩
  simp only [isNameStart, Bool.or_eq_true, Bool.and_eq_true, decide_eq_true_eq, beq_iff_eq,
    or_assoc, hmark]
  rfl

theorem isBlank_iff {c : Char} : isBlank c = true ↔
    9 ≤ c.toNat ∧ c.toNat ≤ 13 ∨ c.toNat = 0x20 ∨ c.toNat = 0x85 ∨ c.toNat = 0xA0 ∨
      c.toNat = 0x1680 ∨ 0x2000 ≤ c.toNat ∧ c.toNat ≤ 0x200A ∨ c.toNat = 0x2028 ∨
      c.toNat = 0x2029 ∨ c.toNat = 0x202F ∨ c.toNat = 0x205F ∨ c.toNat = 0x3000 := by
  simp only [isBlank, Bool.or_eq_true, Bool.and_eq_true, decide_eq_true_eq, beq_iff_eq, or_assoc]

theorem not_isDigit_of_isNameStart {c : Char} (h : isNameStart c = true) : isDigit c = false := by
  rw [isNameStart_iff] at h
  rw [Bool.eq_false_iff, ne_eq, isDigit_iff]
  omega

/-! ## Marks -/

/-- A mark alone has one character, and something that can be a mark alone is one before
any other character too, if not a longer one. -/
theorem mark?_isSome {c : Char} {kind : TokenKind} {n : Nat}
    (h : mark? c none = some (kind, n)) (next : Option Char) :
    n = 0 ∧ ∃ kind' n', mark? c next = some (kind', n') := by
  unfold mark? at h
  split at h
  case h_12 | h_14 | h_15 =>
    cases h
    rw [mark?]
    split <;> exact ⟨rfl, _, _, rfl⟩
  case h_13 =>
    cases h
    rw [mark?]
    split
    · exact ⟨rfl, _, _, rfl⟩
    · split <;> exact ⟨rfl, _, _, rfl⟩
  all_goals cases h
  all_goals exact ⟨rfl, _, _, rfl⟩

/-- What is taken for a mark is spelled like that, with one character or with two. -/
theorem mark?_eq_some {c : Char} {next : Option Char} {kind : TokenKind} {n : Nat}
    (h : mark? c next = some (kind, n)) :
    (n = 0 ∧ kind.fixedSpelling? = some (String.ofList [c])) ∨
      ∃ d, n = 1 ∧ next = some d ∧ kind.fixedSpelling? = some (String.ofList [c, d]) := by
  unfold mark? at h
  split at h
  case h_12 | h_14 | h_15 =>
    split at h
    · next hnext =>
      cases h
      exact .inr ⟨_, rfl, hnext, rfl⟩
    · cases h
      exact .inl ⟨rfl, rfl⟩
  case h_13 =>
    split at h
    · next hnext =>
      cases h
      exact .inr ⟨_, rfl, hnext, rfl⟩
    · split at h
      · next hnext =>
        cases h
        exact .inr ⟨_, rfl, hnext, rfl⟩
      · cases h
        exact .inl ⟨rfl, rfl⟩
  case h_16 | h_17 =>
    split at h
    · next hnext =>
      cases h
      exact .inr ⟨_, rfl, hnext, rfl⟩
    · cases h
  all_goals cases h
  all_goals exact .inl ⟨rfl, rfl⟩

/-! ## Words -/

theorem wordKind_cases (word : String) :
    (wordKind word).fixedSpelling? = some word ∨
      (wordKind word = .identifier ∧ ∀ kind ∈ keywords, kind.fixedSpelling? ≠ some word) := by
  unfold wordKind
  cases hfind : keywords.find? fun k => k.fixedSpelling? == some word with
  | some kind => exact .inl (by simpa using List.find?_some hfind)
  | none =>
    refine .inr ⟨rfl, fun kind hkind => ?_⟩
    simpa using List.find?_eq_none.mp hfind kind hkind

/-- Of the fixed spellings, only those of keywords start like a name. -/
theorem keyword_of_isNameStart {kind : TokenKind} {c : Char} {cs : List Char}
    (h : kind.fixedSpelling? = some (String.ofList (c :: cs))) (hc : isNameStart c = true) :
    kind ∈ keywords := by
  have hlist : kind.fixedSpelling?.map String.toList = some (c :: cs) := by
    rw [h, Option.map_some, String.toList_ofList]
  cases kind with
  | letWord | constWord | ifWord | elifWord | elseWord | whileWord | funcWord | trueWord
  | falseWord | nullWord => decide
  | number | identifier | eof => cases h
  | _ =>
    cases hlist
    exact absurd hc (by decide)

theorem spells_wordKind {c : Char} {cs : List Char} (hc : isNameStart c = true)
    (hcs : ∀ d ∈ cs, isNamePart d = true) :
    Spells (wordKind (String.ofList (c :: cs))) (c :: cs) := by
  rcases wordKind_cases (String.ofList (c :: cs)) with hfixed | ⟨hidentifier, hnone⟩
  · have hspells := Spells.fixed hfixed
    rwa [String.toList_ofList] at hspells
  · rw [hidentifier]
    exact .identifier hc hcs fun kind h => hnone kind (keyword_of_isNameStart h hc) h

/-! ## The lexer and the spellings -/

theorem take_length_takeWhile (p : Char → Bool) (cs : List Char) :
    cs.take (cs.takeWhile p).length = cs.takeWhile p :=
  (List.prefix_iff_eq_take.mp (List.takeWhile_prefix p)).symm

/-- Two runs of characters that stop where they have to. -/
theorem run_cancel {p : Char → Bool} {v w r s : List Char} (hv : ∀ c ∈ v, p c = true)
    (hw : ∀ c ∈ w, p c = true) (hr : ∀ c ∈ r.head?, p c = false) (hs : ∀ c ∈ s.head?, p c = false)
    (h : v ++ r = w ++ s) : v = w ∧ r = s := by
  have hstop : ∀ t : List Char, (∀ c ∈ t.head?, p c = false) → t.takeWhile p = [] := by
    intro t ht
    cases t with
    | nil => rfl
    | cons c t => rw [List.takeWhile_cons, ht c rfl, if_neg Bool.false_ne_true]
  have hrun := congrArg (List.takeWhile p) h
  rw [List.takeWhile_append_of_pos hv, List.takeWhile_append_of_pos hw, hstop r hr, hstop s hs,
    List.append_nil, List.append_nil] at hrun
  subst hrun
  exact ⟨rfl, List.append_cancel_left h⟩

/-- What the lexer takes is a lexeme. -/
theorem spells_of_lexeme? {c : Char} {cs : List Char} {kind : TokenKind} {n : Nat}
    (h : lexeme? c cs = some (kind, n)) : Spells kind (c :: cs.take n) ∧ n ≤ cs.length := by
  unfold lexeme? at h
  split at h
  · next hc =>
    cases h
    rw [take_length_takeWhile]
    refine ⟨.number (List.cons_ne_nil _ _) ?_, (List.takeWhile_prefix _).length_le⟩
    exact List.forall_mem_cons.mpr ⟨hc, fun d => List.mem_takeWhile_imp⟩
  · split at h
    · next hc =>
      cases h
      rw [take_length_takeWhile]
      exact ⟨spells_wordKind hc fun d => List.mem_takeWhile_imp,
        (List.takeWhile_prefix _).length_le⟩
    · rcases mark?_eq_some h with ⟨rfl, hspelling⟩ | ⟨d, rfl, hnext, hspelling⟩
      · have hspells := Spells.fixed hspelling
        rw [String.toList_ofList] at hspells
        exact ⟨hspells, Nat.zero_le _⟩
      · obtain ⟨ds, rfl⟩ : ∃ ds, cs = d :: ds := List.head?_eq_some_iff.mp hnext
        have hspells := Spells.fixed hspelling
        rw [String.toList_ofList] at hspells
        exact ⟨hspells, by simp⟩

theorem Spells.ne_nil {kind : TokenKind} {cs : List Char} (h : Spells kind cs) : cs ≠ [] := by
  cases h with
  | fixed h =>
    cases kind with
    | number | identifier | eof => cases h
    | _ =>
      cases h
      decide
  | number hne => exact hne
  | identifier => exact List.cons_ne_nil _ _

/-- A lexeme alone is taken whole, as a token of its kind. -/
theorem Spells.lexeme?_eq {kind : TokenKind} {c : Char} {cs : List Char}
    (h : Spells kind (c :: cs)) : lexeme? c cs = some (kind, cs.length) := by
  generalize htext : c :: cs = text at h
  cases h with
  | fixed h =>
    cases kind with
    | number | identifier | eof => cases h
    | _ =>
      cases h
      cases htext
      decide
  | number hne h =>
    subst htext
    obtain ⟨hc, hcs⟩ := List.forall_mem_cons.mp h
    rw [lexeme?, if_pos hc, List.takeWhile_eq_self_iff.mpr hcs]
  | identifier hc hcs hword =>
    cases htext
    rw [lexeme?, if_neg (by simp [not_isDigit_of_isNameStart hc]), if_pos hc]
    dsimp only
    rw [List.takeWhile_eq_self_iff.mpr hcs]
    rcases wordKind_cases (String.ofList (c :: cs)) with hfixed | ⟨hidentifier, -⟩
    · exact absurd hfixed (hword _)
    · rw [hidentifier]

/-- No characters are a lexeme of two kinds. -/
theorem Spells.kind_unique {kind kind' : TokenKind} {cs : List Char} (h : Spells kind cs)
    (h' : Spells kind' cs) : kind = kind' := by
  obtain ⟨c, cs, rfl⟩ := List.exists_cons_of_ne_nil h.ne_nil
  have heq := h.lexeme?_eq.symm.trans h'.lexeme?_eq
  cases heq
  rfl

/-- Behind more text the lexer takes no less. -/
theorem lexeme?_mono {c : Char} {cs : List Char} {kind : TokenKind} {n : Nat}
    (h : lexeme? c cs = some (kind, n)) (ds : List Char) :
    ∃ kind' n', lexeme? c (cs ++ ds) = some (kind', n') ∧ n ≤ n' := by
  have hrun : ∀ p : Char → Bool,
      (cs.takeWhile p).length ≤ ((cs ++ ds).takeWhile p).length := by
    intro p
    rw [List.takeWhile_append]
    split
    · next hall => rw [List.length_append, hall]; omega
    · exact Nat.le_refl _
  unfold lexeme? at h ⊢
  split at h
  · next hc =>
    cases h
    rw [if_pos hc]
    exact ⟨_, _, rfl, hrun isDigit⟩
  · next hc =>
    rw [if_neg hc]
    split at h
    · next hc =>
      cases h
      rw [if_pos hc]
      exact ⟨_, _, rfl, hrun isNamePart⟩
    · next hc =>
      rw [if_neg hc]
      cases cs with
      | nil =>
        obtain ⟨rfl, kind', n', h'⟩ := mark?_isSome h ds.head?
        exact ⟨kind', n', h', Nat.zero_le _⟩
      | cons d cs => exact ⟨kind, n, h, Nat.le_refl _⟩

/-- The lexer does not stop within a lexeme that the text starts with. -/
theorem Spells.le_lexeme? {kind : TokenKind} {c : Char} {cs ds : List Char}
    (h : Spells kind ds) (hfront : ds <+: c :: cs) :
    ∃ kind' n, lexeme? c cs = some (kind', n) ∧ ds.length ≤ n + 1 := by
  obtain ⟨d, ds, rfl⟩ := List.exists_cons_of_ne_nil h.ne_nil
  obtain ⟨rfl, rest, rfl⟩ := List.cons_prefix_cons.mp hfront
  obtain ⟨kind', n, htaken, hle⟩ := lexeme?_mono h.lexeme?_eq rest
  exact ⟨kind', n, htaken, Nat.succ_le_succ hle⟩

/-- What the lexer takes is the longest lexeme at the front. -/
theorem lexeme?_eq_some_iff {c : Char} {cs : List Char} {kind : TokenKind} {n : Nat} :
    lexeme? c cs = some (kind, n) ↔
      n ≤ cs.length ∧ Longest kind (c :: cs.take n) (c :: cs) := by
  have hfront : ∀ m, c :: cs.take m <+: c :: cs :=
    fun m => List.cons_prefix_cons.mpr ⟨rfl, List.take_prefix m cs⟩
  constructor
  · intro h
    obtain ⟨hspells, hle⟩ := spells_of_lexeme? h
    refine ⟨hle, hspells, hfront n, fun kind' ds hds hds' => ?_⟩
    obtain ⟨_, _, htaken, hle'⟩ := hds.le_lexeme? hds'
    rw [h] at htaken
    cases htaken
    simpa [Nat.min_eq_left hle] using hle'
  · rintro ⟨hle, hlongest⟩
    obtain ⟨kind', m, htaken, hle'⟩ := hlongest.spells.le_lexeme? hlongest.front
    obtain ⟨hspells, hm⟩ := spells_of_lexeme? htaken
    have hmn := hlongest.longest kind' _ hspells (hfront m)
    simp only [List.length_cons, List.length_take, Nat.min_eq_left hle,
      Nat.min_eq_left hm] at hle' hmn
    obtain rfl : m = n := by omega
    rw [htaken, hspells.kind_unique hlongest.spells]

/-- Where the lexer takes nothing, the text starts with no lexeme. -/
theorem lexeme?_eq_none_iff {c : Char} {cs : List Char} :
    lexeme? c cs = none ↔ ∀ kind ds, Spells kind ds → ¬ ds <+: c :: cs := by
  constructor
  · intro h kind ds hds hfront
    obtain ⟨_, _, htaken, -⟩ := hds.le_lexeme? hfront
    rw [h] at htaken
    cases htaken
  · intro h
    cases htaken : lexeme? c cs with
    | none => rfl
    | some taken =>
      have hlongest := (lexeme?_eq_some_iff.mp htaken).2
      exact absurd hlongest.front (h _ _ hlongest.spells)

/-- No lexeme starts with white space. -/
theorem Spells.not_isBlank {kind : TokenKind} {c : Char} {cs : List Char}
    (h : Spells kind (c :: cs)) : isBlank c = false := by
  rw [Bool.eq_false_iff, ne_eq, isBlank_iff]
  generalize htext : c :: cs = text at h
  cases h with
  | fixed h =>
    cases kind with
    | number | identifier | eof => cases h
    | _ =>
      cases h
      cases htext
      decide
  | number hne h =>
    subst htext
    have hc := isDigit_iff.mp (h c (.head _))
    omega
  | identifier hc =>
    cases htext
    have hc := isNameStart_iff.mp hc
    omega

/-- The lexeme of a number is a run of digits. -/
theorem Spells.digits {cs : List Char} (h : Spells .number cs) :
    cs ≠ [] ∧ ∀ c ∈ cs, isDigit c = true := by
  cases h with
  | fixed hfixed => cases hfixed
  | number hne hdigits => exact ⟨hne, hdigits⟩

/-- No lexeme is an end mark. -/
theorem Spells.kind_ne_eof {kind : TokenKind} {cs : List Char} (h : Spells kind cs) :
    kind ≠ .eof := by
  rintro rfl
  cases h with
  | fixed h => cases h

end ExprLang.Token
