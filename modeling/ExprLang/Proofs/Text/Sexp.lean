import ExprLang.Proofs.Token.Spelling
import ExprLang.Text.Sexp

/-!
The text of a parenthesised list determines it, as long as no word contains a space or a
parenthesis. Reading from the left, it is clear where an item ends: a word in front of the first
space or parenthesis, a list with the parenthesis that closes it. So two texts that go on with a
space, a closing parenthesis or nothing behind an item can agree only if the items do
(`text_cancel`), and what stands behind these then agrees too.
-/

namespace ExprLang.Sexp

/-- What can stand next to a word. -/
def isDelimiter (c : Char) : Bool := c == ' ' || c == '(' || c == ')'

/-- A word that can be told from what stands next to it. -/
structure IsWord (s : String) : Prop where
  ne_nil : s.toList ≠ []
  inside : ∀ c ∈ s.toList, isDelimiter c = false

/-- For a literal the condition is computed. -/
theorem isWord_of_check {s : String}
    (h : (!s.toList.isEmpty && s.toList.all fun c => !isDelimiter c) = true) : IsWord s := by
  simp only [Bool.and_eq_true, Bool.not_eq_true', List.isEmpty_eq_false_iff,
    List.all_eq_true] at h
  exact ⟨h.1, h.2⟩

mutual

/-- A list of such words. -/
def Plain : Sexp → Prop
  | .word s => IsWord s
  | .list items => AllPlain items

def AllPlain : List Sexp → Prop
  | [] => True
  | x :: xs => x.Plain ∧ AllPlain xs

end

theorem allPlain_iff {xs : List Sexp} : AllPlain xs ↔ ∀ x ∈ xs, x.Plain := by
  induction xs with
  | nil => simp [AllPlain]
  | cons x xs ih => rw [AllPlain, ih, List.forall_mem_cons]

/-! ## Texts as characters -/

/-- Items, each behind a space. -/
def spaced : List Sexp → List Char
  | [] => []
  | x :: xs => ' ' :: (x.text.toList ++ spaced xs)

theorem intercalate_texts (x : Sexp) (xs : List Sexp) :
    (String.intercalate " " (texts (x :: xs))).toList = x.text.toList ++ spaced xs := by
  induction xs generalizing x with
  | nil => simp [texts, spaced]
  | cons y ys ih =>
    rw [texts, texts, String.intercalate_cons_cons, ← texts, String.toList_append,
      String.toList_append, ih, spaced, List.append_assoc]
    rfl

theorem text_nil : (list []).text.toList = ['(', ')'] := rfl

theorem text_cons (x : Sexp) (xs : List Sexp) :
    (list (x :: xs)).text.toList = '(' :: (x.text.toList ++ (spaced xs ++ [')'])) := by
  rw [text, String.toList_append, String.toList_append, intercalate_texts, List.append_assoc,
    List.append_assoc]
  rfl

/-- What can stand behind an item. -/
def Ends (cs : List Char) : Prop := ∀ c ds, cs = c :: ds → c = ' ' ∨ c = ')'

theorem ends_nil : Ends [] := fun _ _ h => by cases h

theorem ends_close (cs : List Char) : Ends (')' :: cs) := fun _ _ h => by
  cases h
  exact .inr rfl

theorem ends_spaced (xs : List Sexp) (cs : List Char) : Ends (spaced xs ++ ')' :: cs) := by
  cases xs with
  | nil => exact ends_close cs
  | cons x xs =>
    intro c ds h
    cases h
    exact .inl rfl

theorem Ends.head {cs : List Char} (h : Ends cs) : ∀ c ∈ cs.head?, (!isDelimiter c) = false := by
  intro c hc
  obtain ⟨ds, rfl⟩ := List.head?_eq_some_iff.mp hc
  rcases h c ds rfl with rfl | rfl <;> rfl

/-- Words end where the first delimiter stands. -/
theorem word_cancel {v w r s : List Char} (hv : ∀ c ∈ v, isDelimiter c = false)
    (hw : ∀ c ∈ w, isDelimiter c = false) (hr : Ends r) (hs : Ends s) (h : v ++ r = w ++ s) :
    v = w ∧ r = s :=
  Token.run_cancel (fun c hc => by rw [hv c hc]; rfl) (fun c hc => by rw [hw c hc]; rfl) hr.head
    hs.head h

/-- An item begins with an opening parenthesis if it is a list, and with no delimiter if it is
a word. -/
theorem Plain.head {x : Sexp} (h : x.Plain) :
    ∃ c cs, x.text.toList = c :: cs ∧ c ≠ ')' ∧ (c = '(' ↔ ∃ xs, x = .list xs) := by
  cases x with
  | word s =>
    obtain ⟨c, cs, hs⟩ := List.exists_cons_of_ne_nil (IsWord.ne_nil h)
    have hc := IsWord.inside h c (by rw [hs]; exact List.mem_cons_self)
    refine ⟨c, cs, by rw [text, hs], ?_, ?_, ?_⟩
    · rintro rfl
      cases hc
    · rintro rfl
      cases hc
    · rintro ⟨xs, hx⟩
      cases hx
  | list xs =>
    cases xs with
    | nil => exact ⟨'(', _, text_nil, by decide, fun _ => ⟨_, rfl⟩, fun _ => rfl⟩
    | cons x xs => exact ⟨'(', _, text_cons x xs, by decide, fun _ => ⟨_, rfl⟩, fun _ => rfl⟩

mutual

theorem text_cancel {x y : Sexp} (hx : x.Plain) (hy : y.Plain) {r s : List Char} (hr : Ends r)
    (hs : Ends s) (h : x.text.toList ++ r = y.text.toList ++ s) : x = y ∧ r = s := by
  obtain ⟨c, cs, hc, hclose, hlist⟩ := hx.head
  obtain ⟨d, ds, hd, hclose', hlist'⟩ := hy.head
  have hcd : c = d := by
    rw [hc, hd] at h
    exact (List.cons.inj h).1
  match x, y with
  | .word v, .word w =>
    obtain ⟨hvw, hrs⟩ := word_cancel (IsWord.inside hx) (IsWord.inside hy) hr hs h
    exact ⟨congrArg word (String.toList_inj.mp hvw), hrs⟩
  | .word v, .list ys =>
    obtain ⟨_, hx⟩ := hlist.mp (hcd.trans (hlist'.mpr ⟨ys, rfl⟩))
    cases hx
  | .list xs, .word w =>
    obtain ⟨_, hy⟩ := hlist'.mp (hcd.symm.trans (hlist.mpr ⟨xs, rfl⟩))
    cases hy
  | .list [], .list [] => exact ⟨rfl, List.append_cancel_left h⟩
  | .list [], .list (y :: ys) =>
    obtain ⟨e, es, he, hne, -⟩ := (allPlain_iff.mp hy y List.mem_cons_self).head
    rw [text_nil, text_cons, he] at h
    cases h
    exact absurd rfl hne
  | .list (x :: xs), .list [] =>
    obtain ⟨e, es, he, hne, -⟩ := (allPlain_iff.mp hx x List.mem_cons_self).head
    rw [text_nil, text_cons, he] at h
    cases h
    exact absurd rfl hne
  | .list (x :: xs), .list (y :: ys) =>
    rw [text_cons, text_cons] at h
    simp only [List.cons_append, List.append_assoc, List.nil_append, List.cons.injEq,
      true_and] at h
    obtain ⟨rfl, hrest⟩ := text_cancel hx.1 hy.1 (ends_spaced xs r) (ends_spaced ys s) h
    obtain ⟨rfl, rfl⟩ := spaced_cancel hx.2 hy.2 hrest
    exact ⟨rfl, rfl⟩

theorem spaced_cancel {xs ys : List Sexp} (hxs : AllPlain xs) (hys : AllPlain ys)
    {r s : List Char} (h : spaced xs ++ ')' :: r = spaced ys ++ ')' :: s) : xs = ys ∧ r = s := by
  match xs, ys with
  | [], [] =>
    cases h
    exact ⟨rfl, rfl⟩
  | [], y :: ys => cases h
  | x :: xs, [] => cases h
  | x :: xs, y :: ys =>
    simp only [spaced, List.cons_append, List.append_assoc, List.cons.injEq, true_and] at h
    obtain ⟨rfl, hrest⟩ := text_cancel hxs.1 hys.1 (ends_spaced xs r) (ends_spaced ys s) h
    obtain ⟨rfl, rfl⟩ := spaced_cancel hxs.2 hys.2 hrest
    exact ⟨rfl, rfl⟩

end

/-- Different lists have different texts. -/
theorem text_injective {x y : Sexp} (hx : x.Plain) (hy : y.Plain) (h : x.text = y.text) :
    x = y :=
  (text_cancel hx hy ends_nil ends_nil (by rw [h])).1

end ExprLang.Sexp
