import ExprLang.Text.Json
import ExprLang.Proofs.Text.Decimal

/-!
The text of a JSON document determines the document, in every layout that breaks lines and indents
with blanks alone. Read from the left, the first character tells the kind of a document, and then
it is clear where it ends: a number in front of the first character that is no digit, a string in
front of the first quote that is not escaped, and a list of items or members with the mark that
closes it. So two texts that go on with no digit can agree only if the documents do, and what
stands behind these then agrees too.

* `unescape?_escaped`, `quoted_cancel`: strings with their escapes;
* `Decimal.ofInt_cancel`: numbers;
* `Layout.Spaced`: what is asked of a layout, and what `spaced_compact`, `spaced_indented` have;
* `render_cancel`: documents, with anything behind them that begins with no digit;
* `compact_injective`, `indented_injective`: both texts of a document determine it.
-/

namespace ExprLang

/-! ## Numbers -/

namespace Decimal

theorem minus_toList (n : Nat) (r : List Char) :
    ("-" ++ ofNat n).toList ++ r = '-' :: ((ofNat n).toList ++ r) := by
  rw [String.toList_append, List.append_assoc]
  rfl

/-- The digits of a number, with one in front. -/
theorem exists_ofNat_cons (n : Nat) :
    ∃ c cs, (ofNat n).toList = c :: cs ∧ Token.isDigit c = true := by
  obtain ⟨c, cs, hlist⟩ := List.exists_cons_of_ne_nil (ofNat_ne_nil n)
  exact ⟨c, cs, hlist, isDigit_of_mem_ofNat (by rw [hlist]; exact .head _)⟩

theorem ofNat_ne_minus {n : Nat} {r s : List Char} : (ofNat n).toList ++ r ≠ '-' :: s := by
  obtain ⟨c, cs, hlist, hdigit⟩ := exists_ofNat_cons n
  intro h
  rw [hlist] at h
  cases h
  cases hdigit

section Cancel

variable {r s : List Char} (hr : ∀ c ∈ r.head?, Token.isDigit c = false)
  (hs : ∀ c ∈ s.head?, Token.isDigit c = false)

include hr hs

theorem ofNat_cancel {m n : Nat} (h : (ofNat m).toList ++ r = (ofNat n).toList ++ s) :
    m = n ∧ r = s := by
  obtain ⟨hsame, hrest⟩ := Token.run_cancel (fun _ => isDigit_of_mem_ofNat)
    (fun _ => isDigit_of_mem_ofNat) hr hs h
  refine ⟨?_, hrest⟩
  rw [← ofDigitChars_ofNat m, hsame, ofDigitChars_ofNat]

theorem ofInt_cancel {m n : Int} (h : (ofInt m).toList ++ r = (ofInt n).toList ++ s) :
    m = n ∧ r = s := by
  unfold ofInt at h
  split at h <;> split at h
  · rw [minus_toList, minus_toList] at h
    obtain ⟨habs, hrest⟩ := ofNat_cancel hr hs (List.cons.inj h).2
    exact ⟨by omega, hrest⟩
  · rw [minus_toList] at h
    exact absurd h.symm ofNat_ne_minus
  · rw [minus_toList] at h
    exact absurd h ofNat_ne_minus
  · obtain ⟨habs, hrest⟩ := ofNat_cancel hr hs h
    exact ⟨by omega, hrest⟩

end Cancel

end Decimal

namespace Json

/-! ## Strings -/

/-- The value of a hexadecimal digit in lower case. -/
def hexValue (c : Char) : Nat := if Token.isDigit c then c.toNat - 48 else c.toNat - 87

theorem hexValue_digitChar : ∀ d < 16, hexValue (Nat.digitChar d) = d := by decide

/-- The character that is escaped by a backslash and the characters behind it, with the text behind
these. -/
def unescapeMarked? : List Char → Option (Char × List Char)
  | 'n' :: cs => some ('\n', cs)
  | 'r' :: cs => some ('\r', cs)
  | 't' :: cs => some ('\t', cs)
  | 'b' :: cs => some ('\x08', cs)
  | 'f' :: cs => some ('\x0c', cs)
  | 'u' :: '0' :: '0' :: a :: b :: cs => some (Char.ofNat (16 * hexValue a + hexValue b), cs)
  | c :: cs => some (c, cs)
  | [] => none

/-- The character that stands at the front of a text, escaped or not, with the text behind it. -/
def unescape? : List Char → Option (Char × List Char)
  | '\\' :: cs => unescapeMarked? cs
  | c :: cs => some (c, cs)
  | [] => none

theorem unescape?_control {c : Char} (h : c.toNat < 0x20) (cs : List Char) :
    unescape? ('\\' :: 'u' :: '0' :: '0' :: Nat.digitChar (c.toNat / 16) ::
      Nat.digitChar (c.toNat % 16) :: cs) = some (c, cs) := by
  have hvalue : 16 * (c.toNat / 16) + c.toNat % 16 = c.toNat := by omega
  rw [unescape?, unescapeMarked?, hexValue_digitChar _ (by omega), hexValue_digitChar _ (by omega),
    hvalue, Char.ofNat_toNat]

theorem unescape?_escaped (c : Char) (cs : List Char) :
    unescape? (escaped c ++ cs) = some (c, cs) := by
  unfold escaped
  split
  case h_8 hbackslash _ _ _ _ _ =>
    split
    · next hcontrol => exact unescape?_control hcontrol cs
    · exact unescape?.eq_2 c cs hbackslash
  all_goals rfl

/-- No character is escaped as the quote that ends a string. -/
theorem escaped_ne_quote (c : Char) (cs ds : List Char) : escaped c ++ cs ≠ '"' :: ds := by
  intro h
  have hread := unescape?_escaped c cs
  rw [h] at hread
  cases hread
  cases h

theorem escaped_cancel {v w r s : List Char}
    (h : v.flatMap escaped ++ '"' :: r = w.flatMap escaped ++ '"' :: s) : v = w ∧ r = s := by
  induction v generalizing w with
  | nil =>
    cases w with
    | nil =>
      cases h
      exact ⟨rfl, rfl⟩
    | cons d w =>
      rw [List.flatMap_cons, List.append_assoc] at h
      exact absurd h.symm (escaped_ne_quote d _ _)
  | cons c v ih =>
    cases w with
    | nil =>
      rw [List.flatMap_cons, List.append_assoc] at h
      exact absurd h (escaped_ne_quote c _ _)
    | cons d w =>
      rw [List.flatMap_cons, List.flatMap_cons, List.append_assoc, List.append_assoc] at h
      have hread := unescape?_escaped c (v.flatMap escaped ++ '"' :: r)
      rw [h, unescape?_escaped] at hread
      obtain ⟨rfl, hrest⟩ := Prod.mk.inj (Option.some.inj hread)
      obtain ⟨rfl, rfl⟩ := ih hrest.symm
      exact ⟨rfl, rfl⟩

theorem quoted_toList (s : String) (r : List Char) :
    (quoted s).toList ++ r = '"' :: (s.toList.flatMap escaped ++ '"' :: r) := by
  rw [quoted, String.toList_ofList, List.cons_append, List.cons_append, List.append_assoc,
    List.singleton_append]

theorem quoted_cancel {x y : String} {r s : List Char}
    (h : (quoted x).toList ++ r = (quoted y).toList ++ s) : x = y ∧ r = s := by
  rw [quoted_toList, quoted_toList] at h
  obtain ⟨hsame, hrest⟩ := escaped_cancel (List.cons.inj h).2
  exact ⟨String.toList_inj.mp hsame, hrest⟩

/-! ## Texts as characters -/

/-- Texts, each behind a comma. -/
def listed : List String → List Char
  | [] => []
  | t :: ts => ',' :: (t.toList ++ listed ts)

theorem intercalate_toList (t : String) (ts : List String) :
    (String.intercalate "," (t :: ts)).toList = t.toList ++ listed ts := by
  induction ts generalizing t with
  | nil => simp [listed]
  | cons u us ih =>
    rw [String.intercalate_cons_cons, String.toList_append, String.toList_append, ih, listed,
      List.append_assoc]
    rfl

section Layout

variable {f : Layout} {level : Nat}

theorem render_null (r : List Char) :
    (render f level .null).toList ++ r = 'n' :: 'u' :: 'l' :: 'l' :: r := by
  rw [render]
  rfl

theorem render_true (r : List Char) :
    (render f level (.bool true)).toList ++ r = 't' :: 'r' :: 'u' :: 'e' :: r := by
  rw [render]
  rfl

theorem render_false (r : List Char) :
    (render f level (.bool false)).toList ++ r = 'f' :: 'a' :: 'l' :: 's' :: 'e' :: r := by
  rw [render]
  rfl

theorem render_string (s : String) (r : List Char) :
    (render f level (.string s)).toList ++ r = '"' :: (s.toList.flatMap escaped ++ '"' :: r) := by
  rw [render, quoted_toList]

theorem render_array_nil (r : List Char) :
    (render f level (.array [])).toList ++ r = '[' :: ']' :: r := by
  rw [render]
  rfl

theorem render_object_nil (r : List Char) :
    (render f level (.object [])).toList ++ r = '\x7b' :: '\x7d' :: r := by
  rw [render]
  rfl

theorem render_array (x : Json) (xs : List Json) (r : List Char) :
    (render f level (.array (x :: xs))).toList ++ r =
      '[' :: ((f.line (level + 1)).toList ++ ((render f (level + 1) x).toList ++
        (listed (renderItems f (level + 1) xs) ++ ((f.line level).toList ++ ']' :: r)))) := by
  simp only [render, renderItems, String.toList_append, intercalate_toList, List.append_assoc]
  rfl

theorem render_object (name : String) (x : Json) (ms : List (String × Json)) (r : List Char) :
    (render f level (.object ((name, x) :: ms))).toList ++ r =
      '\x7b' :: ((f.line (level + 1)).toList ++ ((quoted name).toList ++ (f.colon.toList ++
        ((render f (level + 1) x).toList ++ (listed (renderMembers f (level + 1) ms) ++
          ((f.line level).toList ++ '\x7d' :: r)))))) := by
  simp only [render, renderMembers, String.toList_append, intercalate_toList, List.append_assoc]
  rfl

/-- A layout that puts only spaces and line breaks between the parts of a document. -/
def Layout.Spaced (f : Layout) : Prop := ∀ level, ∀ c ∈ (f.line level).toList, c = ' ' ∨ c = '\n'

theorem spaced_compact : Layout.compact.Spaced := fun _ => List.forall_mem_nil _

theorem spaced_indented : Layout.indented.Spaced := by
  intro level c hc
  rw [Layout.indented, String.toList_ofList] at hc
  rcases List.mem_cons.mp hc with rfl | hc
  · exact .inr rfl
  · exact .inl (List.eq_of_mem_replicate hc)

/-- What stands at the front where a line may be broken. -/
theorem Layout.Spaced.head {f : Layout} (hf : f.Spaced) {c d : Char} {cs : List Char}
    (h : d ∈ ((f.line level).toList ++ c :: cs).head?) : d = ' ' ∨ d = '\n' ∨ d = c := by
  cases hline : (f.line level).toList with
  | nil =>
    rw [hline] at h
    cases h
    exact .inr (.inr rfl)
  | cons b bs =>
    rw [hline] at h
    cases h
    rcases hf level _ (by rw [hline]; exact .head _) with hd | hd
    · exact .inl hd
    · exact .inr (.inl hd)

theorem Layout.Spaced.ne_mark {f : Layout} (hf : f.Spaced) {mark c : Char} {cs ds : List Char}
    (hmark : mark ≠ ' ' ∧ mark ≠ '\n') (hc : c ≠ mark) :
    (f.line level).toList ++ c :: cs ≠ mark :: ds := by
  intro h
  have hfirst : mark ∈ ((f.line level).toList ++ c :: cs).head? := by
    rw [h]
    rfl
  rcases hf.head hfirst with hd | hd | hd
  · exact hmark.1 hd
  · exact hmark.2 hd
  · exact hc hd.symm

/-- What stands behind an item or a member begins with no digit. -/
theorem Layout.Spaced.ends {f : Layout} (hf : f.Spaced) (ts : List String) {mark : Char}
    (hmark : Token.isDigit mark = false) (r : List Char) :
    ∀ c ∈ (listed ts ++ ((f.line level).toList ++ mark :: r)).head?, Token.isDigit c = false := by
  intro c hc
  cases ts with
  | nil => rcases hf.head hc with rfl | rfl | rfl <;> first | rfl | exact hmark
  | cons t ts =>
    cases hc
    rfl

/-! ## Documents -/

/-- The kinds of document. -/
inductive Kind where
  | null | bool | number | string | array | object
  deriving DecidableEq, Repr

def kind : Json → Kind
  | .null => .null
  | .bool _ => .bool
  | .number _ => .number
  | .string _ => .string
  | .array _ => .array
  | .object _ => .object

/-- The kind of document that begins with a character. -/
def Kind.ofFirst : Char → Kind
  | 'n' => .null
  | 't' | 'f' => .bool
  | '"' => .string
  | '[' => .array
  | '\x7b' => .object
  | _ => .number

theorem Kind.ofFirst_of_isDigit {c : Char} (h : Token.isDigit c = true) :
    Kind.ofFirst c = .number := by
  unfold Kind.ofFirst
  split
  case h_7 => rfl
  all_goals cases h

/-- A number begins with a minus sign or with a digit. -/
theorem exists_first_number (n : Int) (r : List Char) :
    ∃ c cs, (render f level (.number n)).toList ++ r = c :: cs ∧ Kind.ofFirst c = .number ∧
      c ≠ ']' := by
  rw [render, Decimal.ofInt]
  split
  · exact ⟨'-', _, Decimal.minus_toList n.natAbs r, rfl, by decide⟩
  · obtain ⟨c, cs, hlist, hdigit⟩ := Decimal.exists_ofNat_cons n.natAbs
    refine ⟨c, cs ++ r, by rw [hlist, List.cons_append], Kind.ofFirst_of_isDigit hdigit, ?_⟩
    rintro rfl
    cases hdigit

/-- The first character tells the kind of a document, and it closes no list. -/
theorem exists_first (f : Layout) (level : Nat) (x : Json) (r : List Char) :
    ∃ c cs, (render f level x).toList ++ r = c :: cs ∧ Kind.ofFirst c = x.kind ∧ c ≠ ']' := by
  match x with
  | .null => exact ⟨_, _, render_null r, rfl, by decide⟩
  | .bool true => exact ⟨_, _, render_true r, rfl, by decide⟩
  | .bool false => exact ⟨_, _, render_false r, rfl, by decide⟩
  | .number n => exact exists_first_number n r
  | .string s => exact ⟨_, _, render_string s r, rfl, by decide⟩
  | .array [] => exact ⟨_, _, render_array_nil r, rfl, by decide⟩
  | .array (x :: xs) => exact ⟨_, _, render_array x xs r, rfl, by decide⟩
  | .object [] => exact ⟨_, _, render_object_nil r, rfl, by decide⟩
  | .object ((name, x) :: ms) => exact ⟨_, _, render_object name x ms r, rfl, by decide⟩

theorem kind_eq {x y : Json} {r s : List Char}
    (h : (render f level x).toList ++ r = (render f level y).toList ++ s) : x.kind = y.kind := by
  obtain ⟨c, cs, hx, hc, -⟩ := exists_first f level x r
  obtain ⟨d, ds, hy, hd, -⟩ := exists_first f level y s
  rw [hx, hy] at h
  rw [← hc, ← hd, (List.cons.inj h).1]

theorem Layout.Spaced.item_ne_close {f : Layout} (hf : f.Spaced) (x : Json) (r s : List Char) :
    (f.line (level + 1)).toList ++ ((render f (level + 1) x).toList ++ r) ≠ ']' :: s := by
  obtain ⟨c, cs, hx, -, hc⟩ := exists_first f (level + 1) x r
  rw [hx]
  exact hf.ne_mark (by decide) hc

theorem Layout.Spaced.member_ne_close {f : Layout} (hf : f.Spaced) (name : String)
    (r s : List Char) :
    (f.line (level + 1)).toList ++ ((quoted name).toList ++ r) ≠ '\x7d' :: s := by
  rw [quoted_toList]
  exact hf.ne_mark (by decide) (by decide)

theorem Layout.Spaced.close_ne_comma {f : Layout} (hf : f.Spaced) {mark : Char} (hmark : mark ≠ ',')
    {t : String} {ts : List String} {r s : List Char} :
    listed [] ++ ((f.line level).toList ++ mark :: r) ≠ listed (t :: ts) ++ s :=
  hf.ne_mark (by decide) hmark

end Layout

mutual

theorem render_cancel {f : Layout} (hf : f.Spaced) {level : Nat} {x y : Json} {r s : List Char}
    (hr : ∀ c ∈ r.head?, Token.isDigit c = false) (hs : ∀ c ∈ s.head?, Token.isDigit c = false)
    (h : (render f level x).toList ++ r = (render f level y).toList ++ s) : x = y ∧ r = s := by
  match x, y, kind_eq h with
  | .null, .null, _ => exact ⟨rfl, List.append_cancel_left h⟩
  | .bool true, .bool true, _ | .bool false, .bool false, _ =>
    exact ⟨rfl, List.append_cancel_left h⟩
  | .bool true, .bool false, _ | .bool false, .bool true, _ =>
    rw [render_true, render_false] at h
    cases h
  | .number m, .number n, _ =>
    rw [render, render] at h
    obtain ⟨rfl, rfl⟩ := Decimal.ofInt_cancel hr hs h
    exact ⟨rfl, rfl⟩
  | .string a, .string b, _ =>
    rw [render, render] at h
    obtain ⟨rfl, rfl⟩ := quoted_cancel h
    exact ⟨rfl, rfl⟩
  | .array [], .array [], _ => exact ⟨rfl, List.append_cancel_left h⟩
  | .array [], .array (y :: ys), _ =>
    rw [render_array_nil, render_array] at h
    exact absurd (List.cons.inj h).2.symm (hf.item_ne_close _ _ _)
  | .array (x :: xs), .array [], _ =>
    rw [render_array_nil, render_array] at h
    exact absurd (List.cons.inj h).2 (hf.item_ne_close _ _ _)
  | .array (x :: xs), .array (y :: ys), _ =>
    rw [render_array, render_array] at h
    obtain ⟨rfl, hrest⟩ := render_cancel hf (hf.ends _ rfl r) (hf.ends _ rfl s)
      (List.append_cancel_left (List.cons.inj h).2)
    obtain ⟨rfl, rfl⟩ := renderItems_cancel hf hrest
    exact ⟨rfl, rfl⟩
  | .object [], .object [], _ => exact ⟨rfl, List.append_cancel_left h⟩
  | .object [], .object ((name, y) :: ns), _ =>
    rw [render_object_nil, render_object] at h
    exact absurd (List.cons.inj h).2.symm (hf.member_ne_close _ _ _)
  | .object ((name, x) :: ms), .object [], _ =>
    rw [render_object_nil, render_object] at h
    exact absurd (List.cons.inj h).2 (hf.member_ne_close _ _ _)
  | .object ((name, x) :: ms), .object ((name', y) :: ns), _ =>
    rw [render_object, render_object] at h
    obtain ⟨rfl, hvalue⟩ := quoted_cancel (List.append_cancel_left (List.cons.inj h).2)
    obtain ⟨rfl, hrest⟩ := render_cancel hf (hf.ends _ rfl r) (hf.ends _ rfl s)
      (List.append_cancel_left hvalue)
    obtain ⟨rfl, rfl⟩ := renderMembers_cancel hf hrest
    exact ⟨rfl, rfl⟩

theorem renderItems_cancel {f : Layout} (hf : f.Spaced) {level : Nat} {xs ys : List Json}
    {r s : List Char}
    (h : listed (renderItems f (level + 1) xs) ++ ((f.line level).toList ++ ']' :: r) =
      listed (renderItems f (level + 1) ys) ++ ((f.line level).toList ++ ']' :: s)) :
    xs = ys ∧ r = s := by
  match xs, ys with
  | [], [] => exact ⟨rfl, (List.cons.inj (List.append_cancel_left h)).2⟩
  | [], y :: ys => exact absurd h (hf.close_ne_comma (by decide))
  | x :: xs, [] => exact absurd h.symm (hf.close_ne_comma (by decide))
  | x :: xs, y :: ys =>
    simp only [renderItems, listed, String.toList_append, List.cons_append, List.append_assoc,
      List.cons.injEq, true_and] at h
    obtain ⟨rfl, hrest⟩ := render_cancel hf (hf.ends _ rfl r) (hf.ends _ rfl s)
      (List.append_cancel_left h)
    obtain ⟨rfl, rfl⟩ := renderItems_cancel hf hrest
    exact ⟨rfl, rfl⟩

theorem renderMembers_cancel {f : Layout} (hf : f.Spaced) {level : Nat}
    {ms ns : List (String × Json)} {r s : List Char}
    (h : listed (renderMembers f (level + 1) ms) ++ ((f.line level).toList ++ '\x7d' :: r) =
      listed (renderMembers f (level + 1) ns) ++ ((f.line level).toList ++ '\x7d' :: s)) :
    ms = ns ∧ r = s := by
  match ms, ns with
  | [], [] => exact ⟨rfl, (List.cons.inj (List.append_cancel_left h)).2⟩
  | [], n :: ns => exact absurd h (hf.close_ne_comma (by decide))
  | m :: ms, [] => exact absurd h.symm (hf.close_ne_comma (by decide))
  | (name, x) :: ms, (name', y) :: ns =>
    simp only [renderMembers, listed, String.toList_append, List.cons_append, List.append_assoc,
      List.cons.injEq, true_and] at h
    obtain ⟨rfl, hvalue⟩ := quoted_cancel (List.append_cancel_left h)
    obtain ⟨rfl, hrest⟩ := render_cancel hf (hf.ends _ rfl r) (hf.ends _ rfl s)
      (List.append_cancel_left hvalue)
    obtain ⟨rfl, rfl⟩ := renderMembers_cancel hf hrest
    exact ⟨rfl, rfl⟩

end

theorem render_injective {f : Layout} (hf : f.Spaced) {level : Nat} {x y : Json}
    (h : render f level x = render f level y) : x = y :=
  (render_cancel hf (r := []) (s := []) (fun _ hc => nomatch hc) (fun _ hc => nomatch hc)
    (by rw [h])).1

/-- Different documents have different texts on one line. -/
theorem compact_injective {x y : Json} (h : x.compact = y.compact) : x = y :=
  render_injective spaced_compact h

/-- Different documents have different texts over several lines. -/
theorem indented_injective {x y : Json} (h : x.indented = y.indented) : x = y :=
  render_injective spaced_indented h

end Json

end ExprLang
