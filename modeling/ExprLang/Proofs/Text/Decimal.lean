import ExprLang.Text.Decimal
import ExprLang.Proofs.Token.Spelling

/-!
Numbers in decimal are read back: the digits of a number are a lexeme that stands for the number,
and a number of 64 bits is found again in its decimal form, with its sign. A run of digits stands
for the number that it has in positional notation, also with zeros in front, and is read as long as
that number is in range.

* `digits?_of_digits`, `natural?_of_digits`, `signed?_of_digits`: what a run of digits is read as;
* `spells_ofNat`: the digits of a number are the lexeme of a number;
* `signed?_ofInt`: the decimal form of a signed number is read as that number.
-/

namespace ExprLang.Decimal

/-! ## Runs of digits -/

theorem digit?_of_isDigit {c : Char} (h : Token.isDigit c = true) :
    digit? c = some (c.toNat - '0'.toNat) := if_pos h

theorem extend?_of_digits {cs : List Char} (h : ∀ c ∈ cs, Token.isDigit c = true) (n : Nat) :
    extend? n cs = some (Nat.ofDigitChars 10 cs n) := by
  induction cs generalizing n with
  | nil => rfl
  | cons c cs ih =>
    obtain ⟨hc, hcs⟩ := List.forall_mem_cons.mp h
    rw [extend?, digit?_of_isDigit hc, Option.bind_some, ih hcs, Nat.ofDigitChars_cons]

/-- A number within the range of signed numbers is kept. -/
theorem filter_range {v : Int} (hmin : Int64.minValue.toInt ≤ v) (hmax : v ≤ Int64.maxValue.toInt) :
    ((some v).filter fun v => Int64.minValue.toInt ≤ v && v ≤ Int64.maxValue.toInt).map
      Int64.ofInt = some (Int64.ofInt v) := by
  rw [Option.filter_some, decide_eq_true hmin, decide_eq_true hmax]
  rfl

section

variable {cs : List Char} (hne : cs ≠ []) (h : ∀ c ∈ cs, Token.isDigit c = true)

include hne h

theorem digits?_of_digits : digits? cs = some (Nat.ofDigitChars 10 cs 0) := by
  rw [← extend?_of_digits h 0]
  cases cs with
  | nil => exact absurd rfl hne
  | cons c cs => rfl

theorem natural?_eq_filter : natural? (String.ofList cs) =
    (some (Nat.ofDigitChars 10 cs 0)).filter fun n => n < UInt64.size := by
  unfold natural?
  rw [String.toList_ofList]
  dsimp only
  split
  · exact absurd (h '+' (.head _)) (by decide)
  · rw [digits?_of_digits hne h]

/-- Digits in the range of 64 bits are read as the number that they stand for. -/
theorem natural?_of_digits (hrange : Nat.ofDigitChars 10 cs 0 < UInt64.size) :
    natural? (String.ofList cs) = some (Nat.ofDigitChars 10 cs 0) := by
  rw [natural?_eq_filter hne h, Option.filter_some, decide_eq_true hrange]
  rfl

theorem eq_of_natural? {n : Nat} (hn : natural? (String.ofList cs) = some n) :
    n = Nat.ofDigitChars 10 cs 0 := by
  rw [natural?_eq_filter hne h, Option.filter_some] at hn
  split at hn
  · exact (Option.some.inj hn).symm
  · cases hn

theorem signed?_eq_filter : signed? (String.ofList cs) =
    ((some (Nat.ofDigitChars 10 cs 0 : Int)).filter fun v =>
      Int64.minValue.toInt ≤ v && v ≤ Int64.maxValue.toInt).map Int64.ofInt := by
  unfold signed?
  rw [String.toList_ofList]
  dsimp only
  split
  · exact absurd (h '+' (.head _)) (by decide)
  · exact absurd (h '-' (.head _)) (by decide)
  · rw [digits?_of_digits hne h, Option.map_some]
    rfl

/-- Digits in the range of signed numbers are read as the number that they stand for. -/
theorem signed?_of_digits (hrange : Nat.ofDigitChars 10 cs 0 ≤ Int64.maxValue.toInt) :
    signed? (String.ofList cs) = some (Int64.ofInt (Nat.ofDigitChars 10 cs 0)) := by
  rw [signed?_eq_filter hne h]
  exact filter_range (Int.le_trans (by decide) (Int.natCast_nonneg _)) hrange

/-- Digits out of the range of signed numbers are not read. -/
theorem signed?_of_large (hrange : Int64.maxValue.toInt < Nat.ofDigitChars 10 cs 0) :
    signed? (String.ofList cs) = none := by
  rw [signed?_eq_filter hne h, Option.filter_some, decide_eq_false (Int.not_le.mpr hrange),
    Bool.and_false]
  rfl

/-- Digits stand for no negative number. -/
theorem nonneg_of_signed? {n : Int64} (hn : signed? (String.ofList cs) = some n) : 0 ≤ n := by
  rcases Int.lt_or_le Int64.maxValue.toInt (Nat.ofDigitChars 10 cs 0) with hlarge | hrange
  · rw [signed?_of_large hne h hlarge] at hn
    cases hn
  · rw [signed?_of_digits hne h hrange] at hn
    cases hn
    rw [Int64.le_iff_toInt_le, Int64.toInt_ofInt_of_le (by omega) (Int.lt_add_one_of_le hrange)]
    exact Int.natCast_nonneg _

end

/-! ## The digits of a number -/

theorem isDigit_of_mem_ofNat {n : Nat} {c : Char} (h : c ∈ (ofNat n).toList) :
    Token.isDigit c = true := by
  rw [ofNat, String.toList_ofList] at h
  have hdigit := Nat.isDigit_of_mem_toDigits (by decide) (by decide) h
  simp only [Char.isDigit, Bool.and_eq_true, decide_eq_true_eq] at hdigit
  exact Token.isDigit_iff.mpr hdigit

theorem ofNat_ne_nil (n : Nat) : (ofNat n).toList ≠ [] := by
  rw [ofNat, String.toList_ofList]
  exact Nat.toDigits_ne_nil

/-- The digits of a number stand for it. -/
theorem ofDigitChars_ofNat (n : Nat) : Nat.ofDigitChars 10 (ofNat n).toList 0 = n := by
  rw [ofNat, String.toList_ofList, Nat.ofDigitChars_toDigits (by decide) (by decide)]

theorem digits?_ofNat (n : Nat) : digits? (ofNat n).toList = some n := by
  rw [digits?_of_digits (ofNat_ne_nil n) fun _ => isDigit_of_mem_ofNat, ofDigitChars_ofNat]

/-- The digits of a number are a lexeme. -/
theorem spells_ofNat (n : Nat) : Token.Spells .number (ofNat n).toList :=
  .number (ofNat_ne_nil n) fun _ => isDigit_of_mem_ofNat

/-- Digits in the range of a signed number are read as that number. -/
theorem signed?_ofNat {n : Nat} (h : (n : Int) ≤ Int64.maxValue.toInt) :
    signed? (ofNat n) = some (Int64.ofInt n) := by
  have hread := signed?_of_digits (ofNat_ne_nil n) (fun _ => isDigit_of_mem_ofNat)
    (by rwa [ofDigitChars_ofNat])
  rwa [ofDigitChars_ofNat, String.ofList_toList] at hread

/-- Digits in the range of 64 bits are read as the number they are. -/
theorem natural?_ofNat {n : Nat} (h : n < UInt64.size) : natural? (ofNat n) = some n := by
  have hread := natural?_of_digits (ofNat_ne_nil n) (fun _ => isDigit_of_mem_ofNat)
    (by rwa [ofDigitChars_ofNat])
  rwa [ofDigitChars_ofNat, String.ofList_toList] at hread

theorem signed?_ofInt (n : Int64) : signed? (ofInt n.toInt) = some n := by
  rw [ofInt]
  split
  · next hneg =>
    have hvalue : -(n.toInt.natAbs : Int) = n.toInt := by omega
    have hlist : ("-" ++ ofNat n.toInt.natAbs).toList = '-' :: (ofNat n.toInt.natAbs).toList := by
      simp
    have hread : signed? ("-" ++ ofNat n.toInt.natAbs) =
        (((digits? (ofNat n.toInt.natAbs).toList).map fun m => -Int.ofNat m).filter fun v =>
          Int64.minValue.toInt ≤ v && v ≤ Int64.maxValue.toInt).map Int64.ofInt := by
      unfold signed?
      rw [hlist]
      rfl
    rw [hread, digits?_ofNat, Option.map_some, Int.ofNat_eq_natCast, hvalue,
      filter_range n.minValue_le_toInt n.toInt_le, Int64.ofInt_toInt]
  · next hneg =>
    have hvalue : (n.toInt.natAbs : Int) = n.toInt := by omega
    rw [signed?_ofNat (by rw [hvalue]; exact n.toInt_le), hvalue, Int64.ofInt_toInt]

end ExprLang.Decimal
