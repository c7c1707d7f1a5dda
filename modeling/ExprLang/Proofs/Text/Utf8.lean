import Mathlib.Tactic.SplitIfs
import ExprLang.Text.Utf8

/-!
Reading back what was encoded. The first byte of a character tells how many follow, each of them
adds six bits to its number, and the bounds for the second one hold for all characters.

* `exists_lead_two`, `exists_lead_three`, `exists_lead_four`: the first bytes of the longer forms;
* `decodeFrom_encoded`: one character;
* `decode_bytes`: a whole text.
-/

namespace ExprLang.Utf8

/-- The bytes of a text. -/
def bytes (source : String) : List UInt8 := source.toUTF8.data.toList

/-! ## The first byte -/

/-- What a first byte tells agrees with the number of bytes that follow, its part of the number
and the second byte. -/
structure Lead.Fits (l : Lead) (tails bits second : Nat) : Prop where
  tails_eq : l.tails = tails
  bits_eq : l.bits = bits
  low_le : l.low ≤ second
  le_high : second ≤ l.high

theorem exists_lead_two {v : Nat} (hlow : 0x7F < v) (hhigh : v ≤ 0x7FF) :
    ∃ l, lead? (v / 64 % 32 + 0xC0) = some l ∧ l.Fits 1 (v / 64) (v % 64 + 0x80) := by
  unfold lead?
  split_ifs <;> first | omega | refine ⟨_, rfl, rfl, ?_, ?_, ?_⟩ <;> dsimp only <;> omega

/-- The numbers of three bytes leave out the surrogates, which are no characters. -/
theorem exists_lead_three {v : Nat} (hlow : 0x7FF < v) (hhigh : v ≤ 0xFFFF)
    (hchar : v < 0xD800 ∨ 0xDFFF < v) :
    ∃ l, lead? (v / 4096 % 16 + 0xE0) = some l ∧
      l.Fits 2 (v / 4096) (v / 64 % 64 + 0x80) := by
  unfold lead?
  split_ifs <;> first | omega | refine ⟨_, rfl, rfl, ?_, ?_, ?_⟩ <;> dsimp only <;> omega

theorem exists_lead_four {v : Nat} (hlow : 0xFFFF < v) (hhigh : v ≤ 0x10FFFF) :
    ∃ l, lead? (v / 262144 % 8 + 0xF0) = some l ∧
      l.Fits 3 (v / 262144) (v / 4096 % 64 + 0x80) := by
  unfold lead?
  split_ifs <;> first | omega | refine ⟨_, rfl, rfl, ?_, ?_, ?_⟩ <;> dsimp only <;> omega

/-! ## The bytes that follow -/

/-- A byte that follows holds the last six bits of `v`. -/
theorem tailBits_cons {index length tails low high value v : Nat} {rest : List UInt8}
    (hlow : low ≤ v % 64 + 0x80) (hhigh : v % 64 + 0x80 ≤ high) (hvalue : value = v / 64) :
    tailBits index length (tails + 1) low high value (UInt8.ofNat (v % 64 + 0x80) :: rest) =
      tailBits index (length + 1) tails 0x80 0xBF v rest := by
  have hbyte : (UInt8.ofNat (v % 64 + 0x80)).toNat = v % 64 + 0x80 := by
    rw [UInt8.toNat_ofNat']
    omega
  have hsum : 64 * value + (v % 64 + 0x80 - 0x80) = v := by omega
  rw [tailBits, hbyte, if_pos (by simp [hlow, hhigh]), hsum]

/-- Further bytes have the same bounds always. -/
theorem tailBits_next {index length tails v : Nat} {rest : List UInt8} :
    tailBits index length (tails + 1) 0x80 0xBF (v / 64) (UInt8.ofNat (v % 64 + 0x80) :: rest) =
      tailBits index (length + 1) tails 0x80 0xBF v rest :=
  tailBits_cons (by omega) (by omega) rfl

/-! ## Characters and texts -/

section Characters

variable {index : Nat} {seen : List Char} {c : Char} {rest : List UInt8}

/-- A character of several bytes: the first two are read, and the others give its number. -/
theorem decodeFrom_longer {first tails bits u : Nat} {more : List UInt8}
    (hlead : ∃ l, lead? first = some l ∧ l.Fits (tails + 1) bits (u % 64 + 0x80))
    (hfirst : first < 256) (hbits : bits = u / 64) (hmore : more.length = tails)
    (htail : tailBits index 2 tails 0x80 0xBF u (more ++ rest) = .ok c.toNat) :
    decodeFrom index seen
        (UInt8.ofNat first :: UInt8.ofNat (u % 64 + 0x80) :: more ++ rest) =
      decodeFrom (index + 1 + (tails + 1)) (c :: seen) rest := by
  obtain ⟨l, hlead, hfits⟩ := hlead
  have hbyte : (UInt8.ofNat first).toNat = first := by
    rw [UInt8.toNat_ofNat']
    exact Nat.mod_eq_of_lt hfirst
  have hnumber : tailBits index 1 (tails + 1) l.low l.high bits
      (UInt8.ofNat (u % 64 + 0x80) :: more ++ rest) = .ok c.toNat := by
    rw [List.cons_append, tailBits_cons hfits.low_le hfits.le_high hbits, htail]
  have hdrop : (UInt8.ofNat (u % 64 + 0x80) :: more ++ rest).drop (tails + 1) = rest := by
    simp [← hmore]
  rw [List.cons_append, decodeFrom]
  simp only [hbyte, hlead, hfits.tails_eq, hfits.bits_eq, hnumber, hdrop, Char.ofNat_toNat]

theorem decodeFrom_ascii (h : c.toNat ≤ 0x7F) :
    decodeFrom index seen (UInt8.ofNat c.toNat :: rest) =
      decodeFrom (index + 1) (c :: seen) rest := by
  have hbyte : (UInt8.ofNat c.toNat).toNat = c.toNat := by
    rw [UInt8.toNat_ofNat']
    omega
  have hlead : lead? c.toNat = some ⟨0, 0, 0, c.toNat⟩ := if_pos (by omega)
  rw [decodeFrom]
  simp only [hbyte, hlead, tailBits, List.drop_zero, Nat.add_zero, Char.ofNat_toNat]

/-- A character is read back, whatever follows it. -/
theorem decodeFrom_encoded :
    decodeFrom index seen (String.utf8EncodeChar c ++ rest) =
      decodeFrom (index + (String.utf8EncodeChar c).length) (c :: seen) rest := by
  have hchar : c.toNat < 0xD800 ∨ 0xDFFF < c.toNat ∧ c.toNat < 0x110000 := c.valid
  have hval : c.val.toNat = c.toNat := rfl
  simp only [String.utf8EncodeChar, hval]
  split_ifs with hone htwo hthree
  · exact decodeFrom_ascii hone
  · refine decodeFrom_longer (exists_lead_two (by omega) htwo) (by omega) rfl rfl ?_
    rw [List.nil_append, tailBits]
  · refine decodeFrom_longer (exists_lead_three (by omega) hthree (by omega)) (by omega)
      (by omega) rfl ?_
    rw [List.singleton_append, tailBits_next, tailBits]
  · refine decodeFrom_longer (exists_lead_four (by omega) (by omega)) (by omega) (by omega) rfl ?_
    have hsplit : c.toNat / 4096 = c.toNat / 64 / 64 := by omega
    rw [hsplit, List.cons_append, tailBits_next, List.singleton_append, tailBits_next, tailBits]

end Characters

theorem bytes_ofList_cons (c : Char) (cs : List Char) :
    bytes (String.ofList (c :: cs)) = String.utf8EncodeChar c ++ bytes (String.ofList cs) := by
  simp [bytes, List.utf8Encode]

theorem decodeFrom_bytes (index : Nat) (seen cs : List Char) :
    decodeFrom index seen (bytes (String.ofList cs)) = .ok (String.ofList (seen.reverse ++ cs)) := by
  induction cs generalizing index seen with
  | nil =>
    have hbytes : bytes (String.ofList []) = [] := rfl
    rw [hbytes, decodeFrom, List.append_nil]
  | cons c cs ih =>
    rw [bytes_ofList_cons, decodeFrom_encoded, ih, List.reverse_cons, List.append_assoc,
      List.singleton_append]

/-- Every text is read back from its bytes. -/
theorem decode_bytes (source : String) : decode (bytes source) = .ok source := by
  have h := decodeFrom_bytes 0 [] source.toList
  rw [String.ofList_toList, List.reverse_nil, List.nil_append, String.ofList_toList] at h
  exact h

end ExprLang.Utf8
