/-!
Reading bytes as UTF-8, with the place and the length of the first part that is
none.
-/

namespace ExprLang.Utf8

/-- Why bytes are no text. -/
inductive Fault where
  /-- At `index`, `length` bytes start like a character and go on wrongly. -/
  | invalid (length index : Nat)
  /-- The text ends inside the character that starts at `index`. -/
  | incomplete (index : Nat)
  deriving DecidableEq, Repr

def Fault.message : Fault → String
  | .invalid length index =>
      "invalid utf-8 sequence of " ++ toString length ++ " bytes from index " ++ toString index
  | .incomplete index => "incomplete utf-8 byte sequence from index " ++ toString index

/-- What the first byte of a character tells. -/
structure Lead where
  /-- How many bytes follow. -/
  tails : Nat
  /-- The least and the greatest byte that may follow it directly. -/
  low : Nat
  high : Nat
  /-- Its part of the character's number. -/
  bits : Nat

/-- The bytes that may start a character. The bounds for the second byte leave out
longer forms than needed, surrogates and numbers above the last character. -/
def lead? (b : Nat) : Option Lead :=
  if b < 0x80 then some ⟨0, 0, 0, b⟩
  else if b < 0xC2 then none
  else if b < 0xE0 then some ⟨1, 0x80, 0xBF, b - 0xC0⟩
  else if b = 0xE0 then some ⟨2, 0xA0, 0xBF, 0⟩
  else if b = 0xED then some ⟨2, 0x80, 0x9F, 13⟩
  else if b < 0xF0 then some ⟨2, 0x80, 0xBF, b - 0xE0⟩
  else if b = 0xF0 then some ⟨3, 0x90, 0xBF, 0⟩
  else if b < 0xF4 then some ⟨3, 0x80, 0xBF, b - 0xF0⟩
  else if b = 0xF4 then some ⟨3, 0x80, 0x8F, 4⟩
  else none

/-- Reads the `tails` further bytes of the character at `index`, of which `length`
bytes are read already. -/
def tailBits (index length : Nat) (tails low high value : Nat) (bytes : List UInt8) :
    Except Fault Nat :=
  match tails, bytes with
  | 0, _ => .ok value
  | _ + 1, [] => .error (.incomplete index)
  | tails + 1, b :: bytes =>
    if low ≤ b.toNat && b.toNat ≤ high then
      tailBits index (length + 1) tails 0x80 0xBF (64 * value + (b.toNat - 0x80)) bytes
    else .error (.invalid length index)

/-- Reads the bytes from `index` on, behind characters already `seen` (the last one
first). -/
def decodeFrom (index : Nat) (seen : List Char) (bytes : List UInt8) : Except Fault String :=
  match bytes with
  | [] => .ok (String.ofList seen.reverse)
  | b :: rest =>
    match lead? b.toNat with
    | none => .error (.invalid 1 index)
    | some l =>
      match tailBits index 1 l.tails l.low l.high l.bits rest with
      | .error f => .error f
      | .ok n => decodeFrom (index + 1 + l.tails) (Char.ofNat n :: seen) (rest.drop l.tails)
termination_by bytes.length
decreasing_by simp only [List.length_drop, List.length_cons]; omega

/-- The text that bytes stand for. -/
def decode (bytes : List UInt8) : Except Fault String := decodeFrom 0 [] bytes

end ExprLang.Utf8
