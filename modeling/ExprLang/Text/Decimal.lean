/-!
Whole numbers in decimal: writing them, and reading runs of digits within the
range of a machine word.
-/

namespace ExprLang.Decimal

/-- The digits of a number, without leading zeros. -/
def ofNat (n : Nat) : String := String.ofList (Nat.toDigits 10 n)

/-- A number with its minus sign, if it is negative. -/
def ofInt (n : Int) : String := if n < 0 then "-" ++ ofNat n.natAbs else ofNat n.natAbs

/-- The value of a digit. -/
def digit? (c : Char) : Option Nat :=
  if '0' ≤ c && c ≤ '9' then some (c.toNat - '0'.toNat) else none

/-- Reads digits behind a number already read. -/
def extend? (n : Nat) : List Char → Option Nat
  | [] => some n
  | c :: cs => (digit? c).bind fun d => extend? (10 * n + d) cs

/-- Reads one digit or more, of any length and with any leading zeros. -/
def digits? : List Char → Option Nat
  | [] => none
  | cs => extend? 0 cs

/-- Reads digits, behind a plus sign or not, as a natural number of 64 bits. -/
def natural? (s : String) : Option Nat :=
  let value :=
    match s.toList with
    | '+' :: cs => digits? cs
    | cs => digits? cs
  value.filter fun n => n < UInt64.size

/-- Reads digits, behind a sign or not, as a signed number of 64 bits. -/
def signed? (s : String) : Option Int64 :=
  let value : Option Int :=
    match s.toList with
    | '+' :: cs => (digits? cs).map Int.ofNat
    | '-' :: cs => (digits? cs).map fun n => -Int.ofNat n
    | cs => (digits? cs).map Int.ofNat
  (value.filter fun v => Int64.minValue.toInt ≤ v && v ≤ Int64.maxValue.toInt).map Int64.ofInt

end ExprLang.Decimal
