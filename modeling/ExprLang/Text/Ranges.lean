/-!
Sets of characters as lists of ranges, the form in which the tables of a standard come.
-/

namespace ExprLang

/-- Closed ranges of characters' numbers. -/
abbrev Ranges := List (Nat × Nat)

namespace Ranges

/-- Whether a character is in one of the ranges. -/
def holds (rs : Ranges) (c : Char) : Bool :=
  rs.any fun (first, last) => first ≤ c.toNat && c.toNat ≤ last

/-- No range is empty, and each ends before the number in front of the next one: the shortest list
for its set. -/
def ascending : Ranges → Bool
  | [] => true
  | [r] => r.1 ≤ r.2
  | r :: s :: rs => r.1 ≤ r.2 && r.2 + 1 < s.1 && ascending (s :: rs)

/-- How many numbers ascending ranges hold. -/
def count : Ranges → Nat
  | [] => 0
  | (first, last) :: rs => last + 1 - first + count rs

end Ranges
end ExprLang
