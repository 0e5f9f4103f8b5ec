import RecordQuery.Text.LetterTable
/-! Letters and numerals of any script. -/

namespace RecordQuery

/-- Whether one of the ranges, which ascend, holds the code point of a character. -/
def inRanges : List (Nat × Nat) → Char → Bool
  | [], _ => false
  | (first, last) :: rest, c => first ≤ c.toNat && (c.toNat ≤ last || inRanges rest c)

/-- Whether a character is alphabetic or numeric in Unicode's sense. -/
def isAlphanumeric (c : Char) : Bool :=
  if c.toNat < 0x80 then c.isAlphanum else inRanges alphanumericRanges c

end RecordQuery
