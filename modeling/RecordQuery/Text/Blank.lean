/-! Blank characters, those with the Unicode property White_Space, and text without the blanks around it. -/

namespace RecordQuery

/-- Whether a character has the Unicode property White_Space. -/
def isBlank (c : Char) : Bool :=
  let n := c.toNat
  (9 ≤ n && n ≤ 13) || n == 0x20 || n == 0x85 || n == 0xA0 || n == 0x1680 || (0x2000 ≤ n && n ≤ 0x200A)
    || n == 0x2028 || n == 0x2029 || n == 0x202F || n == 0x205F || n == 0x3000

/-- The characters without the blanks before the first and after the last other one. -/
def trimBlanks (chars : List Char) : List Char :=
  ((chars.dropWhile isBlank).reverse.dropWhile isBlank).reverse

/-- The text without the blanks around it. -/
def trim (text : String) : String := String.ofList (trimBlanks text.toList)

end RecordQuery
