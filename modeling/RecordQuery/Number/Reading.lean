import RecordQuery.Number.Rounding
/-! Reading numbers: decimal text with an optional fraction and exponent becomes the nearest double, and decimal
integers become integers of 64 bits. -/

namespace RecordQuery

/-- Neighbouring digits joined to digits of the squared base, the least one first. -/
def joinPairs (base : Nat) : List Nat → List Nat
  | low :: high :: rest => (low + base * high) :: joinPairs base rest
  | digits => digits

/-- The number with these digits in a base, the least one first. Joining pairs before the next round keeps the
products of a long number few. -/
def joinDigits : Nat → Nat → List Nat → Nat
  | rounds + 1, base, low :: high :: rest =>
    joinDigits rounds (base * base) ((low + base * high) :: joinPairs base rest)
  | _, base, digits => digits.foldr (fun digit n => digit + base * n) 0

theorem foldr_joinPairs (base : Nat) (digits : List Nat) :
    (joinPairs base digits).foldr (fun digit n => digit + base * base * n) 0
      = digits.foldr (fun digit n => digit + base * n) 0 := by
  fun_induction joinPairs base digits with
  | case1 low high rest ih =>
    rw [List.foldr_cons, ih]
    simp only [List.foldr_cons, Nat.mul_add, Nat.mul_assoc, Nat.add_assoc]
  | case2 digits single =>
    match digits, single with
    | [], _ => rfl
    | [digit], _ => simp
    | low :: high :: rest, single => exact (single low high rest rfl).elim

theorem joinDigits_eq (rounds base : Nat) (digits : List Nat) :
    joinDigits rounds base digits = digits.foldr (fun digit n => digit + base * n) 0 := by
  fun_induction joinDigits rounds base digits with
  | case1 rounds base low high rest ih => exact ih.trans (foldr_joinPairs _ (low :: high :: rest))
  | case2 => rfl

/-- The number a decimal digit writes. -/
def digitValue (c : Char) : Nat := c.toNat - '0'.toNat

/-- The number a list of decimal digits writes. -/
def digitsValue (digits : List Char) : Nat :=
  joinDigits digits.length 10 (digits.reverse.map digitValue)

theorem digitsValue_eq (digits : List Char) :
    digitsValue digits = digits.foldl (fun n c => 10 * n + digitValue c) 0 := by
  simp only [digitsValue, joinDigits_eq, List.foldr_map, List.foldr_reverse, Nat.add_comm]

/-- A sign, if there is one, and what follows it. -/
def splitSign : List Char → Bool × List Char
  | '-' :: rest => (true, rest)
  | '+' :: rest => (false, rest)
  | rest => (false, rest)

/-- An optional sign and digits. -/
def readInteger? (chars : List Char) : Option Int :=
  let (negative, digits) := splitSign chars
  if digits.isEmpty || !digits.all Char.isDigit then none
  else some (if negative then -(digitsValue digits : Int) else digitsValue digits)

/-- An optional sign and digits that an integer of 64 bits can hold. -/
def readInt64? (text : String) : Option Int64 :=
  match readInteger? text.toList with
  | some i => if Int64.minValue.toInt ≤ i ∧ i ≤ Int64.maxValue.toInt then some (Int64.ofInt i) else none
  | none => none

namespace Double

/-- The double nearest to `digits * 10 ^ exponent`; far outside the range the answer is known without it. -/
def ofDecimal (negative : Bool) (digits : List Char) (exponent : Int) : Double :=
  let digits := digits.dropWhile (· = '0')
  let top := digits.length + exponent
  if digits.isEmpty ∨ top < -400 then ofParts negative 0
  else if 400 < top then ofParts negative infinity.bits.toNat
  else if 0 ≤ exponent then ofRatio negative (digitsValue digits * Nat.pow 10 exponent.toNat) 1
  else ofRatio negative (digitsValue digits) (Nat.pow 10 (-exponent).toNat)

/-- The number an exponent's digits write; from 65536 on the digits that follow are not counted. -/
def exponentValue (digits : List Char) : Nat :=
  digits.foldl (fun n c => if n < 65536 then 10 * n + digitValue c else n) 0

/-- The exponent that follows a number's digits: nothing, or `e` and an integer. -/
def readExponent? : List Char → Option Int
  | [] => some 0
  | c :: rest =>
    let (negative, digits) := splitSign rest
    if (c ≠ 'e' ∧ c ≠ 'E') ∨ digits.isEmpty ∨ !digits.all Char.isDigit then none
    else some (if negative then -(exponentValue digits : Int) else exponentValue digits)

/-- Digits with an optional point among or around them, at least one digit, and an optional exponent. -/
def readDecimal? (negative : Bool) (chars : List Char) : Option Double :=
  let whole := chars.takeWhile Char.isDigit
  let rest := chars.dropWhile Char.isDigit
  let (fraction, rest) := match rest with
    | '.' :: rest => (rest.takeWhile Char.isDigit, rest.dropWhile Char.isDigit)
    | rest => ([], rest)
  if whole.isEmpty && fraction.isEmpty then none
  else (readExponent? rest).map fun exponent =>
    ofDecimal negative (whole ++ fraction) (exponent - fraction.length)

/-- The double a text writes: a decimal number, or a name of infinity or of the missing number in any case. -/
def read? (text : String) : Option Double :=
  let (negative, chars) := splitSign text.toList
  let name := chars.map Char.toLower
  if name = "inf".toList ∨ name = "infinity".toList then some (ofParts negative infinity.bits.toNat)
  else if name = "nan".toList then some nan
  else readDecimal? negative chars

end Double

end RecordQuery
