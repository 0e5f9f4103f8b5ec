import RecordQuery.Number.Arithmetic
/-! Powers of doubles. A power is two to the product of the exponent and the base's logarithm to base two. Logarithm
and product are sums of two doubles, so that the power is good to the last bit or its neighbour; the polynomials and
the order of the operations settle which. -/

namespace RecordQuery.Double

/-- A number as the sum of two doubles; the head keeps only the upper fraction bits. -/
structure Split where
  head : Double
  tail : Double

/-- The double without the lower 32 of its fraction bits. -/
def coarse (x : Double) : Double := ⟨UInt64.ofNat (x.bits.toNat / 1 <<< 32 * 1 <<< 32)⟩

/-- The sum of a greater and a smaller number, its rounding error in the tail. -/
def splitSum (greater smaller : Double) : Split :=
  let head := (greater + smaller).coarse
  ⟨head, smaller - (head - greater)⟩

/-- The polynomial with these coefficients, the constant one first. -/
def polynomial (x : Double) : List Double → Double
  | [] => zero
  | [last] => last
  | coefficient :: rest => coefficient + x * polynomial x rest

/-- The coefficients of the even part of a logarithm, from the square of its argument on. -/
def logCoefficients : List Double :=
  [⟨0x3FE3333333333303⟩, ⟨0x3FDB6DB6DB6FABFF⟩, ⟨0x3FD55555518F264D⟩, ⟨0x3FD17460A91D4101⟩, ⟨0x3FCD864A93C9DB65⟩,
    ⟨0x3FCA7E284A454EEF⟩]

/-- The coefficients of the even part of an exponential. -/
def expCoefficients : List Double :=
  [⟨0x3FC555555555553E⟩, ⟨0xBF66C16C16BEBD93⟩, ⟨0x3F11566AAF25DE2C⟩, ⟨0xBEBBBD41C5D26BF1⟩, ⟨0x3E66376972BEA4D0⟩]

/-- The natural logarithm of two, and its head and tail. -/
def ln2 : Double × Split := (⟨0x3FE62E42FEFA39EF⟩, ⟨⟨0x3FE62E4300000000⟩, ⟨0xBE205C610CA86C39⟩⟩)

/-- The logarithm to base two of Euler's number, and its head and tail. -/
def log2e : Double × Split := (⟨0x3FF71547652B82FE⟩, ⟨⟨0x3FF7154760000000⟩, ⟨0x3E54AE0BF85DDF44⟩⟩)

/-- Two thirds of that, with head and tail. -/
def twoThirdsLog2e : Double × Split := (⟨0x3FEEC709DC3A03FD⟩, ⟨⟨0x3FEEC709E0000000⟩, ⟨0xBE3E2FE0145B01F5⟩⟩)

/-- The logarithm to base two of three halves. -/
def log2OfThreeHalves : Split := ⟨⟨0x3FE2B80340000000⟩, ⟨0x3E4CFDEB43CFD006⟩⟩

/-- The logarithm to base two of a positive finite double. The double is two to a whole power times one near to one
or to three halves, of which the quotient `(a - center) / (a + center)` gives the logarithm. -/
def log2 (x : Double) : Split :=
  let (x, bias) := if x.exponent = 0 then (x * ofInt (1 <<< 53), 1023 + 53) else (x, 1023)
  let halved := 0xBB67A * 1 <<< 32 ≤ x.fraction
  let centered := !halved && 0x3988F * 1 <<< 32 ≤ x.fraction
  let a := ofParts false ((if halved then 1022 else 1023) * 1 <<< 52 + x.fraction)
  let whole := ofInt ((x.exponent : Int) - bias + (if halved then 1 else 0))
  let center := if centered then ofRatio false 3 2 else one
  let known : Split := if centered then log2OfThreeHalves else ⟨zero, zero⟩
  let difference := a - center
  let inverse := one / (a + center)
  let quotient := difference * inverse
  let upper := quotient.coarse
  let sum := (a.coarse + center).coarse
  let lower := inverse * ((difference - upper * sum) - upper * (a - (sum - center)))
  let square := quotient * quotient
  let rest := square * square * polynomial square logCoefficients + lower * (upper + quotient)
  let three := ofInt 3
  let series := (three + upper * upper + rest).coarse
  let seriesTail := rest - ((series - three) - upper * upper)
  let log := splitSum (upper * series) (lower * series + seriesTail * quotient)
  let (factor, parts) := twoThirdsLog2e
  let main := parts.head * log.head
  let correction := parts.tail * log.head + log.tail * factor + known.tail
  let head := (main + correction + known.head + whole).coarse
  ⟨head, correction - (((head - whole) - known.head) - main)⟩

/-- The logarithm to base two of a double so near to one that four terms of its series are enough. -/
def log2NearOne (x : Double) : Split :=
  let t := x - one
  let half := ofRatio false 1 2
  let w := t * t * (half - t * (ofRatio false 1 3 - t * ofRatio false 1 4))
  let (factor, parts) := log2e
  splitSum (parts.head * t) (t * parts.tail - w * factor)

/-- The nearest whole number, a half away from zero, but zero for a half itself. -/
def nearestWhole (x : Double) : Int :=
  let size := if 2 * x.magnitude ≤ unitsPerOne then 0 else (2 * x.magnitude + unitsPerOne) / (2 * unitsPerOne)
  if x.negative then -(size : Int) else size

/-- A positive finite double times a power of two, rounded once. -/
def scale (negative : Bool) (x : Double) (power : Int) : Double :=
  if 0 ≤ power then ofRatio negative (x.magnitude <<< power.toNat) unitsPerOne
  else ofRatio negative x.magnitude (unitsPerOne <<< (-power).toNat)

/-- Two to the power of `main + correction`, whose sum is `z`, with the given sign; the caller has seen to it that
the power is in range. -/
def exp2 (negative : Bool) (main correction z : Double) : Double :=
  let whole := nearestWhole z.coarse
  let main := main - ofInt whole
  let head := (correction + main).coarse
  let (factor, parts) := ln2
  let u := head * parts.head
  let v := (correction - (head - main)) * factor + head * parts.tail
  let z := u + v
  let w := v - (z - u)
  let square := z * z
  let odd := z - square * polynomial square expCoefficients
  let r := z * odd / (odd - ofInt 2) - (w + z * w)
  scale negative (one - (r - z)) whole

/-- Whether a double is less than another one. -/
def less (x y : Double) : Bool := x.exact.compare y.exact == .lt

/-- What is left below 1024 of the exponents whose power of two does not round to infinity. -/
def overflowMargin : Double := ⟨0x3C971547652B82FE⟩

/-- Two to the power of `y` times a logarithm, with the given sign; infinite or zero out of range. -/
def exp2Product (negative : Bool) (log : Split) (y : Double) : Double :=
  let main := y.coarse * log.head
  let correction := (y - y.coarse) * log.head + y * log.tail
  let z := correction + main
  let high := ofInt 1024
  let low := ofInt (-1075)
  if less high z || z = high && less (z - main) (correction + overflowMargin) then
    ofParts negative infinity.bits.toNat
  else if less z low || z = low && !less (z - main) correction then ofParts negative 0
  else exp2 negative main correction z

/-- A power of a positive finite double other than one, with the given sign. A great exponent takes all bases but
those very near to one out of range. -/
def positivePow (negative : Bool) (x y : Double) : Double :=
  let outOfRange (grows : Bool) : Double := ofParts negative (if grows then infinity.bits.toNat else 0)
  if y.magnitude < (1 <<< 31 + 1 <<< 11) * unitsPerOne then exp2Product negative x.log2 y
  else if (1 <<< 64 + 1 <<< 44) * unitsPerOne ≤ y.magnitude then outOfRange (less one x != y.negative)
  else if x.magnitude < unitsPerOne - 1 <<< 1053 then outOfRange y.negative
  else if unitsPerOne + 1 <<< 1054 ≤ x.magnitude then outOfRange !y.negative
  else exp2Product negative x.log2NearOne y

/-- A power of zero, of one or of an infinity without its sign. -/
def edgePow (x y : Double) : Double := if y.negative then one / x.abs else x.abs

/-- A power whose exponent is infinite. -/
def infinitePow (x y : Double) : Double :=
  if x.abs = one then one else if less one x.abs != y.negative then infinity else zero

/-- `x` to the power of `y`. Anything to the power of zero and one to any power are one; a negative number has only
whole powers. -/
def pow (x y : Double) : Double :=
  let whole := y.integer?
  let odd := whole.any (· % 2 != 0)
  let edge := x.isZero || !x.isFinite || x.abs = one
  if y.isZero || x = one then one
  else if x.isNaN || y.isNaN then nan
  else if !y.isFinite then infinitePow x y
  else if y = one then x
  else if y = neg one then one / x
  else if y = ofInt 2 then x * x
  else if y = ofRatio false 1 2 && !x.negative then x.sqrt
  else if x.negative && x.isFinite && !x.isZero && whole.isNone then nan
  else if edge then (if x.negative && odd then neg (edgePow x y) else edgePow x y)
  else positivePow (x.negative && odd) x.abs y

end RecordQuery.Double
