import RecordQuery.Number.Double
/-! The text of a double: the fewest decimal digits that read back as the same double, the nearest of those to
it, written without an exponent. -/

namespace RecordQuery.Double

/-- The numbers that round to a finite double, as multiples of `2 ^ scale`, with the double itself. -/
structure Interval where
  low : Nat
  value : Nat
  high : Nat
  closed : Bool
  scale : Int

/-- The neighbourhood of a finite double that rounds to it, its ends included for an even fraction. -/
def interval (x : Double) : Interval :=
  let whole := if x.exponent = 0 then x.fraction else 1 <<< 52 + x.fraction
  { low := 4 * whole - (if x.fraction = 0 ∧ 1 < x.exponent then 1 else 2)
    value := 4 * whole
    high := 4 * whole + 2
    closed := x.fraction % 2 == 0
    scale := ((x.exponent - 1 : Nat) : Int) - 1076 }

/-- A decimal number `digits * 10 ^ place`. -/
structure Decimal where
  digits : Nat
  place : Int

/-- The multiple of ten to `place` nearest to the value, if one lies in the interval; of two equally near the
greater. -/
def Interval.pick? (i : Interval) (place : Int) : Option Decimal :=
  let up := Nat.pow 10 (-place).toNat <<< i.scale.toNat
  let step := Nat.pow 10 place.toNat <<< (-i.scale).toNat
  let inside (n : Nat) : Bool :=
    if i.closed then i.low * up ≤ n * step && n * step ≤ i.high * up
    else i.low * up < n * step && n * step < i.high * up
  let n := i.value * up / step
  let nearBelow := i.value * up - n * step < (n + 1) * step - i.value * up
  if inside n && (nearBelow || !inside (n + 1)) then some ⟨n, place⟩
  else if inside (n + 1) then some ⟨n + 1, place⟩
  else none

/-- The first hit at `place` or one of the `steps` places below it. -/
def Interval.search (i : Interval) (place : Int) : Nat → Decimal
  | 0 => ⟨0, 0⟩
  | steps + 1 => (i.pick? place).getD (i.search (place - 1) steps)

/-- The shortest decimal that reads back as this positive finite double. -/
def shortest (x : Double) : Decimal :=
  let i := x.interval
  let top := ((i.value.log2 : Int) + i.scale + 1) * 30103 / 100000 + 1
  i.search top 24

/-- Digits without an exponent: zeros up to the point, or a point inside or before the digits. -/
def Decimal.text (d : Decimal) : String :=
  if 0 ≤ d.place then toString (d.digits * Nat.pow 10 d.place.toNat)
  else
    let places := (-d.place).toNat
    let digits := Nat.toDigits 10 d.digits
    let padded := List.replicate (places + 1 - digits.length) '0' ++ digits
    let whole := padded.length - places
    String.ofList (padded.take whole ++ '.' :: padded.drop whole)

/-- The text of a double; the sign of zero shows, that of a missing number does not. -/
def text (x : Double) : String :=
  if x.isNaN then "NaN"
  else
    let sign := if x.negative then "-" else ""
    if !x.isFinite then sign ++ "inf"
    else if x.magnitude = 0 then sign ++ "0"
    else sign ++ x.shortest.text

end RecordQuery.Double
