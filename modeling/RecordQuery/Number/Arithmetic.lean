import RecordQuery.Number.Rounding
/-! Arithmetic on doubles: sums, products, quotients and roots as binary64 has them, exact remainders, and
rounding to whole numbers. -/

namespace RecordQuery.Double

def toFloat (x : Double) : Float := Float.ofBits x.bits

def ofFloat (x : Float) : Double := ⟨x.toBits⟩

def add (x y : Double) : Double := ofFloat (x.toFloat + y.toFloat)

def sub (x y : Double) : Double := ofFloat (x.toFloat - y.toFloat)

def mul (x y : Double) : Double := ofFloat (x.toFloat * y.toFloat)

def div (x y : Double) : Double := ofFloat (x.toFloat / y.toFloat)

def sqrt (x : Double) : Double := ofFloat x.toFloat.sqrt

instance : Add Double := ⟨add⟩

instance : Sub Double := ⟨sub⟩

instance : Mul Double := ⟨mul⟩

instance : Div Double := ⟨div⟩

instance : Neg Double := ⟨neg⟩

/-- What is left of `x` after taking away `y` as often as it fits, with the sign of `x`. -/
def remainder (x y : Double) : Double :=
  match x.exact, y.exact with
  | .finite u, .finite v => if v = 0 then nan else ofUnits x.negative (u.natAbs % v.natAbs)
  | .finite _, .infinite _ => x
  | _, _ => nan

/-- The sum of a list, from left to right; the sum of no numbers is negative zero. -/
def sum (xs : List Double) : Double := xs.foldl add (ofParts true 0)

/-- A finite double with its magnitude, in units, replaced by a whole number; any other is kept. -/
def mapWhole (f : Nat → Nat) (x : Double) : Double :=
  if x.isFinite then ofBinary x.negative (f x.magnitude) 1074 else x

/-- The greatest whole number that is not greater. -/
def floor (x : Double) : Double :=
  x.mapWhole fun m => if x.negative then (m + unitsPerOne - 1) / unitsPerOne else m / unitsPerOne

/-- The least whole number that is not less. -/
def ceil (x : Double) : Double :=
  x.mapWhole fun m => if x.negative then m / unitsPerOne else (m + unitsPerOne - 1) / unitsPerOne

/-- The nearest whole number, a half away from zero. -/
def round (x : Double) : Double :=
  x.mapWhole fun m => (2 * m + unitsPerOne) / (2 * unitsPerOne)

end RecordQuery.Double
