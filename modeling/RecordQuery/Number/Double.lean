/-! A double is the 64 bits of a binary64 number. Each finite one is a whole number of units of 2⁻¹⁰⁷⁴, the
smallest positive double, so doubles and integers compare as integers, without rounding. -/

namespace RecordQuery

/-- A binary64 number, held as its bits: sign, eleven exponent bits, 52 fraction bits. -/
structure Double where
  bits : UInt64
deriving DecidableEq, Inhabited

namespace Double

/-- Whether the sign bit is set. -/
def negative (x : Double) : Bool := decide (1 <<< 63 ≤ x.bits.toNat)

/-- The eleven exponent bits. -/
def exponent (x : Double) : Nat := x.bits.toNat / 1 <<< 52 % 1 <<< 11

/-- The 52 fraction bits. -/
def fraction (x : Double) : Nat := x.bits.toNat % 1 <<< 52

def isNaN (x : Double) : Bool := x.exponent == 2047 && x.fraction != 0

def isFinite (x : Double) : Bool := x.exponent != 2047

/-- How many units of 2⁻¹⁰⁷⁴ make up one. -/
def unitsPerOne : Nat := 1 <<< 1074

theorem unitsPerOne_pos : 0 < unitsPerOne := by
  rw [unitsPerOne, Nat.one_shiftLeft]
  exact Nat.two_pow_pos 1074

/-- The absolute value of a finite double, in units. -/
def magnitude (x : Double) : Nat :=
  if x.exponent = 0 then x.fraction else (1 <<< 52 + x.fraction) <<< (x.exponent - 1)

/-- The double with this sign whose remaining bits are the low 63 bits of `rest`. -/
def ofParts (negative : Bool) (rest : Nat) : Double :=
  ⟨UInt64.ofNat ((if negative then 1 <<< 63 else 0) + rest % 1 <<< 63)⟩

def zero : Double := ofParts false 0

def one : Double := ofParts false (1023 * 1 <<< 52)

def infinity : Double := ofParts false (2047 * 1 <<< 52)

def nan : Double := ofParts false (2047 * 1 <<< 52 + 1 <<< 51)

/-- The same magnitude with the other sign. -/
def neg (x : Double) : Double := ofParts (!x.negative) x.bits.toNat

def abs (x : Double) : Double := ofParts false x.bits.toNat

end Double

/-- The exact value a number denotes, a finite one in units of 2⁻¹⁰⁷⁴. -/
inductive Exact where
  | infinite (negative : Bool)
  | finite (units : Int)
  | nan
deriving DecidableEq

namespace Exact

/-- The place of a kind of value in the order: below all finite ones, among them, above them, and last. -/
def rank : Exact → Nat
  | infinite true => 0
  | finite _ => 1
  | infinite false => 2
  | nan => 3

/-- The order of the denoted values, infinities outside the finite ones and the missing number last. -/
def compare : Exact → Exact → Ordering
  | finite a, finite b => Ord.compare a b
  | a, b => Ord.compare a.rank b.rank

theorem compare_swap (a b : Exact) : b.compare a = (a.compare b).swap := by
  rcases a with ⟨_ | _⟩ | units | _ <;> rcases b with ⟨_ | _⟩ | units' | _ <;> try rfl
  exact (Int.compare_swap ..).symm

def ofInt (i : Int) : Exact := finite (i * Double.unitsPerOne)

theorem ofInt_inj {i j : Int} (same : ofInt i = ofInt j) : i = j := by
  have positive : (0 : Int) < (Double.unitsPerOne : Nat) := Int.natCast_pos.mpr Double.unitsPerOne_pos
  unfold ofInt at same
  generalize ((Double.unitsPerOne : Nat) : Int) = unit at *
  exact Int.eq_of_mul_eq_mul_right (Int.ne_of_gt positive) (finite.inj same)

/-- Integers are in the order of the values they denote. -/
theorem compare_ofInt (i j : Int) : (ofInt i).compare (ofInt j) = Ord.compare i j := by
  have positive : (0 : Int) < (Double.unitsPerOne : Nat) := Int.natCast_pos.mpr Double.unitsPerOne_pos
  unfold ofInt
  generalize ((Double.unitsPerOne : Nat) : Int) = unit at *
  have less : i * unit < j * unit ↔ i < j := Int.mul_lt_mul_right positive
  have same : i * unit = j * unit ↔ i = j :=
    ⟨Int.eq_of_mul_eq_mul_right (Int.ne_of_gt positive), congrArg (· * _)⟩
  simp only [compare, Ord.compare, compareOfLessAndEq, less, same]

end Exact

namespace Double

/-- The signed number of units of a finite double. -/
def units (x : Double) : Int := if x.negative then -(x.magnitude : Int) else x.magnitude

theorem natAbs_units (x : Double) : x.units.natAbs = x.magnitude := by
  unfold units
  split <;> simp

/-- Sign, exponent and fraction are all there is to a double. -/
theorem bits_eq {x y : Double} (sign : x.negative = y.negative) (exponent : x.exponent = y.exponent)
    (fraction : x.fraction = y.fraction) : x.bits = y.bits := by
  apply UInt64.toNat_inj.mp
  have hx := x.bits.toNat_lt
  have hy := y.bits.toNat_lt
  simp only [negative, decide_eq_decide] at sign
  simp only [Double.exponent, Nat.reduceShiftLeft] at exponent
  simp only [Double.fraction, Nat.reduceShiftLeft] at fraction
  omega

/-- The magnitudes of an exponent lie below those of the next. -/
private theorem magnitude_step {m n p : Nat} (q : Nat) (small : p < 1 <<< 52) (less : m < n) (one : 1 ≤ m) :
    (1 <<< 52 + p) <<< (m - 1) < (1 <<< 52 + q) <<< (n - 1) := by
  have step : 2 * 2 ^ (m - 1) ≤ 2 ^ (n - 1) := by
    rw [← Nat.pow_succ']
    exact Nat.pow_le_pow_right (by decide) (by omega)
  rw [Nat.shiftLeft_eq (1 <<< 52 + p), Nat.shiftLeft_eq (1 <<< 52 + q)]
  calc (1 <<< 52 + p) * 2 ^ (m - 1) < (1 <<< 52 * 2) * 2 ^ (m - 1) :=
        Nat.mul_lt_mul_of_pos_right (by omega) (Nat.two_pow_pos _)
    _ = 1 <<< 52 * (2 * 2 ^ (m - 1)) := Nat.mul_assoc ..
    _ ≤ 1 <<< 52 * 2 ^ (n - 1) := Nat.mul_le_mul_left _ step
    _ ≤ (1 <<< 52 + q) * 2 ^ (n - 1) := Nat.mul_le_mul_right _ (by omega)

/-- Exponent and fraction as one number. -/
def lowBits (x : Double) : Nat := x.exponent * 1 <<< 52 + x.fraction

/-- Magnitudes are in the order of exponents, then of fractions. -/
theorem magnitude_lt_magnitude {x y : Double} (less : x.lowBits < y.lowBits) : x.magnitude < y.magnitude := by
  unfold lowBits at less
  have fx : x.fraction < 1 <<< 52 := Nat.mod_lt _ (by decide)
  have fy : y.fraction < 1 <<< 52 := Nat.mod_lt _ (by decide)
  unfold magnitude
  generalize x.exponent = e at *
  generalize y.exponent = d at *
  generalize x.fraction = f at *
  generalize y.fraction = g at *
  have above (n q : Nat) : 1 <<< 52 ≤ (1 <<< 52 + q) <<< (n - 1) := by
    rw [Nat.shiftLeft_eq (1 <<< 52 + q)]
    exact Nat.le_trans (by omega) (Nat.le_mul_of_pos_right _ (Nat.two_pow_pos _))
  split <;> split
  · omega
  · have := above d g
    omega
  · omega
  · rcases Nat.lt_or_eq_of_le (show e ≤ d by omega) with lower | equal
    · exact magnitude_step g fx lower (by omega)
    · subst equal
      rw [Nat.shiftLeft_eq (1 <<< 52 + f), Nat.shiftLeft_eq (1 <<< 52 + g)]
      exact Nat.mul_lt_mul_of_pos_right (by omega) (Nat.two_pow_pos _)

theorem lowBits_inj {x y : Double} (same : x.lowBits = y.lowBits) :
    x.exponent = y.exponent ∧ x.fraction = y.fraction := by
  have fx : x.fraction < 1 <<< 52 := Nat.mod_lt _ (by decide)
  have fy : y.fraction < 1 <<< 52 := Nat.mod_lt _ (by decide)
  unfold lowBits at same
  omega

theorem magnitude_inj {x y : Double} (same : x.magnitude = y.magnitude) :
    x.exponent = y.exponent ∧ x.fraction = y.fraction := by
  rcases Nat.lt_trichotomy x.lowBits y.lowBits with less | equal | more
  · exact absurd same (Nat.ne_of_lt (magnitude_lt_magnitude less))
  · exact lowBits_inj equal
  · exact absurd same (Nat.ne_of_gt (magnitude_lt_magnitude more))

theorem magnitude_lt_iff {x y : Double} : x.magnitude < y.magnitude ↔ x.lowBits < y.lowBits := by
  refine ⟨fun less => ?_, magnitude_lt_magnitude⟩
  rcases Nat.lt_trichotomy x.lowBits y.lowBits with lower | equal | more
  · exact lower
  · obtain ⟨exponent, fraction⟩ := lowBits_inj equal
    exact absurd less (by simp [magnitude, exponent, fraction])
  · exact absurd less (Nat.lt_asymm (magnitude_lt_magnitude more))

theorem magnitude_pos_iff {x : Double} : 0 < x.magnitude ↔ 0 < x.lowBits := by
  have iff := @magnitude_lt_iff zero x
  rwa [show zero.magnitude = 0 by decide, show zero.lowBits = 0 by decide] at iff

/-- A finite double other than zero is known by its units. -/
theorem bits_eq_of_units {x y : Double} (same : x.units = y.units) (nonzero : x.units ≠ 0) : x.bits = y.bits := by
  have parts : x.negative = y.negative ∧ x.magnitude = y.magnitude := by
    unfold units at same nonzero
    cases sx : x.negative <;> cases sy : y.negative <;>
      simp only [sx, sy, if_true, Bool.false_eq_true, if_false] at * <;> constructor <;> first | rfl | omega
  obtain ⟨exponent, fraction⟩ := magnitude_inj parts.2
  exact bits_eq parts.1 exponent fraction

def exact (x : Double) : Exact :=
  if x.isFinite then .finite x.units else if x.isNaN then .nan else .infinite x.negative

/-- The integer a double denotes, if it denotes one. -/
def integer? (x : Double) : Option Int :=
  if x.isFinite && x.units % unitsPerOne == 0 then some (x.units / unitsPerOne) else none

def isZero (x : Double) : Bool := x.exponent == 0 && x.fraction == 0

def isPositive (x : Double) : Bool := !x.negative && !x.isNaN && !x.isZero

/-- The low bits with the sign. -/
def orderKey (x : Double) : Int := if x.negative then -(x.lowBits : Int) else x.lowBits

/-- The order of doubles, the missing number last. -/
def compare (x y : Double) : Ordering :=
  if x.isNaN || y.isNaN then Ord.compare x.isNaN y.isNaN else Ord.compare x.orderKey y.orderKey

theorem units_lt_units_iff {x y : Double} : x.units < y.units ↔ x.orderKey < y.orderKey := by
  have less := @magnitude_lt_iff x y
  have more := @magnitude_lt_iff y x
  have px := @magnitude_pos_iff x
  have py := @magnitude_pos_iff y
  unfold units orderKey
  split <;> split <;> omega

private theorem compare_congr {i j k l : Int} (less : i < j ↔ k < l) (more : j < i ↔ l < k) :
    Ord.compare i j = Ord.compare k l := by
  rcases Int.lt_trichotomy i j with lower | equal | upper
  · rw [Int.compare_eq_lt.mpr lower, Int.compare_eq_lt.mpr (less.mp lower)]
  · have same : k = l := by omega
    rw [Int.compare_eq_eq.mpr equal, Int.compare_eq_eq.mpr same]
  · rw [Int.compare_eq_gt.mpr upper, Int.compare_eq_gt.mpr (more.mp upper)]

theorem lowBits_of_infinite {x : Double} (infinite : x.isFinite = false) (number : x.isNaN = false) :
    x.lowBits = 2047 * 1 <<< 52 := by
  have exponent : x.exponent = 2047 := by simpa [isFinite] using infinite
  have fraction : x.fraction = 0 := by simpa [isNaN, exponent] using number
  rw [lowBits, exponent, fraction, Nat.add_zero]

theorem lowBits_of_finite {x : Double} (finite : x.isFinite = true) : x.lowBits < 2047 * 1 <<< 52 := by
  have exponent : x.exponent ≠ 2047 := by simpa [isFinite] using finite
  have bound : x.exponent < 1 <<< 11 := Nat.mod_lt _ (by decide)
  have small : x.fraction < 1 <<< 52 := Nat.mod_lt _ (by decide)
  rw [lowBits]
  omega

theorem orderKey_of_infinite {x : Double} (infinite : x.isFinite = false) (number : x.isNaN = false) :
    x.orderKey = if x.negative then -((2047 * 1 <<< 52 : Nat) : Int) else (2047 * 1 <<< 52 : Nat) := by
  rw [orderKey, lowBits_of_infinite infinite number]

/-- Finite doubles are between the infinities. -/
theorem orderKey_of_finite {x : Double} (finite : x.isFinite = true) :
    -((2047 * 1 <<< 52 : Nat) : Int) < x.orderKey ∧ x.orderKey < (2047 * 1 <<< 52 : Nat) := by
  have bound := lowBits_of_finite finite
  unfold orderKey
  split <;> omega

theorem isNaN_of_finite {x : Double} (finite : x.isFinite = true) : x.isNaN = false := by
  simp_all [isFinite, isNaN]

/-- Doubles are in the order of the values they denote. -/
theorem compare_exact (x y : Double) : x.exact.compare y.exact = x.compare y := by
  cases fx : x.isFinite <;> cases fy : y.isFinite
  · cases nx : x.isNaN <;> cases ny : y.isNaN <;>
      simp only [exact, fx, fy, nx, ny, compare, Exact.compare, Bool.false_eq_true, if_false, if_true, Bool.or_false,
        Bool.or_true]
    · have kx := orderKey_of_infinite fx nx
      have ky := orderKey_of_infinite fy ny
      rw [kx, ky]
      cases x.negative <;> cases y.negative <;> decide
    · cases x.negative <;> decide
    · cases y.negative <;> decide
    · decide
  · have ny := isNaN_of_finite fy
    have between := orderKey_of_finite fy
    cases nx : x.isNaN <;>
      simp only [exact, fx, fy, nx, ny, compare, Exact.compare, Bool.false_eq_true, if_false, if_true,
        Bool.or_false]
    · rw [orderKey_of_infinite fx nx]
      cases x.negative
      · exact (Int.compare_eq_gt.mpr between.2).symm
      · exact (Int.compare_eq_lt.mpr between.1).symm
    · rfl
  · have nx := isNaN_of_finite fx
    have between := orderKey_of_finite fx
    cases ny : y.isNaN <;>
      simp only [exact, fx, fy, nx, ny, compare, Exact.compare, Bool.false_eq_true, if_false, if_true, Bool.or_false,
        Bool.or_true]
    · rw [orderKey_of_infinite fy ny]
      cases y.negative
      · exact (Int.compare_eq_lt.mpr between.2).symm
      · exact (Int.compare_eq_gt.mpr between.1).symm
    · rfl
  · simp only [exact, fx, fy, isNaN_of_finite fx, isNaN_of_finite fy, compare, Exact.compare, if_true, Bool.or_false,
      Bool.false_eq_true, if_false]
    exact compare_congr units_lt_units_iff units_lt_units_iff

theorem exact_of_finite {x : Double} (finite : x.isFinite = true) : x.exact = .finite x.units := by
  rw [exact, if_pos finite]

theorem exact_of_infinite {x : Double} (infinite : x.isFinite = false) (number : x.isNaN = false) :
    x.exact = .infinite x.negative := by
  simp only [exact, infinite, number, Bool.false_eq_true, if_false]

theorem exact_of_isNaN {x : Double} (missing : x.isNaN = true) : x.exact = .nan := by
  cases finite : x.isFinite
  · simp only [exact, finite, missing, Bool.false_eq_true, if_false, if_true]
  · rw [isNaN_of_finite finite] at missing
    cases missing

theorem isFinite_iff {x : Double} : x.isFinite = true ↔ ∃ units, x.exact = .finite units := by
  refine ⟨fun finite => ⟨_, exact_of_finite finite⟩, fun ⟨units, denoted⟩ => ?_⟩
  unfold exact at denoted
  split at denoted
  · assumption
  · split at denoted <;> cases denoted

theorem isNaN_iff {x : Double} : x.isNaN = true ↔ x.exact = .nan := by
  refine ⟨exact_of_isNaN, fun denoted => ?_⟩
  unfold exact at denoted
  split at denoted
  · cases denoted
  · split at denoted
    · assumption
    · cases denoted

theorem isNaN_congr {x y : Double} (equal : x.exact = y.exact) : x.isNaN = y.isNaN := by
  rw [Bool.eq_iff_iff, isNaN_iff, isNaN_iff, equal]

/-- Zero is the double of no units. -/
theorem isZero_iff {x : Double} : x.isZero = true ↔ x.exact = .ofInt 0 := by
  have size : x.isZero = true ↔ x.lowBits = 0 := by
    simp only [isZero, lowBits, Nat.reduceShiftLeft, Bool.and_eq_true, beq_iff_eq]
    omega
  have finite (zero : x.lowBits = 0) : x.isFinite = true := by
    rw [isFinite, bne_iff_ne]
    simp only [lowBits, Nat.reduceShiftLeft] at zero
    omega
  have units : x.units = 0 ↔ x.lowBits = 0 := by
    have positive := @magnitude_pos_iff x
    have size := natAbs_units x
    omega
  rw [size, Exact.ofInt, Int.zero_mul]
  refine ⟨fun zero => ?_, fun denoted => ?_⟩
  · rw [exact_of_finite (finite zero), units.mpr zero]
  · unfold exact at denoted
    split at denoted
    · exact units.mp (Exact.finite.inj denoted)
    · split at denoted <;> cases denoted

/-- A number other than zero is known by the value it denotes. -/
theorem bits_eq_of_exact {x y : Double} (equal : x.exact = y.exact) (number : x.isNaN = false)
    (nonzero : x.isZero = false) : x.bits = y.bits := by
  have number' : y.isNaN = false := isNaN_congr equal ▸ number
  cases finite : x.isFinite <;> cases finite' : y.isFinite
  · have infinite := exact_of_infinite finite number
    have infinite' := exact_of_infinite finite' number'
    rw [infinite, infinite'] at equal
    have low := lowBits_inj ((lowBits_of_infinite finite number).trans (lowBits_of_infinite finite' number').symm)
    exact bits_eq (Exact.infinite.inj equal) low.1 low.2
  · rw [exact_of_infinite finite number, exact_of_finite finite'] at equal
    cases equal
  · rw [exact_of_finite finite, exact_of_infinite finite' number'] at equal
    cases equal
  · rw [exact_of_finite finite, exact_of_finite finite'] at equal
    refine bits_eq_of_units (Exact.finite.inj equal) fun zero => ?_
    have denoted : x.exact = .ofInt 0 := by rw [exact_of_finite finite, zero, Exact.ofInt, Int.zero_mul]
    rw [isZero_iff.mpr denoted] at nonzero
    cases nonzero

/-- Whether two doubles are one number: zero is, whatever its sign, and the missing number is none. -/
def same (x y : Double) : Bool := !x.isNaN && !y.isNaN && (x.bits == y.bits || x.isZero && y.isZero)

/-- Two numbers are the same if they denote the same value. -/
theorem same_iff {x y : Double} (number : x.isNaN = false) (number' : y.isNaN = false) :
    x.same y = true ↔ x.exact = y.exact := by
  simp only [same, number, number', Bool.not_false, Bool.true_and, Bool.or_eq_true, Bool.and_eq_true, beq_iff_eq]
  constructor
  · rintro (bits | ⟨zero, zero'⟩)
    · exact congrArg exact (mk.injEq .. ▸ bits)
    · rw [isZero_iff.mp zero, isZero_iff.mp zero']
  · intro equal
    cases zero : x.isZero
    · exact .inl (bits_eq_of_exact equal number zero)
    · exact .inr ⟨rfl, isZero_iff.mpr (equal ▸ isZero_iff.mp zero)⟩

/-- Two doubles denote the same if they are the same number or both none. -/
theorem same_or_missing (x y : Double) : (x.isNaN && y.isNaN || x.same y) = (x.exact == y.exact) := by
  rw [Bool.eq_iff_iff, beq_iff_eq]
  cases missing : x.isNaN <;> cases missing' : y.isNaN
  · simpa using same_iff missing missing'
  · have different : x.exact ≠ y.exact := fun equal => by simp [isNaN_congr equal, missing'] at missing
    simp [same, missing', different]
  · have different : x.exact ≠ y.exact := fun equal => by simp [← isNaN_congr equal, missing] at missing'
    simp [same, missing, different]
  · simp [isNaN_iff.mp missing, isNaN_iff.mp missing']

/-- The count a double asks for: its whole part, nothing below one or for no number, and no more than 2⁶⁴ - 1. -/
def toCount (x : Double) : Nat :=
  match x.exact with
  | .finite u => min (u / unitsPerOne).toNat (1 <<< 64 - 1)
  | .infinite false => 1 <<< 64 - 1
  | .infinite true | .nan => 0

end Double

end RecordQuery
