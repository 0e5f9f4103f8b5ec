import RecordQuery.Proofs.Value.Order
import RecordQuery.Value.Arithmetic
/-! Negation of numbers. It puts what they denote on the other side of zero and so reverses their order, but for the
least integer of each width: that one is its own negation. -/

namespace RecordQuery

namespace Exact

/-- The value on the other side of zero. -/
def neg : Exact → Exact
  | infinite negative => infinite !negative
  | finite units => finite (-units)
  | nan => nan

theorem neg_ofInt (i : Int) : (ofInt i).neg = ofInt (-i) := by
  rw [ofInt, ofInt, neg, Int.neg_mul]

theorem compare_neg {a b : Exact} (left : a ≠ nan) (right : b ≠ nan) :
    a.neg.compare b.neg = (a.compare b).swap := by
  have units (i j : Int) : Ord.compare (-i) (-j) = Ord.compare j i := by
    rcases Int.lt_trichotomy j i with less | same | more
    · rw [Int.compare_eq_lt.mpr less, Int.compare_eq_lt.mpr (by omega)]
    · rw [Int.compare_eq_eq.mpr same, Int.compare_eq_eq.mpr (by omega)]
    · rw [Int.compare_eq_gt.mpr more, Int.compare_eq_gt.mpr (by omega)]
  match a, b with
  | nan, _ => exact absurd rfl left
  | _, nan => exact absurd rfl right
  | finite i, finite j => exact (units i j).trans (Int.compare_swap i j).symm
  | infinite true, finite _ | infinite false, finite _ => rfl
  | finite _, infinite true | finite _, infinite false => rfl
  | infinite true, infinite true | infinite true, infinite false => rfl
  | infinite false, infinite true | infinite false, infinite false => rfl

/-- A value below zero that stays where it is compares with another one and with its negation as from the two sides only
where one of these two lies below it. -/
theorem compare_neg_eq_swap_iff {i : Int} (below : i < 0) {b : Exact} (known : b ≠ nan) :
    (ofInt i).compare b.neg = b.compare (ofInt i) ↔
      b.compare (ofInt i) = .lt ∨ b.neg.compare (ofInt i) = .lt := by
  have under : i * (Double.unitsPerOne : Int) < 0 :=
    Int.mul_neg_of_neg_of_pos below (Int.natCast_pos.mpr Double.unitsPerOne_pos)
  rcases b with ⟨_ | _⟩ | units | _
  · exact iff_of_true rfl (.inr rfl)
  · exact iff_of_true rfl (.inl rfl)
  · change Ord.compare (i * (Double.unitsPerOne : Int)) (-units) = Ord.compare units (i * (Double.unitsPerOne : Int)) ↔
      Ord.compare units (i * (Double.unitsPerOne : Int)) = .lt ∨
        Ord.compare (-units) (i * (Double.unitsPerOne : Int)) = .lt
    generalize i * (Double.unitsPerOne : Int) = least at under
    rw [Int.compare_eq_lt, Int.compare_eq_lt]
    rcases Int.lt_trichotomy units least with less | same | more
    · rw [Int.compare_eq_lt.mpr less, Int.compare_eq_lt]
      omega
    · rw [Int.compare_eq_eq.mpr same, Int.compare_eq_eq]
      omega
    · rw [Int.compare_eq_gt.mpr more, Int.compare_eq_gt]
      omega
  · exact absurd rfl known

end Exact

namespace Double

/-- A negated double has the exponent and the fraction it had, and the other sign. -/
theorem parts_neg (x : Double) :
    x.neg.negative = (!x.negative) ∧ x.neg.exponent = x.exponent ∧ x.neg.fraction = x.fraction := by
  have small : x.bits.toNat % 1 <<< 63 < 1 <<< 63 := Nat.mod_lt _ (by decide)
  have parts : x.neg = ofParts (!x.negative) (x.bits.toNat % 1 <<< 63) := by
    rw [neg, ofParts, ofParts, Nat.mod_mod]
  rw [parts, negative_ofParts small, exponent_ofParts _ small, fraction_ofParts _ small, exponent, fraction]
  simp only [Nat.reduceShiftLeft, true_and]
  omega

theorem exact_neg (x : Double) : x.neg.exact = x.exact.neg := by
  obtain ⟨sign, exponent, fraction⟩ := x.parts_neg
  have finite : x.neg.isFinite = x.isFinite := by rw [isFinite, exponent, isFinite]
  have missing : x.neg.isNaN = x.isNaN := by rw [isNaN, exponent, fraction, isNaN]
  have units : x.neg.units = -x.units := by
    have size : x.neg.magnitude = x.magnitude := by rw [magnitude, exponent, fraction, magnitude]
    rw [Double.units, Double.units, sign, size]
    cases x.negative <;> simp
  rw [exact, exact, finite, missing, sign, units]
  cases x.isFinite <;> cases x.isNaN <;> rfl

end Double

namespace Value

/-- A number other than the missing one. -/
def isKnown : Value → Bool
  | float64 x => !x.isNaN
  | value => value.isNumeric

/-- The least integer of a width, which has no counterpart above zero in that width. -/
def isLeast : Value → Bool
  | int32 i => i == Int32.minValue
  | int64 i => i == Int64.minValue
  | _ => false

/-- Whether a number or its negation comes before another number. -/
def reachesBelow (value other : Value) : Bool :=
  value.compare other == .lt || value.negate.toOption.any fun negated => negated.compare other == .lt

/-- Whether negation reverses the order of two numbers. A least integer stays where it is, and then the other number has
to lie on one side of it and the other number's negation on the other side. -/
def turns (a b : Value) : Bool :=
  match a.isLeast, b.isLeast with
  | false, false => true
  | true, false => b.reachesBelow a
  | false, true => a.reachesBelow b
  | true, true => a.compare b == .eq

theorem compare_of_exactValue {a b : Value} {x y : Exact} (left : a.exactValue? = some x)
    (right : b.exactValue? = some y) : a.compare b = x.compare y := by
  have number : a.isNumeric = true := by
    cases a with
    | int32 | int64 | float64 => rfl
    | _ => cases left
  rw [compare_numeric b number]
  simp only [compareExact, left, right]

/-- A known number, what it denotes, and its negation. -/
structure Negates (a negated : Value) (x : Exact) : Prop where
  ran : a.negate = .ok negated
  denoted : a.exactValue? = some x
  known : x ≠ .nan
  negation : negated.exactValue? = some (if a.isLeast then x else x.neg)
  least : a.isLeast = true → ∃ i < 0, x = .ofInt i

/-- In 32 bits only the least integer is not turned to the other side of zero. -/
theorem toInt_neg_int32 (i : Int32) : (-i).toInt = if i == Int32.minValue then i.toInt else -i.toInt := by
  split
  next least => rw [beq_iff_eq.mp least]; rfl
  next other =>
    have low := i.le_toInt
    have high := i.toInt_lt
    have above : i.toInt ≠ -2 ^ 31 := fun same =>
      other (beq_iff_eq.mpr (Int32.toInt_inj.mp (same.trans Int32.toInt_minValue.symm)))
    rw [Int32.toInt_neg]
    exact Int.bmod_eq_of_le (by omega) (by omega)

/-- In 64 bits only the least integer is not turned to the other side of zero. -/
theorem toInt_neg_int64 (i : Int64) : (-i).toInt = if i == Int64.minValue then i.toInt else -i.toInt := by
  split
  next least => rw [beq_iff_eq.mp least]; rfl
  next other =>
    have low := i.le_toInt
    have high := i.toInt_lt
    have above : i.toInt ≠ -2 ^ 63 := fun same =>
      other (beq_iff_eq.mpr (Int64.toInt_inj.mp (same.trans Int64.toInt_minValue.symm)))
    rw [Int64.toInt_neg]
    exact Int.bmod_eq_of_le (by omega) (by omega)

theorem negates_of_integer {a negated : Value} {i j : Int} (ran : a.negate = .ok negated)
    (denoted : a.exactValue? = some (.ofInt i)) (denoted' : negated.exactValue? = some (.ofInt j))
    (turned : j = if a.isLeast then i else -i) (below : a.isLeast = true → i < 0) : Negates a negated (.ofInt i) where
  ran := ran
  denoted := denoted
  known := nofun
  negation := by
    rw [denoted', turned]
    split
    · rfl
    · rw [Exact.neg_ofInt]
  least lowest := ⟨i, below lowest, rfl⟩

theorem negates_float64 {x : Double} (number : x.isNaN = false) :
    Negates (float64 x) (float64 x.neg) x.exact where
  ran := rfl
  denoted := rfl
  known missing := by simp [Double.isNaN_iff.mpr missing] at number
  negation := congrArg some x.exact_neg
  least := nofun

/-- Every known number has a negation. -/
theorem exists_negates {a : Value} (known : a.isKnown = true) : ∃ negated x, Negates a negated x := by
  cases a with
  | int32 i =>
    refine ⟨_, _, negates_of_integer rfl rfl rfl (toInt_neg_int32 i) fun least => ?_⟩
    rw [beq_iff_eq.mp least]
    decide
  | int64 i =>
    refine ⟨_, _, negates_of_integer rfl rfl rfl (toInt_neg_int64 i) fun least => ?_⟩
    rw [beq_iff_eq.mp least]
    decide
  | float64 x => exact ⟨_, _, negates_float64 (by simpa [isKnown] using known)⟩
  | _ => cases known

/-- A number goes below another one where what it denotes does, or the value on the other side of zero. -/
theorem reachesBelow_iff {a b negated : Value} {x y : Exact} (negates : Negates a negated x)
    (least : a.isLeast = false) (denoted : b.exactValue? = some y) :
    a.reachesBelow b = true ↔ x.compare y = .lt ∨ x.neg.compare y = .lt := by
  have negation : negated.exactValue? = some x.neg := by rw [negates.negation, least]; rfl
  rw [reachesBelow, negates.ran]
  simp only [Except.toOption, Option.any_some, compare_of_exactValue negates.denoted denoted,
    compare_of_exactValue negation denoted, Bool.or_eq_true, beq_iff_eq]

/-- Negations compare the other way around exactly where negation reverses the order of the two numbers. -/
theorem compare_negations_iff {a b negated negated' : Value} {x y : Exact} (first : Negates a negated x)
    (second : Negates b negated' y) : negated.compare negated' = (a.compare b).swap ↔ a.turns b = true := by
  have across : (a.compare b).swap = y.compare x := by
    rw [compare_of_exactValue first.denoted second.denoted, ← Exact.compare_swap]
  rw [across, compare_of_exactValue first.negation second.negation, turns]
  cases lowest : a.isLeast <;> cases lowest' : b.isLeast
  case false.false =>
    have swapped := (Exact.compare_neg first.known second.known).trans (Exact.compare_swap x y).symm
    exact iff_of_true swapped rfl
  case false.true =>
    obtain ⟨i, below, rfl⟩ := second.least lowest'
    change x.neg.compare (.ofInt i) = (Exact.ofInt i).compare x ↔ a.reachesBelow b = true
    rw [reachesBelow_iff first lowest second.denoted, ← Exact.compare_neg_eq_swap_iff below first.known]
    rw [Exact.compare_swap (.ofInt i) x.neg, Exact.compare_swap x, Ordering.swap_inj]
  case true.false =>
    obtain ⟨i, below, rfl⟩ := first.least lowest
    change (Exact.ofInt i).compare y.neg = y.compare (.ofInt i) ↔ b.reachesBelow a = true
    rw [reachesBelow_iff second lowest' first.denoted, Exact.compare_neg_eq_swap_iff below second.known]
  case true.true =>
    change x.compare y = y.compare x ↔ (a.compare b == .eq) = true
    rw [compare_of_exactValue first.denoted second.denoted, Exact.compare_swap x y, beq_iff_eq]
    cases x.compare y <;> decide

end Value

end RecordQuery
