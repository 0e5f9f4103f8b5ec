import RecordQuery.Number.Rounding
/-! Doubles beside integers of 64 bits: the whole part of a double, the integer it denotes, and its order with an
integer. The integer is compared with the whole part, and then the whole part with the double, so neither is rounded. -/

namespace RecordQuery.Double

/-- Two to the power of 63, the least double above every integer of 64 bits. -/
def wordBound : Double := ofParts false (1086 * 1 <<< 52)

/-- The whole part as an integer of 64 bits: the nearest one out of range, zero for the missing number. -/
def truncate (x : Double) : Int64 :=
  match x.exact with
  | .finite units => .ofInt (max Int64.minValue.toInt (min (units.tdiv unitsPerOne) Int64.maxValue.toInt))
  | .infinite negative => if negative then Int64.minValue else Int64.maxValue
  | .nan => 0

/-- The integer of 64 bits that a double denotes, if there is one. -/
def int64? (x : Double) : Option Int64 :=
  let whole := x.truncate
  if x.isFinite && (wordBound.neg.compare x).isLE && x.compare wordBound == .lt && (ofInt whole.toInt).same x then
    some whole
  else none

/-- The order of an integer and a double. -/
def compareInteger (i : Int64) (x : Double) : Ordering :=
  if x.isNaN || (wordBound.compare x).isLE then .lt
  else if x.compare wordBound.neg == .lt then .gt
  else
    let whole := x.truncate
    (Ord.compare i.toInt whole.toInt).then ((ofInt whole.toInt).compare x)

/-- Leaving out the lower bits of a number of no more than 53 bits leaves such a number. -/
theorem whole_placed {m unit kept place : Nat} (small : kept < 1 <<< 53) (low : place ≤ 2045) (within : unit ≤ 2045)
    (placed : m = kept <<< place) :
    ∃ kept' place', kept' < 1 <<< 53 ∧ place' ≤ 2045 ∧ m >>> unit <<< unit = kept' <<< place' := by
  subst placed
  simp only [Nat.shiftLeft_eq, Nat.shiftRight_eq_div_pow]
  rcases Nat.le_total unit place with coarse | fine
  · refine ⟨kept, place, small, low, ?_⟩
    rw [show place = place - unit + unit by omega, Nat.pow_add, ← Nat.mul_assoc,
      Nat.mul_div_cancel _ (Nat.two_pow_pos _)]
  · refine ⟨kept / 2 ^ (unit - place), unit, Nat.lt_of_le_of_lt (Nat.div_le_self ..) small, within, ?_⟩
    rw [show unit = unit - place + place by omega, Nat.pow_add, Nat.mul_div_mul_right _ _ (Nat.two_pow_pos _),
      Nat.add_sub_cancel]

/-- The whole part of a finite double is not rounded. -/
theorem exact_ofInt_whole {x : Double} (finite : x.isFinite = true) :
    (ofInt (x.units.tdiv unitsPerOne)).exact = .ofInt (x.units.tdiv unitsPerOne) := by
  obtain ⟨kept, place, small, low, placed⟩ := magnitude_placed finite
  obtain ⟨kept', place', small', low', whole⟩ := whole_placed small low (by decide : 1074 ≤ 2045) placed
  have size : (x.units.tdiv unitsPerOne).natAbs = x.magnitude >>> 1074 := by
    have divided (m unit : Nat) : m >>> unit = m / 1 <<< unit := by
      rw [Nat.one_shiftLeft, Nat.shiftRight_eq_div_pow]
    rw [← natAbs_units, divided]
    exact Int.natAbs_tdiv ..
  rw [← size] at whole
  generalize x.units.tdiv unitsPerOne = i at *
  have denotes := denotes_ofBinary (decide (i < 0)) small' low' whole
  rw [ofInt, denotes.exact, Exact.ofInt, unitsPerOne, Nat.one_shiftLeft, Nat.shiftLeft_eq]
  generalize 2 ^ 1074 = unit
  rw [Exact.finite.injEq, Int.natCast_mul]
  by_cases below : i < 0
  · rw [decide_eq_true below, if_pos rfl, Int.ofNat_natAbs_of_nonpos (Int.le_of_lt below), Int.neg_mul, Int.neg_neg]
  · rw [decide_eq_false below, if_neg (by decide), Int.natAbs_of_nonneg (Int.not_lt.mp below)]

theorem exact_wordBound : wordBound.exact = .ofInt (0x8000000000000000) := by decide

theorem exact_neg_wordBound : wordBound.neg.exact = .ofInt (-0x8000000000000000) := by decide

/-- What the whole part leaves of a number of units is less than one, and nothing is added to a positive number. -/
theorem whole_bounds (units : Int) {unit : Int} (positive : 0 < unit) :
    (units.tdiv unit - 1) * unit < units ∧ units < (units.tdiv unit + 1) * unit ∧
      (0 < units.tdiv unit → units.tdiv unit * unit ≤ units) := by
  have parts := Int.tdiv_mul_add_tmod units unit
  have low := Int.lt_tmod_of_pos units positive
  have high := Int.tmod_lt_of_pos units positive
  rw [Int.sub_mul, Int.add_mul, Int.one_mul]
  refine ⟨by omega, by omega, fun above => ?_⟩
  have one : 1 * unit ≤ units.tdiv unit * unit := Int.mul_le_mul_of_nonneg_right above (Int.le_of_lt positive)
  have rest : 0 ≤ units.tmod unit := Int.tmod_nonneg _ (by omega)
  omega

/-- In range, the whole part is an integer of 64 bits. -/
theorem toInt_truncate {x : Double} (finite : x.isFinite = true) (low : -0x8000000000000000 * (unitsPerOne : Int) ≤ x.units)
    (high : x.units < 0x8000000000000000 * unitsPerOne) : x.truncate.toInt = x.units.tdiv unitsPerOne := by
  have positive : (0 : Int) < (unitsPerOne : Nat) := Int.natCast_pos.mpr unitsPerOne_pos
  obtain ⟨below, above, towardZero⟩ := whole_bounds x.units positive
  rw [truncate, exact_of_finite finite]
  dsimp only
  generalize ((unitsPerOne : Nat) : Int) = unit at *
  generalize x.units.tdiv unit = whole at *
  have least : -0x8000000000000000 < whole + 1 :=
    Int.lt_of_mul_lt_mul_right (Int.lt_of_le_of_lt low above) (Int.le_of_lt positive)
  have greatest : whole < 0x8000000000000000 := by
    rcases Int.lt_or_le 0 whole with some | none
    · exact Int.lt_of_mul_lt_mul_right (Int.lt_of_le_of_lt (towardZero some) high) (Int.le_of_lt positive)
    · omega
  rw [Int64.toInt_minValue, Int64.toInt_maxValue, Int.min_eq_left (by omega), Int.max_eq_right (by omega)]
  exact Int64.toInt_ofInt_of_le (by omega) greatest

/-- The order of the values that an integer and a finite double denote. -/
theorem compare_ofInt_finite (i : Int) {x : Double} (finite : x.isFinite = true) :
    (Exact.ofInt i).compare x.exact = Ord.compare (i * unitsPerOne) x.units := by
  rw [exact_of_finite finite]
  rfl

/-- An integer is on the same side of a number as of its whole part, and beside the whole part on the side that the
whole part is. -/
theorem compare_whole (i units : Int) {unit : Int} (positive : 0 < unit) :
    (Ord.compare i (units.tdiv unit)).then (Ord.compare (units.tdiv unit * unit) units) =
      Ord.compare (i * unit) units := by
  obtain ⟨below, above, -⟩ := whole_bounds units positive
  generalize units.tdiv unit = whole at *
  rcases Int.lt_trichotomy i whole with less | equal | more
  · have step : i * unit ≤ (whole - 1) * unit := Int.mul_le_mul_of_nonneg_right (by omega) (Int.le_of_lt positive)
    rw [Int.compare_eq_lt.mpr less, Int.compare_eq_lt.mpr (Int.lt_of_le_of_lt step below)]
    rfl
  · rw [equal, Int.compare_eq_eq.mpr rfl, Ordering.eq_then]
  · have step : (whole + 1) * unit ≤ i * unit := Int.mul_le_mul_of_nonneg_right (by omega) (Int.le_of_lt positive)
    rw [Int.compare_eq_gt.mpr more, Int.compare_eq_gt.mpr (Int.lt_of_lt_of_le above step)]
    rfl

section Bound

variable {bound x : Double} {i : Int}

theorem isLE_bound_iff (denoted : bound.exact = .ofInt i) (finite : x.isFinite = true) :
    (bound.compare x).isLE = true ↔ i * unitsPerOne ≤ x.units := by
  rw [← compare_exact, denoted, compare_ofInt_finite i finite, Int.isLE_compare]

theorem lt_bound_iff (denoted : bound.exact = .ofInt i) (finite : x.isFinite = true) :
    x.compare bound = .lt ↔ x.units < i * unitsPerOne := by
  rw [← compare_exact, denoted, exact_of_finite finite]
  exact Int.compare_eq_lt

end Bound

/-- An integer and a double are in the order of the values they denote. -/
theorem compareInteger_eq (i : Int64) (x : Double) : x.compareInteger i = (Exact.ofInt i.toInt).compare x.exact := by
  have positive : (0 : Int) < (unitsPerOne : Nat) := Int.natCast_pos.mpr unitsPerOne_pos
  have least : -0x8000000000000000 ≤ i.toInt := i.le_toInt
  have greatest : i.toInt < 0x8000000000000000 := i.toInt_lt
  unfold compareInteger
  cases missing : x.isNaN
  · cases finite : x.isFinite
    · have infinite := exact_of_infinite finite missing
      rw [← compare_exact, ← compare_exact, exact_wordBound, exact_neg_wordBound, infinite]
      cases x.negative <;> rfl
    · rw [Bool.false_or, compare_ofInt_finite _ finite]
      by_cases high : (wordBound.compare x).isLE = true
      · have above := (isLE_bound_iff exact_wordBound finite).mp high
        have below : i.toInt * unitsPerOne < 0x8000000000000000 * unitsPerOne := Int.mul_lt_mul_of_pos_right greatest positive
        rw [if_pos high, Int.compare_eq_lt.mpr (Int.lt_of_lt_of_le below above)]
      rw [if_neg high]
      by_cases low : x.compare wordBound.neg = .lt
      · have below := (lt_bound_iff exact_neg_wordBound finite).mp low
        have above : -0x8000000000000000 * (unitsPerOne : Int) ≤ i.toInt * unitsPerOne :=
          Int.mul_le_mul_of_nonneg_right least (Int.le_of_lt positive)
        rw [if_pos (beq_iff_eq.mpr low), Int.compare_eq_gt.mpr (Int.lt_of_lt_of_le below above)]
      rw [if_neg (mt beq_iff_eq.mp low)]
      have whole := toInt_truncate finite
        (Int.not_lt.mp (mt (lt_bound_iff exact_neg_wordBound finite).mpr low))
        (Int.not_le.mp (mt (isLE_bound_iff exact_wordBound finite).mpr high))
      dsimp only
      rw [whole, ← compare_exact, exact_ofInt_whole finite, compare_ofInt_finite _ finite]
      exact compare_whole _ _ positive
  · rw [exact_of_isNaN missing]
    rfl

/-- In range, the whole part as a double denotes the whole part. -/
theorem exact_ofInt_truncate {x : Double} (finite : x.isFinite = true) (low : -0x8000000000000000 * (unitsPerOne : Int) ≤ x.units)
    (high : x.units < 0x8000000000000000 * unitsPerOne) : (ofInt x.truncate.toInt).exact = .ofInt x.truncate.toInt := by
  rw [toInt_truncate finite low high, exact_ofInt_whole finite]

/-- The integer of 64 bits that a double denotes is the one that denotes the same value. -/
theorem int64?_eq_some_iff {x : Double} {i : Int64} : x.int64? = some i ↔ x.exact = .ofInt i.toInt := by
  have positive : (0 : Int) < (unitsPerOne : Nat) := Int.natCast_pos.mpr unitsPerOne_pos
  unfold int64?
  constructor
  · intro found
    dsimp only at found
    split at found
    next holds =>
      simp only [Bool.and_eq_true, beq_iff_eq] at holds
      obtain ⟨⟨⟨finite, low⟩, high⟩, equal⟩ := holds
      have denoted := exact_ofInt_truncate finite ((isLE_bound_iff exact_neg_wordBound finite).mp low)
        ((lt_bound_iff exact_wordBound finite).mp high)
      have number : (ofInt x.truncate.toInt).isNaN = false := isNaN_of_finite (isFinite_iff.mpr ⟨_, denoted⟩)
      rw [← Option.some.inj found, ← denoted]
      exact ((same_iff number (isNaN_of_finite finite)).mp equal).symm
    · cases found
  · intro denoted
    have finite : x.isFinite = true := isFinite_iff.mpr ⟨_, denoted⟩
    have units : x.units = i.toInt * unitsPerOne := Exact.finite.inj ((exact_of_finite finite).symm.trans denoted)
    have low : -0x8000000000000000 * (unitsPerOne : Int) ≤ x.units := by
      rw [units]
      exact Int.mul_le_mul_of_nonneg_right i.le_toInt (Int.le_of_lt positive)
    have high : x.units < 0x8000000000000000 * unitsPerOne := by
      rw [units]
      exact Int.mul_lt_mul_of_pos_right i.toInt_lt positive
    have whole : x.truncate = i := by
      rw [← Int64.toInt_inj, toInt_truncate finite low high, units, Int.mul_tdiv_cancel _ (Int.ne_of_gt positive)]
    have denoted' := exact_ofInt_truncate finite low high
    rw [whole] at denoted'
    have equal : (ofInt i.toInt).same x = true :=
      (same_iff (isNaN_of_finite (isFinite_iff.mpr ⟨_, denoted'⟩)) (isNaN_of_finite finite)).mpr
        (denoted'.trans denoted.symm)
    simp only [finite, (isLE_bound_iff exact_neg_wordBound finite).mpr low,
      (lt_bound_iff exact_wordBound finite).mpr high, whole, equal, Bool.and_self, beq_self_eq_true, if_true]

end RecordQuery.Double
