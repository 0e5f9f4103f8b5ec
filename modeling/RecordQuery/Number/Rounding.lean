import RecordQuery.Number.Double
/-! Rounding a quotient of natural numbers to the nearest double, a tie to the even fraction. Integers and
decimal fractions become doubles this way. -/

namespace RecordQuery

/-- The quotient rounded to the nearest natural number, a tie to the even one. -/
def divideToEven (num den : Nat) : Nat :=
  let q := num / den
  match compare (2 * (num % den)) den with
  | .lt => q
  | .gt => q + 1
  | .eq => q + q % 2

namespace Double

/-- `num / (den * 2 ^ shift)` as a quotient of natural numbers. -/
def scaledQuotient (num den : Nat) (shift : Int) : Nat × Nat :=
  if 0 ≤ shift then (num, den <<< shift.toNat) else (num <<< (-shift).toNat, den)

/-- The power of two of the last fraction bit that `num / den` keeps. -/
def lastPlace (num den : Nat) : Int :=
  let guess := max ((num.log2 : Int) - den.log2 - 53) (-1074)
  let (n, d) := scaledQuotient num den guess
  if n / d < 1 <<< 53 then guess else guess + 1

/-- The double nearest to `num / den`, with the given sign; too large a quotient gives an infinity. -/
def ofRatio (negative : Bool) (num den : Nat) : Double :=
  if num = 0 then ofParts negative 0
  else
    let place := lastPlace num den
    let (n, d) := scaledQuotient num den place
    ofParts negative (min ((place + 1074).toNat * 1 <<< 52 + divideToEven n d) (2047 * 1 <<< 52))

/-- The double nearest to `n * 2 ^ scale` units. -/
def ofBinary (negative : Bool) (n scale : Nat) : Double :=
  if n = 0 then ofParts negative 0
  else
    let place := n.log2 + scale - 52
    let kept := if place ≤ scale then n <<< (scale - place) else divideToEven n (1 <<< (place - scale))
    ofParts negative (min (place * 1 <<< 52 + kept) (2047 * 1 <<< 52))

/-- The double nearest to an integer. -/
def ofInt (i : Int) : Double := ofBinary (i < 0) i.natAbs 1074

/-- The double of a number of units of 2⁻¹⁰⁷⁴. -/
def ofUnits (negative : Bool) (units : Nat) : Double := ofBinary negative units 0

/-! The parts of a double put together from them. -/

theorem toNat_bits_ofParts {negative : Bool} {rest : Nat} (small : rest < 1 <<< 63) :
    (ofParts negative rest).bits.toNat = (if negative then 1 <<< 63 else 0) + rest := by
  simp only [ofParts, UInt64.toNat_ofNat', Nat.reduceShiftLeft] at small ⊢
  cases negative <;> simp only [Bool.false_eq_true, if_false, if_true] <;> omega

theorem negative_ofParts {negative : Bool} {rest : Nat} (small : rest < 1 <<< 63) :
    (ofParts negative rest).negative = negative := by
  rw [Double.negative, toNat_bits_ofParts small]
  simp only [Nat.reduceShiftLeft] at small ⊢
  cases negative with
  | false => simpa using small
  | true => simp

theorem exponent_ofParts (negative : Bool) {rest : Nat} (small : rest < 1 <<< 63) :
    (ofParts negative rest).exponent = rest / 1 <<< 52 := by
  rw [Double.exponent, toNat_bits_ofParts small]
  simp only [Nat.reduceShiftLeft] at small ⊢
  cases negative <;> simp only [Bool.false_eq_true, if_false, if_true] <;> omega

theorem fraction_ofParts (negative : Bool) {rest : Nat} (small : rest < 1 <<< 63) :
    (ofParts negative rest).fraction = rest % 1 <<< 52 := by
  rw [Double.fraction, toNat_bits_ofParts small]
  simp only [Nat.reduceShiftLeft] at small ⊢
  cases negative <;> simp only [Bool.false_eq_true, if_false, if_true] <;> omega

/-- A finite double with a given sign and magnitude. -/
structure Denotes (x : Double) (negative : Bool) (magnitude : Nat) : Prop where
  sign : x.negative = negative
  finite : x.isFinite = true
  magnitude : x.magnitude = magnitude

/-- Up to 53 bits at a place make a double, all of them except at the lowest place. -/
theorem denotes_ofParts {negative : Bool} {kept place : Nat} (small : kept < 1 <<< 53) (low : place ≤ 2045)
    (first : 1 <<< 52 ≤ kept ∨ place = 0) :
    (ofParts negative (place * 1 <<< 52 + kept)).Denotes negative (kept <<< place) := by
  have size : place * 1 <<< 52 + kept < 1 <<< 63 := by
    simp only [Nat.reduceShiftLeft] at small ⊢
    omega
  have exponent := exponent_ofParts negative size
  have fraction := fraction_ofParts negative size
  refine ⟨negative_ofParts size, ?_, ?_⟩
  · simp only [isFinite, exponent, bne_iff_ne, ne_eq]
    simp only [Nat.reduceShiftLeft] at small ⊢
    omega
  · rw [Double.magnitude, exponent, fraction]
    by_cases lowest : kept < 1 <<< 52
    · have zero : place = 0 := first.resolve_left (Nat.not_le.mpr lowest)
      subst zero
      have none : (0 * 1 <<< 52 + kept) / 1 <<< 52 = 0 := by
        simp only [Nat.reduceShiftLeft] at lowest ⊢
        omega
      rw [if_pos none, Nat.shiftLeft_zero]
      simp only [Nat.reduceShiftLeft] at lowest ⊢
      omega
    · have quotient : (place * 1 <<< 52 + kept) / 1 <<< 52 = place + 1 := by
        simp only [Nat.reduceShiftLeft] at lowest small ⊢
        omega
      have rest : 1 <<< 52 + (place * 1 <<< 52 + kept) % 1 <<< 52 = kept := by
        simp only [Nat.reduceShiftLeft] at lowest small ⊢
        omega
      rw [quotient, if_neg (Nat.succ_ne_zero _), rest, Nat.add_sub_cancel]

theorem denotes_zero (negative : Bool) : (ofParts negative 0).Denotes negative 0 := by
  have placed : (ofParts negative (0 * 1 <<< 52 + 0)).Denotes negative (0 <<< 0) :=
    denotes_ofParts (by decide) (by decide) (.inr rfl)
  simpa using placed

theorem divideToEven_of_mul {n den : Nat} (q : Nat) (positive : 0 < den) (whole : n = q * den) :
    divideToEven n den = q := by
  subst whole
  have none : Ord.compare (2 * (q * den % den)) den = .lt := by
    rw [Nat.mul_mod_left, Nat.mul_zero]
    exact Nat.compare_eq_lt.mpr positive
  simp only [divideToEven, none, Nat.mul_div_cancel _ positive]

/-- The first bit of a number of no more than 53 bits at a place. -/
theorem log2_lt_of_placed {n scale kept place : Nat} (nonzero : n ≠ 0) (small : kept < 1 <<< 53)
    (whole : n <<< scale = kept <<< place) : n.log2 + scale < 53 + place := by
  rw [Nat.shiftLeft_eq, Nat.shiftLeft_eq] at whole
  refine (Nat.pow_lt_pow_iff_right (by decide : 1 < 2)).mp ?_
  calc 2 ^ (n.log2 + scale) = 2 ^ n.log2 * 2 ^ scale := Nat.pow_add ..
    _ ≤ n * 2 ^ scale := Nat.mul_le_mul_right _ (Nat.log2_self_le nonzero)
    _ = kept * 2 ^ place := whole
    _ < 2 ^ 53 * 2 ^ place := Nat.mul_lt_mul_of_pos_right small (Nat.two_pow_pos _)
    _ = 2 ^ (53 + place) := (Nat.pow_add ..).symm

/-- Where the place is that of the first bit but 52, no more than 53 bits are kept, and all of them unless the place is
the lowest. -/
theorem kept_bounds {n scale kept : Nat} (nonzero : n ≠ 0)
    (whole : kept <<< (n.log2 + scale - 52) = n <<< scale) :
    kept < 1 <<< 53 ∧ (1 <<< 52 ≤ kept ∨ n.log2 + scale - 52 = 0) := by
  rw [Nat.shiftLeft_eq, Nat.shiftLeft_eq] at whole
  have above : 2 ^ (n.log2 + scale) ≤ n * 2 ^ scale := by
    rw [Nat.pow_add]
    exact Nat.mul_le_mul_right _ (Nat.log2_self_le nonzero)
  have below : n * 2 ^ scale < 2 ^ (n.log2 + 1 + scale) := by
    rw [Nat.pow_add]
    exact Nat.mul_lt_mul_of_pos_right Nat.lt_log2_self (Nat.two_pow_pos _)
  rw [← whole] at above below
  rcases Nat.lt_or_ge (n.log2 + scale) 52 with lowest | higher
  · have place : n.log2 + scale - 52 = 0 := by omega
    rw [place, Nat.pow_zero, Nat.mul_one] at below
    have room : 2 ^ (n.log2 + 1 + scale) ≤ 2 ^ 53 := Nat.pow_le_pow_right (by decide) (by omega)
    exact ⟨Nat.lt_of_lt_of_le below room, .inr place⟩
  · rw [show n.log2 + 1 + scale = 53 + (n.log2 + scale - 52) by omega, Nat.pow_add] at below
    rw [show n.log2 + scale = 52 + (n.log2 + scale - 52) by omega, Nat.pow_add, Nat.add_sub_cancel_left] at above
    exact ⟨Nat.lt_of_mul_lt_mul_right below, .inl (Nat.le_of_mul_le_mul_right above (Nat.two_pow_pos _))⟩

/-- A number of no more than 53 bits at a place is not rounded. -/
theorem denotes_ofBinary (negative : Bool) {n scale kept place : Nat} (small : kept < 1 <<< 53) (low : place ≤ 2045)
    (whole : n <<< scale = kept <<< place) : (ofBinary negative n scale).Denotes negative (n <<< scale) := by
  unfold ofBinary
  by_cases zero : n = 0
  · rw [if_pos zero, zero, Nat.zero_shiftLeft]
    exact denotes_zero negative
  rw [if_neg zero]
  have lower : n.log2 + scale < 53 + place := log2_lt_of_placed zero small whole
  have placed {bits : Nat} (same : bits <<< (n.log2 + scale - 52) = n <<< scale) :
      (ofParts negative (min ((n.log2 + scale - 52) * 1 <<< 52 + bits) (2047 * 1 <<< 52))).Denotes negative
        (n <<< scale) := by
    obtain ⟨size, first⟩ := kept_bounds zero same
    have finite : (n.log2 + scale - 52) * 1 <<< 52 + bits ≤ 2047 * 1 <<< 52 := by
      simp only [Nat.reduceShiftLeft] at size ⊢
      omega
    rw [Nat.min_eq_left finite, ← same]
    exact denotes_ofParts size (by omega) first
  dsimp only
  split
  next fits =>
    apply placed
    rw [← Nat.shiftLeft_add, Nat.sub_add_cancel fits]
  next longer =>
    -- the bits below the place are all zero
    have divided : n = kept <<< (place - (n.log2 + scale - 52)) * 1 <<< (n.log2 + scale - 52 - scale) := by
      refine Nat.eq_of_mul_eq_mul_right (Nat.two_pow_pos scale) ?_
      rw [Nat.shiftLeft_eq, Nat.shiftLeft_eq] at whole
      rw [Nat.shiftLeft_eq]
      rw [whole, Nat.one_shiftLeft, Nat.mul_assoc, Nat.mul_assoc, ← Nat.pow_add, ← Nat.pow_add]
      congr 2
      omega
    rw [divideToEven_of_mul _ (by rw [Nat.one_shiftLeft]; exact Nat.two_pow_pos _) divided]
    apply placed
    rw [← Nat.shiftLeft_add, whole]
    congr 1
    omega

theorem Denotes.exact {x : Double} {negative : Bool} {magnitude : Nat} (denotes : x.Denotes negative magnitude) :
    x.exact = .finite (if negative then -(magnitude : Int) else magnitude) := by
  rw [Double.exact, denotes.finite, if_pos rfl, units, denotes.sign, denotes.magnitude]

/-- The magnitude of a finite double is up to 53 bits at a place. -/
theorem magnitude_placed {x : Double} (finite : x.isFinite = true) :
    ∃ kept place, kept < 1 <<< 53 ∧ place ≤ 2045 ∧ x.magnitude = kept <<< place := by
  have small : x.fraction < 1 <<< 52 := Nat.mod_lt _ (by decide)
  have bound : x.exponent < 1 <<< 11 := Nat.mod_lt _ (by decide)
  have exponent : x.exponent ≠ 2047 := by simpa [isFinite] using finite
  simp only [Nat.reduceShiftLeft] at bound
  rw [Double.magnitude]
  split
  · refine ⟨x.fraction, 0, ?_, by omega, by simp⟩
    simp only [Nat.reduceShiftLeft] at small ⊢
    omega
  · refine ⟨1 <<< 52 + x.fraction, x.exponent - 1, ?_, by omega, rfl⟩
    simp only [Nat.reduceShiftLeft] at small ⊢
    omega

end Double

end RecordQuery
