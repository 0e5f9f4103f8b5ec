import Mathlib.Algebra.Order.Field.Rat
import Mathlib.Order.Compare
import Mathlib.Order.WithBot
import Mathlib.Tactic.FieldSimp
import Mathlib.Tactic.NormNum
import Mathlib.Tactic.Ring
import RecordQuery.Proofs.Value.Equality
/-! Numbers of every width are in the order of the numbers they denote, as rational numbers, and are equal exactly if
they denote the same one. What a double denotes is read off its sign, exponent and fraction. -/

namespace RecordQuery

/-- The rational numbers between the two infinities, and above all of these the missing number. -/
abbrev ExtendedRational := WithTop (WithBot (WithTop ℚ))

namespace ExtendedRational

def rational (q : ℚ) : ExtendedRational := ((q : WithTop ℚ) : WithBot (WithTop ℚ))

def infinity : ExtendedRational := ((⊤ : WithTop ℚ) : WithBot (WithTop ℚ))

def negativeInfinity : ExtendedRational := (⊥ : WithBot (WithTop ℚ))

def missing : ExtendedRational := ⊤

end ExtendedRational

namespace Double

/-- The number that the fields of a finite double stand for: the fraction behind a leading one, or behind a zero at the
least exponent, times a power of two, with a sign. -/
def rational (x : Double) : ℚ :=
  let sign : ℚ := if x.negative then -1 else 1
  if x.exponent = 0 then sign * (x.fraction / 2 ^ 52) * 2 ^ (-1022 : ℤ)
  else sign * (1 + x.fraction / 2 ^ 52) * 2 ^ ((x.exponent : ℤ) - 1023)

/-- What a double denotes. -/
def denoted (x : Double) : ExtendedRational :=
  if x.isNaN then .missing
  else if x.isFinite then .rational x.rational
  else if x.negative then .negativeInfinity
  else .infinity

/-- The fields of a finite double stand for its units of 2⁻¹⁰⁷⁴. -/
theorem rational_eq (x : Double) : x.rational = x.units / (unitsPerOne : ℚ) := by
  have shifted (n : Nat) : ((1 <<< n : Nat) : ℚ) = 2 ^ n := by
    rw [Nat.one_shiftLeft, Nat.cast_pow, Nat.cast_ofNat]
  have unit : (unitsPerOne : ℚ) = 2 ^ 52 * 2 ^ 1022 := (shifted (52 + 1022)).trans (pow_add 2 52 1022)
  have least : (2 : ℚ) ^ (-1022 : ℤ) = (2 ^ 1022)⁻¹ := by
    rw [zpow_neg]
    rfl
  have nonzero : (2 : ℚ) ^ 1022 ≠ 0 := pow_ne_zero _ (by decide)
  have sized : x.rational = (if x.negative then -1 else 1) * (x.magnitude / (unitsPerOne : ℚ)) := by
    rw [unit]
    unfold rational magnitude
    generalize (if x.negative then (-1 : ℚ) else 1) = sign
    by_cases lowest : x.exponent = 0
    · rw [if_pos lowest, if_pos lowest, least]
      generalize (2 : ℚ) ^ 1022 = scale at *
      field_simp
    · have power : (2 : ℚ) ^ ((x.exponent : ℤ) - 1023) = 2 ^ (x.exponent - 1) * (2 ^ 1022)⁻¹ := by
        rw [← least, ← zpow_natCast, ← zpow_add₀ (by decide)]
        congr 1
        omega
      rw [if_neg lowest, if_neg lowest, power, Nat.shiftLeft_eq (1 <<< 52 + x.fraction), Nat.cast_mul, Nat.cast_add,
        shifted 52, Nat.cast_pow, Nat.cast_ofNat]
      generalize (2 : ℚ) ^ 1022 = scale at *
      field_simp
  rw [sized]
  unfold units
  split <;> simp [neg_div]

end Double

namespace Exact

/-- The rational number of an exact value. -/
def extended : Exact → ExtendedRational
  | nan => .missing
  | infinite true => .negativeInfinity
  | infinite false => .infinity
  | finite units => .rational (units / (Double.unitsPerOne : ℚ))

theorem extended_ofInt (i : Int) : (ofInt i).extended = .rational i := by
  have nonzero : (Double.unitsPerOne : ℚ) ≠ 0 := Nat.cast_ne_zero.mpr (Nat.ne_of_gt Double.unitsPerOne_pos)
  rw [ofInt, extended]
  push_cast
  rw [mul_div_cancel_right₀ _ nonzero]

/-- What comes first denotes less. -/
theorem extended_lt_of_compare {a b : Exact} (less : a.compare b = .lt) : a.extended < b.extended := by
  have positive : (0 : ℚ) < Double.unitsPerOne := Nat.cast_pos.mpr Double.unitsPerOne_pos
  have above (q : ℚ) : ExtendedRational.negativeInfinity < .rational q := WithTop.coe_lt_coe.mpr (WithBot.bot_lt_coe _)
  have below (q : ℚ) : ExtendedRational.rational q < .infinity :=
    WithTop.coe_lt_coe.mpr (WithBot.coe_lt_coe.mpr (WithTop.coe_lt_top q))
  rcases a with ⟨_ | _⟩ | units | _ <;> rcases b with ⟨_ | _⟩ | units' | _ <;> try cases less
  case infinite.true.infinite.false => exact (above 0).trans (below 0)
  case infinite.true.finite => exact above _
  case finite.infinite.false => exact below _
  case finite.finite =>
    have fewer : (units : ℚ) < units' := Int.cast_lt.mpr (Int.compare_eq_lt.mp less)
    exact WithTop.coe_lt_coe.mpr (WithBot.coe_lt_coe.mpr (WithTop.coe_lt_coe.mpr (div_lt_div_of_pos_right fewer positive)))
  all_goals exact WithTop.coe_lt_top _

/-- Exact values are in the order of the rational numbers that they stand for. -/
theorem compare_eq_cmp (a b : Exact) : a.compare b = cmp a.extended b.extended := by
  cases order : a.compare b with
  | lt => exact ((cmp_eq_lt_iff ..).mpr (extended_lt_of_compare order)).symm
  | eq => rw [(compare_eq_iff a b).mp order, cmp_self_eq_eq]
  | gt =>
    have swapped : b.compare a = .lt := by rw [compare_swap, order]; rfl
    exact ((cmp_eq_gt_iff ..).mpr (extended_lt_of_compare swapped)).symm

theorem extended_inj {a b : Exact} : a.extended = b.extended ↔ a = b := by
  rw [← compare_eq_iff, compare_eq_cmp, cmp_eq_eq_iff]

end Exact

theorem Double.denoted_eq (x : Double) : x.denoted = x.exact.extended := by
  unfold denoted exact
  cases finite : x.isFinite
  · cases missing : x.isNaN <;> cases x.negative <;> rfl
  · rw [isNaN_of_finite finite]
    exact congrArg ExtendedRational.rational x.rational_eq

namespace Value

/-- What a number denotes; other values denote none. -/
def denoted? : Value → Option ExtendedRational
  | int32 i => some (.rational i.toInt)
  | int64 i => some (.rational i.toInt)
  | float64 x => some x.denoted
  | _ => none

theorem denoted?_eq (a : Value) : a.denoted? = a.exactValue?.map Exact.extended := by
  cases a <;> simp only [denoted?, exactValue?, Option.map_some, Option.map_none, Exact.extended_ofInt, Double.denoted_eq]

/-- Numbers of any widths are in the order of what they denote, without rounding, and are equal exactly if they denote
the same. -/
theorem compare_denoted {a b : Value} (left : a.isNumeric = true) (right : b.isNumeric = true) :
    ∃ x y, a.denoted? = some x ∧ b.denoted? = some y ∧ a.compare b = cmp x y ∧ (a.equal b = true ↔ x = y) := by
  obtain ⟨-, x, denoted⟩ := exactValue?_of_rank left rfl
  obtain ⟨-, y, denoted'⟩ := exactValue?_of_rank right rfl
  refine ⟨x.extended, y.extended, ?_, ?_, ?_, ?_⟩
  · rw [denoted?_eq, denoted, Option.map_some]
  · rw [denoted?_eq, denoted', Option.map_some]
  · rw [compare_numeric b left, compareExact, denoted, denoted']
    exact Exact.compare_eq_cmp x y
  · rw [equal_numeric b left, sameExact, denoted, denoted', Exact.extended_inj]
    exact beq_iff_eq

/-- The double 2⁵³ denotes that integer, which the next one, rounded, would be. -/
theorem compare_denoted_next_to_integer :
    let next : Value := .int64 9007199254740993
    let double : Value := .float64 ⟨0x4340000000000000⟩
    (next.isNumeric = true ∧ double.isNumeric = true) ∧ double.denoted? = some (.rational 9007199254740992) ∧
      ∃ x y, next.denoted? = some x ∧ double.denoted? = some y ∧ next.compare double = cmp x y ∧
        (next.equal double = true ↔ x = y) := by
  intro next double
  have fields : (Double.mk 0x4340000000000000).rational = 9007199254740992 := by
    have exponent : (Double.mk 0x4340000000000000).exponent = 1076 := by decide
    have fraction : (Double.mk 0x4340000000000000).fraction = 0 := by decide
    have sign : (Double.mk 0x4340000000000000).negative = false := by decide
    rw [Double.rational, exponent, fraction, sign]
    norm_num
  refine ⟨⟨rfl, rfl⟩, ?_, compare_denoted rfl rfl⟩
  rw [← fields]
  rfl

end Value

end RecordQuery
