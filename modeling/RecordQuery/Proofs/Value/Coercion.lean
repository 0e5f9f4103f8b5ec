import RecordQuery.Proofs.Value.Numbers
import RecordQuery.Value.Arithmetic
/-! Numbers as arguments for parameters of integer types. A number fits such a type exactly if it denotes an integer
that the type can hold, and is that integer then, neither rounded nor wrapped. -/

namespace RecordQuery

theorem ExtendedRational.rational_inj {p q : ℚ} : rational p = rational q ↔ p = q := by
  rw [rational, rational, WithTop.coe_inj, WithBot.coe_inj, WithTop.coe_inj]

namespace DataType

def IsInteger (type : DataType) : Prop := type = int32 ∨ type = int64

/-- The integers that a type can hold. -/
def CanHold : DataType → Int → Prop
  | int32, n => -2 ^ 31 ≤ n ∧ n < 2 ^ 31
  | int64, n => -2 ^ 63 ≤ n ∧ n < 2 ^ 63
  | _, _ => False

end DataType

namespace Value

/-- The value is a given integer, in the width of a type. -/
structure IsIntegerIn (value : Value) (type : DataType) (n : Int) : Prop where
  dataType : value.dataType? = some type
  denoted : value.denoted? = some (.rational n)

variable {value held : Value} {target : DataType} {n : Int}

theorem denoted?_eq_rational_iff : value.denoted? = some (.rational n) ↔ value.exactValue? = some (.ofInt n) := by
  rw [denoted?_eq, Option.map_eq_some_iff, ← Exact.extended_ofInt]
  constructor
  · intro ⟨exact, found, same⟩
    rw [found, Exact.extended_inj.mp same]
  · intro found
    exact ⟨_, found, rfl⟩

/-- Values that denote one integer are equal. -/
theorem equal_of_denoted (left : held.denoted? = some (.rational n)) (right : value.denoted? = some (.rational n)) :
    held.equal value = true := by
  rw [denoted?_eq_rational_iff] at left right
  have number : held.isNumeric = true := by cases held <;> first | rfl | cases left
  rw [equal_numeric value number, sameExact, left, right]
  exact beq_self_eq_true _

theorem wholeNumber?_eq_some_iff {i : Int64} :
    value.wholeNumber? = some i ↔ value.denoted? = some (.rational i.toInt) := by
  have integer (j : Int64) : some j = some i ↔ some (Exact.ofInt j.toInt) = some (Exact.ofInt i.toInt) := by
    rw [Option.some_inj, Option.some_inj]
    exact ⟨fun same => same ▸ rfl, fun same => Int64.toInt_inj.mp (Exact.ofInt_inj same)⟩
  rw [denoted?_eq_rational_iff]
  cases value with
  | int32 j => rw [wholeNumber?, exactValue?, ← Int32.toInt_toInt64, integer]
  | int64 j => exact integer j
  | float64 x => rw [wholeNumber?, exactValue?, Double.int64?_eq_some_iff, Option.some_inj]
  | null | boolean _ | string _ | dateTime _ | bytes _ | list _ | map _ | object _ =>
    simp only [wholeNumber?, exactValue?, reduceCtorEq]

/-- An integer of 64 bits fits into 32 bits as itself. -/
theorem narrow?_eq_some_iff {i : Int64} {j : Int32} : narrow? i = some j ↔ j.toInt = i.toInt := by
  have least : Int32.minValue.toInt64.toInt = -2 ^ 31 := by decide
  have greatest : Int32.maxValue.toInt64.toInt = 2 ^ 31 - 1 := by decide
  simp only [narrow?, Int64.le_iff_toInt_le, least, greatest]
  constructor
  · intro found
    split at found
    next inside =>
      cases found
      rw [Int64.toInt_toInt32]
      exact Int.bmod_eq_of_le (by omega) (by omega)
    next => cases found
  · intro same
    have low := j.le_toInt
    have high := j.toInt_lt
    rw [if_pos (by omega), Option.some_inj, ← Int32.toInt_inj, Int64.toInt_toInt32, same]
    exact Int.bmod_eq_of_le (by omega) (by omega)

/-! What fits the two integer types. -/

theorem inType?_int64_eq_some_iff :
    value.inType? .int64 = some held ↔ ∃ i : Int64, value.denoted? = some (.rational i.toInt) ∧ int64 i = held := by
  simp only [inType?, Option.map_eq_some_iff, wholeNumber?_eq_some_iff]

theorem inType?_int32_eq_some_iff :
    value.inType? .int32 = some held ↔ ∃ i : Int32, value.denoted? = some (.rational i.toInt) ∧ int32 i = held := by
  simp only [inType?, Option.map_eq_some_iff, Option.bind_eq_some_iff, wholeNumber?_eq_some_iff, narrow?_eq_some_iff]
  constructor
  · intro ⟨i, ⟨wide, denoted, same⟩, whole⟩
    exact ⟨i, same ▸ denoted, whole⟩
  · intro ⟨i, denoted, whole⟩
    exact ⟨i, ⟨i.toInt64, by rwa [Int32.toInt_toInt64], (Int32.toInt_toInt64 i).symm⟩, whole⟩

theorem isIntegerIn_int64_iff : held.IsIntegerIn .int64 n ↔ ∃ i : Int64, i.toInt = n ∧ int64 i = held := by
  constructor
  · intro ⟨type, denoted⟩
    cases held <;> cases type
    next i => exact ⟨i, Int.cast_inj.mp (ExtendedRational.rational_inj.mp (Option.some.inj denoted)), rfl⟩
  · intro ⟨i, same, whole⟩
    subst same whole
    exact ⟨rfl, rfl⟩

theorem isIntegerIn_int32_iff : held.IsIntegerIn .int32 n ↔ ∃ i : Int32, i.toInt = n ∧ int32 i = held := by
  constructor
  · intro ⟨type, denoted⟩
    cases held <;> cases type
    next i => exact ⟨i, Int.cast_inj.mp (ExtendedRational.rational_inj.mp (Option.some.inj denoted)), rfl⟩
  · intro ⟨i, same, whole⟩
    subst same whole
    exact ⟨rfl, rfl⟩

/-- What fits an integer type is the integer that the number denotes, in that type. -/
theorem inType?_eq_some_iff (integer : target.IsInteger) :
    value.inType? target = some held ↔ ∃ n : Int, value.denoted? = some (.rational n) ∧ held.IsIntegerIn target n := by
  rcases integer with same | same
  · subst same
    simp only [inType?_int32_eq_some_iff, isIntegerIn_int32_iff]
    exact ⟨fun ⟨i, denoted, whole⟩ => ⟨i.toInt, denoted, i, rfl, whole⟩,
      fun ⟨_, denoted, i, same, whole⟩ => ⟨i, same ▸ denoted, whole⟩⟩
  · subst same
    simp only [inType?_int64_eq_some_iff, isIntegerIn_int64_iff]
    exact ⟨fun ⟨i, denoted, whole⟩ => ⟨i.toInt, denoted, i, rfl, whole⟩,
      fun ⟨_, denoted, i, same, whole⟩ => ⟨i, same ▸ denoted, whole⟩⟩

/-- An integer type has a value for exactly the integers that it can hold. -/
theorem exists_isIntegerIn_iff (integer : target.IsInteger) :
    (∃ held : Value, held.IsIntegerIn target n) ↔ target.CanHold n := by
  rcases integer with same | same
  · subst same
    simp only [isIntegerIn_int32_iff, DataType.CanHold]
    constructor
    · intro ⟨_, i, same, _⟩
      exact same ▸ ⟨i.le_toInt, i.toInt_lt⟩
    · intro ⟨low, high⟩
      exact ⟨_, .ofInt n, Int32.toInt_ofInt_of_le low high, rfl⟩
  · subst same
    simp only [isIntegerIn_int64_iff, DataType.CanHold]
    constructor
    · intro ⟨_, i, same, _⟩
      exact same ▸ ⟨i.le_toInt, i.toInt_lt⟩
    · intro ⟨low, high⟩
      exact ⟨_, .ofInt n, Int64.toInt_ofInt_of_le low high, rfl⟩

section Coerce

variable (number : value.isNumeric = true) (integer : target.IsInteger) (typeName : String)
include number

theorem coerce_eq_ok_iff : value.coerce target typeName = .ok held ↔ value.inType? target = some held := by
  rw [coerce, number]
  cases value.inType? target <;> simp

include integer

/-- A number fits a parameter of an integer type as the integer that it denotes, equal to itself. -/
theorem coerce_of_canHold (denoted : value.denoted? = some (.rational n)) (inside : target.CanHold n) :
    ∃ held : Value, value.coerce target typeName = .ok held ∧ held.IsIntegerIn target n ∧ held.equal value = true := by
  obtain ⟨held, whole⟩ := (exists_isIntegerIn_iff integer).mpr inside
  refine ⟨held, ?_, whole, equal_of_denoted whole.denoted denoted⟩
  exact (coerce_eq_ok_iff number typeName).mpr ((inType?_eq_some_iff integer).mpr ⟨n, denoted, whole⟩)

/-- What fits is such an integer. -/
theorem canHold_of_coerce (fits : value.coerce target typeName = .ok held) :
    ∃ n : Int, value.denoted? = some (.rational n) ∧ target.CanHold n ∧ held.IsIntegerIn target n ∧
      held.equal value = true := by
  obtain ⟨n, denoted, whole⟩ := (inType?_eq_some_iff integer).mp ((coerce_eq_ok_iff number typeName).mp fits)
  exact ⟨n, denoted, (exists_isIntegerIn_iff integer).mp ⟨held, whole⟩, whole, equal_of_denoted whole.denoted denoted⟩

/-- All other numbers are refused. -/
theorem coerce_of_not_canHold (other : ∀ n : Int, value.denoted? = some (.rational n) → ¬target.CanHold n) :
    value.coerce target typeName =
      .error (.construction typeName (value.quoted ++ " does not fit " ++ target.text)) := by
  have misfit : value.inType? target = none := by
    apply Option.eq_none_iff_forall_ne_some.mpr
    intro held found
    obtain ⟨n, denoted, inside, -⟩ :=
      canHold_of_coerce number integer typeName ((coerce_eq_ok_iff number typeName).mpr found)
    exact other n denoted inside
  rw [coerce, number, misfit]
  rfl

end Coerce

end Value

end RecordQuery
