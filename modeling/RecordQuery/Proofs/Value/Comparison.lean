import Mathlib.Logic.ExistsUnique
import RecordQuery.Proofs.Record.Order
import RecordQuery.Value.Comparison
/-! What relational operators say of two values. Seen from the other side they say the converse; within a kind they
follow the order of values, and so find equal what grouping finds equal, but for records that only their members tell
apart. -/

namespace RecordQuery

theorem compareTexts_swap (ignoreCase : Bool) (left right : String) :
    compareTexts ignoreCase right left = (compareTexts ignoreCase left right).swap := by
  unfold compareTexts
  split <;> exact Std.OrientedOrd.eq_swap

namespace RecordOf

variable {a b : Record}

/-- Between records of one type name that share their members, equality holds from both sides or from neither. -/
theorem equal_comm_of_shared (first : a.Dynamic) (second : b.Dynamic)
    (shared : a.typeName = b.typeName → a.type = b.type) : a.equal b = b.equal a := by
  have names (type : a.typeName = b.typeName) : a.names = b.names := by rw [names_eq, names_eq, shared type]
  refine equal_comm first second (fun same => ?_) (fun same => ?_)
  · exact names ((equal_iff first b).mp same).1 ▸ List.Subset.refl _
  · exact names ((equal_iff second a).mp same).1.symm ▸ List.Subset.refl _

end RecordOf

namespace Value

/-- A value without records, or a record whose members hold none. -/
def Flat (value : Value) : Prop := value.records = [] ∨ ∃ record, value = .object record ∧ record.Dynamic

/-- Records of one type name in the two values share their members. -/
def SharesTypes (a b : Value) : Prop :=
  ∀ record ∈ a.records, ∀ other ∈ b.records, record.typeName = other.typeName → record.type = other.type

variable {a b : Value}

instance : Decidable (a.SharesTypes b) :=
  inferInstanceAs (Decidable (∀ record ∈ a.records, ∀ other ∈ b.records,
    record.typeName = other.typeName → record.type = other.type))

theorem Flat.plain (flat : a.Flat) (noRecord : ∀ record, a ≠ .object record) : a.records = [] :=
  flat.resolve_right fun ⟨record, same, _⟩ => noRecord record same

theorem Flat.dynamic {record : Record} (flat : (object record).Flat) : record.Dynamic := by
  rcases flat with plain | ⟨other, same, dynamic⟩
  · cases plain ▸ mem_records_self record
  · cases same
    exact dynamic

end Value

section Kinds

variable {ignoreCase : Bool} {a b : Value}

/-- Values of two kinds are compared by their texts, unless one is null. -/
theorem compareValues_of_rank_ne (other : a.kindRank ≠ b.kindRank) :
    compareValues ignoreCase a b =
      if a.isNull || b.isNull then none else some (compareTexts ignoreCase a.text b.text) := by
  cases a <;> cases b <;> first | exact absurd rfl other | rfl

theorem compareValues_records_swap {a b : Record} (first : a.Dynamic) (second : b.Dynamic)
    (shared : a.typeName = b.typeName → a.type = b.type) :
    compareValues ignoreCase (.object b) (.object a) =
      (compareValues ignoreCase (.object a) (.object b)).map Ordering.swap := by
  have unordered : a.compare? b = none ∧ b.compare? a = none := by
    simp [RecordOf.compare?, first.unordered, second.unordered]
  rw [compareValues, compareValues, RecordOf.equal_comm_of_shared first second shared, unordered.1, unordered.2,
    compareTexts_swap ignoreCase (Value.object a).text, BEq.comm (a := a.typeName)]
  cases b.typeName == a.typeName <;> cases b.equal a <;> rfl

/-- Two values compare in opposite orders from their two sides, and from neither if exactly one is null. -/
theorem compareValues_swap (first : a.Flat) (second : b.Flat) (shared : a.SharesTypes b) :
    compareValues ignoreCase b a = (compareValues ignoreCase a b).map Ordering.swap := by
  by_cases same : a.kindRank = b.kindRank
  · cases a with
    | string l =>
      cases b <;> cases same
      exact congrArg some (compareTexts_swap ..)
    | object record =>
      cases b <;> cases same
      next other =>
        exact compareValues_records_swap first.dynamic second.dynamic
          (shared record (Value.mem_records_self record) other (Value.mem_records_self other))
    | _ =>
      have swapped := Value.compare_swap _ b (first.plain nofun)
      cases b <;> cases same <;> exact congrArg some swapped
  · rw [compareValues_of_rank_ne same, compareValues_of_rank_ne (Ne.symm same), Bool.or_comm]
    split
    · rfl
    · exact congrArg some (compareTexts_swap ..)

theorem compareValues_eq_none_iff : compareValues ignoreCase a b = none ↔ a.isNull ≠ b.isNull := by
  by_cases same : a.kindRank = b.kindRank
  · cases a with
    | object record =>
      cases b <;> cases same
      rw [compareValues]
      split
      · split <;> simp [Value.isNull]
      · simp [Value.isNull]
    | _ => cases b <;> cases same <;> simp [compareValues, Value.isNull, Value.kindRank]
  · rw [compareValues_of_rank_ne same]
    cases a <;> cases b <;> first | exact absurd rfl same | simp [Value.isNull]

end Kinds

namespace CompareOp

variable {ignoreCase : Bool} {a b : Value}

/-- Whether the operator holds of two values. -/
def holds (op : CompareOp) (ignoreCase : Bool) (a b : Value) : Bool := op.test (compareValues ignoreCase a b)

/-- The operator that says the same with its sides exchanged. -/
def converse : CompareOp → CompareOp
  | eq => eq
  | ne => ne
  | lt => gt
  | le => ge
  | gt => lt
  | ge => le

theorem test_converse (op : CompareOp) (order : Option Ordering) :
    op.converse.test (order.map Ordering.swap) = op.test order := by
  cases op <;> rcases order with _ | _ | _ | _ <;> rfl

/-- Of an order exactly one of the operators less, equal and greater holds. -/
theorem existsUnique_test (order : Ordering) : ∃! op, op ∈ [lt, eq, gt] ∧ op.test (some order) = true := by
  cases order
  case lt => exact ⟨lt, by decide, by rintro (_ | _ | _ | _ | _ | _) <;> decide⟩
  case eq => exact ⟨eq, by decide, by rintro (_ | _ | _ | _ | _ | _) <;> decide⟩
  case gt => exact ⟨gt, by decide, by rintro (_ | _ | _ | _ | _ | _) <;> decide⟩

theorem test_none (op : CompareOp) : op.test none = true ↔ op = ne := by
  cases op <;> decide

/-- Operators are coherent: each holds exactly if its converse does from the other side, unequal says what equal does
not, one of less, equal and greater holds between values that are not null, and only unequal between null and another
value. -/
theorem operators_coherent (ignoreCase : Bool) (first : a.Flat) (second : b.Flat) (shared : a.SharesTypes b) :
    compareValues ignoreCase b a = (compareValues ignoreCase a b).map Ordering.swap ∧
      (∀ op : CompareOp, op.holds ignoreCase a b = op.converse.holds ignoreCase b a) ∧
      ne.holds ignoreCase a b = !eq.holds ignoreCase a b ∧
      (a.isNull = false → b.isNull = false → ∃! op, op ∈ [lt, eq, gt] ∧ op.holds ignoreCase a b = true) ∧
      (a.isNull ≠ b.isNull → ∀ op : CompareOp, op.holds ignoreCase a b = true ↔ op = ne) := by
  have swapped : compareValues ignoreCase b a = (compareValues ignoreCase a b).map Ordering.swap :=
    compareValues_swap first second shared
  refine ⟨swapped, fun op => ?_, rfl, fun known known' => ?_, fun oneNull op => ?_⟩
  · rw [holds, holds, swapped, test_converse]
  · obtain ⟨order, compared⟩ : ∃ order, compareValues ignoreCase a b = some order := by
      refine Option.ne_none_iff_exists'.mp fun uncompared => ?_
      exact compareValues_eq_none_iff.mp uncompared (known.trans known'.symm)
    simp only [holds, compared]
    exact existsUnique_test order
  · rw [holds, compareValues_eq_none_iff.mpr oneNull]
    exact test_none op

open RecordOf in
/-- Two points whose labels differ in case alone, with case ignored. -/
theorem operators_coherent_on_points :
    let upper : Value := .object (point (.string "A"))
    let lower : Value := .object (point (.string "a"))
    (upper.Flat ∧ lower.Flat ∧ upper.SharesTypes lower) ∧
      compareValues true lower upper = (compareValues true upper lower).map Ordering.swap ∧
      (∀ op : CompareOp, op.holds true upper lower = op.converse.holds true lower upper) ∧
      ne.holds true upper lower = !eq.holds true upper lower ∧
      (upper.isNull = false → lower.isNull = false → ∃! op, op ∈ [lt, eq, gt] ∧ op.holds true upper lower = true) ∧
      (upper.isNull ≠ lower.isNull → ∀ op : CompareOp, op.holds true upper lower = true ↔ op = ne) := by
  intro upper lower
  have first : upper.Flat := .inr ⟨_, rfl, by decide⟩
  have second : lower.Flat := .inr ⟨_, rfl, by decide⟩
  have shared : upper.SharesTypes lower := by decide
  exact ⟨⟨first, second, shared⟩, operators_coherent true first second shared⟩

end CompareOp

section Equal

variable {a b : Value}

/-- Within a kind, and among records within a type, operators that heed case follow the order of values. -/
theorem compareValues_eq_compare (same : a.kindRank = b.kindRank)
    (oneType : ∀ record other, a = .object record → b = .object other → record.typeName = other.typeName) :
    compareValues false a b = some (a.compare b) := by
  cases a with
  | object record =>
    cases b <;> cases same
    next other =>
      have type := oneType record other rfl rfl
      rw [RecordOf.compare_eq, compareRecords, compareValues, if_pos (beq_iff_eq.mpr type), type,
        Std.ReflOrd.compare_self, Ordering.eq_then, compareTexts]
      split <;> rfl
  | _ => cases b <;> cases same <;> rfl

/-- Within a kind, and among records within a type, equal values are found equal. The converse holds too, unless the
values hold confusable records; of two records it fails exactly if they are confusable. -/
theorem equals_iff_equal (same : a.kindRank = b.kindRank)
    (oneType : ∀ record other, a = .object record → b = .object other → record.typeName = other.typeName) :
    (a.equal b = true → compareValues false a b = some .eq) ∧
      (RecordOf.Apart a.records b.records → (compareValues false a b = some .eq ↔ a.equal b = true)) ∧
      ∀ record other, a = .object record → b = .object other →
        (compareValues false a b = some .eq ↔ a.equal b = true ∨ record.Confusable other) := by
  have coincides := Value.compare_coincides a b
  rw [compareValues_eq_compare same oneType, Option.some.injEq]
  refine ⟨coincides.level, coincides.iff, ?_⟩
  rintro record other rfl rfl
  exact RecordOf.compare_eq_iff record other

open RecordOf in
/-- Points with one as an integer and as a double. -/
theorem equals_iff_equal_on_points :
    let integer : Value := .object (point (.int32 1))
    let double : Value := .object (point (.float64 .one))
    (integer.kindRank = double.kindRank ∧ ∀ record other, integer = .object record → double = .object other →
      record.typeName = other.typeName) ∧
    (integer.equal double = true → compareValues false integer double = some .eq) ∧
      (Apart integer.records double.records →
        (compareValues false integer double = some .eq ↔ integer.equal double = true)) ∧
      ∀ record other, integer = .object record → double = .object other →
        (compareValues false integer double = some .eq ↔ integer.equal double = true ∨ record.Confusable other) := by
  intro integer double
  have oneType : ∀ record other, integer = .object record → double = .object other →
      record.typeName = other.typeName := by
    intro record other first second
    obtain rfl : point (.int32 1) = record := Value.object.inj first
    obtain rfl : point (.float64 .one) = other := Value.object.inj second
    rfl
  exact ⟨⟨rfl, oneType⟩, equals_iff_equal rfl oneType⟩

open RecordOf in
/-- The number one and the text of it make points of one type that are found equal, though they are not. -/
theorem equals_fails_on_points :
    let number := point (.int32 1)
    let text := point (.string "1")
    (number.Dynamic ∧ text.Dynamic ∧ number.type = text.type) ∧
      compareValues false (.object number) (.object text) = some .eq ∧
      (Value.object number).equal (.object text) = false := by
  decide

end Equal

end RecordQuery
