import RecordQuery.Proofs.Value.Order
/-! Equality of values: what their order calls equal, but for records that it cannot tell apart. Without records it is
an equivalence. -/

namespace RecordQuery

theorem compareLists_eq_iff {α : Type} (order : α → α → Ordering) [Std.LawfulEqCmp order]
    (as bs : List α) : compareLists order as bs = .eq ↔ as = bs := by
  induction as generalizing bs with
  | nil => cases bs <;> simp [compareLists]
  | cons a as ih =>
    cases bs with
    | nil => simp [compareLists]
    | cons b bs => rw [compareLists, Ordering.then_eq_eq, Std.LawfulEqCmp.compare_eq_iff_eq, ih, List.cons.injEq]

instance lawfulEqCmp_toNat : Std.LawfulEqCmp fun a b : UInt8 => Ord.compare a.toNat b.toNat where
  eq_of_compare same := UInt8.toNat_inj.mp (Nat.compare_eq_eq.mp same)

/-- Two exact values in neither order are one. -/
theorem Exact.compare_eq_iff (a b : Exact) : a.compare b = .eq ↔ a = b := by
  rw [compare_eq, Ordering.then_eq_eq, Nat.compare_eq_eq, Int.compare_eq_eq]
  rcases a with ⟨_ | _⟩ | units | _ <;> rcases b with ⟨_ | _⟩ | units' | _ <;> simp [rank, amount]

namespace Value

theorem equal_numeric {a : Value} (b : Value) (number : a.isNumeric = true) : a.equal b = a.sameExact b := by
  rw [← sameNumber_eq]
  cases a <;> first | rfl | cases number

/-- Values of different kinds differ. -/
theorem equal_of_rank_ne {a b : Value} (other : a.kindRank ≠ b.kindRank) : a.equal b = false := by
  cases a <;> cases b <;> first | rfl | exact absurd rfl other

end Value

/-- What the order and the equality of two items say of each other: equal items have one place, and items of one place
are equal if they are told apart. -/
structure Coincides (order : Ordering) (equal : Bool) (apart : Prop) : Prop where
  level : equal = true → order = .eq
  equal : apart → order = .eq → equal = true

namespace Coincides

variable {order order' : Ordering} {equal equal' : Bool} {apart apart' : Prop}

theorem of_iff (same : order = .eq ↔ equal = true) : Coincides order equal apart := ⟨same.mpr, fun _ => same.mp⟩

theorem iff (coincides : Coincides order equal apart) (told : apart) : order = .eq ↔ equal = true :=
  ⟨coincides.equal told, coincides.level⟩

theorem mono (coincides : Coincides order equal apart) (told : apart' → apart) : Coincides order equal apart' :=
  ⟨coincides.level, fun all => coincides.equal (told all)⟩

theorem andThen (first : Coincides order equal apart) (second : Coincides order' equal' apart') :
    Coincides (order.then order') (equal && equal') (apart ∧ apart') where
  level both := by
    obtain ⟨left, right⟩ := Bool.and_eq_true_iff.mp both
    exact Ordering.then_eq_eq.mpr ⟨first.level left, second.level right⟩
  equal told both := by
    obtain ⟨left, right⟩ := Ordering.then_eq_eq.mp both
    exact Bool.and_eq_true_iff.mpr ⟨first.equal told.1 left, second.equal told.2 right⟩

end Coincides

namespace RecordOf

/-- The records differ, but nothing that orders them shows it: they have no order of their own, and one type name and
text. -/
structure Confusable (a b : Record) : Prop where
  unordered : a.compare? b = none
  typeName : a.typeName = b.typeName
  text : (Value.object a).text = (Value.object b).text
  differ : a.equal b = false

/-- No record of the first ones differs from one of the second ones without any sign of it in their order. -/
def Apart (as bs : List Record) : Prop := ∀ a ∈ as, ∀ b ∈ bs, ¬a.Confusable b

theorem Apart.mono {as bs as' bs' : List Record} (apart : Apart as' bs') (left : as ⊆ as') (right : bs ⊆ bs') :
    Apart as bs :=
  fun a first b second => apart a (left first) b (right second)

/-- The order of two records goes by their equality, then by the order that they have of their own. -/
theorem compare_eq (a b : Record) :
    (Value.object a).compare (.object b) = compareRecords (a.equal b) (a.compare? b) a b := by
  obtain ⟨typeName, fields, orderedBy⟩ := a
  cases orderedBy with
  | none => rfl
  | some member =>
    rw [Value.compare, RecordOf.equal, Value.equal, RecordOf.compare?]
    cases typeName == b.typeName <;> simp

/-- Records that have an order of their own are equal exactly if they are in neither. -/
theorem equal_eq_of_compare? {a b : Record} {order : Ordering} (ordered : a.compare? b = some order) :
    a.equal b = (order == .eq) := by
  obtain ⟨typeName, fields, orderedBy⟩ := a
  cases orderedBy with
  | none => cases ordered
  | some member =>
    rw [RecordOf.compare?] at ordered
    cases type : typeName == b.typeName with
    | false => simp [type] at ordered
    | true => simp_all [RecordOf.equal, Value.equal]

/-- Records are in neither order if they are equal or confusable. -/
theorem compare_eq_iff (a b : Record) :
    (Value.object a).compare (.object b) = .eq ↔ a.equal b = true ∨ a.Confusable b := by
  rw [compare_eq, compareRecords]
  cases verdict : a.equal b with
  | true => simp
  | false =>
    rw [if_neg Bool.false_ne_true, or_iff_right Bool.false_ne_true]
    cases ordered : a.compare? b with
    | some order =>
      have differ : order ≠ .eq := by simpa [verdict] using equal_eq_of_compare? ordered
      exact iff_of_false differ fun confusable => nomatch ordered.symm.trans confusable.unordered
    | none =>
      rw [Option.getD_none, Ordering.then_eq_eq, Std.LawfulEqOrd.compare_eq_iff_eq, Std.LawfulEqOrd.compare_eq_iff_eq]
      exact ⟨fun ⟨type, text⟩ => ⟨ordered, type, text, verdict⟩,
        fun confusable => ⟨confusable.typeName, confusable.text⟩⟩

end RecordOf

namespace Value

theorem coincides_of_same_kind {a b : Value} {apart : Prop}
    (within : a.kindRank = b.kindRank → Coincides (a.compare b) (a.equal b) apart) :
    Coincides (a.compare b) (a.equal b) apart := by
  by_cases same : a.kindRank = b.kindRank
  · exact within same
  · rw [compare_of_rank_ne same, equal_of_rank_ne same]
    exact .of_iff (by simp [same])

theorem coincides_of_numeric {a b : Value} {apart : Prop} (number : a.isNumeric = true) :
    Coincides (a.compare b) (a.equal b) apart := by
  refine coincides_of_same_kind fun same => .of_iff ?_
  obtain ⟨-, x, denoted⟩ := exactValue?_of_rank number rfl
  obtain ⟨-, y, denoted'⟩ := exactValue?_of_rank number same
  rw [compare_numeric b number, equal_numeric b number]
  simp only [compareExact, sameExact, denoted, denoted', Exact.compare_eq_iff, beq_iff_eq]

end Value

mutual
/-- Order and equality of values agree but for confusable records inside. -/
theorem Value.compare_coincides : ∀ (a b : Value),
    Coincides (a.compare b) (a.equal b) (RecordOf.Apart a.records b.records)
  | .null, b => Value.coincides_of_same_kind fun same => by
    cases b <;> cases same
    exact .of_iff (iff_of_true rfl rfl)
  | .boolean _, b => Value.coincides_of_same_kind fun same => .of_iff <| by
    cases b <;> cases same
    simp only [Value.compare, Value.equal, Std.LawfulEqOrd.compare_eq_iff_eq, beq_iff_eq]
  | .int32 _, _ => Value.coincides_of_numeric rfl
  | .int64 _, _ => Value.coincides_of_numeric rfl
  | .float64 _, _ => Value.coincides_of_numeric rfl
  | .string _, b => Value.coincides_of_same_kind fun same => .of_iff <| by
    cases b <;> cases same
    simp only [Value.compare, Value.equal, Std.LawfulEqOrd.compare_eq_iff_eq, beq_iff_eq]
  | .dateTime _, b => Value.coincides_of_same_kind fun same => .of_iff <| by
    cases b <;> cases same
    simp only [Value.compare, Value.equal, Int.compare_eq_eq, Int64.toInt_inj, beq_iff_eq]
  | .bytes as, b => Value.coincides_of_same_kind fun same => .of_iff <| by
    cases b <;> cases same
    simp only [Value.compare, Value.equal, compareLists_eq_iff, beq_iff_eq]
  | .list as, b => Value.coincides_of_same_kind fun same => by
    cases b <;> cases same
    exact compareItems_coincide as _
  | .map as, b => Value.coincides_of_same_kind fun same => by
    cases b <;> cases same
    exact compareEntries_coincide as _
  | .object a, b => Value.coincides_of_same_kind fun same => by
    cases b <;> cases same
    next b =>
      refine ⟨fun equal => (RecordOf.compare_eq_iff a b).mpr (.inl equal), fun apart level => ?_⟩
      exact ((RecordOf.compare_eq_iff a b).mp level).resolve_right
        (apart a (Value.mem_records_self a) b (Value.mem_records_self b))

theorem compareItems_coincide : ∀ (as bs : List Value),
    Coincides (compareItems as bs) (equalItems as bs) (RecordOf.Apart (recordsOfItems as) (recordsOfItems bs))
  | [], bs => .of_iff <| by cases bs <;> simp [compareItems, equalItems]
  | a :: as, bs => by
    cases bs with
    | nil => exact .of_iff (by simp [compareItems, equalItems])
    | cons b bs =>
      refine ((Value.compare_coincides a b).andThen (compareItems_coincide as bs)).mono fun apart => ⟨?_, ?_⟩ <;>
        exact apart.mono (by simp [recordsOfItems]) (by simp [recordsOfItems])

theorem compareEntries_coincide : ∀ (as bs : List (Value × Value)),
    Coincides (compareEntries as bs) (equalEntries as bs) (RecordOf.Apart (recordsOfEntries as) (recordsOfEntries bs))
  | [], bs => .of_iff <| by cases bs <;> simp [compareEntries, equalEntries]
  | (key, value) :: as, bs => by
    cases bs with
    | nil => exact .of_iff (by simp [compareEntries, equalEntries])
    | cons b bs =>
      have entry := (Value.compare_coincides key b.1).andThen (Value.compare_coincides value b.2)
      refine (entry.andThen (compareEntries_coincide as bs)).mono fun apart => ⟨⟨?_, ?_⟩, ?_⟩ <;>
        exact apart.mono (by simp [recordsOfEntries]) (by simp [recordsOfEntries])
end

/-- Values without records are in neither order exactly if they are equal. -/
theorem Value.compare_eq_iff (a b : Value) (plain : a.records = []) : a.compare b = .eq ↔ a.equal b = true :=
  (Value.compare_coincides a b).iff (plain ▸ nofun)

namespace Value

variable {a b c : Value}

theorem equal_refl (plain : a.records = []) : a.equal a = true :=
  (compare_eq_iff a a plain).mp (Ordering.eq_eq_of_eq_swap (compare_swap a a plain))

theorem equal_comm (first : a.records = []) (second : b.records = []) : a.equal b = b.equal a := by
  rw [Bool.eq_iff_iff, ← compare_eq_iff a b first, ← compare_eq_iff b a second, compare_swap a b first,
    Ordering.swap_eq_eq]

theorem equal_trans (first : a.records = []) (second : b.records = []) (third : c.records = [])
    (left : a.equal b = true) (right : b.equal c = true) : a.equal c = true := by
  rw [← compare_eq_iff _ _ first] at left ⊢
  rw [← compare_eq_iff _ _ second] at right
  exact ((compare_fits a b c first second third).eq_left left).trans right

end Value

section Tuples

variable {as bs cs : List Value}

theorem equalItems_refl (plain : recordsOfItems as = []) : equalItems as as = true :=
  Value.equal_refl (a := .list as) plain

theorem equalItems_comm (first : recordsOfItems as = []) (second : recordsOfItems bs = []) :
    equalItems as bs = equalItems bs as :=
  Value.equal_comm (a := .list as) (b := .list bs) first second

theorem equalItems_trans (first : recordsOfItems as = []) (second : recordsOfItems bs = [])
    (third : recordsOfItems cs = []) (left : equalItems as bs = true) (right : equalItems bs cs = true) :
    equalItems as cs = true :=
  Value.equal_trans (a := .list as) (b := .list bs) (c := .list cs) first second third left right

end Tuples

namespace Value

variable {a b c : Value}

/-- Values without records are in a total order that agrees with their equality: across kinds and widths of numbers,
through lists and maps, with the missing number and both zeros. -/
theorem compare_total (first : a.records = []) (second : b.records = []) (third : c.records = []) :
    a.compare b = (b.compare a).swap ∧
      (a.compare b ≠ .gt → b.compare c ≠ .gt → a.compare c ≠ .gt) ∧
      (a.compare b = .eq ↔ a.equal b = true) := by
  refine ⟨compare_swap b a second, fun left right => ?_, compare_eq_iff a b first⟩
  have fits := compare_fits a b c first second third
  exact Ordering.isLE_iff_ne_gt.mp
    (fits.isLE (Ordering.isLE_iff_ne_gt.mpr left) (Ordering.isLE_iff_ne_gt.mpr right))

/-- 2⁵³ as a double, the integer 2⁵³ + 1 and the next double after both, each with something of another kind behind
it. -/
theorem compare_total_next_to_rounding :
    let below : Value := .list [.float64 ⟨0x4340000000000000⟩, .float64 .nan]
    let between : Value := .list [.int64 9007199254740993, .map [(.string "n", .float64 ⟨0x8000000000000000⟩)]]
    let above : Value := .list [.float64 ⟨0x4340000000000001⟩, .null]
    (below.records = [] ∧ between.records = [] ∧ above.records = []) ∧
      (below.compare between = .lt ∧ between.compare above = .lt) ∧
      below.compare between = (between.compare below).swap ∧
      (below.compare between ≠ .gt → between.compare above ≠ .gt → below.compare above ≠ .gt) ∧
      (below.compare between = .eq ↔ below.equal between = true) := by
  intro below between above
  exact ⟨⟨rfl, rfl, rfl⟩, by decide, compare_total rfl rfl rfl⟩

end Value

end RecordQuery
