import RecordQuery.Proofs.Record.Order
import RecordQuery.Proofs.Value.Records
/-! Every value equals itself and has its own place in the order, whatever records it holds, where these name each of
their members once. -/

namespace RecordQuery

theorem compareMember_eq (fields : List (Member × Value)) (name : String) (other : Value) :
    compareMember fields name other =
      match fields.find? (·.1.name == name) with
      | some field => field.2.compare other
      | none => if other.isNull then .eq else .lt := by
  induction fields with
  | nil => rfl
  | cons field rest ih =>
    rw [compareMember, List.find?_cons]
    cases named : field.1.name == name <;> simp [ih]

/-- A record whose members have values that equal themselves equals itself. -/
theorem RecordOf.equal_self {record : Record} (named : record.names.Nodup)
    (fields : ∀ field ∈ record.fields, field.2.equal field.2 = true ∧ field.2.compare field.2 = .eq) :
    record.equal record = true ∧ (Value.object record).compare (.object record) = .eq := by
  obtain ⟨typeName, members, _ | key⟩ := record
  · have same : equalFields members ⟨typeName, members, none⟩ = true := by
      refine (equalFields_iff ..).mpr fun member value present => ⟨value, ?_, (fields _ present).1⟩
      exact RecordOf.get?_of_mem named present
    simp [RecordOf.equal, Value.equal, Value.compare, compareRecords, same]
  · have same : compareMember members key
        ((RecordOf.get? ⟨typeName, members, some key⟩ key).getD .null) = .eq := by
      rw [compareMember_eq, RecordOf.get?]
      cases found : members.find? (·.1.name == key) with
      | none => rfl
      | some field => exact (fields field (List.mem_of_find?_eq_some found)).2
    simp [RecordOf.equal, Value.equal, Value.compare, compareRecords, same]

namespace Value

theorem self_of_plain {value : Value} (plain : value.records = []) :
    value.equal value = true ∧ value.compare value = .eq :=
  ⟨equal_refl plain, (compare_eq_iff value value plain).mpr (equal_refl plain)⟩

end Value

mutual
theorem Value.self_of_named : ∀ value : Value, (∀ record ∈ value.records, record.names.Nodup) →
    value.equal value = true ∧ value.compare value = .eq
  | .null, _ => Value.self_of_plain rfl
  | .boolean _, _ => Value.self_of_plain rfl
  | .int32 _, _ => Value.self_of_plain rfl
  | .int64 _, _ => Value.self_of_plain rfl
  | .float64 _, _ => Value.self_of_plain rfl
  | .string _, _ => Value.self_of_plain rfl
  | .dateTime _, _ => Value.self_of_plain rfl
  | .bytes _, _ => Value.self_of_plain rfl
  | .list items, named => items_self_of_named items named
  | .map entries, named => entries_self_of_named entries named
  | .object ⟨typeName, fields, orderedBy⟩, named => by
    obtain ⟨own, inner⟩ := List.forall_mem_cons.mp named
    exact RecordOf.equal_self own (fields_self_of_named fields inner)

theorem items_self_of_named : ∀ items : List Value, (∀ record ∈ recordsOfItems items, record.names.Nodup) →
    equalItems items items = true ∧ compareItems items items = .eq
  | [], _ => ⟨rfl, rfl⟩
  | item :: rest, named => by
    obtain ⟨own, others⟩ := List.forall_mem_append.mp named
    obtain ⟨equal, compare⟩ := Value.self_of_named item own
    obtain ⟨equals, compares⟩ := items_self_of_named rest others
    simp [equalItems, compareItems, equal, compare, equals, compares]

theorem entries_self_of_named : ∀ entries : List (Value × Value),
    (∀ record ∈ recordsOfEntries entries, record.names.Nodup) →
      equalEntries entries entries = true ∧ compareEntries entries entries = .eq
  | [], _ => ⟨rfl, rfl⟩
  | (key, value) :: rest, named => by
    obtain ⟨own, others⟩ := List.forall_mem_append.mp named
    obtain ⟨first, second⟩ := List.forall_mem_append.mp own
    obtain ⟨equal, compare⟩ := Value.self_of_named key first
    obtain ⟨equal', compare'⟩ := Value.self_of_named value second
    obtain ⟨equals, compares⟩ := entries_self_of_named rest others
    simp [equalEntries, compareEntries, equal, compare, equal', compare', equals, compares]

theorem fields_self_of_named : ∀ fields : List (Member × Value),
    (∀ record ∈ recordsOfFields fields, record.names.Nodup) →
      ∀ field ∈ fields, field.2.equal field.2 = true ∧ field.2.compare field.2 = .eq
  | [], _ => nofun
  | (member, value) :: rest, named => by
    obtain ⟨own, others⟩ := List.forall_mem_append.mp named
    exact List.forall_mem_cons.mpr ⟨Value.self_of_named value own, fields_self_of_named rest others⟩
end

end RecordQuery
