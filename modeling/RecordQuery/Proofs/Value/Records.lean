import RecordQuery.Value.Collection
/-! The records inside a value, and values whose records all follow one description for each type name. -/

namespace RecordQuery

mutual
/-- The records inside a value, itself among them. -/
def Value.records : Value → List Record
  | .list items => recordsOfItems items
  | .map entries => recordsOfEntries entries
  | .object ⟨typeName, fields, orderedBy⟩ => ⟨typeName, fields, orderedBy⟩ :: recordsOfFields fields
  | _ => []
termination_by structural value => value

def recordsOfItems : List Value → List Record
  | [] => []
  | item :: rest => item.records ++ recordsOfItems rest
termination_by structural items => items

def recordsOfEntries : List (Value × Value) → List Record
  | [] => []
  | (key, value) :: rest => key.records ++ value.records ++ recordsOfEntries rest
termination_by structural entries => entries

def recordsOfFields : List (Member × Value) → List Record
  | [] => []
  | (_, value) :: rest => value.records ++ recordsOfFields rest
termination_by structural fields => fields
end

theorem recordsOfItems_eq (items : List Value) : recordsOfItems items = items.flatMap Value.records := by
  induction items with
  | nil => rfl
  | cons item rest ih => simp [recordsOfItems, ih]

theorem recordsOfEntries_eq (entries : List (Value × Value)) :
    recordsOfEntries entries = entries.flatMap fun entry => entry.1.records ++ entry.2.records := by
  induction entries with
  | nil => rfl
  | cons entry rest ih => simp [recordsOfEntries, ih]

theorem recordsOfFields_eq (fields : List (Member × Value)) :
    recordsOfFields fields = fields.flatMap fun field => field.2.records := by
  induction fields with
  | nil => rfl
  | cons field rest ih => simp [recordsOfFields, ih]

namespace Value

theorem records_item_subset {items : List Value} {item : Value} (member : item ∈ items) :
    item.records ⊆ (list items).records := by
  intro record inside
  rw [records, recordsOfItems_eq]
  exact List.mem_flatMap.mpr ⟨item, member, inside⟩

theorem records_entry_subset {entries : List (Value × Value)} {entry : Value × Value} (member : entry ∈ entries) :
    entry.2.records ⊆ (map entries).records := by
  intro record inside
  rw [records, recordsOfEntries_eq]
  exact List.mem_flatMap.mpr ⟨entry, member, List.mem_append_right _ inside⟩

theorem records_field_subset {record : Record} {field : Member × Value} (member : field ∈ record.fields) :
    field.2.records ⊆ (object record).records := by
  intro inner inside
  rw [records, recordsOfFields_eq]
  exact List.mem_cons_of_mem _ (List.mem_flatMap.mpr ⟨field, member, inside⟩)

theorem mem_records_self (record : Record) : record ∈ (object record).records := by
  simp [records]

/-- Every record inside the value is described as its type name says. -/
def Follows (types : String → RecordType) (value : Value) : Prop :=
  ∀ record ∈ value.records, record.type = types record.typeName

theorem follows_null (types : String → RecordType) : null.Follows types := by
  simp [Follows, records]

theorem Follows.mono {types : String → RecordType} {part value : Value} (described : value.Follows types)
    (inside : part.records ⊆ value.records) : part.Follows types :=
  fun record member => described record (inside member)

theorem Follows.record {types : String → RecordType} {record : Record} (described : (object record).Follows types) :
    record.type = types record.typeName :=
  described record (mem_records_self record)

theorem Follows.field {types : String → RecordType} {record : Record} (described : (object record).Follows types)
    (name : String) : ((record.get? name).getD .null).Follows types := by
  unfold RecordOf.get?
  cases found : record.fields.find? (·.1.name == name) with
  | none => exact follows_null types
  | some field => exact described.mono (records_field_subset (List.mem_of_find?_eq_some found))

theorem Follows.entry {types : String → RecordType} {entries : List (Value × Value)}
    (described : (map entries).Follows types) (key : Value) : ((valueAt? key entries).getD .null).Follows types := by
  cases present : valueAt? key entries with
  | none => exact follows_null types
  | some value =>
    obtain ⟨entry, found, rfl⟩ := Option.map_eq_some_iff.mp present
    exact described.mono (records_entry_subset (List.mem_of_find?_eq_some found))

theorem Follows.item {types : String → RecordType} {items : List Value} (described : (list items).Follows types)
    (place : Nat) : ((items[place]?).getD .null).Follows types := by
  cases found : items[place]? with
  | none => exact follows_null types
  | some item => exact described.mono (records_item_subset (List.mem_of_getElem? found))

end Value

end RecordQuery
