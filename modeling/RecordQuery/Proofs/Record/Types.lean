import RecordQuery.Record.Basic
import RecordQuery.Registry
/-! Values of declared types: what it is for a value to be of a type, and for records to hold values of the types that
a registry declares for their members. Records keep the name of their type however they are made. -/

namespace RecordQuery

namespace NameTable

variable {α : Type} {property : String → α → Prop} {table other : NameTable α} {name : String} {item : α}

/-- Every entry has a property. -/
def Every (property : String → α → Prop) (table : NameTable α) : Prop :=
  ∀ entry ∈ table.entries, property entry.1 entry.2

theorem Every.found (every : table.Every property) (found : table.get? name = some item) : property name item := by
  obtain ⟨earlier, later, split, -⟩ := List.lookup_eq_some_iff.mp found
  exact every (name, item) (split ▸ List.mem_append_right _ (List.mem_cons_self ..))

theorem Every.insert (every : table.Every property) (own : property name item) :
    (table.insert name item).Every property := by
  have placed (entries : List (String × α)) (each : ∀ entry ∈ entries, property entry.1 entry.2) :
      ∀ entry ∈ insertEntry name item entries, property entry.1 entry.2 := by
    induction entries with
    | nil => exact List.forall_mem_singleton.mpr own
    | cons entry rest ih =>
      obtain ⟨first, others⟩ := List.forall_mem_cons.mp each
      unfold insertEntry
      split
      · exact List.forall_mem_cons.mpr ⟨own, others⟩
      · split
        · exact List.forall_mem_cons.mpr ⟨own, each⟩
        · exact List.forall_mem_cons.mpr ⟨first, ih others⟩
  exact placed _ every

theorem Every.insertNew (every : table.Every property) (own : property name item) :
    (table.insertNew name item).Every property := by
  unfold NameTable.insertNew
  split
  · exact every
  · exact every.insert own

theorem Every.merge (every : table.Every property) (others : other.Every property) :
    (table.merge other).Every property := by
  unfold NameTable.merge
  unfold Every at others
  generalize other.entries = added at others
  induction added generalizing table with
  | nil => exact every
  | cons entry rest ih =>
    obtain ⟨own, later⟩ := List.forall_mem_cons.mp others
    exact ih (every.insertNew own) later

end NameTable

namespace TypeRegistry

/-- Types and factories are registered under the names of their types. -/
structure Named (registry : TypeRegistry) : Prop where
  types : registry.types.Every fun name type => type.name = name
  factories : registry.factories.Every fun name factory => factory.type.name = name

theorem named_empty : empty.Named := ⟨nofun, nofun⟩

variable {registry other : TypeRegistry} (named : registry.Named)
include named

theorem Named.register (type : RecordType) : (registry.register type).Named :=
  ⟨named.types.insert rfl, named.factories⟩

theorem Named.registerFactory (factory : RecordFactory) : (registry.registerFactory factory).Named :=
  ⟨named.types.insertNew rfl, named.factories.insert rfl⟩

theorem Named.merge (added : other.Named) : (registry.merge other).Named :=
  ⟨named.types.merge added.types, named.factories.merge added.factories⟩

end TypeRegistry

namespace Value

/-- The value is of the type or null; all are of the type any. -/
def IsOf (value : Value) (type : DataType) : Prop := type = .any ∨ value = .null ∨ value.dataType = type

/-- The value is of the type, and each record that its members lead to holds, for every member that its type is
registered with, a value that conforms to the type of the member. -/
inductive Conforms (registry : TypeRegistry) : DataType → Value → Prop where
  | null (type : DataType) : Conforms registry type .null
  | any (value : Value) : Conforms registry .any value
  | plain {value : Value} {type : DataType} (known : value.dataType? = some type) (loose : type.recordName? = none) :
    Conforms registry type value
  | record {record : Record}
    (members : ∀ type, registry.get? record.typeName = some type → ∀ member ∈ type.members, ∀ held,
      record.get? member.name = some held → Conforms registry member.dataType held) :
    Conforms registry (.record record.typeName) (.object record)

variable {registry : TypeRegistry} {type : DataType} {value : Value}

theorem Conforms.isOf (conforms : value.Conforms registry type) : value.IsOf type := by
  cases conforms with
  | null => exact .inr (.inl rfl)
  | any => exact .inl rfl
  | plain known _ => exact .inr (.inr (by rw [dataType, known]; rfl))
  | record _ => exact .inr (.inr rfl)

/-- What conforms to the type of a record is null or a record of that name, and what this has for a member of its
registered type conforms to the type of the member. -/
theorem Conforms.null_or_record {name : String} (conforms : value.Conforms registry (.record name)) :
    value = .null ∨ ∃ record, value = .object record ∧ record.typeName = name ∧
      ∀ declared, registry.get? name = some declared → ∀ member ∈ declared.members,
        ((record.get? member.name).getD .null).Conforms registry member.dataType := by
  cases conforms with
  | null => exact .inl rfl
  | plain _ loose => cases loose
  | @record record members =>
    refine .inr ⟨record, rfl, rfl, fun declared known member listed => ?_⟩
    cases held : record.get? member.name with
    | none => exact .null _
    | some value => exact members declared known member listed value held

end Value

/-! Records keep the name of their type. -/

theorem RecordOf.typeName_assign {record assigned : Record} {property : String} {value : Value}
    (success : record.assign property value = .ok assigned) : assigned.typeName = record.typeName := by
  obtain ⟨member, -, rfl⟩ := exists_of_assign success
  rfl

theorem RecordFactory.typeName_construct {factory : RecordFactory} {index : Nat} {arguments : List Value}
    {record : Record} (success : factory.construct index arguments = .ok record) :
    record.typeName = factory.type.name := by
  have put (assignments : List (Member × Value)) (start : Record) :
      (assignments.foldl (fun record assignment => record.put assignment.1.name assignment.2) start).typeName =
        start.typeName := by
    induction assignments generalizing start with
    | nil => rfl
    | cons assignment rest ih => exact ih _
  unfold RecordFactory.construct at success
  split at success
  · cases success
  · split at success <;> cases success
    exact put _ _

end RecordQuery
