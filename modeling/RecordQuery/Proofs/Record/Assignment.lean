import Mathlib.Data.List.Nodup
import RecordQuery.Proofs.Accessor.Unbound
import RecordQuery.Proofs.Record.Order
/-! Setting properties of records and reading them back by path. A path finds a member in the order of fields, getters
and methods, and setting a property asks for that member first, so both mean the same one whatever names clash. -/

namespace RecordQuery

/-- The member has the name, or is the getter for it. -/
def Member.Answers (member : Member) (segment : String) : Prop :=
  member.name = segment ∨ member.kind = .getter ∧ member.name = getterName segment

instance (member : Member) (segment : String) : Decidable (member.Answers segment) :=
  inferInstanceAs (Decidable (_ ∨ _ ∧ _))

namespace RecordType

/-- The type with members that are declared one after another, in place of earlier ones of the same name. -/
def declaring (name : String) (members : List Member) : RecordType := members.foldl withMember (.empty name)

theorem name_foldl_withMember (type : RecordType) (members : List Member) :
    (members.foldl withMember type).name = type.name := by
  induction members generalizing type with
  | nil => rfl
  | cons member members ih => exact ih (type.withMember member)

theorem name_declaring (name : String) (members : List Member) : (declaring name members).name = name :=
  name_foldl_withMember (.empty name) members

/-- A declared type has each of its members once. -/
theorem named_declaring (name : String) (members : List Member) :
    ((declaring name members).members.map (·.name)).Nodup := by
  have kept (type : RecordType) (named : (type.members.map (·.name)).Nodup) :
      ((members.foldl withMember type).members.map (·.name)).Nodup := by
    induction members generalizing type with
    | nil => exact named
    | cons member members ih => exact ih _ (named_withMember named member)
  exact kept (.empty name) List.nodup_nil

variable {type : RecordType} {property : String}

theorem find?_eq_none_iff {kind : MemberKind} {name : String} :
    type.find? kind name = none ↔ ∀ member ∈ type.members, ¬(member.kind = kind ∧ member.name = name) := by
  simp [find?, List.find?_eq_none]

/-- Only a property that no member answers to is assigned to none. -/
theorem assigned?_eq_none_iff :
    type.assigned? property = none ↔ ∀ member ∈ type.members, ¬member.Answers property := by
  simp only [assigned?, resolve?, member?, Option.or_eq_none_iff, find?_eq_none_iff, List.find?_eq_none, beq_iff_eq]
  constructor
  · rintro ⟨⟨-, getter, -⟩, named⟩ member listed (own | get)
    · exact named member listed own
    · exact getter member listed get
  · intro unanswered
    refine ⟨⟨?_, ?_, ?_⟩, ?_⟩
    · exact fun member listed field => unanswered member listed (.inl field.2)
    · exact fun member listed getter => unanswered member listed (.inr getter)
    · exact fun member listed method => unanswered member listed (.inl method.2)
    · exact fun member listed own => unanswered member listed (.inl own)

end RecordType

namespace RecordOf

variable {record : Record} {property : String} {value : Value}

theorem type_put (record : Record) (name : String) (value : Value) : (record.put name value).type = record.type := by
  simp [RecordOf.type, put, Function.comp_def]

/-- Only the member that is put changes its value. -/
theorem get?_put (record : Record) (name : String) (value : Value) (asked : String) :
    (record.put name value).get? asked = (record.get? asked).map fun old => if asked = name then value else old := by
  unfold get? put
  rw [List.find?_map, Option.map_map, Option.map_map]
  refine Option.map_congr fun field found => ?_
  have here : field.1.name = asked := by simpa using List.find?_some found
  simp [here]

theorem get?_put_own {name : String} (declared : name ∈ record.names) (value : Value) :
    (record.put name value).get? name = some value := by
  obtain ⟨old, found⟩ := mem_names_iff.mp declared
  rw [get?_put, found, Option.map_some, if_pos rfl]

theorem get?_put_other {name asked : String} (other : asked ≠ name) (value : Value) :
    (record.put name value).get? asked = record.get? asked := by
  rw [get?_put]
  simp [other]

theorem set_of_resolve {member : Member} (resolved : record.type.resolve? property = some member) :
    record.set property value = (.ok (), record.put member.name value) := by
  have assigned : record.type.assigned? property = some member := by rw [RecordType.assigned?, resolved, Option.some_or]
  rw [set, assign, assigned]

theorem set_of_unanswered (unanswered : ∀ member ∈ record.type.members, ¬member.Answers property) :
    record.set property value = (.error (.unresolvedMember property record.typeName), record) := by
  rw [set, assign, RecordType.assigned?_eq_none_iff.mpr unanswered]

end RecordOf

namespace Accessor

variable {registry : TypeRegistry} {path : AccessorPath} {accessor : Accessor} {property : String} {member : Member}

/-- A path of one name resolves against a registered type to the member that the name stands for, or not at all. -/
theorem resolve_name {type : RecordType} {name : String} (known : registry.get? name = some type)
    (single : path.segments = [.name property]) (resolved : resolve path (.record name) registry = .ok accessor) :
    ∃ member, type.resolve? property = some member ∧
      accessor = ⟨path, .record name, member.dataType, [.member type.name property member.name]⟩ := by
  rw [resolve, single, Step.ofSegments, Step.ofSegment, Step.ofName, known] at resolved
  cases found : type.resolve? property with
  | none =>
    simp only [found] at resolved
    cases resolved
  | some member =>
    simp only [found] at resolved
    cases resolved
    exact ⟨member, rfl, rfl⟩

theorem get_member (path : AccessorPath) (root result : DataType) (record : Record) (segment name : String) :
    ((⟨path, root, result, [.member record.typeName segment name]⟩ : Accessor).get (.object record)).1 =
      .ok ((record.get? name).getD .null) := by
  simp [get, Step.applyAll, Step.apply, Step.bind, Step.lookUp, Value.isNull]

/-- A name that is left open is bound by the type of the record that it meets. -/
theorem get_deferred (path : AccessorPath) (root result : DataType) {record : Record}
    (resolved : record.type.resolve? property = some member) :
    ((⟨path, root, result, [.deferred property]⟩ : Accessor).get (.object record)).1 =
      .ok ((record.get? member.name).getD .null) := by
  simp [get, Step.applyAll, Step.apply, Step.bind, Step.text, Step.lookUp, Value.isNull, resolved]

end Accessor

/-- Setting a property that a path of one name resolves to makes the path find what was set, also when it is left open
until it meets the record, and leaves the other members as they were. A property that no member answers to is refused,
and the record is left as it was. -/
theorem RecordOf.set_declared {record : Record} {name : String} {declared : List Member}
    (built : record.type = .declaring name declared) (property : String) (value : Value) :
    (∀ (registry : TypeRegistry) (path : AccessorPath) (accessor : Accessor),
      registry.get? name = some record.type → path.segments = [.name property] →
      Accessor.resolve path (.record name) registry = .ok accessor →
      ∃ (member : Member) (after : Record) (late : Accessor), record.type.resolve? property = some member ∧
        member ∈ record.type.members ∧ record.set property value = (.ok (), after) ∧
        (accessor.get (.object after)).1 = .ok value ∧
        Accessor.unbound path = .ok late ∧ (late.get (.object after)).1 = .ok value ∧
        after.type = record.type ∧
        ∀ other ∈ record.type.members, other ≠ member → after.get? other.name = record.get? other.name) ∧
    ((∀ member ∈ record.type.members, ¬member.Answers property) →
      record.set property value = (.error (.unresolvedMember property name), record)) := by
  have named : record.typeName = name := by
    change record.type.name = name
    rw [built, RecordType.name_declaring]
  constructor
  · intro registry path accessor known single resolved
    obtain ⟨member, found, rfl⟩ := Accessor.resolve_name known single resolved
    have listed : member ∈ record.type.members := Step.mem_of_resolve found
    have once : (record.type.members.map (·.name)).Nodup := built ▸ RecordType.named_declaring name declared
    have kept : (record.put member.name value).type = record.type := type_put record member.name value
    have holds : (record.put member.name value).get? member.name = some value :=
      get?_put_own (names_eq record ▸ List.mem_map_of_mem listed) value
    refine ⟨member, record.put member.name value, _, found, listed, set_of_resolve found, ?_, Accessor.unbound_eq path,
      ?_, kept, ?_⟩
    · have read := Accessor.get_member path (.record name) member.dataType (record.put member.name value) property
        member.name
      rwa [holds] at read
    · have read := Accessor.get_deferred path .any .any (kept ▸ found)
      rw [holds] at read
      rwa [single]
    · intro other declared differs
      refine get?_put_other (fun same => differs ?_) value
      exact List.inj_on_of_nodup_map once declared listed same
  · intro unanswered
    rw [set_of_unanswered unanswered, named]

/-- A person has an age by a getter and another one by a method. -/
def agedType : RecordType :=
  .declaring "Person" [⟨"age", .field, .int32⟩, ⟨"getAge", .getter, .int32⟩, ⟨"age", .method, .int32⟩]

open RecordOf in
/-- The age is set where the getter reads it, not where the method of that name does, and years are refused. -/
theorem RecordOf.set_declared_on_ages :
    ∃ accessor after, Accessor.resolve ⟨"age", [.name "age"]⟩ (.record "Person") (.register .empty agedType) =
        .ok accessor ∧ (ofType agedType).set "age" (.int32 30) = (.ok (), after) ∧
      (accessor.get (.object after)).1 = .ok (.int32 30) ∧ after.get? "age" = some .null ∧
      (ofType agedType).set "years" (.int32 30) = (.error (.unresolvedMember "years" "Person"), ofType agedType) := by
  obtain ⟨setting, -⟩ := @set_declared (ofType agedType) "Person" _ rfl "age" (.int32 30)
  obtain ⟨-, refusing⟩ := @set_declared (ofType agedType) "Person" _ rfl "years" (.int32 30)
  obtain ⟨member, after, _, found, -, done, read, -, -, -, others⟩ := setting (.register .empty agedType)
    ⟨"age", [.name "age"]⟩ ⟨_, .record "Person", .int32, [.member "Person" "age" "getAge"]⟩ rfl rfl rfl
  cases found
  refine ⟨_, after, rfl, done, read, ?_, refusing ?_⟩
  · exact others ⟨"age", .method, .int32⟩ (by decide) (by decide)
  · decide

end RecordQuery
