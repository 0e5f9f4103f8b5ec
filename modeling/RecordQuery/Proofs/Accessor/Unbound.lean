import RecordQuery.Proofs.Accessor.Types
/-! Resolving a path in advance and binding it on sight find the same. Every step that is resolved against a type finds
in a value of that type what the step left open finds, and what it finds is a value of the next type. -/

namespace RecordQuery

/-- The value is of the type, and each record of a registered type that members lead to has the members that its type is
registered with, holding values of their types. -/
inductive Value.Registered (registry : TypeRegistry) : DataType → Value → Prop where
  | null (type : DataType) : Registered registry type .null
  | any (value : Value) : Registered registry .any value
  | plain {value : Value} {type : DataType} (known : value.dataType? = some type) (loose : type.recordName? = none) :
    Registered registry type value
  | record {record : Record}
    (described : ∀ type, registry.get? record.typeName = some type → record.type = type)
    (members : ∀ type, registry.get? record.typeName = some type → ∀ member ∈ type.members, ∀ held,
      record.get? member.name = some held → Registered registry member.dataType held) :
    Registered registry (.record record.typeName) (.object record)

variable {registry : TypeRegistry}

/-- A value of a registered record type that is not null is a record with exactly the members of that type. -/
theorem Value.Registered.record_of_known {value : Value} {name : String} {type : RecordType}
    (registered : value.Registered registry (.record name)) (present : value.isNull = false)
    (known : registry.get? name = some type) :
    ∃ record, value = .object record ∧ record.typeName = name ∧ record.type = type ∧
      ∀ member ∈ type.members, ((record.get? member.name).getD .null).Registered registry member.dataType := by
  cases registered with
  | null => cases present
  | plain _ loose => cases loose
  | @record record described members =>
    refine ⟨record, rfl, rfl, described type known, fun member listed => ?_⟩
    cases held : record.get? member.name with
    | none => exact .null _
    | some value => exact members type known member listed value held

/-- A value of the type of maps that is not null is a map. -/
theorem Value.Registered.map_of_present {value : Value} (registered : value.Registered registry .map)
    (present : value.isNull = false) : ∃ entries, value = .map entries := by
  cases registered with
  | null => cases present
  | plain known _ =>
    cases value with
    | map entries => exact ⟨entries, rfl⟩
    | _ => cases known

namespace Step

/-- The step for a segment whose owner shows itself only at run time. -/
def leftOpen : Segment → Step
  | .name name => deferred name
  | .index i => index i
  | .key k => key k

theorem ofSegment_any (path : AccessorPath) (segment : Segment) (registry : TypeRegistry) :
    ofSegment path segment .any registry = .ok (leftOpen segment, .any) := by
  cases segment <;> rfl

/-- Against the type any each segment is left open. -/
theorem ofSegments_any (path : AccessorPath) (registry : TypeRegistry) (segments : List Segment) :
    ofSegments path registry segments .any = .ok (segments.map leftOpen, .any) := by
  induction segments with
  | nil => rfl
  | cons segment rest ih =>
    rw [ofSegments, ofSegment_any]
    change (ofSegments path registry rest .any >>= fun later => pure (leftOpen segment :: later.1, later.2)) = _
    rw [ih]
    rfl

variable {path : AccessorPath} {current next : DataType} {step : Step} {value : Value} {text : String}

/-- A dotted name finds what it finds left open, and what that is of the next type. -/
theorem ofName_agrees {name : String} (resolved : ofName name current registry = .ok (step, next))
    (registered : value.Registered registry current) (present : value.isNull = false) :
    (step.apply text value).1 = ((deferred name).apply text value).1 ∧
      ∀ found, (step.apply text value).1 = .ok found → found.Registered registry next := by
  cases current with
  | record typeName =>
    cases known : registry.get? typeName with
    | none =>
      simp only [ofName, known] at resolved
      cases resolved
      exact ⟨rfl, fun found _ => .any found⟩
    | some type =>
      obtain ⟨record, rfl, rfl, rfl, members⟩ := registered.record_of_known present known
      cases member : record.type.resolve? name with
      | none => simp [ofName, known, member] at resolved
      | some own =>
        simp only [ofName, known, member] at resolved
        cases resolved
        -- The step is bound to the type of the record, so neither step is resolved differently at run time.
        have early : (Step.member record.type.name name own.name).apply text (.object record) =
            (.ok ((record.get? own.name).getD .null), .member record.type.name name own.name) := by
          simp [apply, Step.bind, lookUp, RecordOf.type]
        have late : ((deferred name).apply text (.object record)).1 = .ok ((record.get? own.name).getD .null) := by
          simp [apply, Step.bind, Step.text, member, lookUp]
        refine ⟨by rw [early, late], fun found success => ?_⟩
        rw [early] at success
        cases success
        exact members own (mem_of_resolve member)
  | map =>
    cases resolved
    obtain ⟨entries, rfl⟩ := registered.map_of_present present
    exact ⟨rfl, fun found _ => .any found⟩
  | any =>
    cases resolved
    exact ⟨rfl, fun found _ => .any found⟩
  | _ => cases resolved

/-- A step finds what it finds left open, and what that is of the next type. -/
theorem ofSegment_agrees (text : String) {segment : Segment}
    (resolved : ofSegment path segment current registry = .ok (step, next))
    (registered : value.Registered registry current) (present : value.isNull = false) :
    (step.apply text value).1 = ((leftOpen segment).apply text value).1 ∧
      ∀ found, (step.apply text value).1 = .ok found → found.Registered registry next := by
  cases segment with
  | name name => exact ofName_agrees resolved registered present
  | index i =>
    cases current <;> cases resolved
    all_goals exact ⟨rfl, fun found _ => .any found⟩
  | key k =>
    cases current <;> cases resolved
    all_goals exact ⟨rfl, fun found _ => .any found⟩

/-- Steps find what they find left open: the types they were resolved against are those of the values they meet. -/
theorem ofSegments_agree {segments : List Segment} {result : DataType} {steps : List Step}
    (resolved : ofSegments path registry segments current = .ok (steps, result))
    (registered : value.Registered registry current) :
    (applyAll text steps value).1 = (applyAll text (segments.map leftOpen) value).1 := by
  induction segments generalizing current steps result value with
  | nil =>
    cases resolved
    rfl
  | cons segment rest ih =>
    obtain ⟨head, next, tail, first, later, rfl⟩ := exists_of_ofSegments_cons resolved
    rw [List.map_cons, applyAll, applyAll]
    by_cases null : value.isNull = true
    · rw [if_pos null, if_pos null]
    · rw [if_neg null, if_neg null]
      obtain ⟨same, onward⟩ := ofSegment_agrees text first registered (Bool.not_eq_true _ ▸ null)
      rcases early : head.apply text value with ⟨error | found, _⟩ <;>
        rcases late : (leftOpen segment).apply text value with ⟨error' | found', _⟩ <;>
        rw [early, late] at same <;> cases same
      · rfl
      · have found_registered := onward found (by rw [early])
        exact ih later found_registered

end Step

namespace Accessor

theorem unbound_eq (path : AccessorPath) :
    unbound path = .ok ⟨path, .any, .any, path.segments.map Step.leftOpen⟩ := by
  rw [unbound, resolve, Step.ofSegments_any]
  rfl

/-- On a value of its root type an accessor resolved in advance finds, or fails with, what the accessor of the same path
that leaves everything to run time does. -/
theorem get_resolve_eq_get_unbound {path : AccessorPath} {root : DataType} {accessor : Accessor} {value : Value}
    (resolved : resolve path root registry = .ok accessor) (registered : value.Registered registry root) :
    ∃ late, unbound path = .ok late ∧ (accessor.get value).1 = (late.get value).1 := by
  obtain ⟨steps, result, found, rfl⟩ := exists_of_resolve resolved
  exact ⟨_, unbound_eq path, Step.ofSegments_agree found registered⟩

/-- An address has a city. -/
def addressType : RecordType := ⟨"Address", [⟨"city", .field, .string⟩]⟩

/-- A person tells an address by a getter, and has notes. -/
def personType : RecordType := ⟨"Person", [⟨"getAddress", .getter, .record "Address"⟩, ⟨"notes", .field, .map⟩]⟩

def directory : TypeRegistry := (TypeRegistry.empty.register addressType).register personType

def romanAddress : Record := ⟨"Address", [(⟨"city", .field, .string⟩, .string "Rome")], none⟩

def roman : Record :=
  ⟨"Person",
    [(⟨"getAddress", .getter, .record "Address"⟩, .object romanAddress), (⟨"notes", .field, .map⟩, .null)], none⟩

theorem roman_registered : (Value.object roman).Registered directory (.record "Person") := by
  have city : (Value.object romanAddress).Registered directory (.record "Address") := by
    refine @Value.Registered.record _ romanAddress (fun type known => ?_) fun type known member listed held found => ?_
    · cases known
      rfl
    · cases known
      cases List.mem_singleton.mp listed
      cases found
      exact .plain rfl rfl
  refine @Value.Registered.record _ roman (fun type known => ?_) fun type known member listed held found => ?_
  · cases known
    rfl
  · cases known
    rcases List.mem_cons.mp listed with rfl | listed
    · cases found
      exact city
    · cases List.mem_singleton.mp listed
      cases found
      exact .null _

theorem get_resolve_eq_get_unbound_of_roman :
    ∃ early late, resolve ⟨"address.city", [.name "address", .name "city"]⟩ (.record "Person") directory = .ok early ∧
      early.steps = [.member "Person" "address" "getAddress", .member "Address" "city" "city"] ∧
      (Value.object roman).Registered directory (.record "Person") ∧
      unbound ⟨"address.city", [.name "address", .name "city"]⟩ = .ok late ∧
      (early.get (.object roman)).1 = (late.get (.object roman)).1 := by
  have resolved : resolve ⟨"address.city", [.name "address", .name "city"]⟩ (.record "Person") directory =
      .ok ⟨⟨"address.city", [.name "address", .name "city"]⟩, .record "Person", .string,
        [.member "Person" "address" "getAddress", .member "Address" "city" "city"]⟩ := rfl
  obtain ⟨late, left, same⟩ := get_resolve_eq_get_unbound resolved roman_registered
  exact ⟨_, late, resolved, rfl, roman_registered, left, same⟩

end Accessor

end RecordQuery
