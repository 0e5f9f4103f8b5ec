import RecordQuery.Error
import RecordQuery.Value.Order
/-! Making records: an empty record of a type, assigning to a member by its declared name or by the segment that
stands for it, and factories whose constructors assign their arguments. -/

namespace RecordQuery

/-- The member that assigning to a property changes: the one a path segment stands for, else the one of that very
name. -/
def RecordType.assigned? (type : RecordType) (property : String) : Option Member :=
  (type.resolve? property).or (type.member? property)

namespace RecordOf

/-- A record of the type with every member null. -/
def ofType (type : RecordType) : Record := ⟨type.name, type.members.map (·, .null), none⟩

/-- Sets the member of this declared name; a name that is not declared changes nothing. -/
def put (record : Record) (name : String) (value : Value) : Record :=
  { record with
    fields := record.fields.map fun (member, old) => (member, if member.name == name then value else old) }

/-- Assigns to a property. -/
def assign (record : Record) (property : String) (value : Value) : Except Error Record :=
  match record.type.assigned? property with
  | some member => .ok (record.put member.name value)
  | none => .error (.unresolvedMember property record.typeName)

/-- An assignment that succeeds puts the value where the property is assigned to. -/
theorem exists_of_assign {record assigned : Record} {property : String} {value : Value}
    (success : record.assign property value = .ok assigned) :
    ∃ member, record.type.assigned? property = some member ∧ assigned = record.put member.name value := by
  unfold assign at success
  split at success
  · next member found =>
    cases success
    exact ⟨member, found, rfl⟩
  · cases success

/-- Sets a property in place: the outcome, and the record as it is from then on. -/
def set (record : Record) (property : String) (value : Value) : Except Error Unit × Record :=
  match record.assign property value with
  | .ok changed => (.ok (), changed)
  | .error error => (.error error, record)

end RecordOf

/-- Makes records of one type; each constructor names the members that its arguments go to. -/
structure RecordFactory where
  type : RecordType
  constructors : List (List Member)

namespace RecordFactory

/-- The factory with the constructor that takes no arguments. -/
def ofType (type : RecordType) : RecordFactory := ⟨type, [[]]⟩

/-- Adds a constructor that assigns to the named members, which have to be declared. -/
def withConstructor (factory : RecordFactory) (names : List String) : Except Error RecordFactory := do
  let members ← names.mapM fun name =>
    match factory.type.member? name with
    | some member => .ok member
    | none => .error (.unresolvedMember name factory.type.name)
  return { factory with constructors := factory.constructors ++ [members] }

/-- The parameter types of each constructor. -/
def signatures (factory : RecordFactory) : List (List DataType) :=
  factory.constructors.map (·.map (·.dataType))

/-- Runs the constructor at `index`. -/
def construct (factory : RecordFactory) (index : Nat) (arguments : List Value) : Except Error Record :=
  match factory.constructors[index]? with
  | none => .error (.construction factory.type.name "no such constructor")
  | some members =>
    if members.length != arguments.length then
      .error (.construction factory.type.name
        ("expected " ++ toString members.length ++ " arguments, got " ++ toString arguments.length))
    else
      .ok ((members.zip arguments).foldl (fun record (member, value) => record.put member.name value)
        (.ofType factory.type))

end RecordFactory

end RecordQuery
