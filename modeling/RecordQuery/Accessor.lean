import RecordQuery.Path.Parser
import RecordQuery.Registry
import RecordQuery.Value.Collection
/-! Accessors: a path resolved against a type, then applied to values one after the other. A step that meets a
record of another type than before binds itself to that type, so an accessor changes as it is used. -/

namespace RecordQuery

/-- One resolved step of a path. -/
inductive Step where
  /-- A member of the record type of this name. -/
  | member (owner segment member : String)
  /-- A dotted name in a map. -/
  | entry (name : String)
  | index (index : Int64)
  | key (key : String)
  /-- A dotted name whose owner shows itself only at run time. -/
  | deferred (name : String)
deriving DecidableEq

namespace Step

/-- The segment a step came from. -/
def text : Step → String
  | member _ segment _ => segment
  | entry n | deferred n => n
  | index i => (Segment.index i).text
  | key k => (Segment.key k).text

/-- The step for a dotted name on a type, and the type it leads to. -/
def ofName (name : String) (current : DataType) (registry : TypeRegistry) : Except Error (Step × DataType) :=
  match current with
  | .record typeName =>
    match registry.get? typeName with
    | none => .ok (deferred name, .any)
    | some type =>
      match type.resolve? name with
      | some found => .ok (member type.name name found.name, found.dataType)
      | none => .error (.unresolvedMember name typeName)
  | .map => .ok (entry name, .any)
  | .any => .ok (deferred name, .any)
  | other => .error (.unresolvedMember name other.text)

/-- The step for a segment on a type, and the type it leads to. -/
def ofSegment (path : AccessorPath) (segment : Segment) (current : DataType) (registry : TypeRegistry) :
    Except Error (Step × DataType) :=
  match segment, current with
  | .name name, _ => ofName name current registry
  | .index i, .any | .index i, .map | .index i, .list => .ok (index i, .any)
  | .key k, .any | .key k, .map => .ok (key k, .any)
  | _, _ => .error (.invalidIndex path.text segment.text current.text)

/-- The steps for segments on a type, and the type that the last one leads to. -/
def ofSegments (path : AccessorPath) (registry : TypeRegistry) :
    List Segment → DataType → Except Error (List Step × DataType)
  | [], current => .ok ([], current)
  | segment :: rest, current => do
    let (step, next) ← ofSegment path segment current registry
    let (steps, result) ← ofSegments path registry rest next
    return (step :: steps, result)

/-- The step as it applies to a record: bound to the record's type unless it is bound to one of that name. -/
def bind (step : Step) (record : Record) : Except Error Step :=
  let rebind :=
    match step with
    | member owner _ _ => owner != record.typeName
    | deferred _ => true
    | _ => false
  if rebind then
    match record.type.resolve? step.text with
    | some found => .ok (member record.typeName step.text found.name)
    | none => .error (.unresolvedMember step.text record.typeName)
  else .ok step

/-- What a bound step finds in a value. -/
def lookUp (path : String) (step : Step) (value : Value) : Except Error Value :=
  match step, value with
  | member _ _ name, .object record => .ok ((record.get? name).getD .null)
  | entry name, .map entries | deferred name, .map entries => .ok ((valueAt? (.string name) entries).getD .null)
  | index i, .list items => .ok (if i.toInt < 0 then .null else (items[i.toInt.toNat]?).getD .null)
  | index i, .map entries => .ok ((valueAt? (.int64 i) entries).getD .null)
  | key k, .map entries => .ok ((valueAt? (.string k) entries).getD .null)
  | step, other =>
    .error (.accessorMismatch (path ++ " at " ++ step.text) ((other.dataType?.map (·.text)).getD "null"))

/-- Applies a step to a value: what it finds, and the step as it is from then on. -/
def apply (path : String) (step : Step) (value : Value) : Except Error Value × Step :=
  match value with
  | .object record =>
    match step.bind record with
    | .error error => (.error error, step)
    | .ok bound => (bound.lookUp path value, bound)
  | _ => (step.lookUp path value, step)

/-- Applies steps in turn, each to what the one before found; null ends the chain. -/
def applyAll (path : String) : List Step → Value → Except Error Value × List Step
  | [], value => (.ok value, [])
  | step :: rest, value =>
    if value.isNull then (.ok .null, step :: rest)
    else
      match step.apply path value with
      | (.error error, after) => (.error error, after :: rest)
      | (.ok found, after) =>
        let (result, steps) := applyAll path rest found
        (result, after :: steps)

end Step

/-- A path resolved against a root type. -/
structure Accessor where
  path : AccessorPath
  rootType : DataType
  resultType : DataType
  steps : List Step
deriving DecidableEq

namespace Accessor

/-- Resolves a path against a type, looking record types up in the registry. -/
def resolve (path : AccessorPath) (root : DataType) (registry : TypeRegistry) : Except Error Accessor := do
  let (steps, result) ← Step.ofSegments path registry path.segments root
  return ⟨path, root, result, steps⟩

def parse (text : String) (root : DataType) (registry : TypeRegistry) : Except Error Accessor := do
  resolve (← AccessorPath.parse text) root registry

/-- The accessor that leaves everything to run time. -/
def unbound (path : AccessorPath) : Except Error Accessor := resolve path .any .empty

/-- What the accessor finds in a value, and the accessor as it is from then on. -/
def get (accessor : Accessor) (value : Value) : Except Error Value × Accessor :=
  let (result, steps) := Step.applyAll accessor.path.text accessor.steps value
  (result, { accessor with steps })

end Accessor

end RecordQuery
