import RecordQuery.Meaning.Basic
/-! Meanings of expressions without parts: literals, paths on the row, bind variables and save values. -/

namespace RecordQuery

/-- The path that a node has been resolved to. -/
def NodeState.accessor? : NodeState → Option Accessor
  | operand _ accessor => accessor
  | _ => none

/-- The name that a node has been given. -/
def NodeState.name? : NodeState → Option String
  | operand name _ => name
  | _ => none

namespace Meaning

/-- Applies the node's path to a value, if it has one, and remembers what the path has become. -/
def followPath (value : Value) : EvalM Value := do
  let state ← EvalM.node
  match state.accessor? with
  | none => return value
  | some accessor =>
    let (result, after) := accessor.get value
    EvalM.setNode (.operand state.name? (some after))
    EvalM.ofExcept result

/-- Resolves a path, if there is one, against a type, and remembers it. -/
def resolvePath (path : Option AccessorPath) (root : DataType) (registry : TypeRegistry) : EvalM Unit := do
  let accessor ← match path with
    | none => pure none
    | some path => some <$> EvalM.ofExcept (Accessor.resolve path root registry)
  EvalM.setNode (.operand (← EvalM.node).name? accessor)

/-- A path behind a variable: a dot before it unless it begins with a bracket. -/
def pathSuffix (path : Option AccessorPath) : String :=
  match path with
  | none => ""
  | some path => (if path.segments.head?.any (·.isBracket) then "" else ".") ++ path.text

def constant (value : Value) : Meaning :=
  compound value.quoted (fun _ _ => value.dataType) [] fun _ _ => pure value

/-- A path on the row at hand, null without one. -/
def member (path : AccessorPath) : Meaning where
  text := path.text
  isConstructor := false
  evaluate _ frame := do
    if (← EvalM.node).accessor?.isNone then throw (.invalidStatement (.accessorUnresolved path.text))
    match frame.row with
    | some row => followPath row
    | none => return .null
  prepare setting := resolvePath (some path) setting.rowType setting.environment.types
  expectedType setting world :=
    match world.memory.state.accessor? with
    | some accessor => accessor.resultType
    | none =>
      match Accessor.resolve path setting.rowType setting.environment.types with
      | .ok accessor => accessor.resultType
      | .error _ => .any
  isFixed _ := false
  «variables» _ := []
  number _ := pure ()
  resolution _ := none

/-- The name under which a bind variable is looked up; `?` while it has none. -/
def storedName (name : Option String) (state : NodeState) : String := (name.or state.name?).getD "?"

/-- The value of a bind variable: what a reserved name stands for, or what the variables hold. -/
def bindValue (name : String) (frame : Frame) : EvalM Value :=
  match name with
  | "_currobj" => pure (frame.row.getD .null)
  | "_allobjs" => pure (.list frame.rows)
  | "_parent" => pure (frame.outerRow.getD .null)
  | "_query" => pure (.string frame.statementText)
  | "_grpby" =>
    pure (match frame.groupKey with
      | some [single] => single
      | some key => .list key
      | none => .null)
  | "_grpbys" => pure ((frame.groupKey.map Value.list).getD .null)
  | _ => EvalM.readHeap (·.bindValue frame.scope name)

/-- The type of a bind variable's value: known of the reserved names, of others what they hold now. -/
def bindType (name : String) (setting : Setting) (heap : Heap) : DataType :=
  match name with
  | "_currobj" => setting.rowType
  | "_allobjs" | "_grpbys" => .list
  | "_query" => .string
  | "_parent" | "_grpby" => .any
  | _ => (heap.bindValue setting.scope name).dataType

/-- Gives the node a number for a name, unless it has one. -/
def takeNumber (scope : Scope) : EvalM Unit := do
  let state ← EvalM.node
  if state.name?.isNone then
    let place ← EvalM.onHeap (·.nextAnonymous scope)
    EvalM.setNode (.operand (some (anonymousName place)) state.accessor?)

/-- A bind variable, and a path on its value. Only the row at hand has a declared type. -/
def bind (name : Option String) (path : Option AccessorPath) : Meaning where
  text := ((name.map (":" ++ ·)).getD "?") ++ pathSuffix path
  isConstructor := false
  evaluate _ frame := do
    followPath (← bindValue (storedName name (← EvalM.node)) frame)
  prepare setting := do
    match name with
    | some name => if name.startsWith "_" && !isReserved name then throw (.reservedName name)
    | none => takeNumber setting.scope
    let root := if storedName name (← EvalM.node) == "_currobj" then setting.rowType else .any
    resolvePath path root setting.environment.types
  expectedType setting world :=
    match path with
    | none => bindType (storedName name world.memory.state) setting world.heap
    | some _ => (world.memory.state.accessor?.map (·.resultType)).getD .any
  isFixed _ := false
  «variables» memory := [(.bind, storedName name memory.state)]
  number scope := if name.isNone then takeNumber scope else pure ()
  resolution _ := none

/-- A save value, null if it is not set, and a path on it. -/
def save (name : String) (path : Option AccessorPath) : Meaning where
  text := "@" ++ name ++ pathSuffix path
  isConstructor := false
  evaluate _ frame := do
    followPath ((← EvalM.readHeap (·.saveValue? frame.scope name)).getD .null)
  prepare setting := resolvePath path .any setting.environment.types
  expectedType setting world :=
    if path.isSome then .any
    else ((world.heap.saveValue? setting.scope name).map Value.dataType).getD .any
  isFixed _ := false
  «variables» _ := [(.save, name)]
  number _ := pure ()
  resolution _ := none

end Meaning

end RecordQuery
