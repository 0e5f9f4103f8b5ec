import RecordQuery.Meaning.Basic
/-! Meanings of function calls and constructors. Which function or constructor is meant is settled once, by the
types of the arguments. -/

namespace RecordQuery

def NodeState.resolution? : NodeState → Option Resolution
  | call resolution _ => some resolution
  | _ => none

namespace Meaning

/-- What a handler receives for each parameter: the expression itself where it asks for one, a value elsewhere. -/
def passArguments (environment : Environment) (frame : Frame) :
    List ParamType → List Meaning → EvalM (List Argument)
  | param :: params, argument :: arguments => do
    let passed ←
      if param == .expression then pure (.expression argument.text (argument.evaluate environment))
      else Argument.value <$> argument.evaluate environment frame
    return passed :: (← passArguments environment frame params arguments)
  | _, _ => return []

/-- Whether a call has the same value for every row. -/
def callIsFixed (arguments : List Meaning) (memory : Memory) : Bool :=
  match memory.state.resolution? with
  | some resolution => !resolution.definition.contextDependent && arguments.all (·.isFixed memory)
  | none => false

/-- Runs the function that a call has been resolved to. -/
def invoke (resolution : Resolution) (arguments : List Meaning) (unresolved : Error) (environment : Environment)
    (frame : Frame) : EvalM Value := do
  let passed ← passArguments environment frame resolution.definition.params arguments
  match environment.functions.call? resolution with
  | some run => run passed frame
  | none => throw unresolved

/-- A function call; the result of a fixed one is kept. -/
def call (name : String) (arguments : List Meaning) : Meaning :=
  let text := name ++ "(" ++ ", ".intercalate (arguments.map (·.text)) ++ ")"
  let unresolved := Error.invalidStatement (.functionUnresolved text)
  let parts := compound text
    (fun _ world => (world.memory.state.resolution?.map (·.definition.returns)).getD .any) arguments
    fun environment frame => do
      match ← EvalM.node with
      | .call _ (some kept) => return kept
      | .call resolution none =>
        let value ← EvalM.inside ("function " ++ text) (invoke resolution arguments unresolved environment frame)
        if callIsFixed arguments (← get).memory then EvalM.setNode (.call resolution (some value))
        return value
      | _ => throw unresolved
  { parts with
    prepare := fun setting => do
      forEach arguments (·.prepare setting)
      let world ← get
      let types := arguments.map (·.expectedType setting world)
      match setting.environment.functions.resolve name types with
      | some resolution => EvalM.setNode (.call resolution none)
      | none => throw (.unresolvedFunction name arguments.length text)
    isFixed := callIsFixed arguments
    resolution := fun memory => memory.state.resolution? }

/-- The arguments of a constructor, each in the type of its parameter. -/
def coerceArguments (typeName : String) (environment : Environment) (frame : Frame) :
    List DataType → List Meaning → EvalM (List Value)
  | type :: types, argument :: arguments => do
    let value ← argument.evaluate environment frame
    let held ← EvalM.ofExcept (value.coerce type typeName)
    return held :: (← coerceArguments typeName environment frame types arguments)
  | _, _ => return []

/-- Assigns the values of setters to properties, in turn. -/
def assignSetters (environment : Environment) (frame : Frame) (record : Record) :
    List (Meaning × String) → EvalM Record
  | [] => return record
  | (setter, property) :: rest => do
    let value ← setter.evaluate environment frame
    let assigned ← EvalM.inside ("setting " ++ property ++ " from " ++ setter.text)
      (EvalM.ofExcept (record.assign property value))
    assignSetters environment frame assigned rest

/-- A new record of a type, by its factory. -/
def construct (typeName : String) (arguments : List Meaning) (setters : List (Meaning × String)) : Meaning :=
  let text := "new " ++ typeName ++ "(" ++ ", ".intercalate (arguments.map (·.text)) ++ ")"
    ++ (if setters.isEmpty then ""
        else " \x7b" ++ ", ".intercalate (setters.map fun (setter, property) => setter.text ++ " -> " ++ property)
          ++ "\x7d")
  let unresolved := Error.unresolvedConstructor typeName text
  let parts := compound text (fun _ _ => .record typeName) (arguments ++ setters.map (·.1))
    fun environment frame => do
      match ← EvalM.node with
      | .construction factory constructor =>
        EvalM.inside ("constructor " ++ text) do
          let values ← coerceArguments typeName environment frame ((factory.signatures[constructor]?).getD []) arguments
          let record ← EvalM.ofExcept (factory.construct constructor values)
          return .object (← assignSetters environment frame record setters)
      | _ => throw unresolved
  { parts with
    isConstructor := true
    prepare := fun setting => do
      forEach (arguments ++ setters.map (·.1)) (·.prepare setting)
      match setting.environment.types.factory? typeName with
      | none => throw unresolved
      | some factory =>
        let world ← get
        let types := arguments.map (·.expectedType setting world)
        let candidates := factory.signatures.mapIdx fun index signature => (index, signature.map ParamType.type)
        match chooseSignature candidates types with
        | some (constructor, _) => EvalM.setNode (.construction factory constructor)
        | none => throw unresolved
    isFixed := fun _ => false }

end Meaning

end RecordQuery
