import RecordQuery.Statement.Instance
/-! The meaning of a statement nested over a source expression. It is made ready when it is evaluated: at first, when
its rows are of another type than before, and when a variable that the source reads has changed. -/

namespace RecordQuery

/-- The rows that a source's value stands for. -/
def sourceRows : Value → List Value
  | .list items => items
  | .map entries => entries.map (·.2)
  | .null => []
  | other => [other]

/-- The type of rows, told by the first that is not null. -/
def rowTypeOf (rows : List Value) : DataType := ((rows.find? (!·.isNull)).map Value.dataType).getD .any

/-- Whether one of the subscriptions, even one given up since, has noted a change. -/
def Heap.isRaised (heap : Heap) (id : StoreId) (subscriptions : List Nat) : Bool :=
  subscriptions.any (heap.store id).raised.contains

/-- Gives subscriptions up. -/
def Heap.release (heap : Heap) (subscriptions : List (StoreId × Nat)) : Heap :=
  subscriptions.foldl (fun heap (id, subscription) => (heap.unsubscribe id subscription).2) heap

/-- Listens to changes of the named variables of a kind, if there are any. -/
def Heap.watch (heap : Heap) (scope : Scope) (kind : VariableKind) (names : List String) : List Nat × Heap :=
  if names.isEmpty then ([], heap)
  else
    let (id, heap) := heap.subscribe scope kind (.watch names)
    ([id], heap)

namespace Meaning

/-- The names of the variables of a kind. -/
def namesOf (kind : VariableKind) (names : List (VariableKind × String)) : List String :=
  names.filterMap fun (found, name) => if found == kind then some name else none

/-- What a nested statement sees: only its own types and functions until it is given those around it. -/
def nestedEnvironment (nested : Statement Meaning) (nesting : Nesting) (environment : Environment) : Environment :=
  if nesting.adopted then nested.environmentWithin environment else nested.ownEnvironment

/-- Makes a nested statement ready for rows of a type unless it is. -/
def refresh (nested : Statement Meaning) (environment : Environment) (rowType : DataType) : EvalM Unit := do
  let (_, nesting) ← nested.opened
  let raised ← EvalM.readHeap (·.isRaised nesting.store nesting.subscriptions)
  if nesting.stale || raised || nesting.seenType != some rowType then
    EvalM.inside "sub-query (SELECT ...)"
      (nested.makeReady (nestedEnvironment nested nesting environment) rowType)
    let (state, nesting) ← nested.opened
    EvalM.changeHeap (·.modify nesting.store (·.lower nesting.subscriptions))
    EvalM.setNode (.statement state { nesting with stale := false, seenType := some rowType })

/-- Gives a nested statement the variables, types and functions around it. -/
def adopt (nested : Statement Meaning) (setting : Setting) : EvalM Unit := do
  let (state, nesting) ← nested.opened
  let scope ← EvalM.readHeap (·.link state.scope setting.scope)
  EvalM.setNode (.statement { state with scope } { nesting with adopted := true })

/-- Listens to the variables that the source reads, and to nothing that was listened to before. -/
def listen (nested : Statement Meaning) (source : Meaning) (setting : Setting) : EvalM Unit := do
  let (state, nesting) ← nested.opened
  EvalM.changeHeap (·.release (nesting.subscriptions.map (nesting.store, ·)))
  let store ← EvalM.readHeap (·.root setting.scope)
  let read := source.variables (← get).memory
  let binds ← EvalM.onHeap (·.watch setting.scope .bind (namesOf .bind read))
  let saves ← EvalM.onHeap (·.watch setting.scope .save (namesOf .save read))
  EvalM.setNode (.statement state
    { nesting with seenType := none, stale := true, store, subscriptions := binds ++ saves })

/-- A statement whose rows are the items of its source's value. -/
def subquery (statement : Statement Meaning) : Meaning :=
  let source := statement.sourceExpression?
  let nested := statement.withoutSource
  let text := "(" ++ nested.shown source ++ ")"
  { text := text
    isConstructor := false
    evaluate := fun environment frame => do
      match source with
      | none => throw (.invalidStatement .sourceMissing)
      | some source =>
        let rows := sourceRows (← source.evaluate environment frame)
        refresh nested environment (rowTypeOf rows)
        let (_, nesting) ← nested.opened
        let results ← EvalM.inside ("sub-query " ++ text)
          (nested.executeReady (nestedEnvironment nested nesting environment) rows frame.row)
        return .list results.rows
    prepare := fun setting => do
      adopt nested setting
      forEach (nested.expressions source) (·.number setting.scope)
      match source with
      | none => throw (.invalidStatement .sourceMissing)
      | some source =>
        source.prepare setting
        listen nested source setting
    expectedType := fun _ _ => .list
    isFixed := fun _ => false
    «variables» := fun memory => (source.map (·.variables memory)).getD []
    number := fun scope => forEach (nested.expressions source) (·.number scope)
    resolution := fun _ => none }

end Meaning

end RecordQuery
