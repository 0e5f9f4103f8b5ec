import RecordQuery.Proofs.Meaning.Keeps
import RecordQuery.Proofs.Statement.Conduct
/-! What executing a statement does to the world: what its expressions do to it, clause by clause. -/

namespace RecordQuery

open EvalM

/-- A preorder of worlds that allows for what executing a statement does by itself: reading the clock, and putting
save values back. -/
class AllowsExecution (related : World → World → Prop) : Prop extends IsPreorder World related where
  timed (world : World) (readings : Nat) : related world { world with readings }
  /-- The save values of before are put in place of those that there are. -/
  restored {begun world : World} (later : related begun world) (scope : Scope) :
    related begun { world with heap := world.heap.replaceSaves scope (begun.saves scope) }

instance : AllowsExecution World.Extends where
  timed world _ := refl world.heap
  restored {_ world} later scope :=
    IsTrans.trans (r := World.Extends) _ world _ later (world.heap.extends_replaceSaves scope _)

section Clauses

variable {related : World → World → Prop} [AllowsExecution related] {environment : Environment}

theorem runAll_keeps (clause : String) {expressions : List Meaning}
    (keeps : ∀ expression ∈ expressions, expression.KeepsIn related environment) (frame : Frame) :
    EvalM.Keeps related (runAll clause expressions environment frame) :=
  runAll_conducts (.keeps related) clause keeps frame

theorem keepWhere_keeps (clause : String) {condition : Option Meaning}
    (keeps : ∀ part ∈ condition, part.KeepsIn related environment) (frame : Frame) (rows : List Value) :
    EvalM.Keeps related (keepWhere clause condition environment frame rows) :=
  keepWhere_conducts (.keeps related) clause keeps rows frame

theorem sort_keeps {order : RowOrder} (keeps : SourcesEvery (Meaning.KeepsIn related environment) order.entries)
    (rows : List Value) (frame : Frame) (state : SortState) :
    EvalM.Keeps related (order.sort rows environment frame state) :=
  sort_conducts (.keeps related) keeps rows state frame

theorem project_keeps {statement : Statement Meaning}
    (keeps : ∀ column ∈ statement.columns, column.expression.KeepsIn related environment) (frame : Frame)
    (rows : List Value) : EvalM.Keeps related (project statement environment frame rows) :=
  project_conducts (.keeps related) keeps rows frame

theorem groupRows_keeps {expressions : List Meaning}
    (keeps : ∀ expression ∈ expressions, expression.KeepsIn related environment) (frame : Frame) (rows : List Value) :
    EvalM.Keeps related (groupRows expressions environment frame rows) :=
  groupRows_conducts (.keeps related) keeps rows frame

theorem sortGroups_keeps {entries : List (SortSource × Direction)}
    (keeps : SourcesEvery (Meaning.KeepsIn related environment) entries) (frame : Frame)
    (groups : Grouped (List Value)) : EvalM.Keeps related (sortGroups entries environment frame groups) :=
  sortGroups_conducts (.keeps related) keeps groups frame

/-! Timing. -/

theorem Stopwatch.start_keeps (clock : Option (Nat → Nat)) : EvalM.Keeps related (Stopwatch.start clock) := by
  cases clock with
  | none => exact keeps_pure _
  | some shows => exact fun world => AllowsExecution.timed world _

theorem Stopwatch.lap_keeps (watch : Stopwatch) (stage : Stage) : EvalM.Keeps related (watch.lap stage) := by
  unfold Stopwatch.lap
  split
  · exact fun world => AllowsExecution.timed world _
  · exact keeps_pure watch

end Clauses

namespace Statement

section Execution

variable {related : World → World → Prop} [AllowsExecution related] {environment : Environment}
  {statement : Statement Meaning} {order : RowOrder}

theorem projectGroup_keeps (keeps : statement.Every (Meaning.KeepsIn related environment))
    (sources : SourcesEvery (Meaning.KeepsIn related environment) order.entries) (frame : Frame)
    (members : List Value) (state : SortState) :
    EvalM.Keeps related (statement.projectGroup order environment frame members state) :=
  projectGroup_conducts (.keeps related) keeps sources members state frame

theorem projectGroups_keeps (keeps : statement.Every (Meaning.KeepsIn related environment))
    (sources : SourcesEvery (Meaning.KeepsIn related environment) order.entries) (frame : Frame) (begun : World)
    (groups : Grouped (List Value)) (state : SortState) : EvalM.Keeps (EvalM.Since related begun)
      (statement.projectGroups order environment frame (begun.saves frame.scope) groups state) := by
  induction groups generalizing state with
  | nil => exact keeps_pure _
  | cons group rest ih =>
    obtain ⟨key, members⟩ := group
    refine (keeps_changeHeap fun world later => AllowsExecution.restored later frame.scope).bind fun _ => ?_
    refine (((projectGroup_keeps keeps sources _ members state).inside _).since begun).bind fun (results, state) => ?_
    exact (keeps_readHeap _).bind fun saved => (ih state).bind fun _ => keeps_pure _

theorem groupStage_keeps (keeps : statement.Every (Meaning.KeepsIn related environment)) (frame : Frame)
    (rows : List Value) : EvalM.Keeps related (statement.groupStage environment frame rows) := by
  refine (groupRows_keeps keeps.groupBy frame rows).bind fun groups => ?_
  refine keeps_ofExcept_bind fun entries found => ?_
  refine keeps_readHeap_bind fun begun => ?_
  refine (projectGroups_keeps keeps (keeps.entries found) frame begun groups .start).bind fun _ => ?_
  refine (keeps_changeHeap fun world later => AllowsExecution.restored later frame.scope).bind fun _ => ?_
  dsimp only
  split
  · exact (keeps_pure _).bind fun _ => keeps_pure _
  · refine keeps_ofExcept_bind fun entries found => ?_
    have sorts := sortGroups_keeps (groupSources_every found keeps.groupOrder) frame groups
    exact (sorts.since begun).bind fun _ => keeps_pure _

theorem finish_keeps (keeps : statement.Every (Meaning.KeepsIn related environment))
    {entries : List (SortSource × Direction)} (sources : SourcesEvery (Meaning.KeepsIn related environment) entries)
    (frame : Frame) (rows : List Value) (watch : Stopwatch) :
    EvalM.Keeps related (statement.finish entries environment frame rows watch) := by
  have sorts : SourcesEvery (Meaning.KeepsIn related environment) (RowOrder.mk entries statement.cacheKeys).entries :=
    sources
  refine (sort_keeps sorts rows _ .start).bind fun (sorted, _) => ?_
  refine (Stopwatch.lap_keeps _ _).bind fun _ => (Stopwatch.lap_keeps _ _).bind fun _ => ?_
  exact (project_keeps keeps.columns _ _).bind fun _ => (Stopwatch.lap_keeps _ _).bind fun _ => keeps_pure _

theorem execute_keeps (keeps : statement.Every (Meaning.KeepsIn related environment)) (frame : Frame) :
    EvalM.Keeps related (statement.execute environment frame) := by
  refine (Stopwatch.start_keeps _).bind fun _ => (runAll_keeps _ keeps.onAll frame).bind fun _ => ?_
  refine (Stopwatch.lap_keeps _ _).bind fun _ => (keepWhere_keeps _ keeps.filter frame _).bind fun _ => ?_
  refine (Stopwatch.lap_keeps _ _).bind fun _ => (runAll_keeps _ keeps.onResults _).bind fun _ => ?_
  refine (Stopwatch.lap_keeps _ _).bind fun _ => (keepWhere_keeps _ keeps.having _ _).bind fun rows => ?_
  refine (Stopwatch.lap_keeps _ _).bind fun _ => ?_
  split
  · refine keeps_ofExcept_bind fun entries found => ?_
    refine (finish_keeps keeps (keeps.entries found) frame rows _).bind fun _ => ?_
    exact (keeps_readHeap _).bind fun _ => keeps_pure _
  · refine (groupStage_keeps keeps _ rows).bind fun _ => (Stopwatch.lap_keeps _ _).bind fun _ => ?_
    exact (keeps_readHeap _).bind fun _ => keeps_pure _

end Execution

section Preparation

variable {such : Handler → Prop} {related : World → World → Prop} [IsPreorder World related]
  {statement : Statement Meaning}

theorem prepareClause_keeps (place : String) {setting : Setting} {expressions : List Meaning}
    (keeps : ∀ expression ∈ expressions, EvalM.Keeps related (expression.prepare setting)) :
    EvalM.Keeps related (prepareClause place setting expressions) :=
  keeps_forM fun expression member => (keeps expression member).inside place

/-- Checks the grouping clauses. -/
def checkGroups (statement : Statement Meaning) : EvalM Unit := do
  if !statement.groupOrder.isEmpty || statement.groupLimit.isSome then
    if statement.groupBy.isEmpty then throw (.invalidStatement .groupClausesAlone)
    discard (EvalM.ofExcept (groupSources statement.groupBy statement.groupOrder))

theorem checkGroups_keeps (statement : Statement Meaning) : EvalM.Keeps related statement.checkGroups := by
  have checked : EvalM.Keeps related (discard (EvalM.ofExcept (groupSources statement.groupBy statement.groupOrder))) :=
    (keeps_ofExcept _).map _
  unfold checkGroups
  split
  · split
    · exact (keeps_throw _).bind fun _ => checked
    · exact checked
  · exact keeps_pure ()

/-- All of preparing a statement that comes after the numbering of its variables. -/
def resolve (statement : Statement Meaning) (setting : Setting) : EvalM Unit := do
  EvalM.ofExcept (checkSplice statement.columns)
  prepareColumns setting statement.columns
  prepareClause "where clause" setting statement.filter.toList
  prepareClause "having clause" setting statement.having.toList
  prepareClause "group by" setting statement.groupBy
  prepareClause "order by" setting (orderExpressions statement.orderBy)
  prepareClause "execute on" setting (statement.onAll ++ statement.onResults)
  prepareClause "group by order by" { setting with rowType := .any } (orderExpressions statement.groupOrder)
  discard (EvalM.ofExcept (sortSources statement.select statement.orderBy))
  if !statement.groupOrder.isEmpty || statement.groupLimit.isSome then
    if statement.groupBy.isEmpty then throw (.invalidStatement .groupClausesAlone)
    discard (EvalM.ofExcept (groupSources statement.groupBy statement.groupOrder))

theorem prepare_eq (statement : Statement Meaning) (setting : Setting) :
    statement.prepare setting = (do
      Meaning.forEach (statement.expressions none) (·.number setting.scope)
      statement.resolve setting) := rfl

/-- The clauses are resolved against one setting, but for the rows that the groups are ordered by. -/
theorem resolve_keeps {setting : Setting}
    (keeps : statement.Every fun meaning => ∀ rowType, EvalM.Keeps related (meaning.prepare { setting with rowType })) :
    EvalM.Keeps related (statement.resolve setting) := by
  refine (keeps_ofExcept _).bind fun _ => ?_
  refine EvalM.Keeps.bind (keeps_forM fun (column, index) member => ?_) fun _ => ?_
  · have present := List.mem_zipIdx_iff_getElem?.mp member
    exact (keeps.columns column (List.mem_of_getElem? present) setting.rowType).inside _
  have clause {place : String} {expressions : List Meaning} (every : ∀ expression ∈ expressions,
      ∀ rowType, EvalM.Keeps related (expression.prepare { setting with rowType })) :
      EvalM.Keeps related (prepareClause place setting expressions) :=
    prepareClause_keeps _ fun expression member => every expression member setting.rowType
  refine (clause (by simpa using keeps.filter)).bind fun _ => ?_
  refine (clause (by simpa using keeps.having)).bind fun _ => ?_
  refine (clause keeps.groupBy).bind fun _ => (clause keeps.orderBy).bind fun _ => ?_
  refine (clause (List.forall_mem_append.mpr ⟨keeps.onAll, keeps.onResults⟩)).bind fun _ => ?_
  refine (prepareClause_keeps _ fun expression member => keeps.groupOrder expression member .any).bind fun _ => ?_
  exact ((keeps_ofExcept _).map _).bind fun _ => statement.checkGroups_keeps

theorem prepare_keeps (keeps : statement.Every (Meaning.KeepsAmong such related)) (setting : Setting) :
    EvalM.Keeps related (statement.prepare setting) := by
  rw [prepare_eq]
  exact (keeps_forM fun part member => (keeps part member).number setting.scope).bind fun _ =>
    resolve_keeps fun part member _ => (keeps part member).prepare _

end Preparation

/-- All expressions of a statement and all functions that it brings along keep the relation. -/
structure Keeps (related : World → World → Prop) (statement : Statement Meaning) : Prop where
  expressions : statement.Every (Meaning.Keeps related)
  handlers : ∀ handler ∈ statement.handlers, handler.Keeps related

theorem Keeps.within {related : World → World → Prop} {statement : Statement Meaning} (keeps : statement.Keeps related)
    {environment : Environment} (around : environment.Keeps related) :
    statement.Every (Meaning.KeepsIn related environment) :=
  fun expression member => (keeps.expressions expression member).within around

end Statement

/-- A relation of worlds that allows for all that goes on inside a statement, the standard functions included. -/
class AllowsStatements (related : World → World → Prop) : Prop
    extends AllowsEvaluation related, AllowsExecution related where
  standard : ∀ handler ∈ FunctionRegistry.default.handlers, handler.Keeps related

namespace Statement

theorem opened_of_node {statement : Statement Meaning} {world : World} {state : StatementState} {nesting : Nesting}
    (node : world.memory.state = .statement state nesting) : statement.opened world = .ok (state, nesting) world := by
  have read : EvalM.node world = .ok (.statement state nesting) world := by
    rw [← node]
    rfl
  rw [opened, bind_of_ok read]
  rfl

/-- A statement that nothing is known of gets a scope of its own. -/
theorem opened_of_other {statement : Statement Meaning} {world : World}
    (other : ∀ state nesting, world.memory.state ≠ .statement state nesting) :
    statement.opened world = .ok (⟨(statement.newScope world.heap).1, false, .any⟩, freshNesting)
      { world with
        heap := (statement.newScope world.heap).2
        memory :=
          world.memory.withState (.statement ⟨(statement.newScope world.heap).1, false, .any⟩ freshNesting) } := by
  rw [opened, node_bind]
  cases node : world.memory.state with
  | statement state nesting => exact absurd node (other state nesting)
  | _ => rfl

section Use

variable {such : Handler → Prop} {related : World → World → Prop} [AllowsNode related] {environment : Environment}
  {statement : Statement Meaning}

theorem opened_keeps (statement : Statement Meaning) : EvalM.Keeps related statement.opened := by
  refine keeps_node.bind fun state => ?_
  split
  · exact keeps_pure _
  · exact (keeps_onHeap fun world => AllowsNode.opened statement world).bind fun _ =>
      (keeps_setNode _).bind fun _ => keeps_pure _

theorem makeReady_keeps (keeps : statement.Every (Meaning.KeepsAmong such related)) (environment : Environment)
    (rowType : DataType) : EvalM.Keeps related (statement.makeReady environment rowType) :=
  (opened_keeps statement).bind fun _ => (keeps_setNode _).bind fun _ =>
    (prepare_keeps keeps _).bind fun _ => keeps_setNode _

omit [AllowsNode related] in
/-- Executing keeps what opening the statement keeps, and what its expressions keep. -/
theorem executeReady_keeps_of_opened [AllowsExecution related] (opens : EvalM.Keeps related statement.opened)
    (keeps : statement.Every (Meaning.KeepsIn related environment)) (rows : List Value) (outerRow : Option Value) :
    EvalM.Keeps related (statement.executeReady environment rows outerRow) := by
  refine opens.bind fun (state, _) => ?_
  have run := execute_keeps keeps (statement.frame state.scope rows outerRow)
  dsimp only
  split
  · exact (keeps_throw _).bind fun _ => run
  · exact run

theorem executeReady_keeps [AllowsExecution related] (keeps : statement.Every (Meaning.KeepsIn related environment))
    (rows : List Value) (outerRow : Option Value) :
    EvalM.Keeps related (statement.executeReady environment rows outerRow) :=
  executeReady_keeps_of_opened (opened_keeps statement) keeps rows outerRow

/-! The functions that a statement sees. -/

theorem mem_handlers_register {registry : FunctionRegistry} {handler found : Handler}
    (member : found ∈ (registry.register handler).handlers) : found = handler ∨ found ∈ registry.handlers := by
  simp only [FunctionRegistry.register, FunctionRegistry.handlers, List.mem_append, List.mem_singleton] at member ⊢
  rcases member with (own | same) | standard
  · exact .inr (.inl own)
  · exact .inl same
  · exact .inr (.inr standard)

omit [AllowsNode related] in
theorem registered_every {registry : FunctionRegistry} (own : ∀ handler ∈ registry.handlers, such handler)
    {handlers : List Handler} (brought : ∀ handler ∈ handlers, such handler) :
    ∀ handler ∈ (handlers.foldl (·.register ·) registry).handlers, such handler := by
  induction handlers generalizing registry with
  | nil => exact own
  | cons handler rest ih =>
    refine ih (fun found member => ?_) fun other member => brought other (List.mem_cons_of_mem _ member)
    rcases mem_handlers_register member with rfl | known
    · exact brought found (List.mem_cons_self ..)
    · exact own found known

theorem inherited_every {registry : FunctionRegistry} (own : ∀ handler ∈ registry.handlers, such handler)
    {other : FunctionRegistry} (around : ∀ handler ∈ other.handlers, such handler) :
    ∀ handler ∈ (registry.inherit other).handlers, such handler := by
  have inherits : ∀ handler ∈ other.own, such handler := fun handler member =>
    around handler (List.mem_append_left _ member)
  unfold FunctionRegistry.inherit
  generalize other.own = added at inherits
  induction added generalizing registry with
  | nil => exact own
  | cons handler rest ih =>
    refine ih (fun found member => ?_) fun later member => inherits later (List.mem_cons_of_mem _ member)
    dsimp only at member
    split at member
    · exact own found member
    · rcases mem_handlers_register member with rfl | known
      · exact inherits found (List.mem_cons_self ..)
      · exact own found known

theorem ownEnvironment_every (standard : ∀ handler ∈ FunctionRegistry.default.handlers, such handler)
    (brought : ∀ handler ∈ statement.handlers, such handler) :
    ∀ handler ∈ statement.ownEnvironment.functions.handlers, such handler :=
  registered_every standard brought

omit [AllowsNode related] in
theorem ownEnvironment_keeps [AllowsStatements related] (keeps : statement.Keeps related) :
    statement.ownEnvironment.Keeps related :=
  ownEnvironment_every AllowsStatements.standard keeps.handlers

end Use

end Statement

namespace Meaning

variable {such : Handler → Prop} {related : World → World → Prop} [AllowsNode related] {environment : Environment}
  {nested : Statement Meaning}

/-- A nested statement sees its own functions and those around it. -/
theorem nestedEnvironment_every (standard : ∀ handler ∈ FunctionRegistry.default.handlers, such handler)
    (brought : ∀ handler ∈ nested.handlers, such handler) (nesting : Nesting)
    (around : ∀ handler ∈ environment.functions.handlers, such handler) :
    ∀ handler ∈ (nestedEnvironment nested nesting environment).functions.handlers, such handler := by
  have own := Statement.ownEnvironment_every standard brought
  unfold nestedEnvironment
  split
  · exact Statement.inherited_every own around
  · exact own

theorem refresh_keeps (keeps : nested.Every (Meaning.KeepsAmong such related)) (environment : Environment)
    (rowType : DataType) : EvalM.Keeps related (refresh nested environment rowType) := by
  refine (Statement.opened_keeps nested).bind fun (_, nesting) => (keeps_readHeap _).bind fun raised => ?_
  dsimp only
  split
  · refine ((Statement.makeReady_keeps keeps _ rowType).inside _).bind fun _ => ?_
    refine (Statement.opened_keeps nested).bind fun (state, nesting) => ?_
    exact (keeps_changeHeap fun world => AllowsNode.lowered world _ _).bind fun _ => keeps_setNode _
  · exact keeps_pure ()

theorem adopt_keeps (nested : Statement Meaning) (setting : Setting) : EvalM.Keeps related (adopt nested setting) :=
  (Statement.opened_keeps nested).bind fun _ => (keeps_readHeap _).bind fun _ => keeps_setNode _

theorem listen_keeps (nested : Statement Meaning) (source : Meaning) (setting : Setting) :
    EvalM.Keeps related (listen nested source setting) := by
  refine (Statement.opened_keeps nested).bind fun (state, nesting) => ?_
  refine (keeps_changeHeap fun world => AllowsNode.released world _).bind fun _ => ?_
  refine (keeps_readHeap _).bind fun _ => keeps_get.bind fun world => ?_
  refine (keeps_onHeap fun world => AllowsNode.watched world _ _ _).bind fun _ => ?_
  exact (keeps_onHeap fun world => AllowsNode.watched world _ _ _).bind fun _ => keeps_setNode _

theorem handlers_withoutSource (statement : Statement Meaning) :
    statement.withoutSource.handlers = statement.handlers := by
  unfold Statement.withoutSource
  split <;> rfl

/-- A sub-query keeps what the expressions of its statement keep, if such handlers are those that it brings along and
the standard ones. -/
theorem subquery_keepsAmong [AllowsExecution related] {statement : Statement Meaning}
    (keeps : statement.Every (Meaning.KeepsAmong such related))
    (standard : ∀ handler ∈ FunctionRegistry.default.handlers, such handler)
    (brought : ∀ handler ∈ statement.handlers, such handler) : (subquery statement).KeepsAmong such related := by
  have nested := keeps.withoutSource
  have numbers (scope : Scope) : EvalM.Keeps related
      (forEach (statement.withoutSource.expressions statement.sourceExpression?) (·.number scope)) := by
    rw [Statement.expressions_withoutSource]
    exact keeps_forM fun part member => (keeps part member).number scope
  refine ⟨fun {environment} around frame => ?_, fun setting => ?_, numbers⟩
  · unfold subquery
    dsimp only
    cases found : statement.sourceExpression? with
    | none => exact keeps_throw _
    | some part =>
      refine ((keeps.source part found).evaluate around frame).bind fun value => ?_
      refine (refresh_keeps nested environment _).bind fun _ => ?_
      refine (Statement.opened_keeps _).bind fun (_, nesting) => ?_
      have within := nestedEnvironment_every standard ((handlers_withoutSource statement).symm ▸ brought) nesting around
      have runs : statement.withoutSource.Every (Meaning.KeepsIn related _) := fun expression member =>
        (nested expression member).within within
      exact ((Statement.executeReady_keeps runs _ _).inside _).bind fun _ => keeps_pure _
  · refine (adopt_keeps _ setting).bind fun _ => (numbers setting.scope).bind fun _ => ?_
    cases found : statement.sourceExpression? with
    | none => exact keeps_throw _
    | some part => exact ((keeps.source part found).prepare setting).bind fun _ => listen_keeps _ part setting

end Meaning

end RecordQuery
