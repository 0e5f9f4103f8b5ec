import RecordQuery.Proofs.Meaning.Numbering
import RecordQuery.Proofs.Statement.Placed
import RecordQuery.Query
/-! The names of the variables without a name of a statement: they follow the order of the text, and stay whatever is
done with the statement after it has been made ready. -/

namespace RecordQuery

open EvalM

/-- Runs a computation on the part of the memory down a place. -/
def EvalM.along {α : Type} : List Branch → EvalM α → EvalM α
  | [], action => action
  | branch :: place, action => (along place action).on branch

/-- Variables that all have a name go on having it. -/
theorem World.KeepsNames.named {places : List (List Branch)} {before after : World} {names : List String}
    (keeps : World.KeepsNames (· ∈ places) before after) (named : places.map before.nameAt = names.map some) :
    places.map after.nameAt = names.map some := by
  rw [← named]
  refine List.map_congr_left fun place inside => ?_
  have listed : before.nameAt place ∈ names.map some := named ▸ List.mem_map_of_mem inside
  obtain ⟨name, -, same⟩ := List.mem_map.mp listed
  rw [keeps place inside name same.symm, same]

/-- What keeps the names below a place keeps them there. -/
theorem EvalM.Keeps.along {α : Type} {action : EvalM α} {held : List Branch → Prop} (place : List Branch)
    (keeps : Keeps (World.KeepsNames fun rest => held (place ++ rest)) action) :
    Keeps (World.KeepsNames held) (action.along place) := by
  induction place generalizing held with
  | nil => exact keeps
  | cons branch place ih => exact (ih keeps).on World.KeepsNames.part

theorem Memory.descend_empty (place : List Branch) : Memory.empty.descend place = .empty := by
  induction place with
  | nil => rfl
  | cons branch place ih => exact ih

namespace Statement

variable {statement : Statement Expr} {start ready : World}

/-- No variable of the statement has been given a name, nor its scope a number. -/
structure Unnumbered (statement : Statement Expr) (world : World) : Prop where
  unnamed : ∀ place ∈ (statementScript statement).places, world.nameAt place = none
  uncounted {state : StatementState} {nesting : Nesting} (opened : world.memory.state = .statement state nesting) :
    world.heap.root state.scope < world.heap.stores.length ∧ world.heap.numbered state.scope = 0

/-- A statement that nothing is remembered of has numbered nothing. -/
theorem unnumbered_of_empty (statement : Statement Expr) {world : World} (unused : world.memory = .empty) :
    statement.Unnumbered world where
  unnamed place _ := by rw [World.nameAt, unused, Memory.descend_empty]; rfl
  uncounted opened := by
    rw [unused] at opened
    cases opened

theorem top_not_mem (statement : Statement Expr) : [] ∉ (statementScript statement).places := by
  rw [places_statementScript]
  exact not_mem_placesBelow statement.clauses

/-- What the node of the statement remembers names no variable in it. -/
theorem nameAt_withState (world : World) (state : NodeState) {place : List Branch}
    (inside : place ∈ (statementScript statement).places) :
    World.nameAt { world with memory := world.memory.withState state } place = world.nameAt place := by
  rw [World.nameAt_withState, if_neg]
  rintro rfl
  exact statement.top_not_mem inside

/-- Opening a statement numbers nothing. -/
theorem Unnumbered.opened (unnumbered : statement.Unnumbered start) (whole : Statement Meaning) :
    ∃ state nesting begun, whole.opened start = .ok (state, nesting) begun ∧
      begun.memory.state = .statement state nesting ∧ statement.Unnumbered begun := by
  by_cases known : ∃ state nesting, start.memory.state = .statement state nesting
  · obtain ⟨state, nesting, node⟩ := known
    exact ⟨state, nesting, start, opened_of_node node, node, unnumbered⟩
  · have ran := @opened_of_other whole start fun state nesting node => known ⟨state, nesting, node⟩
    refine ⟨_, freshNesting, _, ran, rfl, fun place inside => ?_, fun opened => ?_⟩
    · exact (nameAt_withState start _ inside).trans (unnumbered.unnamed place inside)
    · cases opened
      exact Heap.numbered_opened whole start.heap

/-- The names of the first variables without a name. -/
def firstNames (count : Nat) : List String := (List.range' 1 count).map anonymousName

theorem anonymousName_injective : Function.Injective anonymousName := by
  intro first second same
  have digits := String.ofList_injective ((String.append_right_inj "?").mp same)
  rw [← Nat.ofDigitChars_ten_toDigits (n := first), ← Nat.ofDigitChars_ten_toDigits (n := second), digits]

theorem firstNames_nodup (count : Nat) : (firstNames count).Nodup :=
  (List.nodup_range' _).map anonymousName_injective

/-- However making a statement ready ends that has numbered nothing, the variables in it have the first names, in the
order of its text. -/
theorem named_of_makeReady (brought : ∀ handler ∈ handlersOfStatement statement, handler.KeepsNames)
    (unnumbered : statement.Unnumbered start) (environment : Environment) (rowType : DataType) :
    (statementScript statement).places.map
        (((statementMeaning statement).placed.makeReady environment rowType).after start).nameAt =
      (firstNames (statementScript statement).places.length).map some := by
  obtain ⟨state, nesting, begun, opened, node, fresh⟩ := unnumbered.opened (statementMeaning statement).placed
  obtain ⟨present, uncounted⟩ := fresh.uncounted node
  let setting : Setting := ⟨rowType, environment, state.scope⟩
  let cleared : World :=
    { begun with memory := begun.memory.withState (.statement { state with initialized := false } nesting) }
  obtain ⟨middle, counted, numbers⟩ := statement.placed_numbers state.scope cleared present fun place inside =>
    (nameAt_withState begun _ inside).trans (fresh.unnamed place inside)
  have := World.allowsNode_keepsNames statement.top_not_mem
  -- The variables are numbered first, and nothing after that takes a name away.
  have last : EvalM.Keeps (World.KeepsNames (· ∈ (statementScript statement).places)) (do
      (statementMeaning statement).placed.resolve setting
      setNode (.statement { state with initialized := true, rowType } nesting)) :=
    (resolve_keeps fun part member _ =>
      (placed_keepsNames brought (fun _ inside => inside) part member).prepare _).bind fun _ => keeps_setNode _
  have ran : ((statementMeaning statement).placed.makeReady environment rowType).after start = (do
      (statementMeaning statement).placed.resolve setting
      setNode (.statement { state with initialized := true, rowType } nesting)).after middle := by
    rw [EvalM.after, makeReady, bind_of_ok opened]
    dsimp only
    rw [bind_of_ok (rfl : setNode _ begun = .ok () cleared), prepare_eq, bind_assoc, bind_of_ok counted]
    rfl
  rw [ran]
  refine (last middle).named ?_
  rw [numbers.named, firstNames, List.map_map]
  exact congrArg (fun count => (List.range' (count + 1) _).map _) uncounted

end Statement

namespace Query

variable {statement : Statement Expr}

theorem source_ofStatement (statement : Statement Expr) :
    (Query.ofStatement statement).statement.source = statement.source.map (·.meaning.down .source) :=
  statement.placed_source

section Opened

variable {start begun : World} {opened : StatementState × Nesting}
  (asked : (Query.ofStatement statement).statement.opened start = .ok opened begun)
include asked

/-- A query over rows is made ready as a statement is. -/
theorem prepare_of_rows {type : DataType} (rows : statement.source = .rows type) :
    (Query.ofStatement statement).prepare start =
      (Query.ofStatement statement).statement.makeReady (Query.ofStatement statement).environment type begun := by
  have found : discard (Query.ofStatement statement).state start = .ok () begun := bind_of_ok (bind_of_ok asked)
  rw [prepare, bind_of_ok found, source_ofStatement, rows]
  rfl

/-- A query over an expression is not made ready by itself. -/
theorem prepare_of_expression {source : Expr} (nested : statement.source = .expression source) :
    (Query.ofStatement statement).prepare start = .error (.invalidStatement .sourceOutside) begun := by
  have found : discard (Query.ofStatement statement).state start = .ok () begun := bind_of_ok (bind_of_ok asked)
  rw [prepare, bind_of_ok found, source_ofStatement, nested]
  rfl

end Opened

/-- However making a query ready ends that has numbered nothing, the variables in it have the first names. -/
theorem named_of_prepare {start : World} (brought : ∀ handler ∈ handlersOfStatement statement, handler.KeepsNames)
    (unnumbered : statement.Unnumbered start) {type : DataType} (rows : statement.source = .rows type) :
    (statementScript statement).places.map ((Query.ofStatement statement).prepare.after start).nameAt =
      (Statement.firstNames (statementScript statement).places.length).map some := by
  obtain ⟨state, nesting, begun, opened, -, fresh⟩ := unnumbered.opened (Query.ofStatement statement).statement
  rw [EvalM.after, prepare_of_rows opened rows]
  exact Statement.named_of_makeReady brought fresh _ _

/-- Only a query over rows can be made ready. -/
theorem rows_of_prepare {start ready : World} (success : (Query.ofStatement statement).prepare start = .ok () ready) :
    ∃ type, statement.source = .rows type := by
  cases found : statement.source with
  | rows type => exact ⟨type, rfl⟩
  | expression own =>
    obtain ⟨_, _, asked, rest⟩ := ok_of_bind success
    rw [source_ofStatement, found] at rest
    cases rest

/-! What is done with a query that is ready. -/

section Keeps

variable {related : World → World → Prop} [AllowsNode related] {such : Handler → Prop} {query : Query}

theorem prepare_keeps (keeps : query.statement.Every (Meaning.KeepsAmong such related)) :
    EvalM.Keeps related query.prepare := by
  refine (((Statement.opened_keeps _).bind fun _ => keeps_pure _).map _).bind fun _ => ?_
  split
  · exact keeps_throw _
  · exact Statement.makeReady_keeps keeps _ _

omit [AllowsNode related] in
theorem keeps_unless [IsPreorder World related] {α : Type} {refused : Prop} [Decidable refused] {error : Error}
    {next : EvalM α} (rest : EvalM.Keeps related next) :
    EvalM.Keeps related (if refused then (throw error : EvalM Unit) >>= fun _ => next else next) := by
  split
  · exact (keeps_throw error).bind fun _ => rest
  · exact rest

omit [AllowsNode related] in
theorem reorderPlaced_keeps [AllowsExecution related] (opens : EvalM.Keeps related query.statement.opened)
    (keeps : query.statement.Every (Meaning.KeepsAmong such related))
    (around : ∀ handler ∈ query.environment.functions.handlers, such handler) (results : Results)
    {orders : List (OrderBy Meaning)} (ordered : ∀ meaning ∈ orderExpressions orders, meaning.KeepsAmong such related) :
    EvalM.Keeps related (query.reorderPlaced results orders) := by
  have state : EvalM.Keeps related query.state := opens.bind fun _ => keeps_pure _
  have setting : EvalM.Keeps related query.setting := state.bind fun _ => keeps_pure _
  have frame (rows : List Value) : EvalM.Keeps related (query.frame rows) := state.bind fun _ => keeps_pure _
  have run : query.statement.Every (Meaning.KeepsIn related query.environment) := fun meaning member =>
    (keeps meaning member).within around
  refine state.bind fun found => keeps_unless (keeps_unless ?_)
  refine setting.bind fun setting => (Statement.prepareClause_keeps _ fun meaning member =>
    (ordered meaning member).prepare setting).bind fun _ => ?_
  refine keeps_ofExcept_bind fun entries sorted => ?_
  have sources := sortSources_every sorted run.columns fun meaning member => (ordered meaning member).within around
  refine (Stopwatch.start_keeps _).bind fun _ => (frame _).bind fun _ => ?_
  exact (Statement.finish_keeps run sources _ _ _).bind fun _ => (keeps_readHeap _).bind fun _ => keeps_pure _

end Keeps

theorem lookup_kept {branch : Branch} (own : isReorder branch = false) (branches : List (Branch × Memory)) :
    (branches.partition fun entry => isReorder entry.1).2.lookup branch = branches.lookup branch := by
  rw [List.partition_eq_filter_filter]
  induction branches with
  | nil => rfl
  | cons entry rest ih =>
    obtain ⟨other, part⟩ := entry
    simp only [Function.comp_def] at ih ⊢
    grind

/-- Forgetting the expressions of a reordering takes no name away elsewhere. -/
theorem forgetReorder_keepsNames {held : List Branch → Prop} (apart : ∀ index place, ¬held (.reorder index :: place))
    (world : World) : World.KeepsNames held world (forgetReorder world) := by
  intro place here name named
  rw [← named]
  cases place with
  | nil => rfl
  | cons branch place =>
    have own : isReorder branch = false := by
      cases branch with
      | reorder index => exact absurd here (apart index place)
      | _ => rfl
    have child : (forgetReorder world).memory.child branch = world.memory.child branch :=
      congrArg (·.getD .empty) (lookup_kept own world.memory.branches)
    rw [World.nameAt, World.nameAt, Memory.descend, Memory.descend, child]

/-- No clause of a statement is on a branch of a reordering. -/
theorem clause_not_reorder (statement : Statement Expr) : ∀ part ∈ statement.clauses, isReorder part.1 = false :=
  @Statement.forall_clauses _ (isReorder · = false) statement (fun _ _ => rfl) (fun _ => rfl) rfl (fun _ => rfl)
    (fun _ => rfl) rfl (fun _ => rfl) (fun _ => rfl) fun _ => rfl

theorem reorder_not_mem (statement : Statement Expr) (index : Nat) (place : List Branch) :
    .reorder index :: place ∉ (statementScript statement).places := by
  intro member
  rw [places_statementScript] at member
  obtain ⟨part, inside, found⟩ := List.mem_flatMap.mp member
  obtain ⟨_, _, same⟩ := List.mem_map.mp found
  have own := clause_not_reorder statement part inside
  rw [(List.cons.inj same).1] at own
  cases own

/-- What holds of the standard functions and of those that a query brings along holds of all that it sees. -/
theorem environment_every {such : Handler → Prop}
    (standard : ∀ handler ∈ FunctionRegistry.default.handlers, such handler)
    (brought : ∀ handler ∈ handlersOfStatement statement, such handler) :
    ∀ handler ∈ (Query.ofStatement statement).environment.functions.handlers, such handler := by
  refine Statement.ownEnvironment_every standard fun handler member => ?_
  rw [Query.ofStatement, Statement.placed_handlers] at member
  exact brought handler (mem_handlersOfStatement.mpr (.inl member))

/-- The orders of a reordering, each on the branch that is kept for it. -/
def placedOrders (orders : List (OrderBy Expr)) : List (OrderBy Meaning) :=
  (orderMeanings orders).mapIdx fun index order => order.down (.reorder index)

theorem expressions_placedOrders (orders : List (OrderBy Expr)) : orderExpressions (placedOrders orders) =
    Meaning.branched ((orderParts orders .reorder).map (Prod.map id Expr.meaning)) := by
  rw [placedOrders, ← branched_orderParts, orderMeanings_eq_map, orderParts_map]

theorem placedOrders_each {property : Meaning → Prop} {orders : List (OrderBy Expr)}
    (each : ∀ part ∈ orderParts orders .reorder, property (part.2.meaning.down part.1)) :
    ∀ meaning ∈ orderExpressions (placedOrders orders), property meaning := by
  rw [expressions_placedOrders]
  intro _ member
  obtain ⟨_, found, rfl⟩ := List.mem_map.mp member
  obtain ⟨part, inside, rfl⟩ := List.mem_map.mp found
  exact each part inside

theorem after_reorderBy (query : Query) (results : Results) (orders : List (OrderBy Expr)) (world : World) :
    (query.reorderBy results orders).after world =
      forgetReorder ((query.reorderPlaced results (placedOrders orders)).after world) := by
  unfold EvalM.after reorderBy placedOrders
  dsimp only
  cases query.reorderPlaced results _ world <;> rfl

/-- Ordering again by other expressions takes no name away from the variables of the query. -/
theorem reorderBy_keepsNames (brought : ∀ handler ∈ handlersOfStatement statement, handler.KeepsNames)
    (results : Results) {orders : List (OrderBy Expr)}
    (given : ∀ handler ∈ handlersOfOrders orders, handler.KeepsNames) :
    EvalM.Keeps (World.KeepsNames (· ∈ (statementScript statement).places))
      ((Query.ofStatement statement).reorderBy results orders) := by
  have := World.allowsNode_keepsNames statement.top_not_mem
  have ordered : ∀ meaning ∈ orderExpressions (placedOrders orders),
      meaning.KeepsAmong Handler.KeepsNames (World.KeepsNames (· ∈ (statementScript statement).places)) := by
    refine placedOrders_each fun part member => ?_
    obtain ⟨index, branch⟩ := branch_orderParts member
    have own : ∀ handler ∈ part.2.handlers, handler.KeepsNames := fun handler inside =>
      given handler (handlers_orderParts member inside)
    -- No place of the statement is on the branch of the reordering, so there is nothing to take away.
    have nowhere (place : List Branch) (here : part.1 :: place ∈ (statementScript statement).places) :
        place ∈ part.2.script.places := absurd (branch ▸ here) (reorder_not_mem statement index place)
    exact (part.2.meaning_keepsNames own _ nowhere).down World.KeepsNames.part
  have around := environment_every standard_keepNames brought
  have placed := reorderPlaced_keeps (Statement.opened_keeps _)
    (Statement.placed_keepsNames brought fun _ inside => inside) around results ordered
  intro world
  rw [after_reorderBy]
  exact IsTrans.trans _ _ _ (placed world) (forgetReorder_keepsNames (reorder_not_mem statement) _)

/-- What can have become of the world of a query: the query, and the expressions and statements that stand in it, have
been made ready and evaluated in whatever settings, among functions that take no name away. -/
inductive Later (statement : Statement Expr) (ready : World) : World → Prop
  | ready : Later statement ready ready
  /-- Anything has changed but what the query remembers. -/
  | aside {world other : World} (since : Later statement ready world) (same : other.memory = world.memory) :
    Later statement ready other
  | prepared {world : World} (since : Later statement ready world) :
    Later statement ready ((Query.ofStatement statement).prepare.after world)
  | executed {world : World} (since : Later statement ready world) (rows : List Value) :
    Later statement ready (((Query.ofStatement statement).execute rows).after world)
  | reordered {world : World} (since : Later statement ready world) (results : Results) {orders : List (OrderBy Expr)}
    (given : ∀ handler ∈ handlersOfOrders orders, handler.KeepsNames) :
    Later statement ready (((Query.ofStatement statement).reorderBy results orders).after world)
  | evaluated {world : World} (since : Later statement ready world) {place : List Branch} {expression : Expr}
    (stands : statement.Contains place expression) {environment : Environment}
    (around : ∀ handler ∈ environment.functions.handlers, handler.KeepsNames) (frame : Frame) :
    Later statement ready (((expression.meaning.evaluate environment frame).along place).after world)
  | resolved {world : World} (since : Later statement ready world) {place : List Branch} {expression : Expr}
    (stands : statement.Contains place expression) (setting : Setting) :
    Later statement ready (((expression.meaning.prepare setting).along place).after world)
  | refreshed {world : World} (since : Later statement ready world) {place : List Branch} {nested : Statement Expr}
    (stands : statement.Contains place (.subquery nested)) (environment : Environment) (rowType : DataType) :
    Later statement ready
      ((((statementMeaning nested).placed.withoutSource.makeReady environment rowType).along place).after world)

/-- A nested statement takes no name away from the variables of the statement when it is made ready again. -/
theorem refreshed_keepsNames (brought : ∀ handler ∈ handlersOfStatement statement, handler.KeepsNames)
    {place : List Branch} {nested : Statement Expr} (stands : statement.Contains place (.subquery nested))
    (environment : Environment) (rowType : DataType) :
    EvalM.Keeps (World.KeepsNames (· ∈ (statementScript statement).places))
      (((statementMeaning nested).placed.withoutSource.makeReady environment rowType).along place) := by
  have places : (Expr.subquery nested).script.places = (statementScript nested).places := by simp [Expr.script]
  have inside (rest : List Branch) (here : place ++ rest ∈ (statementScript statement).places) :
      rest ∈ (statementScript nested).places := places ▸ stands.mem_places.mp here
  have : AllowsNode (World.KeepsNames fun rest => place ++ rest ∈ (statementScript statement).places) :=
    World.allowsNode_keepsNames fun top => nested.top_not_mem (inside [] top)
  have keeps := Statement.placed_keepsNames (fun handler found => brought handler (stands.handlers found)) inside
  exact (Statement.makeReady_keeps keeps.withoutSource environment rowType).along place

/-- Whatever is done with a query, the variables in it keep the names that they have. -/
theorem Later.keepsNames {ready later : World} (brought : ∀ handler ∈ handlersOfStatement statement, handler.KeepsNames)
    (since : Later statement ready later) :
    World.KeepsNames (· ∈ (statementScript statement).places) ready later := by
  have := World.allowsNode_keepsNames statement.top_not_mem
  have keeps := Statement.placed_keepsNames brought fun _ inside => inside
  have step {α : Type} {world : World} {action : EvalM α}
      (before : World.KeepsNames (· ∈ (statementScript statement).places) ready world)
      (kept : EvalM.Keeps (World.KeepsNames (· ∈ (statementScript statement).places)) action) :
      World.KeepsNames (· ∈ (statementScript statement).places) ready (action.after world) :=
    IsTrans.trans _ _ _ before (kept world)
  induction since with
  | ready => exact refl ready
  | aside _ same ih => exact IsTrans.trans _ _ _ ih (World.keepsNames_of_memory same)
  | prepared _ ih => exact step ih (prepare_keeps keeps)
  | executed _ rows ih =>
    have run := fun meaning member => (keeps meaning member).within (environment_every standard_keepNames brought)
    exact step ih (Statement.executeReady_keeps run rows none)
  | reordered _ results given ih => exact step ih (reorderBy_keepsNames brought results given)
  | evaluated _ stands around frame ih => exact step ih (((stands.keepsNames brought).evaluate around frame).along _)
  | resolved _ stands setting ih => exact step ih (((stands.keepsNames brought).prepare setting).along _)
  | refreshed _ stands environment rowType ih => exact step ih (refreshed_keepsNames brought stands environment rowType)

/-- The variables without a name of a query are named in the order of its text, sub-queries included where they are
written: the script writes the text, with the place of each such variable, and from when the query has been made ready
the variables there have the first names, no two of them the same. -/
theorem unnamed_follow_text (brought : ∀ handler ∈ handlersOfStatement statement, handler.KeepsNames)
    {start ready later : World} (unnumbered : statement.Unnumbered start)
    (success : (Query.ofStatement statement).prepare start = .ok () ready) (since : Later statement ready later) :
    (statementScript statement).text = (Query.ofStatement statement).text ∧
      (∀ place, place ∈ (statementScript statement).places ↔ ∃ path, statement.Contains place (.bind none path)) ∧
      (statementScript statement).places.map later.nameAt =
        (Statement.firstNames (statementScript statement).places.length).map some ∧
      (Statement.firstNames (statementScript statement).places.length).Nodup := by
  refine ⟨text_statementScript fun expression _ => expression.text_script, fun place => ?_, ?_, ?_⟩
  · exact Statement.Contains.mem_places_iff
  · obtain ⟨type, rows⟩ := rows_of_prepare success
    have named := named_of_prepare brought unnumbered rows
    rw [after_of_ok success] at named
    exact (since.keepsNames brought).named named
  · exact Statement.firstNames_nodup _

/-- Variables without a name among the columns, in a nested statement and its source, and in an ordering. -/
def asking : Statement Expr :=
  { Statement.all with
    select := some [⟨.bind none none, none, false⟩]
    filter := some (.isNull true (.subquery
      { Statement.all with
        source := .expression (.bind none none)
        filter := some (.compare .eq false (.bind (some "_currobj") none) (.bind none none)) }))
    orderBy := [⟨.expression (.bind none none), .ascending⟩] }

/-- The names follow the text, also after the query has been made ready once more and executed. -/
theorem unnamed_follow_text_of_asking :
    let query := Query.ofStatement asking
    handlersOfStatement asking = [] ∧ asking.Unnumbered World.start ∧
      ∃ ready, query.prepare World.start = .ok () ready ∧
        let later := (query.execute [.int32 1]).after (query.prepare.after ready)
        Later asking ready later ∧
          query.text = "SELECT ? FROM null WHERE (SELECT * FROM ? WHERE :_currobj = ?) IS NOT NULL ORDER BY ? ASC" ∧
          [[.column 0], [.filter, .subject, .source], [.filter, .subject, .filter, .right], [.orderBy 0]].map
            later.nameAt = [some "?1", some "?2", some "?3", some "?4"] := by
  intro query
  have none : handlersOfStatement asking = [] := rfl
  have unnumbered := asking.unnumbered_of_empty (rfl : World.start.memory = .empty)
  obtain ⟨_, success⟩ := exists_ok query.prepare .start (by decide +kernel)
  have since : Later asking (query.prepare.after .start) ((query.execute [.int32 1]).after
      (query.prepare.after (query.prepare.after .start))) := Later.ready.prepared.executed [.int32 1]
  obtain ⟨written, -, named, -⟩ := unnamed_follow_text (by simp [none]) unnumbered success since
  exact ⟨none, unnumbered, _, success, since, written.symm.trans (by decide +kernel), named⟩

end Query

end RecordQuery
