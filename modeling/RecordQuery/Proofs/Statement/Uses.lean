import RecordQuery.Proofs.Statement.Listening
import RecordQuery.Proofs.Statement.Naming
/-! What is done with a query balances, whether or not it succeeds: it is made ready, executed, and asked to order
results again by expressions that are forgotten afterwards, with whatever their sub-queries hold. -/

namespace RecordQuery

open EvalM

/-- Nothing is remembered of an expression yet. -/
theorem Expr.shaped_empty (expression : Expr) : expression.Shaped .empty := by
  induction expression using Expr.byParts with
  | whole expression ih => exact .shaped (fun _ => rfl) (fun part member => ih part member) fun _ _ => rfl

namespace Query

variable {statement : Statement Expr} {scope : Scope} {world : World}

/-- What is remembered on the branches of a query: of its clauses, which have been resolved where the query is ready,
and on the other branches. -/
def Remembered (statement : Statement Expr) (ready : Prop) (given : Branch → Memory → Prop) (branch : Branch)
    (memory : Memory) : Prop :=
  Memory.AtParts statement.clauses (fun part => part.2.Shaped) branch memory ∧
    (ready → Memory.AtParts statement.clauses (fun part => part.2.Prepared) branch memory) ∧
    (branch ∉ statement.clauses.map (·.1) → given branch memory)

section Remembered

variable {ready : Prop} {given : Branch → Memory → Prop} {branch : Branch} {memory : Memory}

theorem Remembered.mono (remembered : Remembered statement ready given branch memory) {ready' : Prop}
    {given' : Branch → Memory → Prop} (only : ready' → ready) (left : given branch memory → given' branch memory) :
    Remembered statement ready' given' branch memory :=
  ⟨remembered.1, fun holds => remembered.2.1 (only holds), fun other => left (remembered.2.2 other)⟩

theorem remembered_clause {part : Branch × Expr} (member : part ∈ statement.clauses) :
    Remembered statement ready given part.1 memory ↔ part.2.Shaped memory ∧ (ready → part.2.Prepared memory) := by
  have shaped := Memory.atParts_iff statement.clauses_apart member (fun part => part.2.Shaped) memory
  have prepared := Memory.atParts_iff statement.clauses_apart member (fun part => part.2.Prepared) memory
  rw [Remembered, shaped, prepared]
  exact ⟨fun ⟨own, ready, _⟩ => ⟨own, ready⟩, fun ⟨own, ready⟩ =>
    ⟨own, ready, fun other => absurd (List.mem_map_of_mem member) other⟩⟩

theorem remembered_other (other : branch ∉ statement.clauses.map (·.1)) :
    Remembered statement ready given branch memory ↔ given branch memory := by
  have nowhere (each : Branch × Expr → Memory → Prop) : Memory.AtParts statement.clauses each branch memory := by
    rintro part member rfl
    exact absurd (List.mem_map_of_mem member) other
  exact ⟨fun remembered => remembered.2.2 other, fun holds => ⟨nowhere _, fun _ => nowhere _, fun _ => holds⟩⟩

theorem not_mem_clauses_of_reorder (statement : Statement Expr) (reorder : isReorder branch = true) :
    branch ∉ statement.clauses.map (·.1) := by
  intro member
  obtain ⟨part, inside, rfl⟩ := List.mem_map.mp member
  rw [clause_not_reorder statement part inside] at reorder
  cases reorder

end Remembered

/-- What a query with this node remembers, and what besides. -/
abbrev Knows (statement : Statement Expr) (state : StatementState) (nesting : Nesting)
    (given : Branch → Memory → Prop) : Memory → Prop :=
  Memory.Within (· = .statement state nesting) (Remembered statement (state.initialized = true) given)

theorem Knows.mono {state : StatementState} {nesting : Nesting} {given given' : Branch → Memory → Prop}
    {memory : Memory} (knows : Knows statement state nesting given memory)
    (left : ∀ branch, given branch (memory.child branch) → given' branch (memory.child branch)) :
    Knows statement state nesting given' memory :=
  ⟨knows.1, fun branch => (knows.2 branch).mono id (left branch)⟩

/-- Nothing is remembered on a branch. -/
abbrev Blank (_ : Branch) (memory : Memory) : Prop := memory = .empty

/-- What a query remembers between uses: a scope that does not change, no subscriptions of its own, and nothing but of
its clauses. -/
def Rests (statement : Statement Expr) (scope : Scope) (memory : Memory) : Prop :=
  ∃ state nesting, state.scope = scope ∧ nesting.subscriptions = [] ∧ Knows statement state nesting Blank memory

/-- A query is used: it balances, and leaves nothing but what is remembered between uses. -/
abbrev Uses (statement : Statement Expr) (root : StoreId) (scope : Scope) : World → World → Prop :=
  World.Tied root (World.Stands root (some scope) (Rests statement scope))

/-! What is done with a query. -/

theorem state_tied (root : StoreId) : EvalM.Keeps (Uses statement root scope) (Query.ofStatement statement).state := by
  intro world stands
  obtain ⟨state, nesting, -, -, within⟩ := stands.such
  have ran : (Query.ofStatement statement).state world = .ok state world :=
    bind_of_ok (Statement.opened_of_node within.1)
  rw [after_of_ok ran]
  exact ⟨stands, refl world⟩

section Balanced

variable (balanced : ∀ part ∈ statement.clauses, part.2.Balanced)
include balanced

/-- Making a query ready balances, whether or not that succeeds. -/
theorem prepare_tied (root : StoreId) :
    EvalM.Keeps (Uses statement root scope) (Query.ofStatement statement).prepare := by
  intro world stands
  obtain ⟨state, nesting, rfl, silent, within⟩ := stands.such
  have opened := @Statement.opened_of_node (Query.ofStatement statement).statement _ _ _ within.1
  cases source : statement.source with
  | expression nested =>
    rw [after_of_error (prepare_of_expression opened source)]
    exact ⟨stands, refl world⟩
  | rows type =>
    have rows : statement.sourceExpression? = none := by rw [Statement.sourceExpression?, source]
    have shaped : ∀ part ∈ statement.clauses, ∀ memory,
        Remembered statement False Blank part.1 memory ↔ part.2.Shaped memory := by
      intro part member memory
      rw [remembered_clause member]
      simp
    have unready : world.memory.Within (· = .statement state nesting) (Remembered statement False Blank) :=
      ⟨within.1, fun branch => (within.2 branch).mono False.elim id⟩
    have makes := Statement.makeReady_ends_balanced balanced rows shaped (stands.later (refl world) unready)
      (Query.ofStatement statement).environment type
    let still (left : World) : Prop := Rests statement state.scope left.memory ∧ World.Balances root world left
    have ends : Ends (Query.ofStatement statement).prepare world (fun _ left => still left) still := by
      rw [Ends, prepare_of_rows opened source]
      refine makes.mono (fun _ left made => ?_) fun left failed => ?_
      · obtain ⟨within, balances, prepared⟩ := made
        refine ⟨⟨{ state with initialized := true, rowType := type }, nesting, rfl, silent, within.1, fun branch => ?_⟩,
          balances⟩
        refine ⟨(within.2 branch).1, fun _ part member same => ?_, (within.2 branch).2.2⟩
        exact same ▸ prepared part member
      · obtain ⟨within, balances⟩ := failed
        exact ⟨⟨{ state with initialized := false }, nesting, rfl, silent, within.1, fun branch =>
          (within.2 branch).mono Bool.false_ne_true id⟩, balances⟩
    obtain ⟨rests, balances⟩ := ends.after
    exact ⟨stands.later balances rests, balances⟩

variable (brought : ∀ handler ∈ handlersOfStatement statement, handler.KeepsAside)
include brought

/-- Executing a query balances, ready or not. -/
theorem execute_tied (root : StoreId) (rows : List Value) :
    EvalM.Keeps (Uses statement root scope) ((Query.ofStatement statement).execute rows) := by
  intro world stands
  obtain ⟨state, nesting, rfl, silent, within⟩ := stands.such
  have ready : state.initialized = true → ∀ part ∈ statement.clauses, ∀ memory,
      Remembered statement (state.initialized = true) Blank part.1 memory ↔
        part.2.Shaped memory ∧ part.2.Prepared memory := by
    intro initialized part member memory
    rw [remembered_clause member]
    simp [initialized]
  have runs := Statement.executeReady_tied balanced (environment_every standard_keepAside brought) ready rows none world
    (stands.anywhere within)
  exact ⟨stands.later runs.2 ⟨state, nesting, rfl, silent, runs.1.such⟩, runs.2⟩

end Balanced

/-! Ordering again by expressions that are forgotten afterwards. -/

theorem orderParts_apart (orders : List (OrderBy Expr)) : ((orderParts orders .reorder).map (·.1)).Nodup :=
  (branches_orderParts orders .reorder).nodup (List.nodup_range.map fun _ _ => Branch.reorder.inj)

theorem isReorder_orderParts (orders : List (OrderBy Expr)) :
    ∀ part ∈ orderParts orders .reorder, isReorder part.1 = true := by
  intro part member
  obtain ⟨index, branch⟩ := branch_orderParts member
  rw [branch]
  rfl

/-- Nothing is remembered but on the branches of a reordering. -/
abbrev BlankElsewhere (branch : Branch) (memory : Memory) : Prop := isReorder branch = false → memory = .empty

theorem blankElsewhere_of_orders {orders : List (OrderBy Expr)} {such : Branch × Expr → Memory → Prop}
    {branch : Branch} {memory : Memory} (only : Memory.OnlyAtParts (orderParts orders .reorder) such branch memory) :
    BlankElsewhere branch memory := by
  intro other
  refine only.2 fun member => ?_
  obtain ⟨part, inside, rfl⟩ := List.mem_map.mp member
  rw [isReorder_orderParts orders part inside] at other
  cases other

/-- What a query remembers while it orders results again. -/
abbrev Reorders (statement : Statement Expr) (orders : List (OrderBy Expr)) (state : StatementState)
    (nesting : Nesting) (such : Branch × Expr → Memory → Prop) : Memory → Prop :=
  Knows statement state nesting (Memory.OnlyAtParts (orderParts orders .reorder) such)

/-- All of ordering results again that comes after the expressions have been resolved. -/
def orderAnew (query : Query) (state : StatementState) (results : Results) (orders : List (OrderBy Meaning)) :
    EvalM Results := do
  let entries ← EvalM.ofExcept (sortSources query.statement.select orders)
  let watch ← Stopwatch.start query.statement.clock
  let (rows, watch) ← query.statement.finish entries query.environment (← query.frame results.having) results.having
    watch
  let saves ← EvalM.readHeap fun heap => (heap.rootStore state.scope).saves
  return { results with rows, saves, timings := watch.timings }

theorem reorderPlaced_of_node {query : Query} {state : StatementState} {nesting : Nesting} {world : World}
    (node : world.memory.state = .statement state nesting) (results : Results) (orders : List (OrderBy Meaning)) :
    query.reorderPlaced results orders world =
      (if !state.initialized then (throw (.invalidStatement .notInitialized) : EvalM Results)
      else if !query.statement.groupBy.isEmpty then throw (.invalidStatement .groupedReorder)
      else do
        Statement.prepareClause "order by" ⟨state.rowType, query.environment, state.scope⟩ (orderExpressions orders)
        query.orderAnew state results orders) world := by
  have asked : query.state world = .ok state world := bind_of_ok (Statement.opened_of_node node)
  have set : query.setting world = .ok ⟨state.rowType, query.environment, state.scope⟩ world := bind_of_ok asked
  rw [reorderPlaced, bind_of_ok asked]
  split
  · rfl
  split
  · rfl
  · exact bind_of_ok set

section Reordering

variable {orders : List (OrderBy Expr)} {state : StatementState} {nesting : Nesting} {root : StoreId}

theorem reorders_iff (such : Branch × Expr → Memory → Prop) {part : Branch × Expr}
    (member : part ∈ orderParts orders .reorder) (memory : Memory) :
    Remembered statement (state.initialized = true) (Memory.OnlyAtParts (orderParts orders .reorder) such) part.1 memory
      ↔ such part memory :=
  (remembered_other (not_mem_clauses_of_reorder statement (isReorder_orderParts orders part member))).trans
    (Memory.onlyAtParts_iff (orderParts_apart orders) member such memory)

variable (given : ∀ part ∈ orderParts orders .reorder, part.2.Balanced)
include given

/-- Resolving the expressions of a reordering balances. -/
theorem prepareOrders_ends (place : String) (setting : Setting) (stands : World.Stands root (some setting.scope)
      (Reorders statement orders state nesting fun part => part.2.Shaped) world) :
    Ends (Statement.prepareClause place setting (orderExpressions (placedOrders orders))) world
      (fun _ left => Reorders statement orders state nesting (fun part memory =>
        part.2.Shaped memory ∧ part.2.Prepared memory) left.memory ∧ World.Balances root world left)
      (fun left => Reorders statement orders state nesting (fun part => part.2.Shaped) left.memory ∧
        World.Balances root world left) := by
  have keeps : EvalM.Keeps (World.Tied root (World.Stands root (some setting.scope)
      (Reorders statement orders state nesting fun part => part.2.Shaped)))
      (Statement.prepareClause place setting (orderExpressions (placedOrders orders))) :=
    Statement.prepareClause_keeps place (placedOrders_each fun part member =>
      ((given part member).prepare root setting).on (World.Tied.part
        (reorders_iff (fun part => part.2.Shaped) member)))
  obtain ⟨after, balances⟩ := keeps world stands
  cases ran : Statement.prepareClause place setting (orderExpressions (placedOrders orders)) world with
  | error error left =>
    rw [after_of_error ran] at after balances
    rw [Ends, ran]
    exact ⟨after.such, balances⟩
  | ok value left =>
    rw [after_of_ok ran] at after balances
    rw [Ends, ran]
    refine ⟨after.such.mono fun branch shaped => ⟨fun part member same => ⟨shaped.1 part member same, ?_⟩, shaped.2⟩,
      balances⟩
    have prepares := Statement.prepareClause_prepares place setting rfl (expressions_placedOrders orders)
      (by simpa [Function.comp_def] using orderParts_apart orders)
    obtain ⟨_, begun, ended, -, own, found⟩ := (prepares world left ran).2.2 _ (List.mem_map_of_mem member)
    exact same ▸ found ▸ (given part member).prepared own

variable (balanced : ∀ part ∈ statement.clauses, part.2.Balanced)
  (brought : ∀ handler ∈ handlersOfStatement statement, handler.KeepsAside)
include balanced brought

/-- Ordering rows by expressions that have been resolved balances. -/
theorem orderAnew_tied (initialized : state.initialized = true) (results : Results) : EvalM.Keeps
    (World.Tied root (World.Stands root none (Reorders statement orders state nesting fun part memory =>
      part.2.Shaped memory ∧ part.2.Prepared memory)))
      ((Query.ofStatement statement).orderAnew state results (placedOrders orders)) := by
  let ready : Branch × Expr → Memory → Prop := fun part memory => part.2.Shaped memory ∧ part.2.Prepared memory
  have around := environment_every standard_keepAside brought
  have clause : (statementMeaning statement).placed.Every (Meaning.KeepsIn
      (World.Tied root (World.Stands root none (Reorders statement orders state nesting ready)))
      (Query.ofStatement statement).environment) := by
    refine Statement.placed_each fun part member frame => ((balanced part member).evaluate root around frame).on
      (World.Tied.part fun memory => ?_)
    rw [remembered_clause member]
    simp [initialized]
  have order : ∀ meaning ∈ orderExpressions (placedOrders orders), meaning.KeepsIn
      (World.Tied root (World.Stands root none (Reorders statement orders state nesting ready)))
      (Query.ofStatement statement).environment :=
    placedOrders_each fun part member frame => ((given part member).evaluate root around frame).on
      (World.Tied.part (reorders_iff ready member))
  have asks : EvalM.Keeps (World.Tied root (World.Stands root none (Reorders statement orders state nesting ready)))
      (Query.ofStatement statement).state := (Statement.opened_tied _).bind fun _ => keeps_pure _
  refine keeps_ofExcept_bind fun entries found => (Stopwatch.start_keeps _).bind fun _ => ?_
  refine (asks.bind fun _ => keeps_pure _).bind fun _ => ?_
  exact (Statement.finish_keeps clause (sortSources_every found clause.columns order) _ _ _).bind fun _ =>
    (keeps_readHeap _).bind fun _ => keeps_pure _

/-- Ordering again balances, and remembers nothing but on the branches that are kept for it. -/
theorem reorderPlaced_ends (results : Results) (stands : World.Stands root (some state.scope)
      (Knows statement state nesting Blank) world) :
    Ends ((Query.ofStatement statement).reorderPlaced results (placedOrders orders)) world
      (fun _ left => Knows statement state nesting BlankElsewhere left.memory ∧ World.Balances root world left)
      (fun left => Knows statement state nesting BlankElsewhere left.memory ∧ World.Balances root world left) := by
  have refused : Knows statement state nesting BlankElsewhere world.memory ∧ World.Balances root world world :=
    ⟨stands.such.mono fun _ blank _ => blank, refl world⟩
  rw [Ends, reorderPlaced_of_node stands.such.1]
  by_cases unready : (!state.initialized) = true
  · rw [if_pos unready]
    exact refused
  rw [if_neg unready]
  by_cases grouped : (!(Query.ofStatement statement).statement.groupBy.isEmpty) = true
  · rw [if_pos grouped]
    exact refused
  rw [if_neg grouped]
  have initialized : state.initialized = true := by simpa using unready
  have begun : Reorders statement orders state nesting (fun part => part.2.Shaped) world.memory :=
    stands.such.mono fun _ blank => ⟨fun part _ _ => blank ▸ part.2.shaped_empty, fun _ => blank⟩
  have resolves := prepareOrders_ends given "order by"
    ⟨state.rowType, (Query.ofStatement statement).environment, state.scope⟩ (stands.later (refl world) begun)
  refine Ends.bind (resolves.mono (fun _ _ made => made) fun left failed => ?_) fun _ left made => ?_
  · exact ⟨failed.1.mono fun _ => blankElsewhere_of_orders, failed.2⟩
  · obtain ⟨knows, balances⟩ := made
    have between := stands.later balances knows
    obtain ⟨after, ordered⟩ := orderAnew_tied given balanced brought initialized results left (between.anywhere knows)
    exact ends_of_after ⟨after.such.mono fun _ => blankElsewhere_of_orders, IsTrans.trans _ _ _ balances ordered⟩

end Reordering

/-- What is remembered of a reordering is told apart from the rest, and no statement in either is lost. -/
theorem statements_forgetReorder (world : World) : world.memory.statements.Perm
    (Memory.branchStatements (world.memory.branches.partition fun entry => isReorder entry.1).1 ++
      (forgetReorder world).memory.statements) := by
  have apart : (Memory.branchStatements world.memory.branches).Perm
      (Memory.branchStatements (world.memory.branches.partition fun entry => isReorder entry.1).1 ++
        Memory.branchStatements (world.memory.branches.partition fun entry => isReorder entry.1).2) := by
    simp only [Memory.branchStatements_eq, ← List.flatMap_append, List.partition_eq_filter_filter]
    exact (List.filter_append_perm _ world.memory.branches).symm.flatMap_right _
  rw [Memory.statements_eq]
  exact (apart.append_left _).trans (List.perm_append_comm_assoc ..)

/-- Forgetting a reordering gives up what the sub-queries in it hold, and nothing else. -/
theorem forgetReorder_balances {root : StoreId}
    (account : ∃ others, world.heap.Accounts root others world.memory.statements) :
    World.Balances root world (forgetReorder world) := by
  have releases {others : List Nat} (right : world.heap.Accounts root others world.memory.statements) :
      Heap.Continues root world.heap (forgetReorder world).heap ∧
        (forgetReorder world).heap.Accounts root others (forgetReorder world).memory.statements := by
    have released := (right.perm (statements_forgetReorder world)).released
    rwa [← Memory.branchSubscriptions_eq] at released
  obtain ⟨others, right⟩ := account
  refine ⟨Heap.extends_release _ _, (releases right).1, fun unlike => ?_, fun right => (releases right).2⟩
  have kept : (forgetReorder world).memory.branches.Sublist world.memory.branches := by
    change (world.memory.branches.partition fun entry => isReorder entry.1).2.Sublist _
    rw [List.partition_eq_filter_filter]
    exact List.filter_sublist
  exact .apart (unlike.keys.sublist (kept.map _)) fun entry member => unlike.parts entry (kept.subset member)

theorem lookup_forgotten {branch : Branch} (reorder : isReorder branch = true) (branches : List (Branch × Memory)) :
    (branches.partition fun entry => isReorder entry.1).2.lookup branch = none := by
  rw [List.partition_eq_filter_filter, List.lookup_eq_none_iff]
  intro entry member
  have own := (List.mem_filter.mp member).2
  have other : branch ≠ entry.1 := by
    rintro rfl
    simp [reorder] at own
  simpa using other

theorem forgetReorder_knows {state : StatementState} {nesting : Nesting}
    (knows : Knows statement state nesting BlankElsewhere world.memory) :
    Knows statement state nesting Blank (forgetReorder world).memory := by
  refine ⟨knows.1, fun branch => ?_⟩
  cases own : isReorder branch with
  | true =>
    have child : (forgetReorder world).memory.child branch = .empty :=
      congrArg (·.getD .empty) (lookup_forgotten own world.memory.branches)
    exact (remembered_other (not_mem_clauses_of_reorder statement own)).mpr child
  | false =>
    have child : (forgetReorder world).memory.child branch = world.memory.child branch :=
      congrArg (·.getD .empty) (lookup_kept own world.memory.branches)
    rw [child]
    exact (knows.2 branch).mono id fun blank => blank own

/-- Ordering results again balances: what is taken for it is given up afterwards. -/
theorem reorderBy_tied (balanced : ∀ part ∈ statement.clauses, part.2.Balanced)
    (brought : ∀ handler ∈ handlersOfStatement statement, handler.KeepsAside) (root : StoreId) (results : Results)
    {orders : List (OrderBy Expr)} (given : ∀ handler ∈ handlersOfOrders orders, handler.KeepsAside) :
    EvalM.Keeps (Uses statement root scope) ((Query.ofStatement statement).reorderBy results orders) := by
  intro world stands
  obtain ⟨state, nesting, rfl, silent, knows⟩ := stands.such
  have others : ∀ part ∈ orderParts orders .reorder, part.2.Balanced := fun part member =>
    part.2.balanced fun handler inside => given handler (handlers_orderParts member inside)
  obtain ⟨kept, orders⟩ :=
    (reorderPlaced_ends others balanced brought results (stands.later (refl world) knows)).after
  have balances := IsTrans.trans _ _ _ orders (forgetReorder_balances (stands.later orders kept).account)
  rw [after_reorderBy]
  exact ⟨stands.later balances ⟨state, nesting, rfl, silent, forgetReorder_knows kept⟩, balances⟩

end Query

end RecordQuery
