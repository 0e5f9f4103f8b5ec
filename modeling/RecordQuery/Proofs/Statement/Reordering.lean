import RecordQuery.Proofs.Statement.Beside
import RecordQuery.Proofs.Statement.Conservation
/-! Ordering results again: the rows left after HAVING are ordered, limited and projected as they are by the statement
that orders by the same columns. -/

namespace RecordQuery

open EvalM

namespace Statement

variable {ε : Type}

/-- Columns, counted from one, as an ordering clause. -/
def columnOrders (columns : List (Nat × Direction)) : List (OrderBy ε) :=
  columns.map fun (number, direction) => ⟨.column number, direction⟩

/-- The statement with columns as its ORDER BY. -/
def orderedBy (statement : Statement ε) (columns : List (Nat × Direction)) : Statement ε :=
  { statement with orderBy := columnOrders columns }

theorem orderParts_columnOrders (columns : List (Nat × Direction)) (branch : Nat → Branch) :
    orderParts (columnOrders columns : List (OrderBy ε)) branch = [] := by
  simp only [orderParts, columnOrders, List.zipIdx_map, List.filterMap_map]
  exact List.filterMap_eq_nil_iff.mpr fun _ _ => rfl

theorem columnOrders_map {δ : Type} (f : ε → δ) (columns : List (Nat × Direction)) :
    (columnOrders columns).map (·.map f) = columnOrders columns := by
  rw [columnOrders, List.map_map]
  rfl

/-- Columns are the same wherever they stand. -/
theorem columnOrders_mapIdx {δ : Type} (change : Nat → ε → δ) (columns : List (Nat × Direction)) :
    (columnOrders columns).mapIdx (fun index order => order.map (change index)) = columnOrders columns :=
  List.ext_getElem (by simp [columnOrders]) fun index _ _ => by simp [columnOrders, OrderBy.map, SortKey.map]

theorem columnOrders_placed (columns : List (Nat × Direction)) (branch : Nat → Branch) :
    (orderMeanings (columnOrders columns)).mapIdx (fun index order => order.down (branch index)) =
      columnOrders columns := by
  rw [orderMeanings_eq_map, columnOrders_map]
  exact columnOrders_mapIdx (fun index (meaning : Meaning) => meaning.down (branch index)) columns

variable {statement : Statement Expr} {columns : List (Nat × Direction)}

theorem placed_orderedBy : (statementMeaning (statement.orderedBy columns)).placed =
    (statementMeaning statement).placed.orderedBy columns := by
  have placed := columnOrders_placed columns .orderBy
  rw [orderMeanings_eq_map] at placed
  rw [statementMeaning_eq_map, statementMeaning_eq_map]
  exact congrArg (fun orders => { (statement.map Expr.meaning).placed with orderBy := orders }) placed

/-- A statement is within one that it orders by columns that there are. -/
theorem orderedBy_within (sorts : ∃ entries, sortSources (statementMeaning statement).placed.select
    (columnOrders columns) = .ok entries) : (statement.orderedBy columns).Within statement where
  rest := rfl
  groups := .inl ⟨rfl, rfl, rfl⟩
  order := by
    refine .inr ⟨?_, ?_⟩
    · rw [orderedBy, ← expressions_orderParts _ .orderBy, orderParts_columnOrders, List.map_nil]
    · rw [placed_orderedBy]
      exact sorts

end Statement

namespace Query

variable {query : Query} {scope : Scope} {world : World}

theorem orderExpressions_columnOrders (columns : List (Nat × Direction)) :
    orderExpressions (Statement.columnOrders columns : List (OrderBy Meaning)) = [] := by
  rw [← expressions_orderParts _ .orderBy, Statement.orderParts_columnOrders, List.map_nil]

theorem memory_start {clock : Option (Nat → Nat)} {watch : Stopwatch} {left : World}
    (ran : Stopwatch.start clock world = .ok watch left) : left.memory = world.memory := by
  cases clock <;> cases ran <;> rfl

/-- The rows left after HAVING are ordered, limited and projected again. -/
theorem reorder_ok {results reordered : Results} {columns : List (Nat × Direction)} {after : World}
    (ready : world.IsReadyIn scope) (ungrouped : query.statement.groupBy = [])
    (ran : query.reorder results columns world = .ok reordered after) :
    ∃ entries watch begun rows watch' left saves,
      sortSources query.statement.select (Statement.columnOrders columns) = .ok entries ∧
      Stopwatch.start query.statement.clock world = .ok watch begun ∧
      query.statement.finish entries query.environment (query.statement.frame scope results.having none) results.having
        watch begun = .ok (rows, watch') left ∧
      reordered = { results with rows, saves, timings := watch'.timings } := by
  obtain ⟨rowType, nesting, opened⟩ := ready
  have state : query.state world = _ := state_of_ready opened
  obtain ⟨left, placed⟩ : ∃ left,
      query.reorderPlaced results (Statement.columnOrders columns) world = .ok reordered left := by
    unfold reorder reorderBy at ran
    rw [show List.map _ columns = Statement.columnOrders columns from rfl, Statement.columnOrders_placed] at ran
    cases placed : query.reorderPlaced results (Statement.columnOrders columns) world with
    | ok found left =>
      simp only [placed] at ran
      cases ran
      exact ⟨left, rfl⟩
    | error error left =>
      simp only [placed] at ran
      cases ran
  unfold reorderPlaced at placed
  rw [bind_of_ok state] at placed
  simp only [ungrouped, List.isEmpty_nil, Bool.not_true, Bool.false_eq_true, if_false, setting, bind_assoc, pure_bind,
    orderExpressions_columnOrders] at placed
  rw [bind_of_ok state] at placed
  obtain ⟨_, _, prepared, placed⟩ := ok_of_bind placed
  cases prepared
  obtain ⟨entries, sources, placed⟩ := ok_of_ofExcept_bind placed
  obtain ⟨watch, begun, started, placed⟩ := ok_of_bind placed
  rw [← memory_start started] at opened
  have framed : query.frame results.having begun = .ok (query.statement.frame scope results.having none) begun :=
    bind_of_ok (state_of_ready opened)
  rw [bind_of_ok framed] at placed
  obtain ⟨⟨rows, watch'⟩, left, finished, placed⟩ := ok_of_bind placed
  obtain ⟨saves, _, -, placed⟩ := ok_of_bind placed
  cases placed
  exact ⟨entries, watch, begun, rows, watch', left, saves, sources, started, finished, rfl⟩

end Query

/-- Executing a query that is ready leaves it ready. -/
theorem World.IsReadyIn.execute {statement : Statement Expr} {scope : Scope} {world left : World}
    (ready : world.IsReadyIn scope) {rows : List Value} {results : Results}
    (ran : (Query.ofStatement statement).execute rows world = .ok results left) : left.IsReadyIn scope := by
  obtain ⟨rowType, nesting, opened⟩ := ready
  exact ⟨rowType, nesting, after_of_ok ran ▸ Query.execute_keeps_node opened rows⟩

/-- What ordering, limiting and projecting the rows left after HAVING once more makes of them is what executing makes of
the rows that orders them so. -/
theorem Statement.execute_orderedBy {statement : Statement Meaning} {environment : Environment} {frame : Frame}
    {binds saves : NameTable Value} {valid : Memory → Prop} {columns : List (Nat × Direction)}
    {entries : List (SortSource × Direction)} {world world' left begun last : World} {results : Results}
    {rows : List Value} {watch watch' : Stopwatch} (ungrouped : statement.groupBy = [])
    (parts : (statement.orderedBy columns).Every
      (Meaning.ConductsIn (.unvarying .text frame.scope binds saves valid) environment))
    (begins : world.Holds frame.scope binds saves valid) (ends : left.Holds frame.scope binds saves valid)
    (begins' : world'.Holds frame.scope binds saves valid)
    (ran : statement.execute environment frame world = .ok results left)
    (sources : sortSources statement.select (columnOrders columns) = .ok entries)
    (started : Stopwatch.start statement.clock left = .ok watch begun)
    (finished : statement.finish entries environment frame results.having watch begun = .ok (rows, watch') last)
    (text : String) :
    ∃ ordered left', (statement.orderedBy columns).execute environment { frame with statementText := text } world' =
        .ok ordered left' ∧
      ordered.rows = rows ∧ ordered.filtered = results.filtered ∧ ordered.having = results.having := by
  have carried : (Conduct.unvarying .text frame.scope binds saves valid).CarriesOver _ frame _ :=
    Conduct.unvarying_carriesOver (fun _ _ => rfl) rfl text
  rw [execute_ungrouped ungrouped] at ran
  obtain ⟨⟨filtered, having, _⟩, _, filters, ran⟩ := ok_of_bind ran
  obtain ⟨_, -, ran⟩ := ok_of_ofExcept_bind ran
  obtain ⟨⟨_, _⟩, _, -, ran⟩ := ok_of_bind ran
  cases ran
  obtain ⟨_, _, -, ⟨again, -⟩, -⟩ := Stopwatch.starts_carry carried.timed statement.clock statement.clock ⟨ends, begins'⟩
    started
  obtain ⟨⟨_, _, watch''⟩, before', filters', ⟨-, holds⟩, rfl, rfl⟩ :=
    filterRows_carries parts carried ⟨begins, begins'⟩ filters
  obtain ⟨⟨rows', _⟩, left', finished', -, same⟩ :=
    finish_carries parts carried (parts.entries sources) having watch watch'' ⟨again, holds⟩ finished
  exact ⟨_, left', execute_of_stages ungrouped filters' sources finished', same.symm, rfl, rfl⟩

/-- Of a quiet statement without groups, results that are ordered again by columns keep the rows that were left after
each filter, and have the rows that the statement with these columns as its ORDER BY returns when it is made ready from
the same start and executed with variables of the same values. -/
theorem reorder_eq_execute {statement : Statement Expr} {columns : List (Nat × Direction)} {rows : List Value}
    {start ready world left after : World} {results reordered : Results} (ungrouped : statement.groupBy = [])
    (quiet : statement.IsQuiet textNames)
    (same : (statement.orderedBy columns).SameBinds statement statement.brought statement.brought)
    (unused : start.memory = .empty) (prepared : (Query.ofStatement statement).prepare start = .ok () ready)
    (since : Query.Since statement ready world)
    (ran : (Query.ofStatement statement).execute rows world = .ok results left)
    (again : (Query.ofStatement statement).reorder results columns left = .ok reordered after) :
    reordered.filtered = results.filtered ∧ reordered.having = results.having ∧
      ∃ ready', (Query.ofStatement (statement.orderedBy columns)).prepare start = .ok () ready' ∧
        ∀ world', Query.Since (statement.orderedBy columns) ready' world' →
          Query.SameVariables (statement.orderedBy columns) statement world' world →
          ∃ ordered left', (Query.ofStatement (statement.orderedBy columns)).execute rows world' = .ok ordered left' ∧
            ordered.rows = reordered.rows ∧ ordered.filtered = results.filtered ∧ ordered.having = results.having := by
  let placed := (statementMeaning statement).placed
  have reserved : textNames ⊆ reservedNames := by decide
  have ungrouped' : placed.groupBy = [] := placed_groupBy_nil ungrouped
  obtain ⟨scope, _, -, own⟩ := (Statement.Within.refl statement).prepare reserved quiet
    (statement.sameBinds_self statement.brought) unused prepared
  let frame := placed.frame scope rows none
  have isReady := since.isReady own.isReady
  have isReady' := isReady.execute ran
  obtain ⟨entries, watch₁, begun, rows₁, watch₂, last, saved, sources, started, finished, rfl⟩ :=
    Query.reorder_ok isReady' ungrouped' again
  refine ⟨rfl, rfl, ?_⟩
  -- The statement that orders by the columns is within this one, since there are such columns.
  have within : (statement.orderedBy columns).Within statement := Statement.orderedBy_within ⟨entries, sources⟩
  obtain ⟨scope', ready', prepared', beside⟩ := within.prepare reserved quiet same unused prepared
  cases beside.isReady.scope_eq.symm.trans own.isReady.scope_eq
  refine ⟨ready', prepared', fun world' since' same' => ?_⟩
  have holds := since.holds own.isReady own.binds.present
  rw [Query.execute_of_ready isReady] at ran
  have ends : left.Holds frame.scope _ _ _ := own.settled.execute_holds ungrouped holds ran
  -- Both ways lead through the expressions of the statement that orders by the columns.
  obtain ⟨below, now, parts⟩ := (within.settled own.settled).unvarying .text (fun _ _ => rfl) (fun _ => bindValue_text)
    scope (world.table .bind) (world.table .save)
  rw [within.environment, Statement.placed_orderedBy] at parts
  have later (memory : Memory) (since : (statementMeaning statement).Since _ ready.memory memory) :=
    now memory (within.since own.settled.ofRows since)
  have fresh : World.Holds scope (world.table .bind) (world.table .save) (Memory.Within (fun _ => True) below)
      { world with memory := ready.memory } := ⟨holds.binds, holds.saves, now _ fun _ _ => .same⟩
  obtain ⟨alone, ended, executes, rows', filtered, having⟩ := Statement.execute_orderedBy ungrouped' parts
    (holds.mono later) (ends.mono later) fresh ran sources started finished ((placed.orderedBy columns).shown none)
  have executes' : (statementMeaning (statement.orderedBy columns)).placed.execute
      (Query.ofStatement (statement.orderedBy columns)).environment
      ((statementMeaning (statement.orderedBy columns)).placed.frame scope rows none)
      { world with memory := ready.memory } = .ok alone ended := by
    rw [Statement.placed_orderedBy, within.environment]
    exact executes
  obtain ⟨ordered, last', ordered', rows'', filtered', having'⟩ :=
    beside.execute (List.Subset.refl _) ungrouped since since' same' executes'
  exact ⟨ordered, last', ordered', rows''.trans rows', filtered'.trans filtered, having'.trans having⟩

/-- Numbers below a limit, ordered by what they make with a variable, with another variable behind it. -/
def ranking : Statement Expr :=
  { Statement.all with
    select := some [⟨.bind (some "_currobj") none, none, false⟩, ⟨.negate (.bind (some "_currobj") none), none, false⟩]
    having := some (.compare .lt false (.bind (some "_currobj") none) (.bind (some "limit") none))
    orderBy := [⟨.expression (.arithmetic .mul (.bind (some "_currobj") none) (.bind none none)), .ascending⟩]
    limit := some ⟨0, some 2⟩
    onResults := [.bind none none] }

namespace Ranking

def query : Query := .ofStatement ranking

/-- The statement that orders by the second column. -/
def ordering : Query := .ofStatement (ranking.orderedBy [(2, .ascending)])

def rows : List Value := [.int32 1, .int32 2, .int32 10]

/-- The first variable without a name stands in the ordering, and the second one behind it. -/
def settings : List (String × Value) := [("limit", .int32 9), ("?1", .int32 7), ("?2", .int32 5)]

/-- The variable that was the second one is the first one here. -/
def orderingSettings : List (String × Value) := [("limit", .int32 9), ("?1", .int32 5)]

def world : World := (query.setVariables settings).after (query.prepare.after .start)

def orderingWorld : World := (ordering.setVariables orderingSettings).after (ordering.prepare.after .start)

theorem throughout {such : Expr → Prop} (own : ∀ name ∈ [some "_currobj", some "limit", none], such (.bind name none))
    (negate : ∀ operand, such (.negate operand)) (compare : ∀ left right, such (.compare .lt false left right))
    (multiply : ∀ left right, such (.arithmetic .mul left right)) :
    ∀ expression ∈ ranking.expressions none, expression.Throughout such := by
  have leaf (name) (listed : name ∈ [some "_currobj", some "limit", none]) : (Expr.bind name none).Throughout such :=
    .whole (own name listed) nofun
  change ∀ expression ∈ [_, _, _, _, _], _
  simp only [List.forall_mem_cons]
  refine ⟨leaf _ (by simp), .whole (negate _) ?_, .whole (compare _ _) ?_, .whole (multiply _ _) ?_,
    leaf _ (by simp), nofun⟩
  all_goals simp [Expr.parts, leaf]

theorem quiet : ranking.IsQuiet textNames :=
  throughout (by decide) (fun _ => rfl) (fun _ _ => rfl) fun _ _ => rfl

theorem normalizeName_settings : normalizeName "limit" = "limit" ∧ normalizeName "_currobj" = "_currobj" ∧
    normalizeName "?1" = "?1" ∧ normalizeName "?2" = "?2" := by
  decide +kernel

/-- Both queries have the same values for the variables that they share. -/
theorem sameBinds : (ranking.orderedBy [(2, .ascending)]).SameBinds ranking
    (NameTable.empty.setAll orderingSettings) (NameTable.empty.setAll settings) := by
  have within : (ranking.orderedBy [(2, .ascending)]).Within ranking := Statement.orderedBy_within ⟨_, rfl⟩
  have listed : ∀ expression ∈ ranking.expressions none, expression.Throughout fun part =>
      ∀ name path, part = .bind (some name) path → name ∈ ["_currobj", "limit"] :=
    throughout (by grind) nofun nofun nofun
  have places : (statementScript ranking).places = [[.orderBy 0, .right], [.onResults 0]] := by decide +kernel
  have places' : (statementScript (ranking.orderedBy [(2, .ascending)])).places = [[.onResults 0]] := by decide +kernel
  have numbers : anonymousName 1 = "?1" ∧ anonymousName 2 = "?2" := by decide
  refine Statement.sameBinds_of_names (fun expression member => listed _ (within.expressions member)) ?_ ?_
  · simp [NameTable.setAll, NameTable.bound, NameTable.get?_insert, normalizeName_settings, settings,
      orderingSettings]
  · simp [NameTable.setAll, NameTable.bound, NameTable.get?_insert, normalizeName_settings, settings,
      orderingSettings, places, places', numbers, Statement.bindName]

end Ranking

/-- Results are ordered again by the second column, for which the variable behind the ordering goes by another number. -/
theorem reorder_eq_execute_of_ranking :
    ∃ results left reordered after ordered last,
      Ranking.query.execute Ranking.rows Ranking.world = .ok results left ∧
      Ranking.query.reorder results [(2, .ascending)] left = .ok reordered after ∧
      Ranking.ordering.execute Ranking.rows Ranking.orderingWorld = .ok ordered last ∧
      ordered.rows = reordered.rows ∧ reordered.filtered = results.filtered ∧ reordered.having = results.having := by
  have same : (ranking.orderedBy [(2, .ascending)]).SameBinds ranking ranking.brought ranking.brought :=
    Statement.sameBinds_empty _ _
  obtain ⟨_, prepared⟩ := exists_ok Ranking.query.prepare .start (by decide +kernel)
  obtain ⟨scope, ready', prepared', beside⟩ := (Statement.orderedBy_within ⟨_, rfl⟩).prepare (by decide) Ranking.quiet
    same rfl prepared
  obtain rfl : _ = ready' := after_of_ok prepared'
  obtain ⟨since, since', alike⟩ := beside.setVariables Ranking.sameBinds
  obtain ⟨reordered, both⟩ := exists_ok
    (Ranking.query.execute Ranking.rows >>= fun results => Ranking.query.reorder results [(2, .ascending)])
    Ranking.world (by decide +kernel)
  obtain ⟨results, left, ran, again⟩ := ok_of_bind both
  obtain ⟨filtered, having, _, prepared'', executes⟩ :=
    reorder_eq_execute rfl Ranking.quiet same rfl prepared since ran again
  obtain ⟨-, rfl⟩ := EStateM.Result.ok.inj (prepared'.symm.trans prepared'')
  obtain ⟨ordered, last, executed, rows, -⟩ := executes _ since' alike
  exact ⟨results, left, reordered, _, ordered, last, ran, again, executed, rows, filtered, having⟩

end RecordQuery
