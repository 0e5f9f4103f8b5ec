import RecordQuery.Proofs.Statement.Assembly
import RecordQuery.Proofs.Statement.Beside
/-! Groups by a constant: all rows are in one group, and what is made of it is what the statement makes of the rows
without grouping them. -/

namespace RecordQuery

open EvalM

namespace Statement

/-- The statement without its GROUP BY, and what goes with that. -/
def ungrouped {ε : Type} (statement : Statement ε) : Statement ε :=
  { statement with groupBy := [], groupOrder := [], groupLimit := none }

theorem ungrouped_within (statement : Statement Expr) : statement.ungrouped.Within statement :=
  ⟨rfl, .inr ⟨rfl, rfl, rfl⟩, .inl rfl⟩

/-- Placing the meaning of a column leaves whether it is spliced. -/
theorem splices_placed (statement : Statement Expr) :
    (statementMeaning statement).placed.columns.map (·.splice) = statement.columns.map (·.splice) := by
  rw [placed_columns]
  exact List.ext_getElem (by simp) fun index _ _ => by simp [Column.map]

theorem placed_ungrouped (statement : Statement Expr) :
    (statementMeaning statement.ungrouped).placed = (statementMeaning statement).placed.ungrouped := by
  rw [statementMeaning_eq_map, statementMeaning_eq_map]
  rfl

end Statement

/-! Projecting a window of rows. -/

section Projection

variable {columns : List (Column Meaning)} {environment : Environment} {frame : Frame}

/-- There are as many values as columns. -/
theorem columnValues_length (columns : List (Column Meaning)) (place : Nat) (environment : Environment)
    (frame : Frame) : Returns (·.length = columns.length) (columnValues columns place environment frame) := by
  have each (items : List (Column Meaning × Nat)) : Returns (·.length = items.length)
      (items.mapM fun item => columnValue item.1 item.2 place environment frame) := by
    induction items with
    | nil => exact returns_pure rfl
    | cons item rest ih =>
      rw [List.mapM_cons]
      refine (returns_true _).bind fun _ _ => ih.bind fun values same => returns_pure ?_
      rw [List.length_cons, List.length_cons, same]
  have all := each columns.zipIdx
  rwa [List.length_zipIdx] at all

/-- A row of columns that are not spliced makes one result. -/
theorem projectRow_single (unspliced : ∀ column ∈ columns, column.splice = false) (place : Nat) :
    Returns (·.length = 1) (projectRow columns place environment frame) := by
  have whole : columns.head?.any (·.splice) = false := by
    cases columns with
    | nil => rfl
    | cons column rest => simpa using unspliced column (List.mem_cons_self ..)
  refine (columnValues_length columns place environment frame).bind fun values same => returns_pure ?_
  rw [whole]
  split
  · next constructed =>
    unfold isSingleConstructor at constructed
    split at constructed
    · exact same
    · cases constructed
  · rfl

/-- While the world is such, a row is projected to this, at whatever place. -/
def ProjectsTo (columns : List (Column Meaning)) (environment : Environment) (frame : Frame) (holds : World → Prop)
    (row result : Value) : Prop :=
  ∀ place, Gives holds (projectRow columns place environment (frame.onRow row)) [result]

section Carried

variable {variation : Frame.Variation} {scope : Scope} {binds saves : NameTable Value} {valid : Memory → Prop}
  (parts : ∀ column ∈ columns,
    column.expression.ConductsIn (.unvarying variation scope binds saves valid) environment)
  (inside : frame.scope = scope) (index : variation.Index)
include parts inside

/-- The place of a row only shows in failures. -/
theorem columnValues_carries (place place' : Nat) :
    Carries (Both (World.Holds scope binds saves valid)) (columnValues columns place environment frame)
      (columnValues columns place' environment (variation.vary index frame)) Eq := by
  have each (items : List (Column Meaning × Nat)) (listed : ∀ item ∈ items, item.1 ∈ columns) :
      Carries (Both (World.Holds scope binds saves valid))
        (items.mapM fun item => columnValue item.1 item.2 place environment frame)
        (items.mapM fun item => columnValue item.1 item.2 place' environment (variation.vary index frame)) Eq := by
    induction items with
    | nil => exact carries_pure rfl
    | cons item rest ih =>
      obtain ⟨own, others⟩ := List.forall_mem_cons.mp listed
      simp only [List.mapM_cons]
      refine ((unvarying_carries (parts item.1 own) inside index).inside _ _).bind fun value _ same => ?_
      refine (ih others).bind fun values _ same' => carries_pure ?_
      rw [same, same']
  exact each columns.zipIdx fun item member => List.mem_of_getElem? (List.mem_zipIdx_iff_getElem?.mp member)

theorem projectRow_carries (place place' : Nat) :
    Carries (Both (World.Holds scope binds saves valid)) (projectRow columns place environment frame)
      (projectRow columns place' environment (variation.vary index frame)) Eq :=
  (columnValues_carries parts inside index place place').bind fun _ _ same => carries_pure (same ▸ rfl)

/-- Rows that are projected among others are projected so one by one. -/
theorem projectRows_each (unspliced : ∀ column ∈ columns, column.splice = false) {rows : List (Value × Nat)}
    {results : List Value} {world left : World} (begins : world.Holds scope binds saves valid)
    (ran : projectRows columns environment frame rows world = .ok results left) :
    left.Holds scope binds saves valid ∧ List.Forall₂ (ProjectsTo columns environment (variation.vary index frame)
      (World.Holds scope binds saves valid)) (rows.map (·.1)) results := by
  induction rows generalizing results world with
  | nil =>
    cases ran
    exact ⟨begins, .nil⟩
  | cons row rest ih =>
    obtain ⟨row, place⟩ := row
    obtain ⟨first, middle, own, ran⟩ := ok_of_bind ran
    obtain ⟨others, last, rested, ran⟩ := ok_of_bind ran
    cases ran
    obtain ⟨result, rfl⟩ := List.length_eq_one_iff.mp (projectRow_single unspliced place _ _ _ own)
    obtain ⟨index', varied⟩ := variation.shifts (Frame.shifts_onRow row) index frame
    have onRow : (frame.onRow row).scope = scope := inside
    have carries (place') := projectRow_carries parts onRow index' place place'
    obtain ⟨_, _, -, ⟨holds, -⟩, -⟩ := carries place ⟨begins, begins⟩ own
    obtain ⟨ends, each⟩ := ih holds rested
    refine ⟨ends, .cons (fun place' => ?_) each⟩
    exact varied ▸ (carries place').gives begins own

end Carried

/-- Rows that are projected so one by one are projected so among each other. -/
theorem projectRows_give {holds : World → Prop} {rows results : List Value}
    (each : List.Forall₂ (ProjectsTo columns environment frame holds) rows results) (first : Nat) :
    Gives holds (projectRows columns environment frame (rows.zipIdx first)) results := by
  induction each generalizing first with
  | nil => exact gives_pure []
  | @cons row result rows results own _ ih =>
    exact (own first).bind ((ih (first + 1)).bind (gives_pure _))

/-- Projecting a window of the rows makes that window of the results. -/
theorem project_window {variation : Frame.Variation} {scope : Scope} {binds saves : NameTable Value}
    {valid : Memory → Prop} {statement : Statement Meaning}
    (parts : statement.Every (Meaning.ConductsIn (.unvarying variation scope binds saves valid) environment))
    (inside : frame.scope = scope) (index : variation.Index) (plain : statement.distinct = false)
    (unspliced : ∀ column ∈ statement.columns, column.splice = false) (limit : Option Limit) (rows : List Value) :
    Carries (Both (World.Holds scope binds saves valid)) (project statement environment frame rows)
      (project statement environment (variation.vary index frame) (Limit.window limit rows))
      fun results results' => results' = Limit.window limit results := by
  unfold project
  simp only [plain, Bool.false_eq_true, if_false, bind_pure]
  cases selected : statement.select with
  | none => exact carries_pure rfl
  | some columns =>
    have own : statement.columns = columns := by rw [Statement.columns, selected, Option.getD_some]
    rintro world world' results left ⟨begins, begins'⟩ ran
    obtain ⟨ends, each⟩ := projectRows_each (own ▸ parts.columns) inside index (own ▸ unspliced) begins ran
    rw [List.zipIdx_map_fst] at each
    obtain ⟨left', ran', ends'⟩ := projectRows_give (Limit.window_forall₂ limit _ each) 0 world' begins'
    exact ⟨_, left', ran', ⟨ends, ends'⟩, rfl⟩

end Projection

/-! One group. -/

section Constant

variable {scope : Scope} {binds saves : NameTable Value} {below : Branch → Memory → Prop} (environment : Environment)

/-- A constant has its value, and leaves what is remembered of parts. -/
theorem constant_gives (key : Value) (branch : Branch) (frame : Frame) :
    Gives (World.Holds scope binds saves (Memory.Within (fun _ => True) below))
      (((Meaning.constant key).down branch).evaluate environment frame) key :=
  fun world begins => ⟨{ world with memory := world.memory.setChild branch (world.memory.child branch) }, rfl,
    begins.binds, begins.saves, begins.memory.setChild (begins.memory.2 branch)⟩

/-- By a constant, all rows are in one group. -/
theorem groupRows_constant (frame : Frame) {key : Value} (self : equalItems [key] [key] = true) (branch : Branch)
    (row : Value) (rows : List Value) :
    Gives (World.Holds scope binds saves (Memory.Within (fun _ => True) below))
      (groupRows [(Meaning.constant key).down branch] environment frame (row :: rows)) [([key], row :: rows)] := by
  have keyed (row : Value) : Gives (World.Holds scope binds saves (Memory.Within (fun _ => True) below))
      (groupKey [(Meaning.constant key).down branch] environment frame row) [key] := by
    rw [groupKey, List.mapM_cons]
    exact ((constant_gives environment key branch _).inside _).bind (gives_pure _)
  have all (rows : List Value) : Gives (World.Holds scope binds saves (Memory.Within (fun _ => True) below))
      (withKeys [(Meaning.constant key).down branch] environment frame rows) (rows.map ([key], ·)) := by
    induction rows with
    | nil => exact gives_pure _
    | cons row rest ih => exact (keyed row).bind (ih.bind (gives_pure _))
  have one : Grouped.ofPairs (([key], row) :: rows.map ([key], ·)) = [([key], row :: rows)] := by
    rw [Grouped.ofPairs_of_equal row (List.forall_mem_map.mpr fun _ _ => self)]
    simp [Function.comp_def]
  rw [groupRows, map_eq_pure_bind]
  refine (all (row :: rows)).bind ?_
  rw [List.map_cons, one]
  exact gives_pure _

end Constant

namespace Statement

variable {statement : Statement Meaning} {environment : Environment}

/-- A group is projected from nothing remembered of another sort. -/
theorem projectGroup_run (order : RowOrder) (frame : Frame) (members : List Value) :
    (statement.projectGroup order environment frame members).run .start = (do
      runAll "execute on results" statement.onResults environment frame
      let (sorted, state) ← order.sort members environment frame .start
      let results ← project statement environment frame sorted
      return (results, state)) := by
  unfold projectGroup
  simp only [StateT.run_bind, StateT.run_monadLift, monadLift_self, bind_pure_comp, bind_map_left]
  rfl

theorem lap_passes {scope : Scope} {binds saves : NameTable Value} {valid : Memory → Prop} (watch : Stopwatch)
    (stage : Stage) : Passes (World.Holds scope binds saves valid) (watch.lap stage) := by
  intro world holds
  obtain ⟨later, readings, ran⟩ := watch.lap_ok stage world
  exact ⟨later, _, ran, holds.binds, holds.saves, holds.memory⟩

section Projected

variable {scope : Scope} {binds saves : NameTable Value} {valid : Memory → Prop}
  (parts : statement.Every (Meaning.ConductsIn (.unvarying .group scope binds saves valid) environment))
  {entries : List (SortSource × Direction)}
  (sources : SourcesEvery (Meaning.ConductsIn (.unvarying .group scope binds saves valid) environment) entries)
  (plain : statement.distinct = false) (unspliced : ∀ column ∈ statement.columns, column.splice = false)
include parts sources plain unspliced

/-- What is made of a group is, limited, what is made of its rows without it. -/
theorem projectFrom_carries {frame : Frame} (inside : frame.scope = scope) (key members : List Value)
    (groupKey : Option (List Value)) (text : String) (watch : Stopwatch) :
    Carries (Both (World.Holds scope binds saves valid))
      (statement.projectFrom ⟨entries, statement.cacheKeys⟩ environment frame saves (key, members))
      (statement.finish entries environment { frame with groupKey, statementText := text } members watch)
      fun results finished => finished.1 = Limit.window statement.limit results := by
  subst inside
  let conduct := Conduct.unvarying .group frame.scope binds saves valid
  let order : RowOrder := ⟨entries, statement.cacheKeys⟩
  let inner : Frame := { frame with rows := members, groupKey := some key }
  have inside : inner.scope = frame.scope := rfl
  have ordered : SourcesEvery (Meaning.ConductsIn conduct environment) order.entries := sources
  have within : Carries (Both (World.Holds frame.scope binds saves valid))
      ((statement.projectGroup order environment inner members).run .start)
      (statement.finish entries environment { frame with groupKey, statementText := text } members watch)
      fun results finished => finished.1 = Limit.window statement.limit results.1 := by
    rw [projectGroup_run, finish]
    refine (unvarying_carries (runAll_conducts conduct _ parts.onResults) inside (groupKey, text)).alone.skip
      fun _ => ?_
    refine (unvarying_carries (sort_conducts conduct ordered members .start) inside (groupKey, text)).bind
      fun (sorted, _) _ same => ?_
    subst same
    refine ((passes_pure ()).carries (lap_passes watch _)).insert fun watch => ?_
    refine ((passes_pure ()).carries (lap_passes watch _)).insert fun watch => ?_
    refine (project_window parts inside (groupKey, text) plain unspliced statement.limit sorted).bind
      fun results results' same => ?_
    exact ((passes_pure ()).carries (lap_passes watch _)).insert fun _ => carries_pure same
  rintro world world' results left ⟨begins, begins'⟩ ran
  obtain ⟨_, _, written, ran⟩ := ok_of_bind ran
  cases written
  obtain ⟨⟨_, _⟩, _, own, ran⟩ := ok_of_bind ran
  cases ran
  have restored : World.Holds frame.scope binds saves valid
      { world with heap := world.heap.replaceSaves frame.scope saves } :=
    ⟨begins.binds.restore saves, Heap.saves_replaceSaves begins.binds.present saves, begins.memory⟩
  exact within ⟨restored, begins'⟩ (ok_of_inside own)

end Projected

theorem ProjectsInTurn.of_single {order : RowOrder} {frame : Frame} {saves : NameTable Value}
    {group : List Value × List Value} {made : List ProjectedGroup} {world last : World}
    (turns : statement.ProjectsInTurn order environment frame saves [group] world made last) :
    ∃ results, statement.projectFrom order environment frame saves group world = .ok results last ∧
      made = [⟨group.1, results, last.saves frame.scope⟩] := by
  cases turns with
  | cons own others =>
    cases others
    exact ⟨_, own, rfl⟩

/-- One group that is projected is entered, unless GROUP BY LIMIT leaves it out. -/
theorem assemble_single {group : ProjectedGroup} (self : equalItems group.key group.key = true) :
    (statement.assemble [group.withResults] [group.withSaves]
      ((Limit.window statement.groupLimit [group]).map (·.key))).1 =
        Limit.window statement.groupLimit [(group.key, Limit.window statement.limit group.results)] := by
  have single : ProjectedGroup.Apart [group] := List.pairwise_singleton ..
  have fewer := Limit.window_sublist statement.groupLimit [group]
  have own : ∀ kept ∈ Limit.window statement.groupLimit [group], equalItems kept.key kept.key = true := by
    intro kept member
    cases List.mem_singleton.mp (fewer.subset member)
    exact self
  have assembled : statement.assemble _ _ _ = _ := assemble_eq single fewer.subset own
  rw [List.map_singleton, List.map_singleton] at assembled
  have entered := (Grouped.insertAll_eq_self_iff _).mpr
    ((ProjectedGroup.apart_map_iff (fun group => Limit.window statement.limit group.results) _).mpr
      (single.sublist fewer))
  rw [assembled, entered, ← Limit.window_map]
  rfl

/-- Grouped by a constant, rows make what they make without groups. -/
theorem execute_of_constant {frame : Frame} {binds saves : NameTable Value} {below : Branch → Memory → Prop}
    {key : Value} {branch : Branch} {world world' left : World} {results : Results}
    (grouping : statement.groupBy = [(Meaning.constant key).down branch]) (self : equalItems [key] [key] = true)
    (plain : statement.distinct = false) (unspliced : ∀ column ∈ statement.columns, column.splice = false)
    (parts : statement.ungrouped.Every (Meaning.ConductsIn
      (.unvarying .group frame.scope binds saves (Memory.Within (fun _ => True) below)) environment))
    (begins : world.Holds frame.scope binds saves (Memory.Within (fun _ => True) below))
    (begins' : world'.Holds frame.scope binds saves (Memory.Within (fun _ => True) below))
    (ran : statement.execute environment frame world = .ok results left) (remain : results.having ≠ [])
    (groupKey : Option (List Value)) (text : String) :
    ∃ alone left', statement.ungrouped.execute environment { frame with groupKey, statementText := text } world' =
        .ok alone left' ∧
      results.groups = some (Limit.window statement.groupLimit [([key], alone.rows)]) := by
  obtain ⟨course, entered, _, assembled, groups, -, -⟩ := exists_groupCourse (grouping ▸ List.cons_ne_nil _ _) ran
  have carried : (Conduct.unvarying .group frame.scope binds saves (Memory.Within (fun _ => True) below)).CarriesOver _
      frame _ := Conduct.unvarying_carriesOver (fun _ _ => rfl) rfl (groupKey, text)
  obtain ⟨⟨_, _, watch'⟩, before', filters', ⟨holds, holds'⟩, rfl, rfl⟩ :=
    filterRows_carries parts carried ⟨begins, begins'⟩ course.filters
  -- All rows are in one group.
  obtain ⟨row, rest, remaining⟩ := List.exists_cons_of_ne_nil remain
  obtain ⟨begun, grouped, ends⟩ := groupRows_constant environment { frame with rows := results.having } self branch row
    rest _ holds
  rw [← remaining, ← grouping] at grouped
  obtain ⟨single, rfl⟩ := EStateM.Result.ok.inj (course.grouped.symm.trans grouped)
  obtain ⟨made, projected, listed⟩ := (single ▸ course.projected).of_single
  rw [ends.saves] at projected
  obtain ⟨⟨rows, watch''⟩, left', finished, -, same⟩ := projectFrom_carries parts (parts.entries course.sources)
    plain unspliced rfl [key] results.having groupKey text watch' ⟨ends, holds'⟩ projected
  refine ⟨_, left', execute_of_stages rfl filters' course.sources finished, ?_⟩
  let group : ProjectedGroup := ⟨[key], made, course.last.saves frame.scope⟩
  have sorted : course.sorted = [group] := List.perm_singleton.mp (listed ▸ course.ordered.perm)
  rw [GroupCourse.kept, sorted, listed] at assembled
  have entry : entered = Limit.window statement.groupLimit [([key], Limit.window statement.limit made)] :=
    (congrArg Prod.fst assembled).trans (assemble_single (show equalItems group.key group.key = true from self))
  rw [groups, entry]
  exact congrArg (fun rows => some (Limit.window statement.groupLimit [([key], rows)])) same.symm

end Statement

/-- By a constant, a quiet statement that makes one result of each row has one group, unless GROUP BY LIMIT leaves it
out, with the rows that the statement without its GROUP BY returns when it is made ready from the same start and executed
with variables of the same values. -/
theorem execute_constant_group {statement : Statement Expr} {key : Value} {rows : List Value}
    {start ready world left : World} {results : Results} (constant : statement.groupBy = [.constant key])
    (named : ∀ record ∈ key.records, record.names.Nodup) (plain : statement.distinct = false)
    (unspliced : ∀ column ∈ statement.columns, column.splice = false) (quiet : statement.IsQuiet groupNames)
    (same : statement.ungrouped.SameBinds statement statement.brought statement.brought)
    (unused : start.memory = .empty) (prepared : (Query.ofStatement statement).prepare start = .ok () ready)
    (since : Query.Since statement ready world)
    (ran : (Query.ofStatement statement).execute rows world = .ok results left) (remain : results.having ≠ []) :
    ∃ ready', (Query.ofStatement statement.ungrouped).prepare start = .ok () ready' ∧
      ∀ world', Query.Since statement.ungrouped ready' world' →
        Query.SameVariables statement.ungrouped statement world' world →
        ∃ alone left', (Query.ofStatement statement.ungrouped).execute rows world' = .ok alone left' ∧
          results.groups = some (Limit.window statement.groupLimit [([key], alone.rows)]) := by
  have self : equalItems [key] [key] = true :=
    (items_self_of_named [key] (by simpa [recordsOfItems] using named)).1
  have within := statement.ungrouped_within
  obtain ⟨scope, ready', prepared', beside⟩ := within.prepare (by decide) quiet same unused prepared
  refine ⟨ready', prepared', fun world' since' same' => ?_⟩
  obtain ⟨below, now, parts⟩ := (within.settled beside.settled).unvarying .group (fun _ _ => rfl)
    (fun _ => bindValue_group) scope (world.table .bind) (world.table .save)
  have holds := since.holds beside.isReady beside.binds.present
  have later := holds.mono fun memory since => now memory (within.since beside.settled.ofRows since)
  have fresh : World.Holds scope (world.table .bind) (world.table .save) (Memory.Within (fun _ => True) below)
      { world with memory := ready.memory } := ⟨holds.binds, holds.saves, now _ fun _ _ => .same⟩
  have grouping : (statementMeaning statement).placed.groupBy = [(Meaning.constant key).down (.groupBy 0)] := by
    rw [Statement.placed_groupBy, constant]
    rfl
  have unspliced' : ∀ column ∈ (statementMeaning statement).placed.columns, column.splice = false := by
    intro column member
    have listed : column.splice ∈ (statementMeaning statement).placed.columns.map (·.splice) :=
      List.mem_map_of_mem member
    rw [Statement.splices_placed] at listed
    obtain ⟨own, inside, same⟩ := List.mem_map.mp listed
    exact same ▸ unspliced own inside
  have plain' : (statementMeaning statement).placed.distinct = false := statement.placed_distinct.trans plain
  rw [Statement.placed_ungrouped, within.environment] at parts
  rw [Query.execute_of_ready (since.isReady beside.isReady)] at ran
  obtain ⟨alone, ended, executes, groups⟩ := Statement.execute_of_constant grouping self plain' unspliced' parts later
    fresh ran remain none ((statementMeaning statement).placed.ungrouped.shown none)
  have executes' : (statementMeaning statement.ungrouped).placed.execute
      (Query.ofStatement statement.ungrouped).environment
      ((statementMeaning statement.ungrouped).placed.frame scope rows none) { world with memory := ready.memory } =
        .ok alone ended := by
    rw [Statement.placed_ungrouped, within.environment]
    exact executes
  obtain ⟨alone', left', executed, rows', -, -⟩ := beside.execute (by decide) rfl since since' same' executes'
  refine ⟨alone', left', executed, ?_⟩
  rw [groups, statement.placed_groupLimit, rows']

/-- The greatest of the numbers below a limit, and how many there are, in one group. -/
def lumping : Statement Expr :=
  { Statement.all with
    select := some [⟨.bind (some "_currobj") none, none, false⟩, ⟨.call "count" [], none, false⟩]
    having := some (.compare .lt false (.bind (some "_currobj") none) (.bind (some "limit") none))
    groupBy := [.constant (.string "all")]
    orderBy := [⟨.expression (.negate (.bind (some "_currobj") none)), .ascending⟩]
    limit := some ⟨0, some 1⟩ }

namespace Lumping

def query : Query := .ofStatement lumping

/-- The statement without its group. -/
def ungrouped : Query := .ofStatement lumping.ungrouped

def rows : List Value := [.int32 1, .int32 2, .int32 10]

def settings : List (String × Value) := [("limit", .int32 9)]

def world : World := (query.setVariables settings).after (query.prepare.after .start)

def ungroupedWorld : World := (ungrouped.setVariables settings).after (ungrouped.prepare.after .start)

theorem throughout {such : Expr → Prop} (own : ∀ name ∈ ["_currobj", "limit"], such (.bind (some name) none))
    (constant : such (.constant (.string "all"))) (count : such (.call "count" []))
    (compare : ∀ left right, such (.compare .lt false left right)) (negate : ∀ operand, such (.negate operand)) :
    ∀ expression ∈ lumping.expressions none, expression.Throughout such := by
  have leaf (name) (listed : name ∈ ["_currobj", "limit"]) : (Expr.bind (some name) none).Throughout such :=
    .whole (own name listed) nofun
  change ∀ expression ∈ [_, _, _, _, _], _
  simp only [List.forall_mem_cons]
  refine ⟨leaf _ (by simp), .whole count nofun, .whole constant nofun, .whole (compare _ _) ?_,
    .whole (negate _) ?_, nofun⟩
  all_goals simp [Expr.parts, leaf]

theorem quiet : lumping.IsQuiet groupNames :=
  throughout (by decide +kernel) rfl (by decide +kernel) (fun _ _ => rfl) fun _ => rfl

/-- Both queries have the same values for the variables that they share. -/
theorem sameBinds : lumping.ungrouped.SameBinds lumping (NameTable.empty.setAll settings)
    (NameTable.empty.setAll settings) := by
  have listed : ∀ expression ∈ lumping.expressions none, expression.Throughout fun part =>
      ∀ name path, part = .bind (some name) path → name ∈ ["_currobj", "limit"] :=
    throughout (by grind) nofun nofun nofun nofun
  have places : (statementScript lumping.ungrouped).places = [] := by decide +kernel
  refine Statement.sameBinds_of_names
    (fun expression member => listed _ (lumping.ungrouped_within.expressions member)) (fun _ _ => rfl) ?_
  rw [places]
  exact List.forall_mem_nil _

end Lumping

/-- In a group and without it, the greatest of two numbers below the limit is counted among them. -/
theorem execute_constant_group_of_lumping :
    ∃ results left alone last, Lumping.query.execute Lumping.rows Lumping.world = .ok results left ∧
      results.having ≠ [] ∧ Lumping.ungrouped.execute Lumping.rows Lumping.ungroupedWorld = .ok alone last ∧
      results.groups = some [([.string "all"], alone.rows)] := by
  have same : lumping.ungrouped.SameBinds lumping lumping.brought lumping.brought := Statement.sameBinds_empty _ _
  obtain ⟨_, prepared⟩ := exists_ok Lumping.query.prepare .start (by decide +kernel)
  obtain ⟨scope, ready', prepared', beside⟩ :=
    lumping.ungrouped_within.prepare (by decide) Lumping.quiet same rfl prepared
  obtain rfl : _ = ready' := after_of_ok prepared'
  obtain ⟨since, since', alike⟩ := beside.setVariables Lumping.sameBinds
  obtain ⟨results, left, ran, remain⟩ := exists_ok_of (!·.having.isEmpty) (Lumping.query.execute Lumping.rows)
    Lumping.world (by
      unfold Query.execute Statement.executeReady Statement.execute Statement.groupStage Statement.assemble groupRows
      simp only [Grouped.findFiled?_file, Grouped.insertAll_eq, funext Grouped.ofPairs_eq]
      decide +kernel)
  have remain : results.having ≠ [] := by simpa using remain
  obtain ⟨_, prepared'', executes⟩ := execute_constant_group rfl (by simp [Value.records]) rfl (by decide +kernel)
    Lumping.quiet same rfl prepared since ran remain
  obtain ⟨-, rfl⟩ := EStateM.Result.ok.inj (prepared'.symm.trans prepared'')
  obtain ⟨alone, last, executed, groups⟩ := executes _ since' alike
  exact ⟨results, left, alone, last, ran, remain, executed, groups⟩

end RecordQuery
