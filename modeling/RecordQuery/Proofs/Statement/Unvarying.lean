import RecordQuery.Proofs.Meaning.Quiet
import RecordQuery.Proofs.Statement.Execution
import RecordQuery.Proofs.Statement.Placed
import RecordQuery.Proofs.Statement.Readiness
/-! Executing a statement whose expressions are quiet, about frames that vary in what these do not read: each stage
succeeds alike, on the same rows, and leaves the variables as they are. -/

namespace RecordQuery

open EvalM

/-! Variables that do not vary. -/

/-- The text of a statement shows in one variable. -/
def textNames : List String := ["_query"]

theorem bindValue_text {name : String} (other : name ∉ textNames) (text : String) (frame : Frame) :
    Meaning.bindValue name (Frame.Variation.text.vary text frame) = Meaning.bindValue name frame := by
  change Meaning.bindValue name { frame with statementText := text } = _
  unfold Meaning.bindValue
  split <;> first | rfl | exact absurd (by decide) other

/-- The variables in which the text of a statement shows, or the group of a row. -/
def groupNames : List String := ["_query", "_grpby", "_grpbys"]

theorem bindValue_group {name : String} (other : name ∉ groupNames) (index : Option (List Value) × String)
    (frame : Frame) :
    Meaning.bindValue name (Frame.Variation.group.vary index frame) = Meaning.bindValue name frame := by
  change Meaning.bindValue name { frame with groupKey := index.1, statementText := index.2 } = _
  unfold Meaning.bindValue
  split <;> first | rfl | exact absurd (by decide) other

theorem Frame.shifts_rows (rows : List Value) : Frame.Shifts fun frame => { frame with rows } where
  scope _ := rfl
  rows _ _ := ⟨rows, rfl⟩
  groupKey _ groupKey := ⟨groupKey, rfl⟩
  statementText _ _ := rfl

namespace Statement

/-- All expressions of a statement are quiet, and read none of these variables. -/
def IsQuiet (statement : Statement Expr) (unread : List String) : Prop :=
  ∀ expression ∈ statement.expressions none,
    expression.Throughout fun part => part.isQuiet statement.handlers unread = true

/-- What a quiet statement over rows remembers that has been prepared, with no variable in it under such a name. -/
structure QuietOver (statement : Statement Expr) (unread : List String) (base : Memory) : Prop where
  ofRows : (statementMeaning statement).sourceExpression? = none
  quiet : statement.IsQuiet unread
  prepared : (statementMeaning statement).Prepared (Query.ofStatement statement).environment base
  reads : ∀ part ∈ statement.clauses, ∀ name,
    (.bind, name) ∈ part.2.meaning.variables (base.child part.1) → name ∉ unread

/-- Where none of its variables varies, a quiet statement does not vary, now and later on. -/
theorem QuietOver.unvarying {statement : Statement Expr} {unread : List String} {base : Memory}
    (settled : statement.QuietOver unread base) (variation : Frame.Variation)
    (leaves : ∀ index frame, (variation.vary index frame).rows = frame.rows)
    (same : ∀ name ∉ unread, ∀ index frame,
      Meaning.bindValue name (variation.vary index frame) = Meaning.bindValue name frame)
    (scope : Scope) (binds saves : NameTable Value) :
    ∃ below, (∀ memory, (statementMeaning statement).Since (Query.ofStatement statement).environment base memory →
        memory.Within (fun _ => True) below) ∧
      (statementMeaning statement).placed.Every (Meaning.ConductsIn
        (.unvarying variation scope binds saves (Memory.Within (fun _ => True) below))
        (Query.ofStatement statement).environment) := by
  let trait := View.everything.trait.and (.unvarying variation scope binds saves)
  have stays : trait.Stays := Trait.everything_stays.and _
  have sees (valid : Memory → Prop) : (trait.conduct valid).SeesRows :=
    Conduct.SeesRows.and (View.everything.agrees_seesRows valid)
      (Conduct.unvarying_seesRows leaves scope binds saves valid)
  have standard : (Query.ofStatement statement).environment.functions.standard = FunctionRegistry.default.standard := by
    rw [Query.environment_ofStatement]
  have parts : ∀ part ∈ (statementMeaning statement).parts, ∃ own ∈ statement.clauses,
      Prod.map id Expr.meaning own = part := by
    intro part member
    have present := mem_clauses_of_parts member
    rw [statementMeaning_eq_map, clauses_map] at present
    exact List.mem_map.mp present
  have readies : ∀ part ∈ (statementMeaning statement).parts,
      part.2.Readies trait (Query.ofStatement statement).environment := by
    intro part member
    obtain ⟨own, inside, rfl⟩ := parts part member
    have quiet : own.2.Throughout fun part =>
        part.isQuiet (Query.ofStatement statement).environment.functions.own unread = true := by
      rw [Query.environment_ofStatement]
      exact settled.quiet own.2 (statement.expressions_clauses ▸ List.mem_map_of_mem inside)
    exact quiet.readies sees standard
  have reads : ∀ part ∈ (statementMeaning statement).parts, part.2.ReadsAllowed trait (base.child part.1) := by
    intro part member name read
    obtain ⟨own, inside, rfl⟩ := parts part member
    exact ⟨trivial, same name (settled.reads own inside name read)⟩
  obtain ⟨below, ready⟩ := settled.prepared.ready readies reads
  refine ⟨below, fun memory since => since.stays stays (List.Subset.refl _) ready,
    placed_every_of_parts settled.ofRows fun part member => ?_⟩
  exact ((ready.dependable part member).down).shows.2

end Statement

section Stages

variable {alike : World → World → Prop}

/-- Reading a clock changes nothing but how often it has been read. -/
theorem Stopwatch.lap_ok (watch : Stopwatch) (stage : Stage) (world : World) :
    ∃ later readings, watch.lap stage world = .ok later { world with readings } := by
  unfold Stopwatch.lap
  cases watch.clock with
  | none => exact ⟨_, _, rfl⟩
  | some shows => exact ⟨_, _, rfl⟩

theorem Stopwatch.start_ok (clock : Option (Nat → Nat)) (world : World) :
    ∃ watch readings, Stopwatch.start clock world = .ok watch { world with readings } := by
  cases clock with
  | none => exact ⟨_, _, rfl⟩
  | some shows => exact ⟨_, _, rfl⟩

section Clock

variable (timed : World.Timeless alike)
include timed

theorem Stopwatch.starts_carry (clock clock' : Option (Nat → Nat)) :
    Carries alike (Stopwatch.start clock) (Stopwatch.start clock') fun _ _ => True := by
  intro world world' watch left begins ran
  obtain ⟨_, readings, own⟩ := Stopwatch.start_ok clock world
  obtain ⟨watch', readings', other⟩ := Stopwatch.start_ok clock' world'
  cases own.symm.trans ran
  exact ⟨watch', _, other, timed begins readings readings', trivial⟩

theorem Stopwatch.laps_carry (watch watch' : Stopwatch) (stage : Stage) :
    Carries alike (watch.lap stage) (watch'.lap stage) fun _ _ => True := by
  intro world world' later left begins ran
  obtain ⟨_, readings, own⟩ := watch.lap_ok stage world
  obtain ⟨later', readings', other⟩ := watch'.lap_ok stage world'
  cases own.symm.trans ran
  exact ⟨later', _, other, timed begins readings readings', trivial⟩

end Clock

variable {conduct : Conduct} {statement : Statement Meaning} {environment : Environment} {frame frame' : Frame}
  (parts : statement.Every (Meaning.ConductsIn conduct environment)) (carried : conduct.CarriesOver alike frame frame')
include parts carried

/-- The filters leave the same rows. -/
theorem Statement.filterRows_carries : Carries alike (statement.filterRows environment frame)
    (statement.filterRows environment frame')
    fun found found' => found.1 = found'.1 ∧ found.2.1 = found'.2.1 := by
  have laps := Stopwatch.laps_carry carried.timed
  unfold Statement.filterRows
  refine (Stopwatch.starts_carry carried.timed _ _).bind fun watch watch' _ => ?_
  refine (carried.carries (runAll_conducts conduct _ parts.onAll)).bind fun _ _ _ => ?_
  refine (laps watch watch' _).bind fun watch watch' _ => ?_
  rw [carried.rows]
  refine (carried.carries (keepWhere_conducts conduct _ parts.filter frame.rows)).bind fun filtered _ same => ?_
  subst same
  refine (laps watch watch' _).bind fun watch watch' _ => ?_
  have shifts := Frame.shifts_rows filtered
  refine (carried.carries (conduct.about shifts (runAll_conducts conduct _ parts.onResults))).bind fun _ _ _ => ?_
  refine (laps watch watch' _).bind fun watch watch' _ => ?_
  refine (carried.carries (conduct.about shifts (keepWhere_conducts conduct _ parts.having filtered))).bind
    fun having _ same => ?_
  subst same
  exact (laps watch watch' _).bind fun _ _ _ => carries_pure ⟨rfl, rfl⟩

/-- Ordering, limiting and projecting rows makes the same results. -/
theorem Statement.finish_carries {entries : List (SortSource × Direction)}
    (sources : SourcesEvery (Meaning.ConductsIn conduct environment) entries) (rows : List Value)
    (watch watch' : Stopwatch) :
    Carries alike (statement.finish entries environment frame rows watch)
      (statement.finish entries environment frame' rows watch') fun results results' => results.1 = results'.1 := by
  have laps := Stopwatch.laps_carry carried.timed
  have shifts := Frame.shifts_rows rows
  have ordered : SourcesEvery (Meaning.ConductsIn conduct environment) (RowOrder.mk entries statement.cacheKeys).entries :=
    sources
  unfold Statement.finish
  refine (carried.carries (conduct.about shifts (sort_conducts conduct ordered rows .start))).bind fun sorted _ same => ?_
  subst same
  refine (laps watch watch' _).bind fun watch watch' _ => ?_
  refine (laps watch watch' _).bind fun watch watch' _ => ?_
  refine (carried.carries (conduct.about shifts (project_conducts conduct parts.columns _))).bind
    fun results _ same => ?_
  exact (laps watch watch' _).bind fun _ _ _ => carries_pure same

/-- Executing the statement has the same results. -/
theorem Statement.execute_carries (ungrouped : statement.groupBy = []) :
    Carries alike (statement.execute environment frame) (statement.execute environment frame')
      fun results results' => results.rows = results'.rows ∧ results.filtered = results'.filtered ∧
        results.having = results'.having := by
  rw [execute_ungrouped ungrouped, execute_ungrouped ungrouped]
  refine (filterRows_carries parts carried).bind fun (filtered, having, watch) (filtered', having', watch') same => ?_
  obtain ⟨rfl, rfl⟩ := same
  refine carries_ofExcept_bind fun entries sources => ?_
  refine (finish_carries parts carried (parts.entries sources) having watch watch').bind
    fun (rows, watch) (rows', watch') same => ?_
  exact (carries_readHeap _ _).bind fun _ _ _ => carries_pure ⟨same, rfl, rfl⟩

end Stages

theorem placed_groupBy_nil {statement : Statement Expr} (ungrouped : statement.groupBy = []) :
    (statementMeaning statement).placed.groupBy = [] := by
  rw [Statement.placed_groupBy, ungrouped, List.mapIdx_nil]

/-- Executing a quiet statement without groups leaves the variables as they are. -/
theorem Statement.QuietOver.execute_holds {statement : Statement Expr} {base : Memory}
    (settled : statement.QuietOver textNames base) (ungrouped : statement.groupBy = [])
    {binds saves : NameTable Value} {frame : Frame} {world left : World} {results : Results}
    (begins : world.Holds frame.scope binds saves
      ((statementMeaning statement).Since (Query.ofStatement statement).environment base))
    (ran : (statementMeaning statement).placed.execute (Query.ofStatement statement).environment frame world =
      .ok results left) :
    left.Holds frame.scope binds saves
      ((statementMeaning statement).Since (Query.ofStatement statement).environment base) := by
  obtain ⟨below, now, parts⟩ := settled.unvarying .text (fun _ _ => rfl) (fun _ => bindValue_text) frame.scope binds
    saves
  have carried : (Conduct.unvarying .text frame.scope binds saves (Memory.Within (fun _ => True) below)).CarriesOver _
      frame _ := Conduct.unvarying_carriesOver (fun _ _ => rfl) rfl frame.statementText
  obtain ⟨_, _, -, ⟨ends, -⟩, -⟩ := execute_carries parts carried (placed_groupBy_nil ungrouped)
    ⟨begins.mono now, begins.mono now⟩ ran
  exact ⟨ends.binds, ends.saves, after_of_ok ran ▸ begins.memory.execute settled.ofRows frame⟩

end RecordQuery
