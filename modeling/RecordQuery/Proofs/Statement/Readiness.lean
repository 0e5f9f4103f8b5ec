import RecordQuery.Proofs.Meaning.Caching
import RecordQuery.Proofs.Meaning.OfExpr
import RecordQuery.Query
/-! A statement that has been prepared: each of its expressions has been, on the branch of its clause, and goes on being
ready for evaluations, whatever has been evaluated before. -/

namespace RecordQuery

open EvalM

/-- The clause of a statement that a branch leads to, counted in the order in which clauses are prepared. -/
def Branch.clause : Branch → Nat
  | .column _ => 0
  | .filter => 1
  | .having => 2
  | .groupBy _ => 3
  | .orderBy _ => 4
  | .onAll _ => 5
  | .onResults _ => 6
  | .groupOrder _ => 7
  | _ => 8

instance (valid : Memory → Prop) : AllowsExecution (World.Stays valid) where
  timed _ _ holds := holds
  restored later _ := later

namespace Statement

/-- The expressions of a statement over rows, each with the branch of its clause. -/
def parts (statement : Statement Meaning) : List (Branch × Meaning) :=
  Meaning.numbered (statement.columns.map (·.expression)) .column
    ++ (statement.filter.toList.map (.filter, ·) ++ (statement.having.toList.map (.having, ·)
    ++ (Meaning.numbered statement.groupBy .groupBy ++ (orderParts statement.orderBy .orderBy
    ++ ((Meaning.numbered statement.onAll .onAll ++ Meaning.numbered statement.onResults .onResults)
    ++ (orderParts statement.groupOrder .groupOrder ++ []))))))

theorem parts_apart (statement : Statement Meaning) : (statement.parts.map (·.1)).Nodup := by
  have last : RanksFrom Branch.clause 8 [] := ⟨.nil, by simp⟩
  have groupOrder := last.numbered (branches_orderParts statement.groupOrder .groupOrder)
    (fun _ _ => Branch.groupOrder.inj) fun _ => rfl
  have onResults := groupOrder.numbered (Meaning.numbered_sublist statement.onResults .onResults)
    (fun _ _ => Branch.onResults.inj) fun _ => rfl
  have onAll := onResults.numbered (Meaning.numbered_sublist statement.onAll .onAll)
    (fun _ _ => Branch.onAll.inj) fun _ => rfl
  have orderBy := onAll.numbered (branches_orderParts statement.orderBy .orderBy)
    (fun _ _ => Branch.orderBy.inj) fun _ => rfl
  have groupBy := orderBy.numbered (Meaning.numbered_sublist statement.groupBy .groupBy)
    (fun _ _ => Branch.groupBy.inj) fun _ => rfl
  have having := groupBy.optional statement.having (rfl : Branch.clause .having = 2)
  have filter := having.optional statement.filter (rfl : Branch.clause .filter = 1)
  have columns := filter.numbered
    (Meaning.numbered_sublist (statement.columns.map (·.expression)) .column)
    (fun _ _ => Branch.column.inj) fun _ => rfl
  simpa [parts, Function.comp_def] using columns.1

theorem mem_clauses_of_parts {statement : Statement Meaning} {part : Branch × Meaning}
    (member : part ∈ statement.parts) : part ∈ statement.clauses := by
  simp only [parts, clauses, List.mem_append, List.not_mem_nil, or_false] at member ⊢
  tauto

/-- A statement over rows has no other parts. -/
theorem mem_parts_of_clauses {statement : Statement Meaning} (rows : statement.sourceExpression? = none)
    {part : Branch × Meaning} (member : part ∈ statement.clauses) : part ∈ statement.parts := by
  simp only [parts, clauses, rows, Option.toList_none, List.map_nil, List.mem_append, List.not_mem_nil, or_false,
    false_or] at member ⊢
  tauto

theorem mem_parts {statement : Statement Meaning} {part : Branch × Meaning} (member : part ∈ statement.parts) :
    part.2 ∈ statement.expressions none := by
  rw [← expressions_clauses]
  exact List.mem_map_of_mem (mem_clauses_of_parts member)

theorem groupBy_parts_sublist (statement : Statement Meaning) :
    (Meaning.numbered statement.groupBy .groupBy).Sublist statement.parts :=
  (List.sublist_append_left ..).trans <| (List.sublist_append_right ..).trans <|
    (List.sublist_append_right ..).trans (List.sublist_append_right ..)

theorem groupOrder_parts_sublist (statement : Statement Meaning) :
    (orderParts statement.groupOrder .groupOrder).Sublist statement.parts := by
  simp only [parts, List.append_nil, ← List.append_assoc]
  exact List.sublist_append_right ..

variable {environment : Environment} {statement : Statement Meaning}

/-- What holds of the parts on their branches holds of the expressions of the placed statement. -/
theorem placed_every_of_parts {below : Meaning → Prop} (rows : statement.sourceExpression? = none)
    (each : ∀ part ∈ statement.parts, below (part.2.down part.1)) : statement.placed.Every below := by
  rw [Every, expressions_placed]
  intro expression member
  obtain ⟨part, inside, rfl⟩ := List.mem_map.mp member
  exact each part (mem_parts_of_clauses rows inside)

theorem placed_filter :
    statement.placed.filter.toList = Meaning.branched (statement.filter.toList.map (.filter, ·)) := by
  cases found : statement.filter <;> simp [placed, found, Meaning.branched]

theorem placed_having :
    statement.placed.having.toList = Meaning.branched (statement.having.toList.map (.having, ·)) := by
  cases found : statement.having <;> simp [placed, found, Meaning.branched]

theorem prepareClause_prepares (place : String) (setting : Setting) {parts : List (Branch × Meaning)}
    {expressions : List Meaning} (same : setting.environment = environment)
    (clause : expressions = Meaning.branched parts) (apart : (parts.map (·.1)).Nodup) :
    Meaning.Prepares (·.environment = environment) parts (prepareClause place setting expressions) := by
  subst clause
  have all : Meaning.Prepares (·.environment = environment) (parts.map id) _ :=
    Meaning.prepares_forM apart fun part _ => (Meaning.prepares_down part.2 part.1 same).inside place
  rw [List.map_id] at all
  rwa [prepareClause, Meaning.branched, List.forM_eq_forM, List.forM_map]

theorem prepareColumns_prepares (columns : List (Column Meaning)) (setting : Setting)
    (same : setting.environment = environment) :
    Meaning.Prepares (·.environment = environment) (Meaning.numbered (columns.map (·.expression)) .column)
      (prepareColumns setting (columns.mapIdx fun index column => column.map (·.down (.column index)))) := by
  have parts : Meaning.numbered (columns.map (·.expression)) .column =
      columns.zipIdx.map fun entry => (.column entry.2, entry.1.expression) :=
    List.ext_getElem (by simp [Meaning.numbered]) fun index _ _ => by simp [Meaning.numbered]
  have placed : (columns.mapIdx fun index column => column.map (·.down (.column index))).zipIdx =
      columns.zipIdx.map fun entry => (entry.1.map (·.down (.column entry.2)), entry.2) :=
    List.ext_getElem (by simp) fun index _ _ => by simp
  have apart := Meaning.numbered_apart (columns.map (·.expression)) fun _ _ => Branch.column.inj
  rw [parts, List.map_map] at apart
  rw [parts, prepareColumns, placed, List.forM_eq_forM, List.forM_map]
  exact Meaning.prepares_forM apart fun entry _ =>
    (Meaning.prepares_down entry.1.expression (.column entry.2) same).inside _

/-- The checks at the end prepare nothing. -/
theorem prepares_checks (environment : Environment) (statement : Statement Meaning) :
    Meaning.Prepares (·.environment = environment) [] (do
      discard (EvalM.ofExcept (sortSources statement.select statement.orderBy))
      statement.checkGroups) := by
  have unchanged : EvalM.Keeps Eq (do
      discard (EvalM.ofExcept (sortSources statement.select statement.orderBy))
      statement.checkGroups) :=
    ((keeps_ofExcept _).map _).bind fun _ => statement.checkGroups_keeps
  intro start prepared ran
  have same : start = prepared := after_of_ok ran ▸ unchanged start
  subst same
  exact ⟨rfl, fun _ _ => rfl, by simp⟩

/-- Preparing a statement prepares each of its expressions. -/
theorem prepare_prepares {setting : Setting} {start prepared : World}
    (ran : statement.placed.prepare setting start = .ok () prepared) :
    ∀ part ∈ statement.parts, ∃ setting' begun left, setting'.environment = setting.environment ∧
      part.2.prepare setting' begun = .ok () left ∧ prepared.memory.child part.1 = left.memory := by
  obtain ⟨_, begun, -, ran⟩ := ok_of_bind ran
  obtain ⟨_, checked, -, ran⟩ := ok_of_bind ran
  have split {first others : List (Branch × Meaning)} (apart : ((first ++ others).map (·.1)).Nodup) :
      (first.map (·.1)).Nodup ∧ (others.map (·.1)).Nodup := by
    rw [List.map_append] at apart
    exact ⟨apart.of_append_left, apart.of_append_right⟩
  have columns : statement.placed.columns =
      statement.columns.mapIdx fun index column => column.map (·.down (.column index)) := by
    cases selected : statement.select <;> simp [Statement.columns, placed, selected]
  have onRows : statement.placed.onAll ++ statement.placed.onResults =
      Meaning.branched
        (Meaning.numbered statement.onAll .onAll ++ Meaning.numbered statement.onResults .onResults) := by
    rw [Meaning.branched, List.map_append]
    exact (congrArg₂ (· ++ ·) (Meaning.branched_numbered ..) (Meaning.branched_numbered ..)).symm
  rw [columns] at ran
  have apart := statement.parts_apart
  obtain ⟨-, apart1⟩ := split apart
  obtain ⟨apartFilter, apart2⟩ := split apart1
  obtain ⟨apartHaving, apart3⟩ := split apart2
  obtain ⟨apartGroupBy, apart4⟩ := split apart3
  obtain ⟨apartOrderBy, apart5⟩ := split apart4
  obtain ⟨apartOn, apart6⟩ := split apart5
  obtain ⟨apartGroupOrder, apart7⟩ := split apart6
  have checks := prepares_checks setting.environment statement.placed
  have last := (prepareClause_prepares "group by order by" { setting with rowType := .any } rfl
    (branched_orderParts ..).symm apartGroupOrder).bind checks apart6
  have last := (prepareClause_prepares "execute on" setting rfl onRows apartOn).bind last apart5
  have last := (prepareClause_prepares "order by" setting rfl (branched_orderParts ..).symm apartOrderBy).bind
    last apart4
  have last := (prepareClause_prepares "group by" setting rfl (Meaning.branched_numbered ..).symm apartGroupBy).bind
    last apart3
  have last := (prepareClause_prepares "having clause" setting rfl placed_having apartHaving).bind last apart2
  have last := (prepareClause_prepares "where clause" setting rfl placed_filter apartFilter).bind last apart1
  have last := (prepareColumns_prepares statement.columns setting rfl).bind last apart
  exact (last checked prepared ran).2.2

/-! What can be remembered later on. -/

/-- What a statement remembers whose expressions have been prepared. -/
def Prepared (statement : Statement Meaning) (environment : Environment) (memory : Memory) : Prop :=
  ∀ part ∈ statement.parts, ∃ setting start left, setting.environment = environment ∧
    part.2.prepare setting start = .ok () left ∧ memory.child part.1 = left.memory

/-- What can be remembered by a statement that has been prepared, and whose expressions have then been evaluated any
number of times. -/
def History (statement : Statement Meaning) (environment : Environment) (memory : Memory) : Prop :=
  ∀ part ∈ statement.parts, ∃ setting, setting.environment = environment ∧
    part.2.History setting (memory.child part.1)

/-- What can be remembered when the expressions of a statement have been evaluated any number of times since. -/
def Since (statement : Statement Meaning) (environment : Environment) (base memory : Memory) : Prop :=
  ∀ part ∈ statement.parts, part.2.Since environment (fun _ => True) (base.child part.1) (memory.child part.1)

/-- What is known of the parts of a statement is known of some of them. -/
theorem Prepared.fewer {other : Statement Meaning} {memory : Memory} (prepared : statement.Prepared environment memory)
    (fewer : other.parts ⊆ statement.parts) : other.Prepared environment memory :=
  fun part member => prepared part (fewer member)

theorem Since.fewer {other : Statement Meaning} {base memory : Memory}
    (since : statement.Since environment base memory) (fewer : other.parts ⊆ statement.parts) :
    other.Since environment base memory :=
  fun part member => since part (fewer member)

/-- Making a query ready prepares its expressions. -/
theorem prepared_of_ready {statement : Statement Expr} {start ready : World}
    (ran : (Query.ofStatement statement).prepare start = .ok () ready) :
    (statementMeaning statement).Prepared (Query.ofStatement statement).environment ready.memory := by
  obtain ⟨_, opened, -, ran⟩ := ok_of_bind ran
  cases source : (Query.ofStatement statement).statement.source with
  | expression _ =>
    rw [source] at ran
    cases ran
  | rows type =>
    rw [source] at ran
    obtain ⟨⟨state, nesting⟩, known, -, ran⟩ := ok_of_bind ran
    obtain ⟨_, marked, -, ran⟩ := ok_of_bind ran
    obtain ⟨_, prepared, began, ran⟩ := ok_of_bind ran
    cases ran
    exact prepare_prepares began

theorem Prepared.history {memory : Memory} (prepared : statement.Prepared environment memory) :
    statement.History environment memory := by
  intro part member
  obtain ⟨setting, start, left, same, ran, found⟩ := prepared part member
  exact ⟨setting, same, found ▸ .prepared ran⟩

theorem history_of_ready {statement : Statement Expr} {start ready : World}
    (ran : (Query.ofStatement statement).prepare start = .ok () ready) :
    (statementMeaning statement).History (Query.ofStatement statement).environment ready.memory :=
  (prepared_of_ready ran).history

/-- Evaluating one expression adds to what its own has been since, and to no other. -/
theorem Since.evaluated {base : Memory} {part : Branch × Meaning} {world : World}
    (since : statement.Since environment base world.memory) (member : part ∈ statement.parts) (frame : Frame) :
    statement.Since environment base (((part.2.down part.1).evaluate environment frame).after world).memory := by
  intro other present
  change other.2.Since environment _ (base.child other.1)
    ((((part.2.evaluate environment frame).on part.1).after world).memory.child other.1)
  rw [memory_after_on, Memory.child_setChild]
  split
  · next twin =>
    cases List.inj_on_of_nodup_map statement.parts_apart present member twin
    exact @Meaning.Since.evaluated _ _ _ _ (world.down part.1) (since part member) frame trivial
  · exact since other present

/-- Executing a statement over rows only evaluates its expressions. -/
theorem Since.execute {base : Memory} {world : World} (since : statement.Since environment base world.memory)
    (rows : statement.sourceExpression? = none) (frame : Frame) :
    statement.Since environment base ((statement.placed.execute environment frame).after world).memory := by
  have keeps : statement.placed.Every (Meaning.KeepsIn (World.Stays (statement.Since environment base)) environment) :=
    placed_every_of_parts rows fun part member frame world since => since.evaluated member frame
  exact execute_keeps keeps frame world since

/-- Whatever has been evaluated before, expressions that were ready when they had been prepared are ready. -/
theorem History.ready {trait : Trait} {memory : Memory} {chosen : List (Branch × Meaning)}
    (history : statement.History environment memory) (stays : trait.Stays) (inside : chosen.Sublist statement.parts)
    (readies : ∀ part ∈ chosen, part.2.Readies trait environment)
    (reads : ∀ part ∈ chosen, ∀ memory, part.2.ReadsAllowed trait memory) :
    ∃ below, Meaning.PartsReady trait environment chosen memory below := by
  refine Meaning.partsReady_of_ready chosen ((inside.map _).nodup statement.parts_apart) fun part member => ?_
  obtain ⟨setting, rfl, before⟩ := history part (inside.subset member)
  exact before.ready stays (readies part member) (reads part member)

/-- Expressions that read what is allowed are ready when they have been prepared. -/
theorem Prepared.ready {trait : Trait} {memory : Memory} (prepared : statement.Prepared environment memory)
    (readies : ∀ part ∈ statement.parts, part.2.Readies trait environment)
    (reads : ∀ part ∈ statement.parts, part.2.ReadsAllowed trait (memory.child part.1)) :
    ∃ below, Meaning.PartsReady trait environment statement.parts memory below := by
  refine Meaning.partsReady_of_ready statement.parts statement.parts_apart fun part member => ?_
  obtain ⟨setting, start, left, same, ran, found⟩ := prepared part member
  exact found ▸ readies part member same ran (found ▸ reads part member)

/-- What is valid when the parts are ready stays so, whatever else is evaluated. -/
theorem Since.stays {trait : Trait} {base memory : Memory} {chosen : List (Branch × Meaning)}
    {below : Branch → Memory → Prop} (since : statement.Since environment base memory) (stays : trait.Stays)
    (inside : chosen ⊆ statement.parts) (ready : Meaning.PartsReady trait environment chosen base below) :
    memory.Within (fun _ => True) below := by
  refine ⟨trivial, fun branch => ?_⟩
  by_cases present : branch ∈ chosen.map (·.1)
  · obtain ⟨part, member, rfl⟩ := List.mem_map.mp present
    exact (since part (inside member)).keeps (fun frame _ => stays (ready.dependable part member).shows frame)
      (ready.holds part.1)
  · exact ready.free present _

/-- Where there are but the standard functions, expressions over a vocabulary have the traits that allow for it, now and
later on. -/
theorem History.dependable_of_over {statement : Statement Expr} {trait : Trait} {vocabulary : Vocabulary}
    {base : Memory} {chosen : List (Branch × Meaning)}
    (history : (statementMeaning statement).History environment base) (own : environment.functions.own = [])
    (standard : environment.functions.standard = FunctionRegistry.default.standard) (stays : trait.Stays)
    (fits : vocabulary.Fits trait) (inside : chosen.Sublist (statementMeaning statement).parts)
    (ranges : ∀ part ∈ chosen, ∃ expression : Expr, expression.isOver vocabulary = true ∧ expression.meaning = part.2) :
    ∃ valid, (∀ memory, (statementMeaning statement).Since environment base memory → valid memory) ∧
      ∀ meaning ∈ Meaning.branched chosen, meaning.Dependable trait environment valid := by
  have lawful : environment.Lawful trait := Environment.lawful_of_own (by simp [own]) standard
  have readies : ∀ part ∈ chosen, part.2.Readies trait environment := by
    intro part member
    obtain ⟨expression, looks, same⟩ := ranges part member
    exact same ▸ expression.meaning_readies fits lawful looks
  have reads : ∀ part ∈ chosen, ∀ memory, part.2.ReadsAllowed trait memory := by
    intro part member
    obtain ⟨expression, looks, same⟩ := ranges part member
    exact same ▸ expression.reads_of_over fits looks
  obtain ⟨below, ready⟩ := history.ready stays inside readies reads
  exact ⟨Memory.Within (fun _ => True) below, fun memory since => since.stays stays inside.subset ready, ready.down _⟩

end Statement

end RecordQuery
