import RecordQuery.Proofs.Meaning.Listening
import RecordQuery.Proofs.Meaning.Subquery
import RecordQuery.Proofs.Statement.Placed
import RecordQuery.Proofs.Statement.Readiness
/-! Sub-queries take and give up subscriptions, and each of them keeps the account. -/

namespace RecordQuery

open EvalM

/-! The clauses of a statement, and its source. -/

namespace Statement

variable {ε : Type}

theorem sourceExpression?_withoutSource (statement : Statement ε) :
    statement.withoutSource.sourceExpression? = none := by
  unfold withoutSource
  cases source : statement.source <;> simp [sourceExpression?, source]

theorem placed_withoutSource (statement : Statement Expr) :
    (statementMeaning statement).placed.withoutSource = (statementMeaning statement.withoutSource).placed := by
  rw [statementMeaning_eq_map, statementMeaning_eq_map]
  unfold withoutSource placed Statement.map
  cases source : statement.source <;> simp [Source.map, source]

/-- A clause is the source or one of the others. -/
theorem mem_clauses_iff {statement : Statement ε} {part : Branch × ε} : part ∈ statement.clauses ↔
    part ∈ statement.withoutSource.clauses ∨ ∃ source, statement.sourceExpression? = some source ∧
      part = (.source, source) := by
  have other : statement.withoutSource.columns = statement.columns ∧ statement.withoutSource.filter = statement.filter ∧
      statement.withoutSource.groupBy = statement.groupBy ∧ statement.withoutSource.groupOrder = statement.groupOrder ∧
      statement.withoutSource.having = statement.having ∧ statement.withoutSource.orderBy = statement.orderBy ∧
      statement.withoutSource.onAll = statement.onAll ∧ statement.withoutSource.onResults = statement.onResults := by
    unfold withoutSource
    cases statement.source <;> simp [columns]
  obtain ⟨columns, filter, groupBy, groupOrder, having, orderBy, onAll, onResults⟩ := other
  have source : part ∈ statement.sourceExpression?.toList.map (.source, ·) ↔
      ∃ source, statement.sourceExpression? = some source ∧ part = (.source, source) := by
    simp [eq_comm]
  simp only [clauses, sourceExpression?_withoutSource, columns, filter, groupBy, groupOrder, having, orderBy, onAll,
    onResults, List.mem_append, ← source]
  simp only [Option.toList_none, List.map_nil, List.not_mem_nil]
  tauto

theorem ne_source (statement : Statement ε) : ∀ part ∈ statement.withoutSource.clauses, part.1 ≠ .source :=
  @forall_clauses _ (· ≠ .source) statement.withoutSource
    (fun _ found => by rw [sourceExpression?_withoutSource] at found; cases found) (fun _ => nofun) nofun
    (fun _ => nofun) (fun _ => nofun) nofun (fun _ => nofun) (fun _ => nofun) fun _ => nofun

theorem sourceExpression?_placed (statement : Statement Expr) : (statementMeaning statement).placed.sourceExpression? =
    statement.sourceExpression?.map fun expression => expression.meaning.down .source := by
  rw [statementMeaning_eq_map]
  unfold sourceExpression? placed Statement.map
  cases statement.source <;> rfl

/-! A statement over rows. -/

section Rows

variable {statement : Statement Expr} {own : NodeState → Prop} {below : Branch → Memory → Prop}

theorem placed_each {property : Meaning → Prop}
    (each : ∀ part ∈ statement.clauses, property (part.2.meaning.down part.1)) :
    (statementMeaning statement).placed.Every property := by
  rw [Every, expressions_placed_meaning]
  intro _ member
  obtain ⟨_, found, rfl⟩ := List.mem_map.mp member
  obtain ⟨part, inside, rfl⟩ := List.mem_map.mp found
  exact each part inside

variable (balanced : ∀ part ∈ statement.clauses, part.2.Balanced) (root : StoreId)
include balanced

section Shaped

variable (shaped : ∀ part ∈ statement.clauses, ∀ memory, below part.1 memory ↔ part.2.Shaped memory)
include shaped

theorem number_tied (given : Option Scope) (scope : Scope) :
    EvalM.Keeps (World.Tied root (World.Stands root given (Memory.Within own below)))
      (Meaning.forEach ((statementMeaning statement).placed.expressions none) (·.number scope)) := by
  have each : (statementMeaning statement).placed.Every fun meaning => EvalM.Keeps
      (World.Tied root (World.Stands root given (Memory.Within own below))) (meaning.number scope) :=
    placed_each fun part member => ((balanced part member).number root given scope).on
      (World.Tied.part (shaped part member))
  exact keeps_forM each

theorem prepare_tied (setting : Setting) :
    EvalM.Keeps (World.Tied root (World.Stands root (some setting.scope) (Memory.Within own below)))
      ((statementMeaning statement).placed.prepare setting) := by
  rw [prepare_eq]
  refine (number_tied balanced root shaped _ _).bind fun _ => resolve_keeps (placed_each fun part member rowType => ?_)
  exact ((balanced part member).prepare root { setting with rowType }).on (World.Tied.part (shaped part member))

end Shaped

omit root in
/-- A statement that has been resolved has had its clauses resolved. -/
theorem prepared_clauses (rows : statement.sourceExpression? = none) {setting : Setting} {start left : World}
    (ran : (statementMeaning statement).placed.prepare setting start = .ok () left) :
    ∀ part ∈ statement.clauses, part.2.Prepared (left.memory.child part.1) := by
  intro part member
  have inside : (part.1, part.2.meaning) ∈ (statementMeaning statement).parts := by
    rw [statementMeaning_eq_map]
    refine mem_parts_of_clauses ?_ ?_
    · rw [sourceExpression?_map, rows, Option.map_none]
    · rw [clauses_map]
      exact List.mem_map_of_mem member
  obtain ⟨setting, begun, ended, -, own, found⟩ := prepare_prepares ran _ inside
  exact found ▸ (balanced part member).prepared own

end Rows

/-! Making a statement ready. -/

section Ready

variable {root : StoreId} {given : Option Scope} {state : StatementState} {nesting : Nesting}
  {below : Branch → Memory → Prop} {world : World}

theorem opened_tied (statement : Statement Meaning) : EvalM.Keeps
    (World.Tied root (World.Stands root given (Memory.Within (· = .statement state nesting) below)))
      statement.opened := by
  intro world stands
  have ran : statement.opened world = .ok (state, nesting) world := opened_of_node stands.such.1
  rw [after_of_ok ran]
  exact ⟨stands, refl world⟩

/-- Making a statement ready balances: if that succeeds, its clauses have been resolved. -/
theorem makeReady_ends_balanced {statement : Statement Expr} (balanced : ∀ part ∈ statement.clauses, part.2.Balanced)
    (rows : statement.sourceExpression? = none)
    (shaped : ∀ part ∈ statement.clauses, ∀ memory, below part.1 memory ↔ part.2.Shaped memory)
    (stands : World.Stands root (some state.scope) (Memory.Within (· = .statement state nesting) below) world)
    (environment : Environment) (rowType : DataType) :
    Ends ((statementMeaning statement).placed.makeReady environment rowType) world
      (fun _ left => left.memory.Within (· = .statement { state with initialized := true, rowType } nesting) below ∧
        World.Balances root world left ∧ ∀ part ∈ statement.clauses, part.2.Prepared (left.memory.child part.1))
      (fun left => left.memory.Within (· = .statement { state with initialized := false } nesting) below ∧
        World.Balances root world left) := by
  let setting : Setting := ⟨rowType, environment, state.scope⟩
  let cleared : World := world.atNode (.statement { state with initialized := false } nesting)
  have node := stands.such.1
  have clears : World.Balances root world cleared :=
    .of_node node rfl fun _ fits => ⟨fits.linked, fits.stored, fits.once⟩
  have begun : (statementMeaning statement).placed.makeReady environment rowType world = (do
      (statementMeaning statement).placed.prepare setting
      setNode (.statement { state with initialized := true, rowType } nesting)) cleared := by
    rw [makeReady, bind_of_ok (opened_of_node node)]
    rfl
  have prepares : EvalM.Keeps (World.Tied root (World.Stands root (some setting.scope)
      (Memory.Within (· = .statement { state with initialized := false } nesting) below)))
        ((statementMeaning statement).placed.prepare setting) := prepare_tied balanced root shaped setting
  have kept := prepares cleared (stands.later clears ⟨rfl, stands.such.2⟩)
  rw [Ends, begun]
  cases ran : (statementMeaning statement).placed.prepare setting cleared with
  | error error left =>
    rw [after_of_error ran] at kept
    rw [bind_of_error ran]
    exact ⟨kept.1.such, IsTrans.trans _ _ _ clears kept.2⟩
  | ok value left =>
    rw [after_of_ok ran] at kept
    rw [bind_of_ok ran]
    have marks : World.Balances root left
        (left.atNode (.statement { state with initialized := true, rowType } nesting)) :=
      .of_node kept.1.such.1 rfl fun _ fits => ⟨fits.linked, fits.stored, fits.once⟩
    have prepared := prepared_clauses balanced rows ran
    exact ⟨⟨rfl, kept.1.such.2⟩, IsTrans.trans _ _ _ clears (IsTrans.trans _ _ _ kept.2 marks), prepared⟩

/-- Executing a statement balances, if its clauses have been resolved where it is ready. -/
theorem executeReady_tied {statement : Statement Expr} (balanced : ∀ part ∈ statement.clauses, part.2.Balanced)
    {environment : Environment} (around : ∀ handler ∈ environment.functions.handlers, handler.KeepsAside)
    (ready : state.initialized = true → ∀ part ∈ statement.clauses, ∀ memory,
      below part.1 memory ↔ part.2.Shaped memory ∧ part.2.Prepared memory) (rows : List Value)
    (outerRow : Option Value) : EvalM.Keeps
      (World.Tied root (World.Stands root none (Memory.Within (· = .statement state nesting) below)))
      ((statementMeaning statement).placed.executeReady environment rows outerRow) := by
  cases initialized : state.initialized with
  | true =>
    refine executeReady_keeps_of_opened (opened_tied _) (placed_each fun part member frame => ?_) rows outerRow
    exact ((balanced part member).evaluate root around frame).on (World.Tied.part (ready initialized part member))
  | false =>
    intro world stands
    have refused : (statementMeaning statement).placed.executeReady environment rows outerRow world =
        .error (.invalidStatement .notInitialized) world := by
      rw [executeReady, bind_of_ok (opened_of_node stands.such.1)]
      dsimp only
      rw [initialized]
      rfl
    rw [after_of_error refused]
    exact ⟨stands, refl world⟩

end Ready

/-! What is remembered below a sub-query. -/

/-- Everything below a sub-query has its shape, the source has been resolved, and the clauses have been where the
statement is ready. -/
def Remembered (statement : Statement Expr) (ready : Prop) (branch : Branch) (memory : Memory) : Prop :=
  Memory.OnlyAtParts statement.clauses (fun part => part.2.Shaped) branch memory ∧
    (branch = .source → ∀ expression, statement.sourceExpression? = some expression → expression.Prepared memory) ∧
    (ready → Memory.AtParts statement.withoutSource.clauses (fun part => part.2.Prepared) branch memory)

section Remembered

variable {statement : Statement Expr} {ready : Prop} {memory : Memory}

theorem Remembered.mono {branch : Branch} (remembered : statement.Remembered ready branch memory) {fewer : Prop}
    (only : fewer → ready) : statement.Remembered fewer branch memory :=
  ⟨remembered.1, remembered.2.1, fun holds => remembered.2.2 (only holds)⟩

theorem remembered_source {expression : Expr} (sourced : statement.sourceExpression? = some expression) :
    statement.Remembered ready .source memory ↔ expression.Shaped memory ∧ expression.Prepared memory := by
  have member : (.source, expression) ∈ statement.clauses := mem_clauses_iff.mpr (.inr ⟨_, sourced, rfl⟩)
  refine ⟨fun ⟨shaped, prepared, _⟩ => ⟨shaped.1 _ member rfl, prepared rfl _ sourced⟩, fun ⟨shaped, prepared⟩ =>
    ⟨(Memory.onlyAtParts_iff statement.clauses_apart member (fun part => part.2.Shaped) _).mpr shaped, fun _ _ same =>
      ?_, fun _ part inside same => absurd same (statement.ne_source part inside)⟩⟩
  cases sourced.symm.trans same
  exact prepared

theorem remembered_clause {part : Branch × Expr} (member : part ∈ statement.withoutSource.clauses) :
    statement.Remembered ready part.1 memory ↔ part.2.Shaped memory ∧ (ready → part.2.Prepared memory) := by
  have shaped := Memory.onlyAtParts_iff statement.clauses_apart (mem_clauses_iff.mpr (.inl member))
    (fun part => part.2.Shaped) memory
  have prepared := Memory.atParts_iff statement.withoutSource.clauses_apart member (fun part => part.2.Prepared) memory
  rw [Remembered, shaped, prepared]
  exact ⟨fun ⟨own, _, ready⟩ => ⟨own, ready⟩, fun ⟨own, ready⟩ =>
    ⟨own, fun source => absurd source (statement.ne_source part member), ready⟩⟩

/-- A sub-query that has been resolved knows the variables around it. -/
theorem subquery_ready_iff :
    (Expr.subquery statement).Shaped memory ∧ (Expr.subquery statement).Prepared memory ↔
      ∃ state nesting, nesting.adopted = true ∧ memory.Within (· = .statement state nesting)
        (statement.Remembered (nesting.stale = false ∧ state.initialized = true)) := by
  rw [Expr.shaped_eq]
  constructor
  · rintro ⟨⟨-, shaped⟩, prepared⟩
    cases prepared with
    | plain plain _ => cases plain
    | @nested _ _ state nesting node adopted source clauses =>
      refine ⟨state, nesting, adopted, node, fun branch => ⟨shaped branch, ?_, ?_⟩⟩
      · rintro rfl expression sourced
        exact source expression sourced
      · rintro ⟨current, ready⟩ part member rfl
        exact clauses current ready part member
  · rintro ⟨state, nesting, adopted, node, below⟩
    refine ⟨⟨nofun, fun branch => (below branch).1⟩, .nested node adopted (fun expression sourced => ?_)
      fun current ready part member => ?_⟩
    · exact (below .source).2.1 rfl expression sourced
    · exact (below part.1).2.2 ⟨current, ready⟩ part member rfl

end Remembered

end Statement

/-- A nested statement that knows the variables around it works on the store at the root. -/
theorem World.Stands.here {root : StoreId} {given : Option Scope} {such : Memory → Prop} {world : World}
    (stands : Stands root given such world) {state : StatementState} {nesting : Nesting}
    (node : world.memory.state = .statement state nesting) (adopted : nesting.adopted = true) :
    world.heap.root state.scope = root := by
  obtain ⟨others, right⟩ := stands.account
  have listed : (state, nesting) ∈ world.memory.statements := by
    rw [Memory.statements_eq, node]
    exact List.mem_cons_self ..
  rw [Heap.root, (right.fits _ listed).linked adopted]
  exact if_pos stands.alive

theorem World.Stands.unready {root : StoreId} {statement : Statement Expr} {ready : Prop} {state : StatementState}
    {nesting : Nesting} {world : World} (adopted : nesting.adopted = true)
    (stands : Stands root none (Memory.Within (· = .statement state nesting) (statement.Remembered ready)) world) :
    Stands root (some state.scope) (Memory.Within (· = .statement state nesting) (statement.Remembered False))
      world where
  alive := stands.alive
  scope := by
    rintro _ ⟨⟩
    exact stands.here stands.such.1 adopted
  account := stands.account
  apart := stands.apart
  such := ⟨stands.such.1, fun branch => (stands.such.2 branch).mono nofun⟩

namespace Meaning

variable {statement : Statement Expr} (balanced : ∀ part ∈ statement.withoutSource.clauses, part.2.Balanced)
  {root : StoreId} {state : StatementState} {nesting : Nesting} {world : World}
include balanced

/-- Making a sub-query ready balances. If that succeeds, it is ready for the rows at hand or not at all. -/
theorem refresh_ends_balanced (adopted : nesting.adopted = true)
    (stands : World.Stands root none (Memory.Within (· = .statement state nesting)
      (statement.Remembered (nesting.stale = false ∧ state.initialized = true))) world)
    (environment : Environment) (rowType : DataType) :
    Ends (refresh (statementMeaning statement.withoutSource).placed environment rowType) world
      (fun _ left => ∃ state nesting, nesting.adopted = true ∧ nesting.stale = false ∧
        left.memory.Within (· = .statement state nesting) (statement.Remembered (state.initialized = true)) ∧
        World.Balances root world left)
      (fun left => (Expr.subquery statement).Shaped left.memory ∧ (Expr.subquery statement).Prepared left.memory ∧
        World.Balances root world left) := by
  have node := stands.such.1
  have shaped : ∀ part ∈ statement.withoutSource.clauses, ∀ memory,
      statement.Remembered False part.1 memory ↔ part.2.Shaped memory := by
    intro part member memory
    rw [Statement.remembered_clause member]
    simp
  have remakes := Statement.makeReady_ends_balanced balanced statement.sourceExpression?_withoutSource shaped
    (stands.unready adopted) (nestedEnvironment (statementMeaning statement.withoutSource).placed nesting environment)
    rowType
  rw [Ends, refresh, bind_of_ok (Statement.opened_of_node node)]
  simp only [readHeap_bind]
  by_cases needed : (nesting.stale || world.heap.isRaised nesting.store nesting.subscriptions ||
      nesting.seenType != some rowType) = true
  · rw [if_pos needed]
    refine Ends.bind ((remakes.inside _).mono (fun _ _ made => made) fun left failed => ?_) fun _ left made => ?_
    · obtain ⟨within, balances⟩ := failed
      have unready := Statement.subquery_ready_iff.mpr ⟨_, _, adopted, within.1, fun branch =>
        (within.2 branch).mono fun ready => Bool.false_ne_true ready.2⟩
      exact ⟨unready.1, unready.2, balances⟩
    · obtain ⟨within, balances, prepared⟩ := made
      rw [Ends, bind_of_ok (Statement.opened_of_node within.1)]
      let lowered : World := { left with heap := left.heap.modify nesting.store (·.lower nesting.subscriptions) }
      have lowers : World.Balances root left lowered := .of_quiet rfl (left.heap.quiet_lower _ _)
      have marks : World.Balances root lowered (lowered.atNode (.statement { state with initialized := true, rowType }
          { nesting with stale := false, seenType := some rowType })) :=
        .of_node within.1 rfl fun _ fits => ⟨fits.linked, fits.stored, fits.once⟩
      refine ⟨{ state with initialized := true, rowType }, { nesting with stale := false, seenType := some rowType },
        adopted, rfl, ⟨rfl, fun branch => ?_⟩, IsTrans.trans _ _ _ balances (IsTrans.trans _ _ _ lowers marks)⟩
      refine ⟨(within.2 branch).1, (within.2 branch).2.1, fun _ part member same => ?_⟩
      exact same ▸ prepared part member
  · rw [if_neg needed]
    simp only [Bool.or_eq_true, not_or, Bool.not_eq_true] at needed
    obtain ⟨⟨current, -⟩, -⟩ := needed
    exact ⟨state, nesting, adopted, current, ⟨node, fun branch => (stands.such.2 branch).mono fun ready =>
      ⟨current, ready⟩⟩, refl world⟩

/-- A sub-query that is ready, if it can be, balances when it is executed. -/
theorem executeOn_tied (text : String) {environment : Environment}
    (around : ∀ handler ∈ environment.functions.handlers, handler.KeepsAside)
    (brought : ∀ handler ∈ statement.handlers, handler.KeepsAside) (rows : List Value) (outerRow : Option Value) :
    EvalM.Keeps (World.Tied root (World.Stands root none (Memory.Within (· = .statement state nesting)
      (statement.Remembered (state.initialized = true)))))
      (executeOn (statementMeaning statement.withoutSource).placed text environment rows outerRow) := by
  intro world stands
  have own : ∀ handler ∈ (statementMeaning statement.withoutSource).placed.handlers, handler.KeepsAside := by
    rw [← Statement.placed_withoutSource, handlers_withoutSource, Statement.placed_handlers]
    exact brought
  have sees := nestedEnvironment_every standard_keepAside own nesting around
  have ready : state.initialized = true → ∀ part ∈ statement.withoutSource.clauses, ∀ memory,
      statement.Remembered (state.initialized = true) part.1 memory ↔
        part.2.Shaped memory ∧ part.2.Prepared memory := by
    intro initialized part member memory
    rw [Statement.remembered_clause member]
    simp [initialized]
  rw [after, executeOn, bind_of_ok (Statement.opened_of_node stands.such.1)]
  exact (((Statement.executeReady_tied balanced sees ready rows outerRow).inside _).bind fun _ => keeps_pure _)
    world stands

/-- Evaluating a sub-query on rows balances, whether or not it has to be made ready for them. -/
theorem evaluateOn_tied (text : String) {environment : Environment}
    (around : ∀ handler ∈ environment.functions.handlers, handler.KeepsAside)
    (brought : ∀ handler ∈ statement.handlers, handler.KeepsAside) (rows : List Value) (outerRow : Option Value) :
    EvalM.Keeps (World.Tied root (World.Stands root none fun memory =>
      (Expr.subquery statement).Shaped memory ∧ (Expr.subquery statement).Prepared memory))
      (evaluateOn (statementMeaning statement.withoutSource).placed text environment rows outerRow) := by
  intro world stands
  obtain ⟨state, nesting, adopted, within⟩ := Statement.subquery_ready_iff.mp stands.such
  let still (left : World) : Prop := ((Expr.subquery statement).Shaped left.memory ∧
    (Expr.subquery statement).Prepared left.memory) ∧ World.Balances root world left
  have refreshes := refresh_ends_balanced balanced adopted (stands.later (refl world) within) environment
    (rowTypeOf rows)
  have ends : Ends (evaluateOn (statementMeaning statement.withoutSource).placed text environment rows outerRow) world
      (fun _ left => still left) still := by
    refine Ends.bind (refreshes.mono (fun _ _ made => made) fun left failed => ?_) fun _ between made => ?_
    · exact ⟨⟨failed.1, failed.2.1⟩, failed.2.2⟩
    · obtain ⟨state, nesting, adopted, current, within, refreshed⟩ := made
      obtain ⟨last, executed⟩ := executeOn_tied balanced text around brought rows outerRow between
        (stands.later refreshed within)
      have ready := Statement.subquery_ready_iff.mpr ⟨state, nesting, adopted, last.such.1, fun branch =>
        (last.such.2 branch).mono And.right⟩
      exact ends_of_after ⟨ready, IsTrans.trans _ _ _ refreshed executed⟩
  obtain ⟨ready, balances⟩ := ends.after
  exact ⟨stands.later balances ready, balances⟩

end Meaning

section Evaluation

variable {statement : Statement Expr} (balanced : ∀ part ∈ statement.clauses, part.2.Balanced)
include balanced

/-- Evaluating the source of a sub-query leaves the sub-query ready where it was. -/
theorem source_evaluate_tied {source : Expr} (sourced : statement.sourceExpression? = some source) (root : StoreId)
    {environment : Environment} (around : ∀ handler ∈ environment.functions.handlers, handler.KeepsAside)
    (frame : Frame) : EvalM.Keeps (World.Tied root (World.Stands root none fun memory =>
      (Expr.subquery statement).Shaped memory ∧ (Expr.subquery statement).Prepared memory))
      ((source.meaning.down .source).evaluate environment frame) := by
  intro world stands
  obtain ⟨state, nesting, adopted, within⟩ := Statement.subquery_ready_iff.mp stands.such
  have member : (.source, source) ∈ statement.clauses := Statement.mem_clauses_iff.mpr (.inr ⟨_, sourced, rfl⟩)
  have reads : EvalM.Keeps (World.Tied root (World.Stands root none (Memory.Within (· = .statement state nesting)
      (statement.Remembered (nesting.stale = false ∧ state.initialized = true)))))
      ((source.meaning.down .source).evaluate environment frame) :=
    ((balanced _ member).evaluate root around frame).on (World.Tied.part fun _ => Statement.remembered_source sourced)
  obtain ⟨after, balances⟩ := reads world (stands.later (refl world) within)
  exact ⟨stands.later balances (Statement.subquery_ready_iff.mpr ⟨state, nesting, adopted, after.such⟩), balances⟩

/-- Evaluating a sub-query that has been resolved balances. -/
theorem subquery_evaluate_tied (root : StoreId) {environment : Environment}
    (around : ∀ handler ∈ environment.functions.handlers, handler.KeepsAside)
    (brought : ∀ handler ∈ statement.handlers, handler.KeepsAside) :
    (Expr.subquery statement).meaning.KeepsIn (World.Tied root (World.Stands root none fun memory =>
      (Expr.subquery statement).Shaped memory ∧ (Expr.subquery statement).Prepared memory)) environment := by
  intro frame
  change EvalM.Keeps _ ((Meaning.subquery (statementMeaning statement).placed).evaluate environment frame)
  have placed := statement.sourceExpression?_placed
  cases sourced : statement.sourceExpression? with
  | none =>
    rw [sourced] at placed
    unfold Meaning.subquery
    simp only [placed, Option.map_none]
    exact keeps_throw _
  | some source =>
    rw [sourced] at placed
    rw [Meaning.subquery_evaluate placed, Statement.placed_withoutSource]
    refine (source_evaluate_tied balanced sourced root around frame).bind fun value => ?_
    exact Meaning.evaluateOn_tied (fun part inside => balanced part (Statement.mem_clauses_iff.mpr (.inl inside))) _
      around brought _ _

end Evaluation

/-! Resolving a sub-query. -/

/-- Listening anew, a nested statement gives up what it listened to before. -/
theorem Heap.Accounts.listened {heap : Heap} {root : StoreId} {others : List Nat} {state : StatementState}
    {nesting : Nesting} {rest : List (StatementState × Nesting)} {scope : Scope}
    (accounts : heap.Accounts root others ((state, nesting) :: rest)) (here : heap.root scope = root)
    (binds saves : List String) :
    let released := heap.release nesting.held
    let bound := released.watch scope .bind binds
    let saved := bound.2.watch scope .save saves
    let listening : Nesting := { nesting with
      seenType := none, stale := true, store := released.root scope, subscriptions := bound.1 ++ saved.1 }
    Heap.Continues root heap saved.2 ∧ saved.2.Accounts root others ((state, listening) :: rest) := by
  intro released bound saved listening
  obtain ⟨gone, fewer⟩ : Continues root heap released ∧ released.Accounts root others rest := by
    have releases := @Heap.Accounts.released heap root others rest [(state, nesting)] accounts
    rwa [List.flatMap_singleton] at releases
  have here' : released.root scope = root := ((heap.extends_release _).root scope).trans here
  obtain ⟨more, taken, once⟩ := fewer.lists.watched here' binds saves
  have linked := (accounts.fits _ (List.mem_cons_self ..)).linked
  refine ⟨IsTrans.trans _ _ _ gone taken, more.perm (List.perm_append_comm_assoc ..), ?_⟩
  exact List.forall_mem_cons.mpr ⟨⟨linked, fun _ => here', once⟩, fewer.continued taken⟩

section Resolution

variable {statement : Statement Expr} {root : StoreId} {given : Option Scope} {world : World}

theorem Expr.Shaped.atNode (shaped : (Expr.subquery statement).Shaped world.memory) (state : NodeState) :
    (Expr.subquery statement).Shaped (world.atNode state).memory := by
  rw [shaped_eq] at shaped ⊢
  exact shaped.withState nofun

/-- Opening a nested statement balances. -/
theorem opened_stands (nested : Statement Meaning)
    (stands : World.Stands root given (Expr.subquery statement).Shaped world) :
    ∃ state nesting left, nested.opened world = .ok (state, nesting) left ∧
      left.memory.state = .statement state nesting ∧
      World.Stands root given (Expr.subquery statement).Shaped left ∧ World.Balances root world left := by
  by_cases known : ∃ state nesting, world.memory.state = .statement state nesting
  · obtain ⟨state, nesting, node⟩ := known
    exact ⟨state, nesting, world, Statement.opened_of_node node, node, stands, refl world⟩
  · have plain : world.memory.state.isStatement = false := by
      cases node : world.memory.state with
      | statement state nesting => exact absurd ⟨state, nesting, node⟩ known
      | _ => rfl
    have opens (state : StatementState) :=
      @World.Balances.of_opened root world _ state plain (Heap.quiet_opened nested world.heap)
    exact ⟨_, _, _, Statement.opened_of_other fun state nesting node => known ⟨state, nesting, node⟩, rfl,
      stands.later (opens _) (stands.such.atNode _), opens _⟩

theorem adopt_tied (nested : Statement Meaning) (setting : Setting) : EvalM.Keeps
    (World.Tied root (World.Stands root (some setting.scope) (Expr.subquery statement).Shaped))
      (Meaning.adopt nested setting) := by
  intro world stands
  obtain ⟨state, nesting, left, opened, node, stands, opens⟩ := opened_stands nested stands
  have links : World.Balances root left (left.atNode (.statement
      { state with scope := left.heap.link state.scope setting.scope } { nesting with adopted := true })) :=
    .of_node node rfl fun _ fits => ⟨fun _ => congrArg some (stands.scope _ rfl), fits.stored, fits.once⟩
  rw [after, Meaning.adopt, bind_of_ok opened]
  exact ⟨stands.later links (stands.such.atNode _), IsTrans.trans _ _ _ opens links⟩

theorem listen_tied (nested : Statement Meaning) (source : Meaning) (setting : Setting) : EvalM.Keeps
    (World.Tied root (World.Stands root (some setting.scope) (Expr.subquery statement).Shaped))
      (Meaning.listen nested source setting) := by
  intro world stands
  obtain ⟨state, nesting, left, opened, node, stands, opens⟩ := opened_stands nested stands
  let read := source.variables left.memory
  let released := left.heap.release nesting.held
  let bound := released.watch setting.scope .bind (Meaning.namesOf .bind read)
  let saved := bound.2.watch setting.scope .save (Meaning.namesOf .save read)
  let later : World := { left with heap := saved.2 }
  let final : World := later.atNode (.statement state { nesting with
    seenType := none, stale := true, store := released.root setting.scope, subscriptions := bound.1 ++ saved.1 })
  have listens {others : List Nat} (right : left.heap.Accounts root others left.memory.statements) :
      Heap.Continues root left.heap saved.2 ∧ saved.2.Accounts root others final.memory.statements := by
    rw [Memory.statements_eq, node] at right
    exact right.listened (stands.scope _ rfl) _ _
  have balances : World.Balances root left final := by
    obtain ⟨others, right⟩ := stands.account
    refine ⟨?_, (listens right).1, fun unlike => unlike.withState _, fun right => (listens right).2⟩
    have watched := IsTrans.trans _ _ _ (released.extends_watch setting.scope .bind _)
      (bound.2.extends_watch setting.scope .save (Meaning.namesOf .save read))
    exact IsTrans.trans _ _ _ (left.heap.extends_release nesting.held) watched
  rw [after, Meaning.listen, bind_of_ok opened]
  exact ⟨stands.later balances (stands.such.atNode _), IsTrans.trans _ _ _ opens balances⟩

variable (balanced : ∀ part ∈ statement.clauses, part.2.Balanced)
include balanced

theorem subquery_number_tied (root : StoreId) (given : Option Scope) (scope : Scope) : EvalM.Keeps
    (World.Tied root (World.Stands root given (Expr.subquery statement).Shaped))
      ((Expr.subquery statement).meaning.number scope) := by
  change EvalM.Keeps _ (Meaning.forEach ((statementMeaning statement).placed.withoutSource.expressions
    (statementMeaning statement).placed.sourceExpression?) (·.number scope))
  rw [Statement.expressions_withoutSource, Expr.shaped_eq]
  exact Statement.number_tied balanced root (fun part member => Memory.onlyAtParts_iff statement.clauses_apart member
    fun part => part.2.Shaped) given scope

/-- Resolving a sub-query balances. -/
theorem subquery_prepare_tied (root : StoreId) (setting : Setting) : EvalM.Keeps
    (World.Tied root (World.Stands root (some setting.scope) (Expr.subquery statement).Shaped))
      ((Expr.subquery statement).meaning.prepare setting) := by
  refine (adopt_tied _ setting).bind fun _ =>
    (subquery_number_tied balanced root (some setting.scope) setting.scope).bind fun _ => ?_
  rw [Statement.sourceExpression?_placed]
  cases sourced : statement.sourceExpression? with
  | none => exact keeps_throw _
  | some source =>
    have member : (.source, source) ∈ statement.clauses := Statement.mem_clauses_iff.mpr (.inr ⟨_, sourced, rfl⟩)
    refine EvalM.Keeps.bind ?_ fun _ => listen_tied _ _ setting
    rw [Expr.shaped_eq]
    exact ((balanced _ member).prepare root setting).on
      (World.Tied.part (Memory.onlyAtParts_iff statement.clauses_apart member fun part => part.2.Shaped))

/-- A sub-query that is resolved knows the variables around it, and its source has been resolved. -/
theorem subquery_prepared {setting : Setting} {start left : World}
    (ran : (Expr.subquery statement).meaning.prepare setting start = .ok () left) :
    (Expr.subquery statement).Prepared left.memory := by
  obtain ⟨_, begun, adopts, ran⟩ := ok_of_bind ran
  obtain ⟨_, numbered, numbers, ran⟩ := ok_of_bind ran
  have adopted : ∃ state nesting, begun.memory.state = .statement state nesting ∧ nesting.adopted = true := by
    obtain ⟨_, _, -, adopts⟩ := ok_of_bind adopts
    cases adopts
    exact ⟨_, _, rfl, rfl⟩
  obtain ⟨state, nesting, node, adopted⟩ := adopted
  have keeps := (statementMeaning statement).placed_keeps_node
  have same : World.SameNode begun numbered := by
    rw [Statement.expressions_withoutSource] at numbers
    exact after_of_ok numbers ▸ keeps_forM (fun part member => (keeps part member).number setting.scope) begun
  rw [Statement.sourceExpression?_placed] at ran
  cases sourced : statement.sourceExpression? with
  | none =>
    rw [sourced] at ran
    cases ran
  | some source =>
    rw [sourced] at ran
    obtain ⟨_, resolved, resolves, listens⟩ := ok_of_bind ran
    have still : World.SameNode numbered resolved :=
      after_of_ok resolves ▸ (source.meaning.down_keeps_node .source).prepare setting numbered
    rw [Meaning.listen, bind_of_ok (Statement.opened_of_node (still.trans (same.trans node)))] at listens
    cases listens
    refine .nested rfl adopted (fun expression found => ?_) nofun
    cases sourced.symm.trans found
    obtain ⟨ended, own, rfl⟩ := on_ok resolves
    change source.Prepared ((numbered.memory.setChild .source ended.memory).child .source)
    rw [Memory.child_setChild, if_pos rfl]
    exact (balanced _ (Statement.mem_clauses_iff.mpr (.inr ⟨_, sourced, rfl⟩))).prepared own

end Resolution

/-- Whatever is done with an expression balances, if the handlers in it touch neither what is remembered nor the
subscriptions. -/
theorem Expr.balanced (expression : Expr) :
    (∀ handler ∈ expression.handlers, handler.KeepsAside) → expression.Balanced := by
  induction expression using Expr.byParts with
  | whole expression ih =>
    intro brought
    have parts : ∀ part ∈ expression.parts, part.2.Balanced := fun part member =>
      ih part member fun handler inside => brought handler (handlers_part part member inside)
    cases plain : expression.isSubquery with
    | false => exact expression.balanced_of_plain plain parts
    | true =>
      cases expression with
      | subquery statement =>
        exact ⟨subquery_prepare_tied parts, subquery_number_tied parts, subquery_prepared parts, fun root _ around =>
          subquery_evaluate_tied parts root around fun handler inside =>
            brought handler (mem_handlersOfStatement.mpr (.inl inside))⟩
      | _ => cases plain

end RecordQuery
