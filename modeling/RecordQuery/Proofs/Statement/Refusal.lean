import RecordQuery.Proofs.Meaning.Refusal
import RecordQuery.Proofs.Meaning.Subquery
import RecordQuery.Proofs.Statement.Naming
/-! How making a query ready fails, and what that leads to: each failure has a cause that resolving finds, and until the
query is ready each execution of it is refused before anything is evaluated. -/

namespace RecordQuery

open EvalM

namespace Statement

variable {statement : Statement Meaning}

theorem prepareClause_refuses (place : String) (setting : Setting) {expressions : List Meaning}
    (refuses : ∀ expression ∈ expressions, expression.Refuses) :
    EvalM.Refuses (prepareClause place setting expressions) :=
  refuses_forM fun expression member => ((refuses expression member).prepare setting).inside place

theorem resolve_refuses (refuses : statement.Every Meaning.Refuses) (setting : Setting) :
    EvalM.Refuses (statement.resolve setting) := by
  refine (refuses_ofExcept (refused_checkSplice _)).bind fun _ => ?_
  refine Refuses.bind (refuses_forM fun (column, index) member => ?_) fun _ => ?_
  · have present := List.mem_zipIdx_iff_getElem?.mp member
    exact ((refuses.columns column (List.mem_of_getElem? present)).prepare setting).inside _
  refine (prepareClause_refuses _ setting (by simpa using refuses.filter)).bind fun _ => ?_
  refine (prepareClause_refuses _ setting (by simpa using refuses.having)).bind fun _ => ?_
  refine (prepareClause_refuses _ setting refuses.groupBy).bind fun _ => ?_
  refine (prepareClause_refuses _ setting refuses.orderBy).bind fun _ => ?_
  have onAny := List.forall_mem_append.mpr ⟨refuses.onAll, refuses.onResults⟩
  refine (prepareClause_refuses _ setting onAny).bind fun _ => ?_
  refine (prepareClause_refuses _ _ refuses.groupOrder).bind fun _ => ?_
  refine ((refuses_ofExcept (refused_sortSources _ _)).map _).bind fun _ => ?_
  have checked : EvalM.Refuses (discard (EvalM.ofExcept (groupSources statement.groupBy statement.groupOrder))) :=
    (refuses_ofExcept (refused_groupSources _ _)).map _
  split
  · split
    · exact (refuses_throw rfl).bind fun _ => checked
    · exact checked
  · exact refuses_pure ()

theorem makeReady_refuses (refuses : statement.Every Meaning.Refuses) (environment : Environment)
    (rowType : DataType) : EvalM.Refuses (statement.makeReady environment rowType) := by
  refine (Meaning.opened_refuses statement).bind fun _ => (refuses_setNode _).bind fun _ => ?_
  rw [prepare_eq]
  refine Refuses.bind ?_ fun _ => refuses_setNode _
  exact (Meaning.refuses_numberEach refuses _).bind fun _ => resolve_refuses refuses _

/-- All expressions of a statement, at whatever depth, fail to be resolved with causes that resolving finds. -/
theorem placed_refuses (statement : Statement Expr) : (statementMeaning statement).placed.Every Meaning.Refuses := by
  rw [Statement.Every, Statement.expressions_placed_meaning]
  intro _ member
  obtain ⟨_, found, rfl⟩ := List.mem_map.mp member
  obtain ⟨part, -, rfl⟩ := List.mem_map.mp found
  exact part.2.meaning_refuses.down part.1

end Statement

/-- Whether a node says of its statement that it is ready. -/
def NodeState.isReady : NodeState → Bool
  | .statement state _ => state.initialized
  | _ => false

/-- The statement at hand is ready now if it was before. -/
def World.SameReadiness (before after : World) : Prop := after.memory.state.isReady = before.memory.state.isReady

instance : AllowsExecution World.SameReadiness where
  refl _ := rfl
  trans _ _ _ first second := second.trans first
  timed _ _ := rfl
  restored later _ := later

theorem World.SameNode.sameReadiness {before after : World} (same : World.SameNode before after) :
    World.SameReadiness before after := congrArg NodeState.isReady same

theorem Meaning.down_keeps_readiness (meaning : Meaning) (branch : Branch) :
    (meaning.down branch).KeepsAmong (fun _ => True) World.SameReadiness where
  evaluate _ _ world := (on_keeps_node _ branch world).sameReadiness
  prepare _ world := (on_keeps_node _ branch world).sameReadiness
  number _ world := (on_keeps_node _ branch world).sameReadiness

namespace Statement

theorem placed_keeps_readiness (statement : Statement Meaning) :
    statement.placed.Every (Meaning.KeepsAmong (fun _ => True) World.SameReadiness) :=
  have all : statement.Every fun _ => True := fun _ _ => trivial
  all.placed fun meaning branch _ => meaning.down_keeps_readiness branch

/-- The state of a statement can always be asked for; that changes nothing but that a statement of which nothing was
known gets a scope. -/
theorem exists_opened (statement : Statement Meaning) (world : World) :
    ∃ state nesting left, statement.opened world = .ok (state, nesting) left ∧
      left.memory.state = .statement state nesting ∧ state.initialized = world.memory.state.isReady ∧
      (∀ state nesting, world.memory.state = .statement state nesting → left = world) ∧
      ∀ id < world.heap.stores.length, left.heap.store id = world.heap.store id := by
  by_cases known : ∃ state nesting, world.memory.state = .statement state nesting
  · obtain ⟨state, nesting, node⟩ := known
    refine ⟨state, nesting, world, opened_of_node node, node, ?_, fun _ _ _ => rfl, fun _ _ => rfl⟩
    rw [node, NodeState.isReady]
  · refine ⟨_, freshNesting, _, opened_of_other fun state nesting node => known ⟨state, nesting, node⟩, rfl, ?_,
      fun state nesting node => absurd ⟨state, nesting, node⟩ known, fun id inside => Heap.store_opened _ _ inside⟩
    unfold NodeState.isReady
    split
    · next node => exact absurd ⟨_, _, node⟩ known
    · rfl

theorem opened_keeps_readiness (statement : Statement Meaning) :
    EvalM.Keeps World.SameReadiness statement.opened := by
  intro world
  obtain ⟨state, nesting, left, ran, node, same, -, -⟩ := statement.exists_opened world
  rw [after_of_ok ran, World.SameReadiness, node, ← same]
  rfl

/-- A statement is ready from when making it ready succeeds, and is not from when that fails. -/
theorem makeReady_ends (statement : Statement Meaning) (environment : Environment) (rowType : DataType)
    (world : World) : Ends (statement.placed.makeReady environment rowType) world
      (fun _ left => left.memory.state.isReady = true) (fun left => left.memory.state.isReady = false) := by
  obtain ⟨state, nesting, left, ran, -⟩ := statement.placed.exists_opened world
  let setting : Setting := ⟨rowType, environment, state.scope⟩
  let cleared : World :=
    { left with memory := left.memory.withState (.statement { state with initialized := false } nesting) }
  have kept : (((statement.placed).prepare setting).after cleared).memory.state.isReady = false :=
    prepare_keeps statement.placed_keeps_readiness setting cleared
  have begun : statement.placed.makeReady environment rowType world = (do
      statement.placed.prepare setting
      setNode (.statement { state with initialized := true, rowType } nesting)) cleared := by
    rw [makeReady, bind_of_ok ran]
    rfl
  rw [Ends, begun]
  cases prepared : statement.placed.prepare setting cleared with
  | ok value left =>
    rw [bind_of_ok prepared]
    rfl
  | error error left =>
    rw [bind_of_error prepared]
    rwa [after_of_error prepared] at kept

end Statement

namespace Query

/-- What can have become of the world of a query, and whether the query has been made ready there, and not refused
since then. -/
inductive Course (query : Query) : Bool → World → Prop
  | unused {world : World} (unknown : world.memory = .empty) : Course query false world
  /-- Anything has changed but what the query remembers. -/
  | aside {ready : Bool} {world other : World} (before : Course query ready world)
    (same : other.memory = world.memory) : Course query ready other
  | asked {ready : Bool} {world : World} (before : Course query ready world) :
    Course query ready (query.state.after world)
  | prepared {ready : Bool} {world left : World} (before : Course query ready world)
    (ran : query.prepare world = .ok () left) : Course query true left
  | refused {ready : Bool} {world left : World} {error : Error} (before : Course query ready world)
    (ran : query.prepare world = .error error left) : Course query false left
  | executed {ready : Bool} {world : World} (before : Course query ready world) (rows : List Value) :
    Course query ready ((query.execute rows).after world)
  | reordered {ready : Bool} {world : World} (before : Course query ready world) (results : Results)
    (orders : List (OrderBy Expr)) : Course query ready ((query.reorderBy results orders).after world)

section Course

variable {statement : Statement Expr} {ready : Bool} {world : World}

theorem prepare_refuses (statement : Statement Expr) : EvalM.Refuses (Query.ofStatement statement).prepare := by
  have asks : EvalM.Refuses (Query.ofStatement statement).state :=
    (Meaning.opened_refuses _).bind fun _ => refuses_pure _
  refine (asks.map _).bind fun _ => ?_
  split
  · exact refuses_throw rfl
  · exact Statement.makeReady_refuses statement.placed_refuses _ _

theorem state_keeps_readiness (query : Query) : EvalM.Keeps World.SameReadiness query.state :=
  (Statement.opened_keeps_readiness _).bind fun _ => keeps_pure _

theorem execute_keeps_readiness (statement : Statement Expr) (rows : List Value) :
    EvalM.Keeps World.SameReadiness ((Query.ofStatement statement).execute rows) :=
  Statement.executeReady_keeps_of_opened (Statement.opened_keeps_readiness _)
    (fun meaning member => ((statementMeaning statement).placed_keeps_readiness meaning member).within
      fun _ _ => trivial) rows none

theorem reorderBy_keeps_readiness (statement : Statement Expr) (results : Results) (orders : List (OrderBy Expr)) :
    EvalM.Keeps World.SameReadiness ((Query.ofStatement statement).reorderBy results orders) := by
  have ordered : ∀ meaning ∈ orderExpressions (placedOrders orders),
      meaning.KeepsAmong (fun _ => True) World.SameReadiness :=
    placedOrders_each fun part _ => part.2.meaning.down_keeps_readiness part.1
  intro world
  rw [after_reorderBy]
  exact reorderPlaced_keeps (Statement.opened_keeps_readiness _) (statementMeaning statement).placed_keeps_readiness
    (fun _ _ => trivial) results ordered world

/-- A query over rows is ready from when making it ready succeeds, and is not from when that fails; making another one
ready fails, and leaves it as it was. -/
theorem prepare_ends (statement : Statement Expr) (world : World) :
    Ends (Query.ofStatement statement).prepare world
      (fun _ left => left.memory.state.isReady = true ∧ ∃ type, statement.source = .rows type)
      (fun left => left.memory.state.isReady = false ∨
        (¬∃ type, statement.source = .rows type) ∧ World.SameReadiness world left) := by
  obtain ⟨state, nesting, begun, opened, -⟩ := (Query.ofStatement statement).statement.exists_opened world
  have kept := Statement.opened_keeps_readiness (Query.ofStatement statement).statement world
  rw [after_of_ok opened] at kept
  cases source : statement.source with
  | rows type =>
    rw [Ends, prepare_of_rows opened source]
    exact ((statementMeaning statement).makeReady_ends _ type begun).mono (fun _ _ ready => ⟨ready, type, rfl⟩)
      fun _ unready => .inl unready
  | expression nested =>
    rw [Ends, prepare_of_expression opened source]
    exact .inr ⟨by simp, kept⟩

/-- What a query remembers says whether it has been made ready, and only a query over rows ever is. -/
theorem Course.isReady (course : (Query.ofStatement statement).Course ready world) :
    world.memory.state.isReady = ready ∧ (ready = true → ∃ type, statement.source = .rows type) := by
  have step {α : Type} {ready : Bool} {world : World} {action : EvalM α}
      (before : world.memory.state.isReady = ready ∧ (ready = true → ∃ type, statement.source = .rows type))
      (keeps : EvalM.Keeps World.SameReadiness action) :
      (action.after world).memory.state.isReady = ready ∧ (ready = true → ∃ type, statement.source = .rows type) :=
    ⟨(keeps world).trans before.1, before.2⟩
  induction course with
  | unused unknown =>
    rw [unknown]
    exact ⟨rfl, by simp⟩
  | aside _ same ih =>
    rw [same]
    exact ih
  | asked _ ih => exact step ih (state_keeps_readiness _)
  | @prepared _ world left _ ran ih =>
    have ends := prepare_ends statement world
    rw [Ends, ran] at ends
    exact ⟨ends.1, fun _ => ends.2⟩
  | @refused before world left error _ ran ih =>
    have ends := prepare_ends statement world
    rw [Ends, ran] at ends
    refine ⟨?_, by simp⟩
    rcases ends with unready | ⟨nested, same⟩
    · exact unready
    · -- Over an expression the query was not ready before either.
      cases before with
      | false => exact same.trans ih.1
      | true => exact absurd (ih.2 rfl) nested
  | executed _ rows ih => exact step ih (execute_keeps_readiness statement rows)
  | reordered _ results orders ih => exact step ih (reorderBy_keeps_readiness statement results orders)

end Course

/-- The query with other expressions in the places of its own. -/
def withExpressions (query : Query) (change : Meaning → Meaning) : Query := ⟨query.statement.map change⟩

/-- Whatever a query is resolved against, it fails to be made ready with causes that resolving finds. Until it is made
ready, and from when it is refused, each execution is refused too: it sets no variable, and would be the same with other
expressions, so it evaluates none. -/
theorem refused_until_ready (statement : Statement Expr) :
    (∀ world error left, (Query.ofStatement statement).prepare world = .error error left → error.isResolution) ∧
      ∀ world, (Query.ofStatement statement).Course false world → ∀ rows, ∃ left,
        (Query.ofStatement statement).execute rows world = .error (.invalidStatement .notInitialized) left ∧
          (∀ state nesting, world.memory.state = .statement state nesting → left = world) ∧
          (∀ id < world.heap.stores.length, left.heap.store id = world.heap.store id) ∧
          ∀ change, ((Query.ofStatement statement).withExpressions change).execute rows world =
            .error (.invalidStatement .notInitialized) left := by
  refine ⟨prepare_refuses statement, fun world course rows => ?_⟩
  obtain ⟨state, nesting, left, opened, -, same, known, stores⟩ :=
    (Query.ofStatement statement).statement.exists_opened world
  have unready : state.initialized = false := same.trans course.isReady.1
  have refuses (query : Query) (opens : query.statement.opened world = .ok (state, nesting) left) :
      query.execute rows world = .error (.invalidStatement .notInitialized) left := by
    rw [execute, Statement.executeReady, bind_of_ok opens]
    dsimp only
    rw [unready]
    rfl
  exact ⟨left, refuses _ opened, known, stores, fun change => refuses _ opened⟩

/-- Setting a variable leaves it open whether the query is ready. -/
theorem Course.setVariable {query : Query} {ready : Bool} {world : World} (before : query.Course ready world)
    (name : String) (value : Value) : query.Course ready ((query.setVariable name value).after world) := by
  obtain ⟨state, nesting, left, opened, -⟩ := query.statement.exists_opened world
  have asked : query.state world = .ok state left := bind_of_ok opened
  have set : query.setVariable name value world =
      .ok () { left with heap := left.heap.set state.scope .bind name value } := bind_of_ok asked
  rw [after_of_ok set]
  refine before.asked.aside ?_
  rw [after_of_ok asked]

/-- A nested statement over the absolute value of a variable. -/
def measuring : Statement Expr :=
  { Statement.all with
    filter := some (.isNull true (.subquery
      { Statement.all with source := .expression (.call "abs" [.bind (some "x") none]) })) }

/-- A list has no absolute value, so the query is refused while the variable is one, and then each execution is. -/
theorem refused_until_ready_of_measuring :
    let query := Query.ofStatement measuring
    let left := query.prepare.after ((query.setVariable "x" (.list [])).after .start)
    query.Course false left ∧
      (∃ error, query.prepare ((query.setVariable "x" (.list [])).after .start) = .error error left ∧
        error.isResolution) ∧
      ∃ last, query.execute [.int32 1] left = .error (.invalidStatement .notInitialized) last ∧
        ∀ id < left.heap.stores.length, last.heap.store id = left.heap.store id := by
  intro query left
  obtain ⟨error, ran⟩ := exists_error query.prepare ((query.setVariable "x" (.list [])).after .start)
    (by decide +kernel)
  have course : query.Course false left := ((Course.unused rfl).setVariable "x" (.list [])).refused ran
  obtain ⟨last, refused, -, stores, -⟩ := (refused_until_ready measuring).2 left course [.int32 1]
  exact ⟨course, ⟨error, ran, (refused_until_ready measuring).1 _ _ _ ran⟩, last, refused, stores⟩

end Query

end RecordQuery
