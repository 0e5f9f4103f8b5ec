import RecordQuery.Proofs.Meaning.OfExpr
/-! Evaluating a sub-query time and again. Its node keeps the row type that the nested statement was made ready for,
and whether it is ready at all; making it ready for another type may fail, and then it is ready for neither. -/

namespace RecordQuery

open EvalM

/-- The node at hand remembers of itself what it did before. -/
def World.SameNode (before after : World) : Prop := after.memory.state = before.memory.state

instance : AllowsExecution World.SameNode where
  refl _ := rfl
  trans _ _ _ first second := second.trans first
  timed _ _ := rfl
  restored later _ := later

theorem EvalM.on_keeps_node {α : Type} (action : EvalM α) (branch : Branch) :
    EvalM.Keeps World.SameNode (action.on branch) := by
  intro world
  unfold after EvalM.on
  cases action (world.down branch) <;> rfl

/-- What happens down a branch leaves the node above it alone. -/
theorem Meaning.down_keeps_node (meaning : Meaning) (branch : Branch) :
    (meaning.down branch).Keeps World.SameNode where
  evaluate _ _ := on_keeps_node _ branch
  prepare _ := on_keeps_node _ branch
  number _ := on_keeps_node _ branch

theorem Meaning.down_keepsIn_node (meaning : Meaning) (branch : Branch) (environment : Environment) :
    (meaning.down branch).KeepsIn World.SameNode environment :=
  fun _ => on_keeps_node _ branch

theorem Meaning.each_keepsIn_node (parts : List Meaning) (branch : Nat → Branch) (environment : Environment) :
    ∀ part ∈ each parts branch, part.KeepsIn World.SameNode environment := by
  intro part member
  obtain ⟨index, inside, rfl⟩ := List.mem_mapIdx.mp member
  exact down_keepsIn_node _ _ _

namespace Statement

variable (statement : Statement Meaning)

theorem placed_keeps_node : statement.placed.Every (Meaning.Keeps World.SameNode) :=
  have all : statement.Every fun _ => True := fun _ _ => trivial
  all.placed fun meaning branch _ => meaning.down_keeps_node branch

theorem placed_keepsIn_node (environment : Environment) :
    statement.placed.Every (Meaning.KeepsIn World.SameNode environment) :=
  have all : statement.Every fun _ => True := fun _ _ => trivial
  all.placed fun meaning branch _ => meaning.down_keepsIn_node branch environment

end Statement

/-- Where nothing has been noted there is nothing to forget. -/
theorem Heap.lower_of_quiet {heap : Heap} {id : StoreId} {subscriptions : List Nat}
    (quiet : heap.isRaised id subscriptions = false) : heap.modify id (·.lower subscriptions) = heap := by
  have kept : (heap.store id).raised.filter (!subscriptions.contains ·) = (heap.store id).raised := by
    refine List.filter_eq_self.mpr fun raised member => ?_
    cases listed : subscriptions.contains raised with
    | false => rfl
    | true =>
      have unnoted := List.any_eq_false.mp quiet raised (List.contains_iff_mem.mp listed)
      exact absurd (List.contains_iff_mem.mpr member) unnoted
  have same : heap.stores.modify id (·.lower subscriptions) = heap.stores := by
    refine List.ext_getElem? fun place => ?_
    rw [List.getElem?_modify]
    cases present : heap.stores[place]? with
    | none => rfl
    | some store =>
      by_cases here : id = place
      · subst here
        simp only [Heap.store, present, Option.getD_some] at kept
        have still : store.lower subscriptions = store := by rw [VariableStore.lower, kept]
        simp [still]
      · simp [here]
  simp only [modify, same]

/-- The world with another state of the node at hand. -/
def World.atNode (world : World) (state : NodeState) : World :=
  { world with memory := world.memory.withState state }

namespace Meaning

/-- Executes a nested statement on rows if it is ready. -/
def executeOn (nested : Statement Meaning) (text : String) (environment : Environment) (rows : List Value)
    (outerRow : Option Value) : EvalM Value := do
  let (_, nesting) ← nested.opened
  let results ← EvalM.inside ("sub-query " ++ text)
    (nested.executeReady (nestedEnvironment nested nesting environment) rows outerRow)
  return .list results.rows

/-- Evaluates a nested statement on rows: makes it ready for them, and executes it. -/
def evaluateOn (nested : Statement Meaning) (text : String) (environment : Environment) (rows : List Value)
    (outerRow : Option Value) : EvalM Value := do
  refresh nested environment (rowTypeOf rows)
  executeOn nested text environment rows outerRow

theorem subquery_evaluate {statement : Statement Meaning} {source : Meaning}
    (sourced : statement.sourceExpression? = some source) (environment : Environment) (frame : Frame) :
    (subquery statement).evaluate environment frame = (do
      let value ← source.evaluate environment frame
      evaluateOn statement.withoutSource (subquery statement).text environment (sourceRows value) frame.row) := by
  unfold subquery
  simp only [sourced]
  rfl

variable {nested : Statement Meaning} {environment : Environment} {rowType : DataType} {world : World}
  {state : StatementState} {nesting : Nesting}

theorem refresh_of_current (node : world.memory.state = .statement state nesting) (current : nesting.stale = false)
    (quiet : world.heap.isRaised nesting.store nesting.subscriptions = false)
    (seen : nesting.seenType = some rowType) : refresh nested environment rowType world = .ok () world := by
  rw [refresh, bind_of_ok (Statement.opened_of_node node)]
  simp only [readHeap_bind, current, quiet, seen, bne_self_eq_false, Bool.or_self, Bool.false_eq_true, if_false]
  rfl

/-- Making a nested statement ready anew: in between it is not ready for any rows. -/
theorem refresh_of_outdated (node : world.memory.state = .statement state nesting)
    (outdated : nesting.stale = true ∨ nesting.seenType ≠ some rowType) :
    Ends (refresh nested environment rowType) world
      (fun _ left => ∃ prepared,
        nested.prepare ⟨rowType, nestedEnvironment nested nesting environment, state.scope⟩
          (world.atNode (.statement { state with initialized := false } nesting)) = .ok () prepared ∧
        left = { prepared with
          heap := prepared.heap.modify nesting.store (·.lower nesting.subscriptions) }.atNode
            (.statement { state with initialized := true, rowType }
              { nesting with stale := false, seenType := some rowType }))
      (fun left => ∃ error,
        nested.prepare ⟨rowType, nestedEnvironment nested nesting environment, state.scope⟩
          (world.atNode (.statement { state with initialized := false } nesting)) = .error error left) := by
  have needed : (nesting.stale || world.heap.isRaised nesting.store nesting.subscriptions ||
      nesting.seenType != some rowType) = true := by
    rcases outdated with stale | unseen
    · simp [stale]
    · simp [unseen]
  have ready : nested.makeReady (nestedEnvironment nested nesting environment) rowType world = (do
      nested.prepare ⟨rowType, nestedEnvironment nested nesting environment, state.scope⟩
      EvalM.setNode (.statement { state with initialized := true, rowType } nesting))
        (world.atNode (.statement { state with initialized := false } nesting)) := by
    rw [Statement.makeReady, bind_of_ok (Statement.opened_of_node node)]
    rfl
  rw [Ends, refresh, bind_of_ok (Statement.opened_of_node node)]
  simp only [readHeap_bind, needed, if_true]
  cases ran : nested.prepare ⟨rowType, nestedEnvironment nested nesting environment, state.scope⟩
      (world.atNode (.statement { state with initialized := false } nesting)) with
  | error error left =>
    rw [bind_of_error ran] at ready
    rw [bind_of_error (inside_of_error _ ready)]
    exact ⟨error, rfl⟩
  | ok done prepared =>
    have made : nested.makeReady (nestedEnvironment nested nesting environment) rowType world =
        .ok () (prepared.atNode (.statement { state with initialized := true, rowType } nesting)) := by
      rw [ready, bind_of_ok ran]
      rfl
    rw [bind_of_ok (inside_of_ok _ made), bind_of_ok (Statement.opened_of_node rfl)]
    exact ⟨prepared, rfl, rfl⟩

end Meaning

/-- The source and the nested statement leave the node of the sub-query alone. -/
structure Apart (nested : Statement Meaning) (source : Meaning) (environment : Environment) (nesting : Nesting) :
    Prop where
  source : source.KeepsIn World.SameNode environment
  prepare (setting : Setting) : EvalM.Keeps World.SameNode (nested.prepare setting)
  execute (frame : Frame) :
    EvalM.Keeps World.SameNode (nested.execute (Meaning.nestedEnvironment nested nesting environment) frame)

theorem apart_of_placed {statement : Statement Meaning} {source : Meaning}
    (sourced : statement.placed.sourceExpression? = some source) (environment : Environment) (nesting : Nesting) :
    Apart statement.placed.withoutSource source environment nesting where
  source := (statement.placed_keepsIn_node environment).source source sourced
  prepare setting := Statement.prepare_keeps statement.placed_keeps_node.withoutSource setting
  execute frame := Statement.execute_keeps (statement.placed_keepsIn_node _).withoutSource frame

/-- The row type that a nested statement was last made ready for, and whether it is ready at all. -/
structure Readiness where
  seen : DataType
  ready : Bool
deriving DecidableEq

/-- The row type that a nested statement is ready for. -/
def Readiness.known (readiness : Readiness) : Option DataType :=
  if readiness.ready then some readiness.seen else none

/-- A sub-query without side effects while no variable changes: on the frames that arise its source yields the same
rows each time, its nested statement can be made ready for a row type or not, and once it is ready for rows its results
depend on these and the row around them. What it remembers for that stands, whatever else is evaluated. -/
structure Steady (nested : Statement Meaning) (source : Meaning) (environment : Environment) (scope : Scope)
    (nesting : Nesting) where
  arises : Frame → Prop
  /-- The rows that the source yields, unless it fails. -/
  rows : Frame → Option (List Value)
  /-- Whether the nested statement can be made ready. -/
  prepares : DataType → Bool
  /-- The results on rows within a row, unless the nested statement fails. -/
  results : List Value → Option Value → Option (List Value)
  /-- What is remembered below the node, for a row type if the nested statement is ready for it. -/
  stands : Option DataType → World → Prop
  begun {known : Option DataType} {world : World} (standing : stands known world) : stands none world
  aside {known : Option DataType} {world : World} (state : NodeState) (standing : stands known world) :
    stands known (world.atNode state)
  quiet {known : Option DataType} {world : World} (standing : stands known world) :
    world.heap.isRaised nesting.store nesting.subscriptions = false
  yields {frame : Frame} {known : Option DataType} {world : World} (here : arises frame)
    (standing : stands known world) :
    Ends (source.evaluate environment frame) world
      (fun value left => rows frame = some (sourceRows value) ∧ stands known left)
      (fun left => rows frame = none ∧ stands known left)
  becomes {frame : Frame} {found : List Value} {world : World} (here : arises frame) (yielded : rows frame = some found)
    (standing : stands none world) :
    Ends (nested.prepare ⟨rowTypeOf found, Meaning.nestedEnvironment nested nesting environment, scope⟩) world
      (fun _ left => prepares (rowTypeOf found) = true ∧ stands (some (rowTypeOf found)) left)
      (fun left => prepares (rowTypeOf found) = false ∧ stands none left)
  answers {frame : Frame} {found : List Value} {world : World} (here : arises frame) (yielded : rows frame = some found)
    (standing : stands (some (rowTypeOf found)) world) :
    Ends (nested.execute (Meaning.nestedEnvironment nested nesting environment) (nested.frame scope found frame.row))
      world
      (fun answer left => results found frame.row = some answer.rows ∧ stands (some (rowTypeOf found)) left)
      (fun left => results found frame.row = none ∧ stands (some (rowTypeOf found)) left)

namespace Steady

variable {nested : Statement Meaning} {source : Meaning} {environment : Environment} {scope : Scope}
  {nesting : Nesting} (steady : Steady nested source environment scope nesting)

/-- The statement around has been made ready, and the sub-query has to be whatever its rows are. -/
structure Fresh (world : World) : Prop where
  node : ∃ initialized rowType seenType, world.memory.state =
    .statement ⟨scope, initialized, rowType⟩ { nesting with stale := true, seenType }
  stands : steady.stands none world

/-- The sub-query has been made ready for rows before. -/
structure Settled (readiness : Readiness) (world : World) : Prop where
  node : ∃ rowType, world.memory.state =
    .statement ⟨scope, readiness.ready, rowType⟩ { nesting with stale := false, seenType := some readiness.seen }
  stands : steady.stands readiness.known world
  prepared : readiness.ready = true → steady.prepares readiness.seen = true

/-- The sub-query may have been evaluated before, with whatever outcome. -/
def Begun (world : World) : Prop := steady.Fresh world ∨ ∃ readiness, steady.Settled readiness world

/-- What evaluation on a frame makes of the readiness: nothing if the type of the rows is the one seen last; otherwise
the nested statement is made ready for them, and where that fails the type seen last remains. -/
def next (readiness : Readiness) (frame : Frame) : Readiness :=
  match steady.rows frame with
  | none => readiness
  | some found =>
    if readiness.seen = rowTypeOf found then readiness
    else if steady.prepares (rowTypeOf found) then ⟨rowTypeOf found, true⟩
    else { readiness with ready := false }

variable {steady} {text : String} {world : World} {frame : Frame} {found : List Value}

/-- What a nested statement sees does not depend on the rows seen. -/
theorem nestedEnvironment_seen (nesting : Nesting) (seenType : Option DataType) (stale : Bool) :
    Meaning.nestedEnvironment nested { nesting with stale, seenType } environment =
      Meaning.nestedEnvironment nested nesting environment := rfl

theorem executeOn_ready (apart : Apart nested source environment nesting) (here : steady.arises frame)
    (yielded : steady.rows frame = some found) (settled : steady.Settled ⟨rowTypeOf found, true⟩ world) :
    Ends (Meaning.executeOn nested text environment found frame.row) world
      (fun value left => (steady.results found frame.row).map Value.list = some value ∧
        steady.Settled ⟨rowTypeOf found, true⟩ left)
      (fun left => steady.results found frame.row = none ∧ steady.Settled ⟨rowTypeOf found, true⟩ left) := by
  obtain ⟨⟨rowType, node⟩, standing, prepared⟩ := settled
  have ready : nested.executeReady (Meaning.nestedEnvironment nested nesting environment) found frame.row world =
      nested.execute (Meaning.nestedEnvironment nested nesting environment) (nested.frame scope found frame.row)
        world := by
    rw [Statement.executeReady, bind_of_ok (Statement.opened_of_node node)]
    rfl
  have ends := steady.answers here yielded standing
  have kept := apart.execute (nested.frame scope found frame.row) world
  rw [Ends, Meaning.executeOn, bind_of_ok (Statement.opened_of_node node)]
  rw [Ends] at ends
  dsimp only
  rw [nestedEnvironment_seen]
  cases ran : nested.execute (Meaning.nestedEnvironment nested nesting environment)
      (nested.frame scope found frame.row) world with
  | error error left =>
    rw [ran] at ends
    rw [after_of_error ran] at kept
    rw [bind_of_error (inside_of_error _ (ready.trans ran))]
    exact ⟨ends.1, ⟨rowType, kept.trans node⟩, ends.2, prepared⟩
  | ok answer left =>
    rw [ran] at ends
    rw [after_of_ok ran] at kept
    rw [bind_of_ok (inside_of_ok _ (ready.trans ran))]
    exact ⟨by rw [ends.1]; rfl, ⟨rowType, kept.trans node⟩, ends.2, prepared⟩

/-- A statement that is not ready is not executed. -/
theorem executeOn_unready {seen rowType : DataType}
    (node : world.memory.state =
      .statement ⟨scope, false, rowType⟩ { nesting with stale := false, seenType := some seen })
    (rows : List Value) (outerRow : Option Value) :
    Meaning.executeOn nested text environment rows outerRow world =
      .error (.within ("sub-query " ++ text) (.invalidStatement .notInitialized)) world := by
  have refused : nested.executeReady (Meaning.nestedEnvironment nested nesting environment) rows outerRow world =
      .error (.invalidStatement .notInitialized) world := by
    rw [Statement.executeReady, bind_of_ok (Statement.opened_of_node node)]
    rfl
  rw [Meaning.executeOn, bind_of_ok (Statement.opened_of_node node)]
  dsimp only
  rw [nestedEnvironment_seen, bind_of_error (inside_of_error _ refused)]

/-- Making the nested statement ready for rows of another type than it was, or than it is known to be. -/
theorem refresh_readies (apart : Apart nested source environment nesting) (here : steady.arises frame)
    (yielded : steady.rows frame = some found) (standing : steady.stands none world) {initialized stale : Bool}
    {rowType : DataType} {seenType : Option DataType}
    (node : world.memory.state = .statement ⟨scope, initialized, rowType⟩ { nesting with stale, seenType })
    (outdated : stale = true ∨ seenType ≠ some (rowTypeOf found)) :
    Ends (Meaning.refresh nested environment (rowTypeOf found)) world
      (fun _ left => steady.prepares (rowTypeOf found) = true ∧ steady.Settled ⟨rowTypeOf found, true⟩ left)
      (fun left => steady.prepares (rowTypeOf found) = false ∧ steady.stands none left ∧
        left.memory.state = .statement ⟨scope, false, rowType⟩ { nesting with stale, seenType }) := by
  have refreshed : Ends (Meaning.refresh nested environment (rowTypeOf found)) world _ _ :=
    Meaning.refresh_of_outdated node outdated
  dsimp only at refreshed
  rw [nestedEnvironment_seen] at refreshed
  have becomes := steady.becomes here yielded
    (steady.aside (.statement ⟨scope, false, rowType⟩ { nesting with stale, seenType }) standing)
  rw [Ends] at refreshed becomes ⊢
  cases outcome : Meaning.refresh nested environment (rowTypeOf found) world with
  | error error left =>
    rw [outcome] at refreshed
    obtain ⟨error', ran⟩ := refreshed
    have kept := apart.prepare ⟨rowTypeOf found, Meaning.nestedEnvironment nested nesting environment, scope⟩
      (world.atNode (.statement ⟨scope, false, rowType⟩ { nesting with stale, seenType }))
    rw [ran] at becomes
    rw [after_of_error ran] at kept
    exact ⟨becomes.1, becomes.2, kept⟩
  | ok done left =>
    rw [outcome] at refreshed
    obtain ⟨prepared, ran, rfl⟩ := refreshed
    rw [ran] at becomes
    obtain ⟨prepares, standing⟩ := becomes
    rw [Heap.lower_of_quiet (steady.quiet standing)]
    exact ⟨prepares, ⟨rowTypeOf found, rfl⟩, steady.aside _ standing, fun _ => prepares⟩

theorem Settled.kept {readiness : Readiness} {left : World} (settled : steady.Settled readiness world)
    (standing : steady.stands readiness.known left) (same : world.SameNode left) : steady.Settled readiness left := by
  obtain ⟨⟨rowType, node⟩, _, prepared⟩ := settled
  exact ⟨⟨rowType, same.trans node⟩, standing, prepared⟩

theorem Fresh.kept {left : World} (fresh : steady.Fresh world) (standing : steady.stands none left)
    (same : world.SameNode left) : steady.Fresh left := by
  obtain ⟨⟨initialized, rowType, seenType, node⟩, _⟩ := fresh
  exact ⟨⟨initialized, rowType, seenType, same.trans node⟩, standing⟩

theorem evaluateOn_settled (apart : Apart nested source environment nesting) (here : steady.arises frame)
    (yielded : steady.rows frame = some found) {readiness : Readiness} (settled : steady.Settled readiness world) :
    Ends (Meaning.evaluateOn nested text environment found frame.row) world
      (fun value left => steady.next readiness frame = ⟨rowTypeOf found, true⟩ ∧
        (steady.results found frame.row).map Value.list = some value ∧
        steady.Settled (steady.next readiness frame) left)
      (fun left => (steady.next readiness frame = ⟨rowTypeOf found, true⟩ → steady.results found frame.row = none) ∧
        steady.Settled (steady.next readiness frame) left) := by
  have stepped : steady.next readiness frame =
      if readiness.seen = rowTypeOf found then readiness
      else if steady.prepares (rowTypeOf found) then ⟨rowTypeOf found, true⟩
      else { readiness with ready := false } := by
    rw [next, yielded]
  obtain ⟨seen, ready⟩ := readiness
  by_cases current : seen = rowTypeOf found
  · subst current
    rw [if_pos rfl] at stepped
    rw [stepped]
    obtain ⟨rowType, node⟩ := settled.node
    have refreshed : Meaning.refresh nested environment (rowTypeOf found) world = .ok () world :=
      Meaning.refresh_of_current node rfl (steady.quiet settled.stands) rfl
    rw [Ends, Meaning.evaluateOn, bind_of_ok refreshed]
    cases ready with
    | true =>
      exact (executeOn_ready apart here yielded settled).mono (fun _ _ done => ⟨rfl, done⟩)
        fun _ failed => ⟨fun _ => failed.1, failed.2⟩
    | false =>
      rw [executeOn_unready node]
      exact ⟨fun same => by simp at same, settled⟩
  · rw [if_neg current] at stepped
    obtain ⟨rowType, node⟩ := settled.node
    have refreshed := refresh_readies apart here yielded (steady.begun settled.stands) node
      (.inr fun same => current (Option.some.inj same))
    refine Ends.bind (refreshed.mono (fun _ _ done => done) fun left failed => ?_) fun _ left readied => ?_
    · obtain ⟨unprepared, standing, node⟩ := failed
      rw [stepped, unprepared]
      exact ⟨fun same => by simp at same, ⟨rowType, node⟩, standing, fun ready => by simp at ready⟩
    · rw [stepped, readied.1, if_pos rfl]
      exact (executeOn_ready apart here yielded readied.2).mono (fun _ _ done => ⟨rfl, done⟩)
        fun _ failed => ⟨fun _ => failed.1, failed.2⟩

theorem evaluateOn_fresh (apart : Apart nested source environment nesting) (here : steady.arises frame)
    (yielded : steady.rows frame = some found) (fresh : steady.Fresh world) :
    Ends (Meaning.evaluateOn nested text environment found frame.row) world
      (fun value left => (steady.results found frame.row).map Value.list = some value ∧
        steady.Settled ⟨rowTypeOf found, true⟩ left)
      (fun left => steady.Begun left) := by
  obtain ⟨⟨initialized, rowType, seenType, node⟩, standing⟩ := fresh
  have refreshed := refresh_readies apart here yielded standing node (.inl rfl)
  refine Ends.bind (refreshed.mono (fun _ _ done => done) fun left failed => ?_) fun _ left readied => ?_
  · obtain ⟨_, standing, node⟩ := failed
    exact .inl ⟨⟨false, rowType, seenType, node⟩, standing⟩
  · exact (executeOn_ready apart here yielded readied.2).mono (fun _ _ done => done) fun _ failed => .inr ⟨_, failed.2⟩

end Steady

/-- The world after a meaning has been evaluated on frames in turn, whatever came of it. -/
def Meaning.afterAll (meaning : Meaning) (environment : Environment) (frames : List Frame) (world : World) : World :=
  frames.foldl (fun world frame => (meaning.evaluate environment frame).after world) world

namespace Steady

section Runs

variable {statement : Statement Meaning} {source : Meaning} {environment : Environment} {scope : Scope}
  {nesting : Nesting} {steady : Steady statement.placed.withoutSource source environment scope nesting}
  {world : World} {frame : Frame} {readiness : Readiness}

theorem evaluate_settled (sourced : statement.placed.sourceExpression? = some source) (here : steady.arises frame)
    (settled : steady.Settled readiness world) :
    Ends ((Meaning.subquery statement.placed).evaluate environment frame) world
      (fun value left => ∃ found, steady.rows frame = some found ∧
        steady.next readiness frame = ⟨rowTypeOf found, true⟩ ∧
        (steady.results found frame.row).map Value.list = some value ∧
        steady.Settled (steady.next readiness frame) left)
      (fun left => (∀ found, steady.rows frame = some found →
          steady.next readiness frame = ⟨rowTypeOf found, true⟩ → steady.results found frame.row = none) ∧
        steady.Settled (steady.next readiness frame) left) := by
  have apart := apart_of_placed sourced environment nesting
  rw [Meaning.subquery_evaluate sourced]
  have yields := (apart.source frame).ends (steady.yields here settled.stands)
  refine Ends.bind (yields.mono (fun _ _ done => done) fun left failed => ?_) fun value left yielded => ?_
  · obtain ⟨⟨absent, standing⟩, same⟩ := failed
    have stayed : steady.next readiness frame = readiness := by rw [next, absent]
    rw [stayed]
    exact ⟨fun found present => by simp [absent] at present, settled.kept standing same⟩
  · obtain ⟨⟨yielded, standing⟩, same⟩ := yielded
    refine (evaluateOn_settled apart here yielded (settled.kept standing same)).mono
      (fun value left done => ⟨_, yielded, done⟩) fun left failed => ⟨fun found present => ?_, failed.2⟩
    rw [yielded] at present
    cases present
    exact failed.1

theorem evaluate_fresh (sourced : statement.placed.sourceExpression? = some source) (here : steady.arises frame)
    (fresh : steady.Fresh world) :
    Ends ((Meaning.subquery statement.placed).evaluate environment frame) world
      (fun value left => ∃ found, steady.rows frame = some found ∧
        (steady.results found frame.row).map Value.list = some value ∧
        steady.Settled ⟨rowTypeOf found, true⟩ left)
      (fun left => steady.Begun left) := by
  have apart := apart_of_placed sourced environment nesting
  rw [Meaning.subquery_evaluate sourced]
  have yields := (apart.source frame).ends (steady.yields here fresh.stands)
  refine Ends.bind (yields.mono (fun _ _ done => done) fun left failed => ?_) fun value left yielded => ?_
  · exact .inl (fresh.kept failed.1.2 failed.2)
  · obtain ⟨⟨yielded, standing⟩, same⟩ := yielded
    exact (evaluateOn_fresh apart here yielded (fresh.kept standing same)).mono
      (fun value left done => ⟨_, yielded, done⟩) fun left failed => failed

/-- After frames in turn the readiness is what they have made of it, one after the other. -/
theorem settled_afterAll (sourced : statement.placed.sourceExpression? = some source) {frames : List Frame}
    (arise : ∀ frame ∈ frames, steady.arises frame) (settled : steady.Settled readiness world) :
    steady.Settled (frames.foldl steady.next readiness)
      ((Meaning.subquery statement.placed).afterAll environment frames world) := by
  induction frames generalizing readiness world with
  | nil => exact settled
  | cons frame rest ih =>
    have stepped := evaluate_settled sourced (arise frame (List.mem_cons_self ..)) settled
    refine ih (fun other member => arise other (List.mem_cons_of_mem _ member)) ?_
    exact Ends.after (stepped.mono (fun _ _ ⟨_, _, _, _, settled⟩ => settled) fun _ failed => failed.2)

theorem begun_afterAll (sourced : statement.placed.sourceExpression? = some source) {frames : List Frame}
    (arise : ∀ frame ∈ frames, steady.arises frame) (begun : steady.Begun world) :
    steady.Begun ((Meaning.subquery statement.placed).afterAll environment frames world) := by
  induction frames generalizing world with
  | nil => exact begun
  | cons frame rest ih =>
    have here := arise frame (List.mem_cons_self ..)
    refine ih (fun other member => arise other (List.mem_cons_of_mem _ member)) ?_
    rcases begun with fresh | ⟨readiness, settled⟩
    · exact Ends.after ((evaluate_fresh sourced here fresh).mono (fun _ _ ⟨_, _, _, settled⟩ => .inr ⟨_, settled⟩)
        fun _ failed => failed)
    · have single : ∀ other ∈ [frame], steady.arises other := by simpa using here
      exact .inr ⟨_, settled_afterAll sourced single settled⟩

/-- Only where the type seen last is that of the rows can a nested statement that was ready for them before have
become unready. -/
theorem next_ready_iff {found : List Value} (yielded : steady.rows frame = some found)
    (prepares : steady.prepares (rowTypeOf found) = true) :
    steady.next readiness frame = ⟨rowTypeOf found, true⟩ ↔ readiness ≠ ⟨rowTypeOf found, false⟩ := by
  obtain ⟨seen, ready⟩ := readiness
  rw [next, yielded]
  by_cases current : seen = rowTypeOf found
  · subst current
    cases ready <;> simp
  · simp [current, prepares]

/-- Where the rows have results, evaluation gives them exactly if it finds or makes the nested statement ready. -/
theorem evaluates_iff (sourced : statement.placed.sourceExpression? = some source) (here : steady.arises frame)
    {found : List Value} (yielded : steady.rows frame = some found) {value : Value}
    (results : (steady.results found frame.row).map Value.list = some value)
    (settled : steady.Settled readiness world) :
    (∃ last, (Meaning.subquery statement.placed).evaluate environment frame world = .ok value last) ↔
      steady.next readiness frame = ⟨rowTypeOf found, true⟩ := by
  have ends := evaluate_settled sourced here settled
  rw [Ends] at ends
  constructor
  · rintro ⟨last, ran⟩
    rw [ran] at ends
    obtain ⟨found', yielded', next, -⟩ := ends
    cases yielded.symm.trans yielded'
    exact next
  · intro next
    split at ends
    · rename_i value' last ran
      obtain ⟨found', yielded', -, results', -⟩ := ends
      cases yielded.symm.trans yielded'
      cases results.symm.trans results'
      exact ⟨last, ran⟩
    · have failed := ends.1 found yielded next
      simp [failed] at results

/-- A success tells the results, and leaves the nested statement ready for the rows. -/
theorem settled_of_success (sourced : statement.placed.sourceExpression? = some source) (here : steady.arises frame)
    {found : List Value} (yielded : steady.rows frame = some found) (begun : steady.Begun world) {value : Value}
    {left : World} (success : (Meaning.subquery statement.placed).evaluate environment frame world = .ok value left) :
    (steady.results found frame.row).map Value.list = some value ∧ steady.Settled ⟨rowTypeOf found, true⟩ left := by
  rcases begun with fresh | ⟨readiness, settled⟩
  · have ends := evaluate_fresh sourced here fresh
    rw [Ends, success] at ends
    obtain ⟨found', yielded', done⟩ := ends
    cases yielded.symm.trans yielded'
    exact done
  · have ends := evaluate_settled sourced here settled
    rw [Ends, success] at ends
    obtain ⟨found', yielded', next, results, settled⟩ := ends
    cases yielded.symm.trans yielded'
    rw [next] at settled
    exact ⟨results, settled⟩

end Runs

end Steady

/-- Once a sub-query has been evaluated on rows, evaluating it again on the same rows gives the same, exactly unless
what came in between has left it with the type of these rows seen last and the nested statement not ready. -/
theorem subquery_evaluates_again_iff {statement : Statement Expr} {source : Meaning} {environment : Environment}
    {scope : Scope} {nesting : Nesting}
    (sourced : (statementMeaning statement).placed.sourceExpression? = some source)
    (steady : Steady (statementMeaning statement).placed.withoutSource source environment scope nesting)
    {earlier between : List Frame} {frame again : Frame}
    (arise : ∀ used ∈ earlier ++ frame :: again :: between, steady.arises used) {world left : World}
    (fresh : steady.Fresh world) {found : List Value} (yielded : steady.rows frame = some found) {value : Value}
    (success : (Expr.subquery statement).meaning.evaluate environment frame
      ((Expr.subquery statement).meaning.afterAll environment earlier world) = .ok value left)
    (sameRows : steady.rows again = some found) (sameRow : again.row = frame.row) :
    (∃ last, (Expr.subquery statement).meaning.evaluate environment again
      ((Expr.subquery statement).meaning.afterAll environment between left) = .ok value last) ↔
        between.foldl steady.next ⟨rowTypeOf found, true⟩ ≠ ⟨rowTypeOf found, false⟩ := by
  have meant : (Expr.subquery statement).meaning = Meaning.subquery (statementMeaning statement).placed := rfl
  rw [meant] at success ⊢
  simp only [List.mem_append, List.mem_cons] at arise
  have begun : steady.Begun _ :=
    Steady.begun_afterAll sourced (fun used member => arise used (.inl member)) (.inl fresh)
  obtain ⟨results, settled⟩ := Steady.settled_of_success sourced (arise frame (.inr (.inl rfl))) yielded begun success
  have prepares := settled.prepared rfl
  have later := Steady.settled_afterAll sourced (fun used member => arise used (.inr (.inr (.inr member)))) settled
  rw [← sameRow] at results
  rw [Steady.evaluates_iff sourced (arise again (.inr (.inr (.inl rfl)))) sameRows results later]
  exact Steady.next_ready_iff sameRows prepares

/-- Reads the member `x` of each row that the row around stands for. -/
def xOfEach : Statement Expr :=
  { Statement.all with
    select := some [⟨.member ⟨"x", [.name "x"]⟩, none, false⟩]
    source := .expression (.bind (some "_currobj") none) }

namespace XOfEach

def nested : Statement Meaning := (statementMeaning xOfEach).placed.withoutSource

def source : Meaning := (Meaning.bind (some "_currobj") none).down .source

def environment : Environment := ⟨.empty, .default⟩

/-- The statement around has the first store, the nested statement works on it. -/
def scope : Scope := ⟨1, some 0⟩

def nesting : Nesting := ⟨true, none, true, 0, [1]⟩

/-- The stores, with the subscription to what the source reads. -/
def heap : Heap :=
  ⟨[{ VariableStore.empty with subscriptions := [⟨1, .bind, .watch ["_currobj"]⟩], lastSubscription := 1 }, .empty],
    .empty⟩

/-- What the path is resolved to for rows of a type that it can be resolved for. -/
def path (type : DataType) : Accessor :=
  ⟨⟨"x", [.name "x"]⟩, type, .any, [if type = .map then .entry "x" else .deferred "x"]⟩

/-- The state of the node, and of the column below it. -/
def worldWith (state : NodeState) (resolved : Option Accessor) : World :=
  let column : NodeState := match resolved with
    | none => .fresh
    | some accessor => .operand none (some accessor)
  { World.start with
    heap
    memory := .node state [(.column 0, .node column []), (.source, .node (.operand none none) [])] }

/-- The sub-query has not been evaluated yet. -/
def ready : World := worldWith (.statement ⟨scope, false, .any⟩ nesting) none

def frameOn (rows : List Value) : Frame := ⟨some (.list rows), [], none, none, ⟨0, none⟩, ""⟩

def aMap : Value := .map [(.string "x", .string "a")]

/-- What holds of the sub-query on a map, on a number, and on nothing. -/
def steady : Steady nested source environment scope nesting where
  arises frame := ∃ rows ∈ [[aMap], [.int32 1], []], frame = frameOn rows
  rows frame := some (sourceRows (frame.row.getD .null))
  prepares type := type != .int32
  results rows _ := some (rows.map fun _ => .list [.string "a"])
  stands known world := ∃ state resolved, world = worldWith state resolved ∧
    ∀ type ∈ known, type ≠ .int32 ∧ resolved = some (path type)
  begun := by
    rintro known world ⟨state, resolved, rfl, -⟩
    exact ⟨state, resolved, rfl, by simp⟩
  aside := by
    rintro known world state ⟨_, resolved, rfl, stood⟩
    exact ⟨state, resolved, rfl, stood⟩
  quiet := by
    rintro known world ⟨state, resolved, rfl, -⟩
    rfl
  yields := by
    rintro frame known world ⟨rows, -, rfl⟩ ⟨state, resolved, rfl, stood⟩
    exact ⟨rfl, state, resolved, rfl, stood⟩
  becomes := by
    rintro frame found world ⟨rows, member, rfl⟩ yielded ⟨state, resolved, rfl, -⟩
    cases yielded
    have resolves (type : DataType) (other : type ≠ .int32) :
        ∀ known ∈ some type, known ≠ .int32 ∧ some (path type) = some (path known) := by
      rintro known ⟨⟩
      exact ⟨other, rfl⟩
    simp only [List.mem_cons, List.not_mem_nil, or_false] at member
    rcases member with rfl | rfl | rfl
    · cases resolved <;> exact ⟨rfl, state, some (path .map), rfl, resolves .map (by decide)⟩
    · cases resolved with
      | none => exact ⟨rfl, state, none, rfl, by simp⟩
      | some accessor => exact ⟨rfl, state, some accessor, rfl, by simp⟩
    · cases resolved <;> exact ⟨rfl, state, some (path .any), rfl, resolves .any (by decide)⟩
  answers := by
    rintro frame found world ⟨rows, member, rfl⟩ yielded ⟨state, resolved, rfl, stood⟩
    cases yielded
    obtain ⟨other, rfl⟩ := stood _ rfl
    simp only [List.mem_cons, List.not_mem_nil, or_false] at member
    rcases member with rfl | rfl | rfl
    · exact ⟨rfl, state, _, rfl, stood⟩
    · exact absurd rfl other
    · exact ⟨rfl, state, _, rfl, stood⟩

end XOfEach

/-- A number in between is forgotten when nothing at all comes after it. -/
theorem subquery_evaluates_again_iff_on_maps :
    ∃ left, (Expr.subquery xOfEach).meaning.evaluate XOfEach.environment (XOfEach.frameOn [XOfEach.aMap])
        ((Expr.subquery xOfEach).meaning.afterAll XOfEach.environment [XOfEach.frameOn [.int32 1]] XOfEach.ready) =
          .ok (.list [.list [.string "a"]]) left ∧
      ∃ last, (Expr.subquery xOfEach).meaning.evaluate XOfEach.environment (XOfEach.frameOn [XOfEach.aMap])
        ((Expr.subquery xOfEach).meaning.afterAll XOfEach.environment
          [XOfEach.frameOn [.int32 1], XOfEach.frameOn []] left) = .ok (.list [.list [.string "a"]]) last := by
  have arise : ∀ used ∈ [XOfEach.frameOn [.int32 1]] ++ XOfEach.frameOn [XOfEach.aMap] ::
      XOfEach.frameOn [XOfEach.aMap] :: [XOfEach.frameOn [.int32 1], XOfEach.frameOn []],
      XOfEach.steady.arises used := by
    intro used member
    simp only [List.cons_append, List.nil_append, List.mem_cons, List.not_mem_nil, or_false] at member
    rcases member with rfl | rfl | rfl | rfl | rfl <;> exact ⟨_, by simp, rfl⟩
  have fresh : XOfEach.steady.Fresh XOfEach.ready :=
    ⟨⟨false, .any, none, rfl⟩, .statement ⟨XOfEach.scope, false, .any⟩ XOfEach.nesting, none, rfl, by simp⟩
  have sourced : (statementMeaning xOfEach).placed.sourceExpression? = some XOfEach.source := rfl
  obtain ⟨left, success⟩ : ∃ left, (Expr.subquery xOfEach).meaning.evaluate XOfEach.environment
      (XOfEach.frameOn [XOfEach.aMap]) ((Expr.subquery xOfEach).meaning.afterAll XOfEach.environment
        [XOfEach.frameOn [.int32 1]] XOfEach.ready) = .ok (.list [.list [.string "a"]]) left := ⟨_, rfl⟩
  have again := subquery_evaluates_again_iff sourced XOfEach.steady arise fresh rfl success rfl rfl
  exact ⟨left, success, again.mpr (by decide)⟩

/-- On a map the member is found; then a number fails, and then the same map. -/
theorem subquery_fails_again_on_map :
    ∃ first second error,
      (Expr.subquery xOfEach).meaning.evaluate XOfEach.environment (XOfEach.frameOn [XOfEach.aMap]) XOfEach.ready =
        .ok (.list [.list [.string "a"]]) first ∧
      (Expr.subquery xOfEach).meaning.evaluate XOfEach.environment (XOfEach.frameOn [.int32 1]) first =
        .error (.within "sub-query (SELECT ...)" error) second ∧
      (Expr.subquery xOfEach).meaning.evaluate XOfEach.environment (XOfEach.frameOn [XOfEach.aMap]) second =
        .error (.within "sub-query (SELECT x FROM :_currobj)" (.invalidStatement .notInitialized)) second :=
  ⟨_, _, _, rfl, rfl, rfl⟩

end RecordQuery
