import RecordQuery.Proofs.Statement.Within
/-! A whole query next to one within it. Made ready from the same start and given variables of the same values, what the
one within it does does not depend on which of the two has been made ready. -/

namespace RecordQuery

open EvalM

/-- The variables with others set, one after the other. -/
def NameTable.setAll (binds : NameTable Value) (others : List (String × Value)) : NameTable Value :=
  others.foldl (fun binds (name, value) => binds.insert (normalizeName name) value) binds

/-- A query is ready there, and works on the variables of this scope. -/
def World.IsReadyIn (scope : Scope) (world : World) : Prop :=
  ∃ rowType nesting, world.memory.state = .statement ⟨scope, true, rowType⟩ nesting

/-- The scope of the query whose memory this is. -/
def World.scope (world : World) : Scope :=
  match world.memory.state with
  | .statement state _ => state.scope
  | _ => default

/-- The variables of a kind that the query sees. -/
def World.table (world : World) (kind : VariableKind) : NameTable Value := (world.heap.rootStore world.scope).table kind

theorem World.IsReadyIn.scope_eq {scope : Scope} {world : World} (ready : world.IsReadyIn scope) :
    world.scope = scope := by
  obtain ⟨_, _, node⟩ := ready
  rw [World.scope, node]

theorem World.IsReadyIn.table_eq {scope : Scope} {world : World} (ready : world.IsReadyIn scope) (kind : VariableKind) :
    world.table kind = (world.heap.rootStore scope).table kind := by
  rw [World.table, ready.scope_eq]

/-- A query some time after it has been made ready: its expressions have been evaluated any number of times, and
variables may have been set. -/
structure Query.Since (statement : Statement Expr) (ready world : World) : Prop where
  stores : ready.Extends world
  node : world.memory.state = ready.memory.state
  parts : (statementMeaning statement).Since (Query.ofStatement statement).environment ready.memory world.memory

/-- The variables of a query have the values that those at the same places of a whole one have, and all save values are
the same. -/
structure Query.SameVariables (statement whole : Statement Expr) (world wholeWorld : World) : Prop where
  binds : statement.SameBinds whole (world.table .bind) (wholeWorld.table .bind)
  saves : world.table .save = wholeWorld.table .save

namespace Query

variable {statement : Statement Expr} {scope : Scope} {ready world : World}

theorem execute_of_ready {query : Query} (ready : world.IsReadyIn scope) (rows : List Value) :
    query.execute rows world =
      query.statement.execute query.environment (query.statement.frame scope rows none) world := by
  obtain ⟨rowType, nesting, opened⟩ := ready
  rw [execute, Statement.executeReady, bind_of_ok (Statement.opened_of_node opened)]
  rfl

theorem state_of_ready {query : Query} {rowType : DataType} {nesting : Nesting}
    (opened : world.memory.state = .statement ⟨scope, true, rowType⟩ nesting) :
    query.state world = .ok ⟨scope, true, rowType⟩ world :=
  bind_of_ok (Statement.opened_of_node opened)

theorem Since.isReady (since : Query.Since statement ready world) (isReady : ready.IsReadyIn scope) :
    world.IsReadyIn scope := by
  obtain ⟨rowType, nesting, node⟩ := isReady
  exact ⟨rowType, nesting, since.node.trans node⟩

theorem Since.holds (since : Query.Since statement ready world) (isReady : ready.IsReadyIn scope)
    (present : ready.heap.root scope < ready.heap.stores.length) :
    world.Holds scope (world.table .bind) (world.table .save)
      ((statementMeaning statement).Since (Query.ofStatement statement).environment ready.memory) := by
  have table := (since.isReady isReady).table_eq
  exact ⟨⟨since.stores.present present, (table .bind).symm⟩, (table .save).symm, since.parts⟩

theorem since_refl (statement : Statement Expr) (ready : World) : Query.Since statement ready ready :=
  ⟨refl ready, rfl, fun _ _ => .same⟩

theorem setVariable_of_ready {query : Query} (ready : world.IsReadyIn scope) (name : String) (value : Value) :
    query.setVariable name value world = .ok () { world with heap := world.heap.set scope .bind name value } := by
  obtain ⟨rowType, nesting, node⟩ := ready
  rw [setVariable, bind_of_ok (state_of_ready node)]
  rfl

/-- Sets variables one after the other. -/
def setVariables (query : Query) (others : List (String × Value)) : EvalM Unit :=
  others.forM fun (name, value) => query.setVariable name value

/-- Variables can be set in between. -/
theorem Since.setVariables (since : Query.Since statement ready world) (isReady : ready.IsReadyIn scope)
    (present : ready.heap.root scope < ready.heap.stores.length) (others : List (String × Value)) :
    let after := ((Query.ofStatement statement).setVariables others).after world
    Query.Since statement ready after ∧ after.table .bind = (world.table .bind).setAll others ∧
      after.table .save = world.table .save := by
  induction others generalizing world with
  | nil => exact ⟨since, rfl, rfl⟩
  | cons other rest ih =>
    obtain ⟨name, value⟩ := other
    let set : World := { world with heap := world.heap.set scope .bind name value }
    have readySet : set.IsReadyIn scope := since.isReady isReady
    have ran : (Query.ofStatement statement).setVariable name value world = .ok () set :=
      setVariable_of_ready (since.isReady isReady) name value
    have step : ((Query.ofStatement statement).setVariables ((name, value) :: rest)).after world =
        ((Query.ofStatement statement).setVariables rest).after set := by
      have whole : (Query.ofStatement statement).setVariables ((name, value) :: rest) world =
          (Query.ofStatement statement).setVariables rest set := bind_of_ok ran
      rw [EvalM.after, whole]
      rfl
    have table (kind : VariableKind) : set.table kind =
        if kind = .bind then (world.table .bind).insert (normalizeName name) value else world.table kind := by
      have put := Heap.table_set (since.stores.present present) .bind kind name value
      rwa [← (since.isReady isReady).table_eq kind, ← (since.isReady isReady).table_eq .bind,
        ← readySet.table_eq kind] at put
    have later : Query.Since statement ready set :=
      ⟨IsTrans.trans (r := World.Extends) _ _ _ since.stores (world.heap.extends_set scope .bind name value), since.node,
        since.parts⟩
    obtain ⟨ends, binds, saves⟩ := ih later
    rw [step]
    refine ⟨ends, binds.trans ?_, saves.trans (table .save)⟩
    rw [table .bind]
    rfl

end Query

namespace Statement

variable {statement whole : Statement Expr}

/-- The bind variables that a statement brings along. -/
def brought (statement : Statement Expr) : NameTable Value := NameTable.empty.setAll statement.variables

/-- A statement is opened with the variables that it brings along. -/
theorem binds_opened (statement : Statement Expr) (heap : Heap) :
    (statement.newScope heap).2.Binds (statement.newScope heap).1 statement.brought := by
  have step (presets : List (String × Value)) {heap : Heap} {scope : Scope} {binds : NameTable Value}
      (bound : heap.Binds scope binds) : (presets.foldl (fun heap (name, value) => heap.set scope .bind name value)
        heap).Binds scope (binds.setAll presets) := by
    induction presets generalizing heap binds with
    | nil => exact bound
    | cons preset rest ih =>
      refine ih ⟨(heap.extends_set scope .bind preset.1 preset.2).present bound.present, ?_⟩
      have put := Heap.table_set bound.present .bind .bind preset.1 preset.2
      rw [if_pos rfl] at put
      exact put.trans (congrArg (·.insert (normalizeName preset.1) preset.2) bound.binds)
  have fresh : heap.newScope.2.Binds heap.newScope.1 .empty :=
    ⟨by simp [Heap.newScope, Heap.root],
      by simp [Heap.newScope, Heap.root, Heap.rootStore, Heap.store, VariableStore.empty]⟩
  exact step statement.variables fresh

/-- A query that nothing is remembered of is made ready with its variables numbered from one on, by preparing its
clauses. -/
theorem prepare_of_fresh (statement : Statement Expr) {start : World} (unused : start.memory = .empty) {type : DataType}
    (rows : statement.source = .rows type) :
    let scope := (statement.newScope start.heap).1
    ∃ numbered : World, numbered.heap.Binds scope statement.brought ∧
      numbered.saves scope = ((statement.newScope start.heap).2.rootStore scope).saves ∧
      statement.Numbered numbered.memory ∧
      (Query.ofStatement statement).prepare start = (do
        (statementMeaning statement).placed.resolve ⟨type, (Query.ofStatement statement).environment, scope⟩
        setNode (.statement ⟨scope, true, type⟩ freshNesting)) numbered := by
  intro scope
  let begun : World :=
    { start with
      heap := (statement.newScope start.heap).2
      memory := start.memory.withState (.statement ⟨scope, false, .any⟩ freshNesting) }
  have opened : (statementMeaning statement).placed.opened start = .ok (⟨scope, false, .any⟩, freshNesting) begun := by
    rw [statementMeaning_eq_map, Statement.opened, node_bind, unused]
    rfl
  have fresh (branch : Branch) : begun.memory.child branch = .empty := by
    change start.memory.child branch = .empty
    rw [unused]
    rfl
  have bound : begun.heap.Binds scope statement.brought := statement.binds_opened start.heap
  have uncounted : begun.heap.numbered scope = 0 := by
    have counted := (Heap.numbered_opened (statementMeaning statement).placed start.heap).2
    rwa [statementMeaning_eq_map] at counted
  obtain ⟨numbered, ran, tables, only⟩ := statement.number_of_fresh bound.present uncounted fresh
  have kept (kind : VariableKind) :
      (numbered.heap.rootStore scope).table kind = (begun.heap.rootStore scope).table kind := by
    rw [Heap.rootStore, tables.root, tables.same]
    rfl
  refine ⟨numbered, ⟨tables.present bound.present, (kept .bind).trans bound.binds⟩, kept .save, only, ?_⟩
  have asked : discard (Query.ofStatement statement).state start = .ok () begun := bind_of_ok (bind_of_ok opened)
  have source : (Query.ofStatement statement).statement.source = .rows type := by
    rw [Query.source_ofStatement, rows]
    rfl
  rw [Query.prepare, bind_of_ok asked, source]
  dsimp only
  rw [makeReady, bind_of_ok (opened_of_node rfl)]
  dsimp only
  rw [bind_of_ok (rfl : setNode _ begun = .ok () begun), prepare_eq, bind_assoc]
  exact bind_of_ok ran

/-- A whole query and one within it that have been made ready from the same start, and remember the same of what they
share. -/
structure ReadyBeside (statement whole : Statement Expr) (unread : List String) (scope : Scope) (ready ready' : World) :
    Prop where
  within : statement.Within whole
  isReady : ready.IsReadyIn scope
  node : ready'.memory.state = ready.memory.state
  binds : ready.heap.Binds scope whole.brought
  binds' : ready'.heap.Binds scope statement.brought
  saves : ready'.saves scope = ready.saves scope
  shows : ∀ part ∈ statement.clauses,
    (statement.mirror whole scope).Shows part.2 (ready.memory.child part.1) (ready'.memory.child part.1)
  settled : whole.QuietOver unread ready.memory
  settled' : statement.QuietOver unread ready'.memory

theorem ReadyBeside.isReady' {unread : List String} {scope : Scope} {ready ready' : World}
    (beside : ReadyBeside statement whole unread scope ready ready') : ready'.IsReadyIn scope := by
  obtain ⟨rowType, nesting, node⟩ := beside.isReady
  exact ⟨rowType, nesting, beside.node.trans node⟩

/-- In both, variables can be set before they are used. -/
theorem ReadyBeside.setVariables {unread : List String} {scope : Scope} {ready ready' : World}
    (beside : ReadyBeside statement whole unread scope ready ready') {others others' : List (String × Value)}
    (same : statement.SameBinds whole (statement.brought.setAll others') (whole.brought.setAll others)) :
    let world := ((Query.ofStatement whole).setVariables others).after ready
    let world' := ((Query.ofStatement statement).setVariables others').after ready'
    Query.Since whole ready world ∧ Query.Since statement ready' world' ∧
      Query.SameVariables statement whole world' world := by
  intro world world'
  obtain ⟨since, binds, saves⟩ := (Query.since_refl whole ready).setVariables beside.isReady beside.binds.present others
  obtain ⟨since', binds', saves'⟩ := (Query.since_refl statement ready').setVariables beside.isReady'
    beside.binds'.present others'
  have bound : ready.table .bind = whole.brought := (beside.isReady.table_eq .bind).trans beside.binds.binds
  have bound' : ready'.table .bind = statement.brought := (beside.isReady'.table_eq .bind).trans beside.binds'.binds
  have saved : ready'.table .save = ready.table .save :=
    (beside.isReady'.table_eq .save).trans (beside.saves.trans (beside.isReady.table_eq .save).symm)
  rw [bound] at binds
  rw [bound'] at binds'
  exact ⟨since, since', by rw [binds, binds']; exact same, saves'.trans (saved.trans saves.symm)⟩

/-- A quiet statement is settled when it has been made ready. -/
theorem IsQuiet.settled {unread : List String} (quiet : statement.IsQuiet unread) {start ready : World}
    (prepared : (Query.ofStatement statement).prepare start = .ok () ready)
    (reads : ∀ part ∈ statement.clauses, ∀ name,
      (.bind, name) ∈ part.2.meaning.variables (ready.memory.child part.1) → name ∉ unread) :
    statement.QuietOver unread ready.memory := by
  obtain ⟨type, rows⟩ := Query.rows_of_prepare prepared
  refine ⟨?_, quiet, prepared_of_ready prepared, reads⟩
  rw [statementMeaning_eq_map, sourceExpression?, map, rows]
  rfl

/-- Where a whole query has been made ready, one within it can be made ready too. -/
theorem Within.prepare (within : statement.Within whole) {unread : List String} (reserved : unread ⊆ reservedNames)
    (quiet : whole.IsQuiet unread) (same : statement.SameBinds whole statement.brought whole.brought) {start ready : World}
    (unused : start.memory = .empty) (prepared : (Query.ofStatement whole).prepare start = .ok () ready) :
    ∃ scope ready', (Query.ofStatement statement).prepare start = .ok () ready' ∧
      ReadyBeside statement whole unread scope ready ready' := by
  have bare : ∀ part ∈ whole.clauses, part.2.Throughout fun part => part.isBare = true := fun part member =>
    (quiet part.2 (whole.expressions_clauses ▸ List.mem_map_of_mem member)).mono Expr.isBare_of_quiet
  obtain ⟨type, rows⟩ := Query.rows_of_prepare prepared
  have source : statement.source = .rows type := (within.congr Statement.source fun _ => rfl).trans rows
  have brought : statement.brought = whole.brought := within.congr brought fun _ => rfl
  have opened : statement.newScope start.heap = whole.newScope start.heap :=
    within.congr (·.newScope start.heap) fun _ => rfl
  let scope := (whole.newScope start.heap).1
  obtain ⟨world, binds, saves, numbered, ran⟩ := whole.prepare_of_fresh unused rows
  obtain ⟨world', binds', saves', numbered', ran'⟩ := statement.prepare_of_fresh unused source
  rw [brought] at same binds'
  rw [opened] at binds' saves' ran'
  rw [within.environment] at ran'
  -- With their variables numbered, both go on from the same.
  have begins : Beside same scope (world.saves scope) world world' := by
    refine ⟨⟨⟨binds, rfl, trivial⟩, ⟨binds', saves'.trans saves.symm, trivial⟩, trivial, fun part member => ?_⟩,
      ⟨⟨binds, rfl, trivial⟩, ⟨binds, rfl, trivial⟩, trivial, fun part member => ?_⟩⟩
    · exact numbered.shows (fun _ _ => within.contains) numbered' (.clause member)
    · exact numbered.shows (fun _ _ => id) numbered (.clause member)
  obtain ⟨_, resolved, began, last⟩ := ok_of_bind (ran.symm.trans prepared)
  obtain ⟨_, resolved', began', ends, -⟩ := resolve_carries within bare rfl rfl begins began
  cases last
  have prepared' : (Query.ofStatement statement).prepare start = .ok ()
      { resolved' with memory := resolved'.memory.withState (.statement ⟨scope, true, type⟩ freshNesting) } :=
    ran'.trans (bind_of_ok began')
  have quiet' := within.quiet quiet
  refine ⟨scope, _, prepared', ⟨within, ⟨type, _, rfl⟩, rfl, ends.both.holds.binds, brought ▸ ends.both.holds'.binds,
    ends.both.holds'.saves.trans ends.both.holds.saves.symm, ends.both.parts, quiet.settled prepared fun part member => ?_,
    quiet'.settled prepared' fun part member => ?_⟩⟩
  · exact (ends.own.parts part member).unread reserved
      (quiet part.2 (whole.expressions_clauses ▸ List.mem_map_of_mem member)) (.inl rfl)
  · exact (ends.both.parts part member).unread reserved
      (quiet' part.2 (statement.expressions_clauses ▸ List.mem_map_of_mem member)) (.inr rfl)

/-- Expressions that stand in both are evaluated alike, where each of the queries has been made ready. -/
theorem evaluate_agree {unread : List String} {scope : Scope} (quiet : statement.IsQuiet unread)
    (within : statement.Within whole) (tables : (statement.mirror whole scope).Tables) :
    (statementMeaning statement).placed.Every (Meaning.ConductsIn
      (.agrees (Mirror.Worlds tables Eq statement.clauses) (· = scope)) (Query.ofStatement statement).environment) := by
  rw [Every, expressions_placed_meaning, within.environment]
  intro _ member
  obtain ⟨_, found, rfl⟩ := List.mem_map.mp member
  obtain ⟨part, inside, rfl⟩ := List.mem_map.mp found
  have own : part.2.Throughout fun part =>
      part.isQuiet (statement.mirror whole scope).environment.functions.own unread = true := by
    have handlers := within.congr Statement.handlers fun _ => rfl
    rw [mirror, Query.environment_ofStatement, ← handlers]
    exact quiet part.2 (statement.expressions_clauses ▸ List.mem_map_of_mem inside)
  have standard : (statement.mirror whole scope).environment.functions.standard = FunctionRegistry.default.standard := by
    rw [mirror, Query.environment_ofStatement]
  exact fun frame about =>
    Mirror.agrees_on statement.clauses_apart inside (Mirror.evaluate_agrees standard own frame about)

/-- What a query within a whole one does where the whole one has been made ready it does as well where it has been made
ready itself, with variables of the same values. -/
theorem ReadyBeside.execute {unread : List String} {scope : Scope} {ready ready' world world' left : World}
    {rows : List Value} {results : Results} (beside : ReadyBeside statement whole unread scope ready ready')
    (text : textNames ⊆ unread) (ungrouped : statement.groupBy = []) (since : Query.Since whole ready world)
    (since' : Query.Since statement ready' world') (same : Query.SameVariables statement whole world' world)
    (ran : (statementMeaning statement).placed.execute (Query.ofStatement statement).environment
      ((statementMeaning statement).placed.frame scope rows none) { world with memory := ready.memory } =
        .ok results left) :
    ∃ results' left', (Query.ofStatement statement).execute rows world' = .ok results' left' ∧
      results'.rows = results.rows ∧ results'.filtered = results.filtered ∧ results'.having = results.having := by
  have isReady' := beside.isReady'
  have holds := since.holds beside.isReady beside.binds.present
  have holds' := since'.holds isReady' beside.binds'.present
  let tables := same.binds.tables scope (world.table .save)
  have alike : Mirror.Worlds tables Eq statement.clauses { world with memory := ready.memory }
      { world' with memory := ready'.memory } :=
    ⟨⟨holds.binds, holds.saves, trivial⟩, ⟨holds'.binds, holds'.saves.trans same.saves, trivial⟩, beside.node.symm,
      beside.shows⟩
  have carried : (Conduct.agrees (Mirror.Worlds tables Eq statement.clauses) (· = scope)).CarriesOver _
      ((statementMeaning statement).placed.frame scope rows none) _ :=
    Conduct.agrees_carriesOver rfl fun _ _ alike _ _ =>
      ⟨⟨alike.holds.binds, alike.holds.saves, trivial⟩, ⟨alike.holds'.binds, alike.holds'.saves, trivial⟩, alike.node,
        alike.parts⟩
  have ungrouped' := placed_groupBy_nil ungrouped
  obtain ⟨middle, _, ran', -, rows', filtered, having⟩ := execute_carries
    (evaluate_agree beside.settled'.quiet beside.within tables) carried ungrouped' alike ran
  -- What has been evaluated since the query was made ready does not matter.
  obtain ⟨below, now, parts⟩ := beside.settled'.unvarying .text (fun _ _ => rfl)
    (fun name other => bindValue_text fun listed => other (text listed)) scope (world'.table .bind) (world'.table .save)
  let frame := (statementMeaning statement).placed.frame scope rows none
  have carried : (Conduct.unvarying .text scope (world'.table .bind) (world'.table .save)
      (Memory.Within (fun _ => True) below)).CarriesOver _ frame _ :=
    Conduct.unvarying_carriesOver (fun _ _ => rfl) (rfl : frame.scope = scope) frame.statementText
  have fresh : World.Holds scope (world'.table .bind) (world'.table .save) (Memory.Within (fun _ => True) below)
      { world' with memory := ready'.memory } := ⟨holds'.binds, holds'.saves, now _ fun _ _ => .same⟩
  obtain ⟨results', left', ran'', -, rows'', filtered', having'⟩ :=
    execute_carries parts carried ungrouped' ⟨fresh, holds'.mono now⟩ ran'
  refine ⟨results', left', ?_, (rows'.trans rows'').symm, (filtered.trans filtered').symm, (having.trans having').symm⟩
  rw [Query.execute_of_ready (since'.isReady isReady')]
  exact ran''

end Statement

end RecordQuery
