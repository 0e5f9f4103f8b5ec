import RecordQuery.Proofs.Evaluation.Unvarying
import RecordQuery.Proofs.Meaning.Agreement
import RecordQuery.Proofs.Meaning.Numbering
import RecordQuery.Proofs.Meaning.Quiet
/-! One expression in two worlds that remember the same of it, up to the names that its variables without one have been
given. As long as names that stand for each other have the same value, it is prepared and evaluated alike. -/

namespace RecordQuery

open EvalM

/-- The value of a bind variable, null if it is not set. -/
def NameTable.bound (binds : NameTable Value) (name : String) : Value := (binds.get? (normalizeName name)).getD .null

/-- The function is one that a call of the name with so many arguments can be resolved to. -/
def Resolution.IsFor (resolution : Resolution) (functions : FunctionRegistry) (name : String) (arity : Nat) : Prop :=
  ∃ types : List DataType, types.length = arity ∧ functions.resolve name types = some resolution

/-- What two worlds share in which one expression is evaluated: the functions, and the scope, in which names of the one
can stand for other names of the other. -/
structure Mirror where
  environment : Environment
  scope : Scope
  pairs : String → String → Prop

namespace Mirror

variable (mirror : Mirror)

/-- Two nodes of a bind variable: its names stand for each other. If it is written without one, both are numbers. -/
structure Bind (name : Option String) (state state' : NodeState) : Prop where
  plain : state.accessor? = none ∧ state'.accessor? = none
  paired : mirror.pairs (Meaning.storedName name state) (Meaning.storedName name state')
  numbered (unnamed : name = none) : ∃ number number',
    state.name? = some (anonymousName number) ∧ state'.name? = some (anonymousName number')

/-- Two nodes of an expression remember the same, up to the name of a variable. -/
def Node : Expr → NodeState → NodeState → Prop
  | .bind name _, state, state' => mirror.Bind (name.map normalizeName) state state'
  | .call name arguments, state, state' =>
    state = state' ∧ ∀ resolution, state.resolution? = some resolution →
      resolution.IsFor mirror.environment.functions name arguments.length
  | _, state, state' => state = state'

/-- The same is remembered of an expression, up to the names of variables. -/
inductive Shows : Expr → Memory → Memory → Prop where
  | whole {expression : Expr} {memory memory' : Memory} (node : mirror.Node expression memory.state memory'.state)
    (parts : ∀ part ∈ expression.parts, Shows part.2 (memory.child part.1) (memory'.child part.1)) :
    Shows expression memory memory'

/-- The variables of the two worlds: the save values are the same, and so are the values of names that stand for each
other. -/
structure Tables where
  binds : NameTable Value
  binds' : NameTable Value
  saves : NameTable Value
  values {name name' : String} (paired : mirror.pairs name name') : binds.bound name = binds'.bound name'

variable {mirror}

/-- Two worlds with these variables, in which the same is remembered of these parts. -/
structure Worlds (tables : mirror.Tables) (node : NodeState → NodeState → Prop) (parts : List (Branch × Expr))
    (world world' : World) : Prop where
  holds : world.Holds mirror.scope tables.binds tables.saves fun _ => True
  holds' : world'.Holds mirror.scope tables.binds' tables.saves fun _ => True
  node : node world.memory.state world'.memory.state
  parts : ∀ part ∈ parts, mirror.Shows part.2 (world.memory.child part.1) (world'.memory.child part.1)

/-- Two worlds with these variables, in which the same is remembered of an expression. -/
abbrev About (tables : mirror.Tables) (expression : Expr) : World → World → Prop :=
  Worlds tables (mirror.Node expression) expression.parts

variable {tables : mirror.Tables} {expression : Expr} {node : NodeState → NodeState → Prop}
  {parts : List (Branch × Expr)} {world world' : World}

theorem Worlds.shows (alike : About tables expression world world') :
    mirror.Shows expression world.memory world'.memory := .whole alike.node alike.parts

theorem Worlds.down (alike : Worlds tables node parts world world') {part : Branch × Expr} (inside : part ∈ parts) :
    About tables part.2 (world.down part.1) (world'.down part.1) := by
  obtain ⟨own, below⟩ := alike.parts part inside
  exact ⟨⟨alike.holds.binds, alike.holds.saves, trivial⟩, ⟨alike.holds'.binds, alike.holds'.saves, trivial⟩, own, below⟩

theorem Worlds.put (alike : Worlds tables node parts world world') {state state' : NodeState} (own : node state state') :
    Worlds tables node parts { world with memory := world.memory.withState state }
      { world' with memory := world'.memory.withState state' } :=
  ⟨⟨alike.holds.binds, alike.holds.saves, trivial⟩, ⟨alike.holds'.binds, alike.holds'.saves, trivial⟩, own, alike.parts⟩

/-- Where the nodes remember the same, they go on doing so. -/
theorem sameNode (parts : List (Branch × Expr)) : World.SameAtNode (Worlds tables Eq parts) where
  state alike := alike.node
  put alike _ := alike.put rfl

/-- What is done alike on one branch leaves the parts on the others as they are. -/
theorem Worlds.up (apart : (parts.map (·.1)).Nodup) {part : Branch × Expr} (inside : part ∈ parts) {left left' : World}
    (alike : Worlds tables node parts world world') (ends : About tables part.2 left left') :
    Worlds tables node parts { left with memory := world.memory.setChild part.1 left.memory }
      { left' with memory := world'.memory.setChild part.1 left'.memory } where
  holds := ⟨ends.holds.binds, ends.holds.saves, trivial⟩
  holds' := ⟨ends.holds'.binds, ends.holds'.saves, trivial⟩
  node := alike.node
  parts other member := by
    dsimp only
    rw [Memory.child_setChild, Memory.child_setChild]
    split
    · next same =>
      cases List.inj_on_of_nodup_map apart member inside same
      exact ends.shows
    · exact alike.parts other member

theorem agrees_on {α : Type} (apart : (parts.map (·.1)).Nodup) {part : Branch × Expr} (inside : part ∈ parts)
    {action : EvalM α} (agrees : Agrees (About tables part.2) action) :
    Agrees (Worlds tables node parts) (action.on part.1) :=
  agrees.on_of (fun _ _ alike => alike.down inside) fun _ _ _ _ alike ends => alike.up apart inside ends

/-- What is known of the parts of an expression, each on its branch. -/
theorem forall_partMeanings {property : Meaning → Prop}
    (each : ∀ part ∈ expression.parts, property (part.2.meaning.down part.1)) :
    ∀ meaning ∈ expression.partMeanings, property meaning := by
  intro _ member
  obtain ⟨_, found, rfl⟩ := List.mem_map.mp member
  obtain ⟨part, inside, rfl⟩ := List.mem_map.mp found
  exact each part inside

/-! What is known of an expression from what it remembers. -/

theorem anonymousName_unreserved (number : Nat) : anonymousName number ∉ reservedNames := by
  have first : (anonymousName number).toList.head? = some '?' := by
    rw [anonymousName, String.toList_append]
    rfl
  intro reserved
  simp only [reservedNames, List.mem_cons, List.not_mem_nil, or_false] at reserved
  rcases reserved with same | same | same | same | same | same <;>
    · rw [same] at first
      revert first
      decide

/-- A variable is looked up under one reserved name, or under names that are not reserved. -/
theorem Bind.names {name : Option String} {state state' : NodeState} (bind : mirror.Bind name state state') :
    Meaning.storedName name state ∈ reservedNames ∧
        Meaning.storedName name state' = Meaning.storedName name state ∨
      Meaning.storedName name state ∉ reservedNames ∧ Meaning.storedName name state' ∉ reservedNames := by
  cases name with
  | none =>
    obtain ⟨number, number', own, other⟩ := bind.numbered rfl
    rw [Meaning.storedName, Meaning.storedName, own, other]
    exact .inr ⟨anonymousName_unreserved number, anonymousName_unreserved number'⟩
  | some name => exact (em (name ∈ reservedNames)).imp (⟨·, rfl⟩) fun other => ⟨other, other⟩

/-- Neither world reads a variable under a reserved name that a quiet expression does not read. -/
theorem Shows.unread {own : List Handler} {unread : List String} (reserved : unread ⊆ reservedNames)
    (quiet : expression.Throughout fun part => part.isQuiet own unread = true) {memory memory' found : Memory}
    (shows : mirror.Shows expression memory memory') (side : found = memory ∨ found = memory') :
    ∀ name, (.bind, name) ∈ expression.meaning.variables found → name ∉ unread := by
  induction quiet generalizing memory memory' found with
  | @whole expression such _ ih =>
    intro name read
    obtain ⟨node, below⟩ := shows
    have other (read : (.bind, name) ∈ expression.partMeanings.flatMap (·.variables found)) : name ∉ unread := by
      obtain ⟨_, inside, read⟩ := List.mem_flatMap.mp read
      obtain ⟨_, listed, rfl⟩ := List.mem_map.mp inside
      obtain ⟨part, member, rfl⟩ := List.mem_map.mp listed
      refine ih part member (below part member) ?_ name read
      rcases side with rfl | rfl
      · exact .inl rfl
      · exact .inr rfl
    rw [Expr.variables_parts] at read
    cases expression with
    | bind written path =>
      cases List.mem_singleton.mp read
      have bind : mirror.Bind (written.map normalizeName) memory.state memory'.state := node
      cases written with
      | none =>
        obtain ⟨number, number', named, named'⟩ := bind.numbered rfl
        refine fun listed => ?_
        rcases side with rfl | rfl
        · rw [Option.map_none, Meaning.storedName, named] at listed
          exact anonymousName_unreserved number (reserved listed)
        · rw [Option.map_none, Meaning.storedName, named'] at listed
          exact anonymousName_unreserved number' (reserved listed)
      | some written =>
        rw [Option.map_some]
        simpa [Meaning.storedName] using (Bool.and_eq_true_iff.mp such).2
    | save _ _ => simp at read
    | subquery _ => cases such
    | _ => exact other read

/-- Names that stand for each other have the same value. -/
theorem Worlds.bindValue (alike : Worlds tables node parts world world') {name name' : String}
    (paired : mirror.pairs name name') :
    world.heap.bindValue mirror.scope name = world'.heap.bindValue mirror.scope name' := by
  have own : world.heap.bindValue mirror.scope name = tables.binds.bound name :=
    congrArg (NameTable.bound · name) alike.holds.binds.binds
  have other : world'.heap.bindValue mirror.scope name' = tables.binds'.bound name' :=
    congrArg (NameTable.bound · name') alike.holds'.binds.binds
  rw [own, other, tables.values paired]

/-- A bind variable is read alike. -/
theorem Bind.bindValue {name : Option String} {state state' : NodeState} (bind : mirror.Bind name state state')
    (alike : Worlds tables node parts world world') {frame : Frame} (inside : frame.scope = mirror.scope) :
    ∃ value, Meaning.bindValue (Meaning.storedName name state) frame world = .ok value world ∧
      Meaning.bindValue (Meaning.storedName name state') frame world' = .ok value world' := by
  rcases bind.names with ⟨reserved, same⟩ | ⟨own, other⟩
  · obtain ⟨value, reads⟩ := Meaning.bindValue_of_reserved reserved frame
    rw [same, reads]
    exact ⟨value, rfl, rfl⟩
  · refine ⟨world.heap.bindValue mirror.scope (Meaning.storedName name state), ?_, ?_⟩
    · rw [Meaning.bindValue_of_other own, inside]
      rfl
    · rw [Meaning.bindValue_of_other other, inside, alike.bindValue bind.paired]
      rfl

/-- The type of a bind variable is the same. -/
theorem Bind.bindType {name : Option String} {state state' : NodeState} (bind : mirror.Bind name state state')
    (alike : Worlds tables node parts world world') {setting : Setting} (inside : setting.scope = mirror.scope) :
    Meaning.bindType (Meaning.storedName name state) setting world.heap =
      Meaning.bindType (Meaning.storedName name state') setting world'.heap := by
  rcases bind.names with ⟨reserved, same⟩ | ⟨own, other⟩
  · rw [same]
    exact Meaning.bindType_of_reserved reserved ..
  · rw [Meaning.bindType_of_other own, Meaning.bindType_of_other other, inside, alike.bindValue bind.paired]

theorem Worlds.saveValue? (alike : Worlds tables node parts world world') (name : String) :
    world.heap.saveValue? mirror.scope name = world'.heap.saveValue? mirror.scope name :=
  congrArg (fun saves : NameTable Value => saves.get? (normalizeName name))
    (alike.holds.saves.trans alike.holds'.saves.symm)

/-- An expression without paths and statements is fixed in both worlds or in none. -/
theorem Shows.isFixed (bare : expression.Throughout fun part => part.isBare = true) {memory memory' : Memory}
    (shows : mirror.Shows expression memory memory') :
    expression.meaning.isFixed memory = expression.meaning.isFixed memory' := by
  induction bare generalizing memory memory' with
  | @whole expression bare _ ih =>
    obtain ⟨node, below⟩ := shows
    have parts : ∀ part ∈ expression.partMeanings, part.isFixed memory = part.isFixed memory' :=
      forall_partMeanings fun part inside => ih part inside (below part inside)
    have all : expression.partMeanings.all (·.isFixed memory) = expression.partMeanings.all (·.isFixed memory') := by
      rw [Bool.eq_iff_iff, List.all_eq_true, List.all_eq_true]
      exact forall₂_congr fun part inside => by rw [parts part inside]
    cases expression with
    | member _ | subquery _ => cases bare
    | constant _ | bind _ _ | save _ _ | construct _ _ _ => rfl
    | among => rwa [Expr.partMeanings_among] at all
    | call name arguments =>
      rw [Expr.partMeanings_call] at all
      change Meaning.callIsFixed _ _ = Meaning.callIsFixed _ _
      rw [Meaning.callIsFixed, Meaning.callIsFixed, node.1, all]
    | _ => exact all

/-- An expression without paths and statements has the same type in both worlds. -/
theorem Worlds.expectedType (bare : expression.Throughout fun part => part.isBare = true) {setting : Setting}
    (inside : setting.scope = mirror.scope) {world world' : World} (alike : About tables expression world world') :
    expression.meaning.expectedType setting world = expression.meaning.expectedType setting world' := by
  induction bare generalizing world world' with
  | @whole expression bare _ ih =>
    have parts : ∀ part ∈ expression.parts, part.2.meaning.expectedType setting (world.down part.1) =
        part.2.meaning.expectedType setting (world'.down part.1) := fun part member =>
      ih part member (alike.down member)
    cases expression with
    | member _ | subquery _ => cases bare
    | bind name path =>
      cases Option.isNone_iff_eq_none.mp bare
      exact alike.node.bindType alike inside
    | save name path =>
      cases Option.isNone_iff_eq_none.mp bare
      change ((world.heap.saveValue? setting.scope _).map _).getD _ =
        ((world'.heap.saveValue? setting.scope _).map _).getD _
      rw [inside, alike.saveValue?]
    | arithmetic op left right =>
      have first := parts (.left, left) (List.mem_cons_self ..)
      have second := parts (.right, right) (by simp [Expr.parts])
      change (if op != .add then _ else _) = (if op != .add then _ else _)
      simp only [Meaning.down, first, second]
      rfl
    | negate operand => exact parts (.subject, operand) (List.mem_cons_self ..)
    | call name arguments =>
      change (world.memory.state.resolution?.map _).getD _ = (world'.memory.state.resolution?.map _).getD _
      rw [alike.node.1]
    | _ => rfl

/-! Preparing. -/

/-- What is done alike with each part is done alike with all of them in turn. -/
theorem forEach_agrees {node : NodeState → NodeState → Prop} {action f : Meaning → EvalM Unit}
    (on : ∀ part ∈ expression.parts, action (part.2.meaning.down part.1) = (f part.2.meaning).on part.1)
    (parts : ∀ part ∈ expression.parts, Agrees (About tables part.2) (f part.2.meaning)) :
    Agrees (Worlds tables node expression.parts) (Meaning.forEach expression.partMeanings action) := by
  refine Agrees.forM (forall_partMeanings fun part inside => ?_)
  rw [on part inside]
  exact agrees_on expression.parts_apart inside (parts part inside)

/-- A variable that has a number takes no other one. -/
theorem Bind.takeNumber_eq {world : World} {number : Nat} (named : world.memory.state.name? = some (anonymousName number))
    (scope : Scope) : Meaning.takeNumber scope world = .ok () world := by
  rw [Meaning.takeNumber, node_bind, named]
  rfl

theorem resolvePath_none_eq (root : DataType) (registry : TypeRegistry) (world : World) :
    Meaning.resolvePath none root registry world =
      .ok () { world with memory := world.memory.withState (.operand world.memory.state.name? none) } := rfl

theorem bind_prepare_agrees (name : Option String) (setting : Setting) :
    Agrees (About tables (.bind name none)) ((Expr.bind name none).meaning.prepare setting) := by
  have resolve : Agrees (About tables (.bind name none)) (do
      let root := if Meaning.storedName (name.map normalizeName) (← node) == "_currobj" then setting.rowType else .any
      Meaning.resolvePath none root setting.environment.types) := by
    intro world world' alike
    have bind : mirror.Bind (name.map normalizeName) world.memory.state world'.memory.state := alike.node
    rw [node_bind, node_bind, resolvePath_none_eq, resolvePath_none_eq]
    exact ⟨rfl, alike.put ⟨⟨rfl, rfl⟩, bind.paired, bind.numbered⟩⟩
  cases name with
  | none =>
    have numbered : Agrees (About tables (.bind none none)) (Meaning.takeNumber setting.scope) := by
      intro world world' alike
      have bind : mirror.Bind none world.memory.state world'.memory.state := alike.node
      obtain ⟨number, number', own, other⟩ := bind.numbered rfl
      rw [Bind.takeNumber_eq own, Bind.takeNumber_eq other]
      exact ⟨rfl, alike⟩
    exact numbered.bind fun _ => resolve
  | some name =>
    change Agrees _ (do
      if (normalizeName name).startsWith "_" && !isReserved (normalizeName name) then
        throw (.reservedName (normalizeName name))
      let root := if Meaning.storedName (some (normalizeName name)) (← node) == "_currobj" then setting.rowType else .any
      Meaning.resolvePath none root setting.environment.types)
    split
    · exact (agrees_throw _).bind fun _ => resolve
    · exact resolve

/-- An expression without paths and statements is prepared alike. -/
theorem prepare_agrees {setting : Setting} (around : setting.environment = mirror.environment)
    (inside : setting.scope = mirror.scope) (bare : expression.Throughout fun part => part.isBare = true) :
    Agrees (About tables expression) (expression.meaning.prepare setting) := by
  induction bare with
  | @whole expression own throughout ih =>
    have parts : Agrees (About tables expression) (Meaning.forEach expression.partMeanings (·.prepare setting)) :=
      forEach_agrees (f := (·.prepare setting)) (fun _ _ => rfl) ih
    have types {world world' : World} (alike : About tables expression world world') : ∀ part ∈ expression.partMeanings,
        part.expectedType setting world = part.expectedType setting world' :=
      forall_partMeanings fun part member => (alike.down member).expectedType (throughout part member) inside
    cases expression with
    | member _ | subquery _ => cases own
    | bind name path =>
      cases Option.isNone_iff_eq_none.mp own
      exact bind_prepare_agrees name setting
    | save name path =>
      cases Option.isNone_iff_eq_none.mp own
      refine fun world world' alike => ⟨rfl, alike.put ?_⟩
      change NodeState.operand world.memory.state.name? none = .operand world'.memory.state.name? none
      rw [show world.memory.state = world'.memory.state from alike.node]
    | between _ _ _ _ | like _ _ _ _ => exact parts.bind fun _ => Meaning.setNode_agrees (sameNode _) .fresh
    | among _ _ _ _ _ _ =>
      rw [Expr.partMeanings_among] at parts
      exact parts.bind fun _ => Meaning.setNode_agrees (sameNode _) .fresh
    | call name arguments =>
      rw [Expr.partMeanings_call] at parts types
      refine parts.bind fun _ => agrees_get_bind (fun world world' alike => ?_) fun world => ?_
      · rw [List.map_congr_left (types alike)]
      · dsimp only
        split
        · next resolution resolved =>
          refine fun left left' alike => ⟨rfl, alike.put ⟨rfl, ?_⟩⟩
          rintro _ ⟨⟩
          refine ⟨_, ?_, around ▸ resolved⟩
          simp [Meaning.each, meanings_eq_map]
        · exact agrees_throw _
    | construct typeName arguments setters =>
      rw [Expr.partMeanings_construct] at parts types
      refine parts.bind fun _ => ?_
      split
      · exact agrees_throw _
      · refine agrees_get_bind (fun world world' alike => ?_) fun world => ?_
        · rw [List.map_congr_left fun part member => types alike part (List.mem_append_left _ member)]
        · dsimp only
          split
          · exact Meaning.setNode_agrees (sameNode _) _
          · exact agrees_throw _
    | _ => exact parts

/-! Evaluating. -/

theorem agrees_seesRows (related : World → World → Prop) (scopes : Scope → Prop) :
    (Conduct.agrees related scopes).SeesRows := fun _ parts frame inside => parts frame.rows frame inside

theorem bind_evaluate_agrees (name : Option String) :
    (Conduct.agrees (About tables (.bind name none)) (· = mirror.scope)).Of
      ((Expr.bind name none).meaning.evaluate mirror.environment) := by
  intro frame inside world world' alike
  have bind : mirror.Bind (name.map normalizeName) world.memory.state world'.memory.state := alike.node
  obtain ⟨value, ran, ran'⟩ := bind.bindValue alike inside
  change Alike _ ((Meaning.bindValue (Meaning.storedName _ world.memory.state) frame >>= Meaning.followPath) world)
    ((Meaning.bindValue (Meaning.storedName _ world'.memory.state) frame >>= Meaning.followPath) world')
  rw [bind_of_ok ran, bind_of_ok ran', Meaning.followPath_none bind.plain.1, Meaning.followPath_none bind.plain.2]
  exact ⟨rfl, alike⟩

theorem save_evaluate_agrees (name : String) (path : Option AccessorPath) :
    (Conduct.agrees (About tables (.save name path)) (· = mirror.scope)).Of
      ((Expr.save name path).meaning.evaluate mirror.environment) := by
  intro frame inside world world' alike
  change Alike _ ((readHeap (·.saveValue? frame.scope _) >>= fun value => Meaning.followPath (value.getD .null)) world)
    ((readHeap (·.saveValue? frame.scope _) >>= fun value => Meaning.followPath (value.getD .null)) world')
  rw [readHeap_bind, readHeap_bind, inside, alike.saveValue?]
  exact Meaning.followPath_agrees (sameNode _) _ world world' alike

/-- A quiet expression is evaluated alike. -/
theorem evaluate_agrees (standard : mirror.environment.functions.standard = FunctionRegistry.default.standard)
    {unread : List String}
    (quiet : expression.Throughout fun part => part.isQuiet mirror.environment.functions.own unread = true) :
    (Conduct.agrees (About tables expression) (· = mirror.scope)).Of (expression.meaning.evaluate mirror.environment) := by
  induction quiet with
  | @whole expression own throughout ih =>
    let conduct := Conduct.agrees (About tables expression) (· = mirror.scope)
    have bare : ∀ part ∈ expression.parts, part.2.Throughout fun part => part.isBare = true := fun part member =>
      (throughout part member).mono Expr.isBare_of_quiet
    have parts : ∀ part ∈ expression.partMeanings, conduct.Of (part.evaluate mirror.environment) :=
      forall_partMeanings fun part inside frame about =>
        agrees_on expression.parts_apart inside (ih part inside frame about)
    have fixed : ∀ part ∈ expression.partMeanings, part.SameFixed (About tables expression) :=
      forall_partMeanings fun part inside world world' alike => (alike.parts part inside).isFixed (bare part inside)
    cases expression with
    | constant value => exact conduct.pure value
    | member _ | subquery _ => cases own
    | bind name path =>
      obtain ⟨plain, _⟩ := Bool.and_eq_true_iff.mp own
      cases Option.isNone_iff_eq_none.mp plain
      exact bind_evaluate_agrees name
    | save name path => exact save_evaluate_agrees name path
    | arithmetic op left right =>
      obtain ⟨first, second⟩ := by simpa [Expr.partMeanings, Expr.parts, Meaning.branched] using parts
      exact Meaning.arithmetic_conducts conduct op first second
    | compare op ignoreCase left right =>
      obtain ⟨first, second⟩ := by simpa [Expr.partMeanings, Expr.parts, Meaning.branched] using parts
      exact Meaning.compare_conducts conduct op ignoreCase first second
    | negate operand =>
      exact Meaning.negate_conducts conduct (by simpa [Expr.partMeanings, Expr.parts, Meaning.branched] using parts)
    | not operand =>
      exact Meaning.not_conducts conduct (by simpa [Expr.partMeanings, Expr.parts, Meaning.branched] using parts)
    | logical op left right =>
      obtain ⟨first, second⟩ := by simpa [Expr.partMeanings, Expr.parts, Meaning.branched] using parts
      exact Meaning.logical_conducts conduct op first second
    | isNull negated operand =>
      exact Meaning.isNull_conducts conduct negated
        (by simpa [Expr.partMeanings, Expr.parts, Meaning.branched] using parts)
    | between negated subject lower upper =>
      obtain ⟨first, second, third⟩ := by simpa [Expr.partMeanings, Expr.parts, Meaning.branched] using parts
      obtain ⟨_, low, high⟩ := by simpa [Expr.partMeanings, Expr.parts, Meaning.branched] using fixed
      exact Meaning.between_agrees (sameNode _) negated low high first second third
    | like negated ignoreCase subject pattern =>
      obtain ⟨first, second⟩ := by simpa [Expr.partMeanings, Expr.parts, Meaning.branched] using parts
      obtain ⟨_, kept⟩ := by simpa [Expr.partMeanings, Expr.parts, Meaning.branched] using fixed
      exact Meaning.like_agrees (sameNode _) negated ignoreCase kept first second
    | among negated ignoreCase like all subject items =>
      rw [Expr.partMeanings_among] at parts fixed
      obtain ⟨first, others⟩ := List.forall_mem_cons.mp parts
      exact Meaning.among_agrees (sameNode _) _ (List.forall_mem_cons.mp fixed).2 first others
    | call name arguments =>
      rw [Expr.partMeanings_call] at parts fixed
      obtain ⟨foreign, other, unnamed⟩ := Expr.isQuiet_call own
      refine Meaning.call_agrees (fun _ _ alike => alike.node.1)
        (fun _ _ resolution alike found => alike.node.2 resolution found)
        (fun _ _ resolution result alike known => alike.put ⟨rfl, ?_⟩) ?_ ?_ parts
      · rintro _ ⟨⟩
        exact known
      · have whole := (Expr.Throughout.whole own throughout).mono Expr.isBare_of_quiet
        exact fun _ _ alike => alike.shows.isFixed whole
      · rintro resolution ⟨types, counted, resolved⟩
        exact (Meaning.standard_of_resolved standard foreign other unnamed counted resolved).1 _ (agrees_seesRows _ _)
    | construct typeName arguments setters =>
      rw [Expr.partMeanings_construct] at parts
      obtain ⟨first, second⟩ := List.forall_mem_append.mp parts
      exact Meaning.construct_agrees (sameNode _) typeName first fun setter member =>
        second setter.1 (List.mem_map_of_mem member)

end Mirror

end RecordQuery
