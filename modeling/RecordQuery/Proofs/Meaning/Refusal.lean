import RecordQuery.Proofs.Meaning.OfExpr
/-! How resolving fails. Whatever an expression is resolved against, at whatever depth of nesting, each failure has a
cause that resolving finds: nothing is evaluated on the way. -/

namespace RecordQuery

/-- Each failure of an outcome has a cause that resolving finds. -/
def Error.Refused {α : Type} (outcome : Except Error α) : Prop := ∀ error, outcome = .error error → error.isResolution

/-- Each failure of a computation has a cause that resolving finds. -/
def EvalM.Refuses {α : Type} (action : EvalM α) : Prop :=
  ∀ world error left, action world = .error error left → error.isResolution

namespace Error

variable {α β : Type}

theorem refused_ok (value : α) : Refused (.ok value) := fun _ ran => nomatch ran

theorem refused_error {error : Error} (found : error.isResolution) : Refused (.error error : Except Error α) := by
  intro _ ran
  cases ran
  exact found

theorem Refused.bind {first : Except Error α} {next : α → Except Error β} (head : Refused first)
    (rest : ∀ value, Refused (next value)) : Refused (first >>= next) := by
  cases first with
  | error error => exact refused_error (head error rfl)
  | ok value => exact rest value

end Error

open Error

/-! Paths. -/

theorem Step.refused_ofName (name : String) (current : DataType) (registry : TypeRegistry) :
    Refused (ofName name current registry) := by
  unfold ofName
  split
  · split
    · exact refused_ok _
    · split
      · exact refused_ok _
      · exact refused_error rfl
  · exact refused_ok _
  · exact refused_ok _
  · exact refused_error rfl

theorem Step.refused_ofSegment (path : AccessorPath) (segment : Segment) (current : DataType)
    (registry : TypeRegistry) : Refused (ofSegment path segment current registry) := by
  unfold ofSegment
  split
  · exact refused_ofName _ _ _
  all_goals first | exact refused_ok _ | exact refused_error rfl

theorem Step.refused_ofSegments (path : AccessorPath) (registry : TypeRegistry) (segments : List Segment)
    (current : DataType) : Refused (ofSegments path registry segments current) := by
  induction segments generalizing current with
  | nil => exact refused_ok _
  | cons segment rest ih =>
    exact (refused_ofSegment path segment current registry).bind fun (_, next) => (ih next).bind fun _ => refused_ok _

/-- A path that cannot be resolved against a type names no member, or looks into what has no items. -/
theorem Accessor.refused_resolve (path : AccessorPath) (root : DataType) (registry : TypeRegistry) :
    Refused (resolve path root registry) :=
  (Step.refused_ofSegments path registry path.segments root).bind fun _ => refused_ok _

/-! Checks of clauses. -/

theorem refused_checkSplice (columns : List (Column Meaning)) : Refused (checkSplice columns) := by
  unfold checkSplice
  dsimp only
  split
  · exact refused_error rfl
  · exact refused_ok _

theorem refused_sortSources (columns : Option (List (Column Meaning))) (orders : List (OrderBy Meaning)) :
    Refused (sortSources columns orders) := by
  induction orders with
  | nil => exact refused_ok _
  | cons order rest ih =>
    obtain ⟨key, direction⟩ := order
    have others (source : SortSource) : Refused (do return (source, direction) :: (← sortSources columns rest)) :=
      ih.bind fun _ => refused_ok _
    unfold sortSources
    cases key with
    | expression meaning => exact others _
    | column number =>
      cases columns with
      | none => exact refused_error rfl
      | some columns =>
        dsimp only
        split
        · exact others _
        · exact refused_error rfl

theorem refused_groupSources (groupBy : List Meaning) (orders : List (OrderBy Meaning)) :
    Refused (groupSources groupBy orders) := by
  induction orders with
  | nil => exact refused_ok _
  | cons order rest ih =>
    obtain ⟨key, direction⟩ := order
    have others (source : SortSource) : Refused (do return (source, direction) :: (← groupSources groupBy rest)) :=
      ih.bind fun _ => refused_ok _
    unfold groupSources
    cases key with
    | expression meaning =>
      dsimp only
      split <;> exact others _
    | column number =>
      dsimp only
      split
      · exact others _
      · exact refused_error rfl

namespace EvalM

variable {α β : Type}

theorem refuses_of_succeeds {action : EvalM α} (succeeds : ∀ world, ∃ value left, action world = .ok value left) :
    Refuses action := by
  intro world error left ran
  obtain ⟨value, _, same⟩ := succeeds world
  rw [same] at ran
  cases ran

theorem refuses_pure (value : α) : Refuses (pure value) := refuses_of_succeeds fun world => ⟨value, world, rfl⟩

theorem refuses_throw {error : Error} (found : error.isResolution) : Refuses (throw error : EvalM α) := by
  intro world _ left ran
  cases ran
  exact found

theorem refuses_ofExcept {outcome : Except Error α} (refused : Refused outcome) : Refuses (ofExcept outcome) := by
  cases outcome with
  | ok value => exact refuses_pure value
  | error error => exact refuses_throw (refused error rfl)

theorem Refuses.bind {first : EvalM α} {next : α → EvalM β} (head : Refuses first)
    (rest : ∀ value, Refuses (next value)) : Refuses (first >>= next) := by
  intro world error left ran
  cases began : first world with
  | error error' left' =>
    rw [bind_of_error began] at ran
    cases ran
    exact head world _ _ began
  | ok value left' =>
    rw [bind_of_ok began] at ran
    exact rest value left' error left ran

theorem Refuses.map {action : EvalM α} (refuses : Refuses action) (f : α → β) : Refuses (f <$> action) := by
  rw [map_eq_pure_bind]
  exact refuses.bind fun value => refuses_pure (f value)

/-- The places that a failure passes through leave its cause. -/
theorem Refuses.inside {action : EvalM α} (refuses : Refuses action) (place : String) :
    Refuses (action.inside place) := by
  intro world error left ran
  cases began : action world with
  | ok value left' => cases (inside_of_ok place began).symm.trans ran
  | error error' left' =>
    cases (inside_of_error place began).symm.trans ran
    exact refuses world error' left began

theorem Refuses.on {action : EvalM α} (refuses : Refuses action) (branch : Branch) : Refuses (action.on branch) := by
  intro world error left ran
  unfold EvalM.on at ran
  split at ran
  · cases ran
  · next began =>
    cases ran
    exact refuses _ _ _ began

theorem refuses_forM {items : List β} {action : β → EvalM Unit} (each : ∀ item ∈ items, Refuses (action item)) :
    Refuses (items.forM action) := by
  induction items with
  | nil => exact refuses_pure ()
  | cons item rest ih =>
    rw [List.forM_eq_forM, List.forM_cons]
    exact (each item (List.mem_cons_self ..)).bind fun _ => ih fun other member =>
      each other (List.mem_cons_of_mem _ member)

theorem refuses_get : Refuses get := refuses_of_succeeds fun world => ⟨world, world, rfl⟩

theorem refuses_node : Refuses node := refuses_of_succeeds fun world => ⟨world.memory.state, world, rfl⟩

theorem refuses_setNode (state : NodeState) : Refuses (setNode state) := refuses_of_succeeds fun _ => ⟨(), _, rfl⟩

theorem refuses_readHeap (read : Heap → α) : Refuses (readHeap read) := refuses_of_succeeds fun _ => ⟨_, _, rfl⟩

theorem refuses_changeHeap (change : Heap → Heap) : Refuses (changeHeap change) :=
  refuses_of_succeeds fun _ => ⟨(), _, rfl⟩

theorem refuses_onHeap (change : Heap → α × Heap) : Refuses (onHeap change) := refuses_of_succeeds fun _ => ⟨_, _, rfl⟩

end EvalM

open EvalM

/-- Resolving an expression, and numbering its variables, fails with causes that resolving finds. -/
structure Meaning.Refuses (meaning : Meaning) : Prop where
  prepare (setting : Setting) : EvalM.Refuses (meaning.prepare setting)
  number (scope : Scope) : EvalM.Refuses (meaning.number scope)

namespace Meaning

theorem Refuses.down {meaning : Meaning} (refuses : meaning.Refuses) (branch : Branch) :
    (meaning.down branch).Refuses where
  prepare setting := (refuses.prepare setting).on branch
  number scope := (refuses.number scope).on branch

section Parts

variable {parts : List Meaning} (refuses : ∀ part ∈ parts, part.Refuses)
include refuses

theorem refuses_prepareEach (setting : Setting) : EvalM.Refuses (forEach parts (·.prepare setting)) :=
  refuses_forM fun part member => (refuses part member).prepare setting

theorem refuses_numberEach (scope : Scope) : EvalM.Refuses (forEach parts (·.number scope)) :=
  refuses_forM fun part member => (refuses part member).number scope

theorem compound_refuses {text : String} {type : Setting → World → DataType}
    {evaluate : Environment → Frame → EvalM Value} : (compound text type parts evaluate).Refuses :=
  ⟨refuses_prepareEach refuses, refuses_numberEach refuses⟩

theorem prepareAnew_refuses (setting : Setting) : EvalM.Refuses (prepareAnew parts setting) :=
  (refuses_prepareEach refuses setting).bind fun _ => refuses_setNode _

end Parts

/-! Operands. -/

theorem resolvePath_refuses (path : Option AccessorPath) (root : DataType) (registry : TypeRegistry) :
    EvalM.Refuses (resolvePath path root registry) := by
  have remember (accessor : Option Accessor) : EvalM.Refuses (do setNode (.operand (← node).name? accessor)) :=
    refuses_node.bind fun _ => refuses_setNode _
  cases path with
  | none => exact (refuses_pure none).bind remember
  | some path => exact ((refuses_ofExcept (Accessor.refused_resolve path root registry)).map _).bind remember

theorem takeNumber_refuses (scope : Scope) : EvalM.Refuses (takeNumber scope) := by
  refine refuses_node.bind fun state => ?_
  split
  · exact (refuses_onHeap _).bind fun _ => refuses_setNode _
  · exact refuses_pure ()

theorem bind_refuses (name : Option String) (path : Option AccessorPath) : (bind name path).Refuses := by
  refine ⟨fun setting => ?_, fun scope => ?_⟩
  · have resolve : EvalM.Refuses (do
        let root := if storedName name (← node) == "_currobj" then setting.rowType else .any
        resolvePath path root setting.environment.types) :=
      refuses_node.bind fun _ => resolvePath_refuses path _ _
    unfold bind
    dsimp only
    cases name with
    | none => exact (takeNumber_refuses _).bind fun _ => resolve
    | some name =>
      dsimp only
      split
      · exact (refuses_throw rfl).bind fun _ => resolve
      · exact resolve
  · unfold bind
    dsimp only
    split
    · exact takeNumber_refuses scope
    · exact refuses_pure ()

/-! Calls and constructors. -/

theorem call_refuses (name : String) {arguments : List Meaning} (refuses : ∀ part ∈ arguments, part.Refuses) :
    (call name arguments).Refuses := by
  refine ⟨fun setting => (refuses_prepareEach refuses setting).bind fun _ => refuses_get.bind fun world => ?_,
    refuses_numberEach refuses⟩
  dsimp only
  split
  · exact refuses_setNode _
  · exact refuses_throw rfl

theorem construct_refuses (typeName : String) {arguments : List Meaning} {setters : List (Meaning × String)}
    (refuses : ∀ part ∈ arguments ++ setters.map (·.1), part.Refuses) :
    (construct typeName arguments setters).Refuses := by
  refine ⟨fun setting => (refuses_prepareEach refuses setting).bind fun _ => ?_, refuses_numberEach refuses⟩
  split
  · exact refuses_throw rfl
  · refine refuses_get.bind fun world => ?_
    dsimp only
    split
    · exact refuses_setNode _
    · exact refuses_throw rfl

/-! Nested statements. -/

theorem opened_refuses (statement : Statement Meaning) : EvalM.Refuses statement.opened := by
  refine refuses_node.bind fun state => ?_
  split
  · exact refuses_pure _
  · exact (refuses_onHeap _).bind fun _ => (refuses_setNode _).bind fun _ => refuses_pure _

theorem subquery_refuses {statement : Statement Meaning}
    (refuses : ∀ part ∈ statement.expressions none, part.Refuses) : (subquery statement).Refuses := by
  have numbers (scope : Scope) : EvalM.Refuses
      (forEach (statement.withoutSource.expressions statement.sourceExpression?) (·.number scope)) := by
    rw [Statement.expressions_withoutSource]
    exact refuses_numberEach refuses scope
  refine ⟨fun setting => ?_, numbers⟩
  have adopts : EvalM.Refuses (adopt statement.withoutSource setting) :=
    (opened_refuses _).bind fun _ => (refuses_readHeap _).bind fun _ => refuses_setNode _
  refine adopts.bind fun _ => (numbers setting.scope).bind fun _ => ?_
  cases found : statement.sourceExpression? with
  | none => exact refuses_throw rfl
  | some source =>
    have inside : source ∈ statement.expressions none := by simp [Statement.expressions, found]
    refine ((refuses source inside).prepare setting).bind fun _ => (opened_refuses _).bind fun _ => ?_
    refine (refuses_changeHeap _).bind fun _ => (refuses_readHeap _).bind fun _ => refuses_get.bind fun _ => ?_
    exact (refuses_onHeap _).bind fun _ => (refuses_onHeap _).bind fun _ => refuses_setNode _

end Meaning

/-- An expression fails to be resolved with causes that resolving finds if its parts do. -/
theorem Expr.meaning_refuses_of_parts {expression : Expr} (parts : ∀ part ∈ expression.partMeanings, part.Refuses) :
    expression.meaning.Refuses := by
  cases expression with
  | constant value => exact Meaning.compound_refuses (by simp)
  | member path => exact ⟨fun setting => Meaning.resolvePath_refuses (some path) _ _, fun scope => refuses_pure ()⟩
  | bind name path => exact Meaning.bind_refuses _ path
  | save name path => exact ⟨fun setting => Meaning.resolvePath_refuses path _ _, fun scope => refuses_pure ()⟩
  | between => exact ⟨Meaning.prepareAnew_refuses parts, Meaning.refuses_numberEach parts⟩
  | like => exact ⟨Meaning.prepareAnew_refuses parts, Meaning.refuses_numberEach parts⟩
  | among =>
    rw [partMeanings_among] at parts
    exact ⟨Meaning.prepareAnew_refuses parts, Meaning.refuses_numberEach parts⟩
  | call name arguments => exact Meaning.call_refuses name (partMeanings_call .. ▸ parts)
  | construct typeName arguments setters => exact Meaning.construct_refuses typeName (partMeanings_construct .. ▸ parts)
  | subquery statement =>
    refine Meaning.subquery_refuses ?_
    rw [Statement.expressions_placed_meaning]
    exact parts
  | arithmetic | compare | negate | not | logical | isNull => exact Meaning.compound_refuses parts

theorem Expr.meaning_refuses (expression : Expr) : expression.meaning.Refuses := by
  induction expression using Expr.byParts with
  | whole expression ih =>
    refine meaning_refuses_of_parts fun _ member => ?_
    obtain ⟨_, found, rfl⟩ := List.mem_map.mp member
    obtain ⟨part, inside, rfl⟩ := List.mem_map.mp found
    exact (ih part inside).down part.1

end RecordQuery
