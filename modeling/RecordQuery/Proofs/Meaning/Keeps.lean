import RecordQuery.Proofs.Meaning.Conduct
import RecordQuery.Proofs.Variables.Scope
/-! What evaluating an expression does to the world. An expression keeps a relation of worlds if its parts and the
functions around it do, and if the relation allows for what evaluation does by itself. -/

namespace RecordQuery

open EvalM

/-- A preorder of worlds that allows for what variables and paths do at their node: they are given numbers, and a name
that the node has been given stays. -/
class AllowsOperands (related : World → World → Prop) : Prop extends IsPreorder World related where
  named {world : World} {name : Option String} (kept : ∀ known ∈ world.memory.state.name?, name = some known)
    (accessor : Option Accessor) :
    related world { world with memory := world.memory.withState (.operand name accessor) }
  numbered (world : World) (scope : Scope) : related world { world with heap := (world.heap.nextAnonymous scope).2 }

/-- Whether a node is that of a statement. -/
def NodeState.isStatement : NodeState → Bool
  | statement .. => true
  | _ => false

/-- A preorder of worlds that allows for what evaluation does at any one node that is not that of a statement:
remembering anything, and numbering variables. -/
class AllowsRemembering (related : World → World → Prop) : Prop extends IsPreorder World related where
  kept (world : World) {state : NodeState} (plain : state.isStatement = false) :
    related world { world with memory := world.memory.withState state }
  numbered (world : World) (scope : Scope) : related world { world with heap := (world.heap.nextAnonymous scope).2 }

/-- A preorder of worlds that allows for what evaluation does at any one node: remembering anything, numbering
variables and listening to them, and opening statements. -/
class AllowsNode (related : World → World → Prop) : Prop extends IsPreorder World related where
  remembered (world : World) (state : NodeState) : related world { world with memory := world.memory.withState state }
  opened (statement : Statement Meaning) (world : World) :
    related world { world with heap := (statement.newScope world.heap).2 }
  numbered (world : World) (scope : Scope) : related world { world with heap := (world.heap.nextAnonymous scope).2 }
  watched (world : World) (scope : Scope) (kind : VariableKind) (names : List String) :
    related world { world with heap := (world.heap.watch scope kind names).2 }
  released (world : World) (subscriptions : List (StoreId × Nat)) :
    related world { world with heap := world.heap.release subscriptions }
  lowered (world : World) (id : StoreId) (subscriptions : List Nat) :
    related world { world with heap := world.heap.modify id (·.lower subscriptions) }

/-- A preorder of worlds that allows for evaluation at a node and below it. -/
class AllowsEvaluation (related : World → World → Prop) : Prop extends AllowsNode related where
  part {world left : World} {branch : Branch} (below : related (world.down branch) left) :
    related world { left with memory := world.memory.setChild branch left.memory }

instance {related : World → World → Prop} [AllowsRemembering related] : AllowsOperands related where
  named _ _ := AllowsRemembering.kept _ rfl
  numbered := AllowsRemembering.numbered

instance {related : World → World → Prop} [AllowsNode related] : AllowsRemembering related where
  kept world state _ := AllowsNode.remembered world state
  numbered := AllowsNode.numbered

instance : AllowsEvaluation World.Extends where
  remembered world _ := refl world.heap
  part below := below
  opened statement world := Heap.extends_opened statement world.heap
  numbered world scope := world.heap.extends_nextAnonymous scope
  watched world scope kind names := world.heap.extends_watch scope kind names
  released world subscriptions := world.heap.extends_release subscriptions
  lowered world id _ := world.heap.extends_modify id fun _ => rfl

theorem EvalM.keeps_keep {related : World → World → Prop} [AllowsRemembering related] {state : NodeState}
    (plain : state.isStatement = false) : EvalM.Keeps related (setNode state) :=
  fun world => AllowsRemembering.kept world plain

theorem EvalM.keeps_setNode {related : World → World → Prop} [AllowsNode related] (state : NodeState) :
    EvalM.Keeps related (setNode state) := fun world => AllowsNode.remembered world state

/-- Evaluating an argument keeps the relation. -/
def Argument.Keeps (related : World → World → Prop) : Argument → Prop
  | value _ => True
  | expression _ evaluate => ∀ frame, EvalM.Keeps related (evaluate frame)

theorem Argument.keeps_iff (related : World → World → Prop) [IsPreorder World related] (argument : Argument) :
    argument.Keeps related ↔ argument.Conducts (.keeps related) := by
  cases argument <;> rfl

/-- Every call of a handler on arguments that keep the relation keeps it. -/
def Handler.Keeps (related : World → World → Prop) (handler : Handler) : Prop :=
  ∀ index arguments frame, (∀ argument ∈ arguments, Argument.Keeps related argument) →
    EvalM.Keeps related (handler.call index arguments frame)

theorem Handler.keeps_iff (related : World → World → Prop) [IsPreorder World related] (handler : Handler) :
    handler.Keeps related ↔ ∀ index, handler.Conducts (.keeps related) index := by
  simp only [Handler.Keeps, Handler.Conducts, Argument.keeps_iff]
  exact ⟨fun keeps index arguments parts frame => keeps index arguments frame parts,
    fun conducts index arguments frame parts => conducts index arguments parts frame⟩

/-- All functions around keep the relation. -/
def Environment.Keeps (related : World → World → Prop) (environment : Environment) : Prop :=
  ∀ handler ∈ environment.functions.handlers, handler.Keeps related

/-- All that an expression does keeps the relation, as long as all functions around are from such handlers. -/
structure Meaning.KeepsAmong (such : Handler → Prop) (related : World → World → Prop) (meaning : Meaning) : Prop where
  evaluate {environment : Environment} (around : ∀ handler ∈ environment.functions.handlers, such handler)
    (frame : Frame) : EvalM.Keeps related (meaning.evaluate environment frame)
  prepare (setting : Setting) : EvalM.Keeps related (meaning.prepare setting)
  number (scope : Scope) : EvalM.Keeps related (meaning.number scope)

/-- All that an expression does keeps the relation, among functions that keep it. -/
abbrev Meaning.Keeps (related : World → World → Prop) : Meaning → Prop :=
  Meaning.KeepsAmong (Handler.Keeps related) related

/-- Evaluating an expression in an environment keeps the relation, whatever it is about. -/
def Meaning.KeepsIn (related : World → World → Prop) (environment : Environment) (meaning : Meaning) : Prop :=
  ∀ frame, EvalM.Keeps related (meaning.evaluate environment frame)

namespace Meaning

variable {such : Handler → Prop} {related : World → World → Prop}

theorem KeepsAmong.within {meaning : Meaning} (keeps : meaning.KeepsAmong such related) {environment : Environment}
    (around : ∀ handler ∈ environment.functions.handlers, such handler) : meaning.KeepsIn related environment :=
  fun frame => keeps.evaluate around frame

/-- An expression down a branch keeps a relation if what it keeps below the branch makes that relation at the node. -/
theorem KeepsAmong.down {above : World → World → Prop} {meaning : Meaning} (keeps : meaning.KeepsAmong such related)
    {branch : Branch} (part : ∀ {world left : World}, related (world.down branch) left →
      above world { left with memory := world.memory.setChild branch left.memory }) :
    (meaning.down branch).KeepsAmong such above where
  evaluate around frame := (keeps.evaluate around frame).on part
  prepare setting := (keeps.prepare setting).on part
  number scope := (keeps.number scope).on part

theorem Keeps.down [AllowsEvaluation related] {meaning : Meaning} (keeps : meaning.Keeps related) (branch : Branch) :
    (meaning.down branch).Keeps related :=
  KeepsAmong.down keeps AllowsEvaluation.part

/-! Operands. -/

section Operands

variable [AllowsOperands related]

theorem followPath_keeps (value : Value) : EvalM.Keeps related (followPath value) := by
  refine keeps_node_bind fun world => ?_
  dsimp only
  split
  · exact keeps_pure value world
  · rename_i accessor _
    let remembering : NodeState := .operand world.memory.state.name? (some (accessor.get value).2)
    have remembered : related world { world with memory := world.memory.withState remembering } :=
      AllowsOperands.named (fun name same => same) _
    exact IsTrans.trans _ _ _ remembered (keeps_ofExcept (accessor.get value).1 _)

theorem resolvePath_keeps (path : Option AccessorPath) (root : DataType) (registry : TypeRegistry) :
    EvalM.Keeps related (resolvePath path root registry) := by
  have remember (accessor : Option Accessor) :
      EvalM.Keeps related (do setNode (.operand (← node).name? accessor)) :=
    fun world => AllowsOperands.named (fun name same => same) accessor
  cases path with
  | none => exact (keeps_pure none).bind remember
  | some path => exact ((keeps_ofExcept _).map _).bind remember

theorem takeNumber_keeps (scope : Scope) : EvalM.Keeps related (takeNumber scope) := by
  refine keeps_node_bind fun world => ?_
  split
  · rename_i unnamed
    refine IsTrans.trans _ _ _ (AllowsOperands.numbered world scope) (AllowsOperands.named (fun name same => ?_) _)
    simp [Option.isNone_iff_eq_none.mp unnamed] at same
  · exact keeps_pure () world

theorem member_keeps (path : AccessorPath) : (member path).KeepsAmong such related where
  evaluate _ frame := by
    refine keeps_node.bind fun state => ?_
    dsimp only
    split
    · exact (keeps_throw _).bind fun _ => by split <;> first | exact followPath_keeps _ | exact keeps_pure _
    · split
      · exact followPath_keeps _
      · exact keeps_pure _
  prepare setting := resolvePath_keeps (some path) _ _
  number _ := keeps_pure ()

omit [AllowsOperands related] in
theorem bindValue_keeps [IsPreorder World related] (name : String) (frame : Frame) :
    EvalM.Keeps related (bindValue name frame) := by
  unfold bindValue
  split
  all_goals first | exact keeps_pure _ | exact keeps_readHeap _

theorem bind_keeps (name : Option String) (path : Option AccessorPath) : (bind name path).KeepsAmong such related where
  evaluate _ frame :=
    keeps_node.bind fun state => (bindValue_keeps _ frame).bind fun value => followPath_keeps value
  prepare setting := by
    have resolve : EvalM.Keeps related (do
        let root := if storedName name (← node) == "_currobj" then setting.rowType else .any
        resolvePath path root setting.environment.types) :=
      keeps_node.bind fun _ => resolvePath_keeps path _ _
    unfold bind
    dsimp only
    cases name with
    | none => exact (takeNumber_keeps _).bind fun _ => resolve
    | some name =>
      dsimp only
      split
      · exact (keeps_throw _).bind fun _ => resolve
      · exact resolve
  number scope := by
    unfold bind
    dsimp only
    split
    · exact takeNumber_keeps scope
    · exact keeps_pure ()

theorem save_keeps (name : String) (path : Option AccessorPath) : (save name path).KeepsAmong such related where
  evaluate _ _ := (keeps_readHeap _).bind fun _ => followPath_keeps _
  prepare _ := resolvePath_keeps path .any _
  number _ := keeps_pure ()

end Operands

/-! Predicates that remember what is fixed. -/

section Predicates

variable [AllowsRemembering related] {environment : Environment}

theorem remembered_keeps {part : Meaning} (keeps : part.KeepsIn related environment) (read : NodeState → Option Value)
    {write : Value → NodeState → NodeState} (plain : ∀ value state, (write value state).isStatement = false)
    (frame : Frame) : EvalM.Keeps related (remembered part read write environment frame) := by
  refine keeps_get.bind fun world => ?_
  split
  · exact keeps frame
  · refine keeps_node.bind fun state => ?_
    split
    · exact keeps_pure _
    · exact (keeps frame).bind fun _ => keeps_node.bind fun _ => (keeps_keep (plain _ _)).bind fun _ => keeps_pure _

theorem prepareAnew_keeps {parts : List Meaning} {setting : Setting}
    (keeps : ∀ part ∈ parts, EvalM.Keeps related (part.prepare setting)) :
    EvalM.Keeps related (prepareAnew parts setting) :=
  (keeps_forM keeps).bind fun _ => keeps_keep rfl

theorem between_keepsIn {subject lower upper : Meaning} (negated : Bool) (first : subject.KeepsIn related environment)
    (second : lower.KeepsIn related environment) (third : upper.KeepsIn related environment) :
    (between negated subject lower upper).KeepsIn related environment := by
  intro frame
  exact ((first frame).bind fun _ => (remembered_keeps second _ (fun _ _ => rfl) frame).bind fun _ =>
    (remembered_keeps third _ (fun _ _ => rfl) frame).bind fun _ => keeps_pure _).map _

theorem keptPattern_keeps (place : Nat) (ignoreCase : Bool) (text : String) :
    EvalM.Keeps related (keptPattern place ignoreCase text) := by
  refine keeps_node.bind fun state => ?_
  split
  · exact keeps_pure _
  · refine keeps_node.bind fun state => (keeps_keep ?_).bind fun _ => keeps_pure _
    unfold NodeState.keepPattern
    split <;> rfl

theorem like_keepsIn {subject pattern : Meaning} (negated ignoreCase : Bool)
    (first : subject.KeepsIn related environment) (second : pattern.KeepsIn related environment) :
    (like negated ignoreCase subject pattern).KeepsIn related environment := by
  refine fun frame => EvalM.Keeps.map ((first frame).bind fun value => ?_) _
  dsimp only
  split
  · exact keeps_pure _
  · refine keeps_get.bind fun world => keeps_node.bind fun state => ?_
    split
    · exact keeps_pure _
    · refine (second frame).bind fun written => ?_
      split
      · exact keeps_pure _
      · split
        · exact (keptPattern_keeps _ _ _).bind fun _ => keeps_pure _
        · exact (keeps_pure _).bind fun _ => keeps_pure _

theorem hits_keeps (membership : Membership) (subject alternative : Value) (place : Option Nat) :
    EvalM.Keeps related (membership.hits subject alternative place) := by
  unfold Membership.hits
  split
  · exact keeps_pure _
  · split
    · exact keeps_pure _
    · split
      · exact (keptPattern_keeps _ _ _).bind fun _ => keeps_pure _
      · exact (keeps_pure _).bind fun _ => keeps_pure _

theorem decideAmong_keeps (membership : Membership) (subject : Value) (place : Option Nat)
    (alternatives : List Value) : EvalM.Keeps related (membership.decideAmong subject place alternatives) := by
  induction alternatives with
  | nil => exact keeps_pure none
  | cons alternative rest ih =>
    refine (hits_keeps membership subject alternative place).bind fun hit => ?_
    dsimp only
    split
    · exact keeps_pure _
    · split
      · exact keeps_pure _
      · exact ih

theorem decide_keeps (membership : Membership) (subject : Value) {items : List (Nat × Meaning)}
    (keeps : ∀ item ∈ items, item.2.KeepsIn related environment) (frame : Frame) :
    EvalM.Keeps related (membership.decide subject environment frame items) := by
  induction items with
  | nil => exact keeps_pure _
  | cons item rest ih =>
    refine (keeps item (List.mem_cons_self ..) frame).bind fun value => keeps_get.bind fun world => ?_
    refine (decideAmong_keeps _ _ _ _).bind fun decided => ?_
    split
    · exact keeps_pure _
    · exact ih fun other member => keeps other (List.mem_cons_of_mem _ member)

theorem among_keepsIn {subject : Meaning} {items : List Meaning} (membership : Membership)
    (first : subject.KeepsIn related environment) (keeps : ∀ item ∈ items, item.KeepsIn related environment) :
    (among membership subject items).KeepsIn related environment := by
  have numbered : ∀ item ∈ items.mapIdx fun place item => (place, item), item.2.KeepsIn related environment := by
    intro item member
    obtain ⟨index, inside, rfl⟩ := List.mem_mapIdx.mp member
    exact keeps _ (List.getElem_mem inside)
  exact fun frame => ((first frame).bind fun _ => (decide_keeps membership _ numbered frame).bind fun _ =>
    keeps_pure _).map _

end Predicates

/-! Calls and constructors. -/

section Calls

variable {environment : Environment}

theorem invoke_keeps [IsPreorder World related] (resolution : Resolution) {arguments : List Meaning}
    (keeps : ∀ argument ∈ arguments, argument.KeepsIn related environment) (unresolved : Error)
    (around : environment.Keeps related) (frame : Frame) :
    EvalM.Keeps related (invoke resolution arguments unresolved environment frame) :=
  invoke_conducts (.keeps related) keeps unresolved
    (fun handler found => (handler.keeps_iff related).mp (around handler (List.mem_of_getElem? found)) _) frame

/-- A call keeps what its arguments and the functions around keep. -/
theorem call_keepsIn [AllowsRemembering related] (name : String) {arguments : List Meaning}
    (around : environment.Keeps related) (keeps : ∀ argument ∈ arguments, argument.KeepsIn related environment) :
    (call name arguments).KeepsIn related environment := by
  refine fun frame => keeps_node.bind fun state => ?_
  split
  · exact keeps_pure _
  · refine ((invoke_keeps _ keeps _ around frame).inside _).bind fun value => keeps_get.bind fun world => ?_
    dsimp only
    split
    · exact (keeps_keep rfl).bind fun _ => keeps_pure _
    · exact keeps_pure _
  · exact keeps_throw _

theorem call_prepare_keeps [AllowsRemembering related] (name : String) {arguments : List Meaning} {setting : Setting}
    (keeps : ∀ argument ∈ arguments, EvalM.Keeps related (argument.prepare setting)) :
    EvalM.Keeps related ((call name arguments).prepare setting) := by
  refine (keeps_forM keeps).bind fun _ => keeps_get.bind fun world => ?_
  dsimp only
  split
  · exact keeps_keep rfl
  · exact keeps_throw _

theorem construct_keepsIn [IsPreorder World related] (typeName : String) {arguments : List Meaning}
    {setters : List (Meaning × String)} (keeps : ∀ argument ∈ arguments, argument.KeepsIn related environment)
    (sets : ∀ setter ∈ setters, setter.1.KeepsIn related environment) :
    (construct typeName arguments setters).KeepsIn related environment := by
  intro frame
  refine keeps_node.bind fun state => ?_
  split
  · exact ((coerceArguments_conducts (.keeps related) typeName keeps frame).bind fun _ =>
      (keeps_ofExcept _).bind fun record =>
        (assignSetters_conducts (.keeps related) sets record frame).bind fun _ => keeps_pure _).inside _
  · exact keeps_throw _

theorem construct_prepare_keeps [AllowsRemembering related] (typeName : String) {arguments : List Meaning}
    {setters : List (Meaning × String)} {setting : Setting}
    (keeps : ∀ part ∈ arguments ++ setters.map (·.1), EvalM.Keeps related (part.prepare setting)) :
    EvalM.Keeps related ((construct typeName arguments setters).prepare setting) := by
  refine (keeps_forM keeps).bind fun _ => ?_
  split
  · exact keeps_throw _
  · refine keeps_get.bind fun world => ?_
    dsimp only
    split
    · exact keeps_keep rfl
    · exact keeps_throw _

end Calls

end Meaning

end RecordQuery
