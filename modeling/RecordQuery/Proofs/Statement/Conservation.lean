import RecordQuery.Proofs.Meaning.Subquery
import RecordQuery.Proofs.Meaning.Types
import RecordQuery.Proofs.Statement.GroupStage
/-! What executing a statement leaves alone. The standard functions set save values that were not set and nothing else,
and a group stage puts save values back that there were, so bind variables stay and save values are only added. -/

namespace RecordQuery

namespace Heap

/-- The bind variables of the stores are as they were, and each save value that was set has the value that it had. -/
structure Conserves (before after : Heap) : Prop extends Retains before after where
  binds {id : StoreId} (inside : id < before.stores.length) : (after.store id).binds = (before.store id).binds

instance : IsPreorder Heap Conserves where
  refl heap := ⟨refl heap, fun _ => rfl⟩
  trans _ _ _ first second := ⟨IsTrans.trans _ _ _ first.toRetains second.toRetains, fun inside =>
    (second.binds (Nat.lt_of_lt_of_le inside first.size)).trans (first.binds inside)⟩

variable {before heap : Heap}

theorem SameTables.conserves (tables : before.SameTables heap) : before.Conserves heap :=
  ⟨tables.retains, fun _ => tables.same _ .bind⟩

theorem conserves_opened (statement : Statement Meaning) (heap : Heap) :
    heap.Conserves (statement.newScope heap).2 :=
  ⟨heap.retains_opened statement, fun inside => heap.table_opened statement inside .bind⟩

/-- Setting a save value leaves the bind variables. -/
theorem Conserves.save (conserved : before.Conserves heap) {scope : Scope} {name : String}
    (absent : before.saveValue? scope name = none) (value : Value) :
    before.Conserves (heap.set scope .save name value) := by
  refine ⟨conserved.toRetains.set absent value, fun {id} inside => ?_⟩
  have kept := heap.store_set scope .save name value id .bind
  rw [if_neg (by simp)] at kept
  exact kept.trans (conserved.binds inside)

theorem Conserves.restore (conserved : before.Conserves heap) (scope : Scope) :
    before.Conserves (heap.replaceSaves scope (before.rootStore scope).saves) := by
  refine ⟨conserved.toRetains.restore scope, fun {id} inside => ?_⟩
  have kept := heap.store_replaceSaves scope (before.rootStore scope).saves id .bind
  rw [if_neg (by simp)] at kept
  exact kept.trans (conserved.binds inside)

section Scopes

variable {scope : Scope} (conserved : before.Conserves heap)
include conserved

/-- A scope whose store was there sees the same bind variables. -/
theorem Conserves.get?_bind (present : before.root scope < before.stores.length) (name : String) :
    heap.get? scope .bind name = before.get? scope .bind name := by
  unfold Heap.get? Heap.rootStore VariableStore.table
  rw [conserved.root, conserved.binds present]

theorem Conserves.saveValue? {name : String} {value : Value} (set : before.saveValue? scope name = some value) :
    heap.saveValue? scope name = some value := by
  unfold Heap.saveValue? Heap.get? Heap.rootStore at set ⊢
  rw [conserved.root]
  exact conserved.kept set

end Scopes

end Heap

/-- The bind variables of a world are those of a later one, and its save values are among those there. -/
def World.Conserves (before after : World) : Prop := before.heap.Conserves after.heap

instance : IsPreorder World World.Conserves where
  refl world := refl world.heap
  trans _ _ _ first second := IsTrans.trans (r := Heap.Conserves) _ _ _ first second

instance : AllowsEvaluation World.Conserves where
  remembered world _ := refl world.heap
  part below := below
  opened statement world := Heap.conserves_opened statement world.heap
  numbered world scope := (world.heap.sameTables_nextAnonymous scope).conserves
  watched world scope kind names := (world.heap.sameTables_watch scope kind names).conserves
  released world subscriptions := (world.heap.sameTables_release subscriptions).conserves
  lowered world id subscriptions := (world.heap.sameTables_lower id subscriptions).conserves

instance : AllowsFunctions World.Conserves where
  saved later _ _ absent value := later.save absent value
  accessed world _ := refl world.heap

instance : AllowsStatements World.Conserves where
  timed world _ := refl world.heap
  restored later scope := later.restore scope
  standard := standard_keep

namespace Query

/-- Executing leaves the state of the statement as it is. -/
theorem execute_keeps_node {statement : Statement Expr} {world : World} {state : StatementState} {nesting : Nesting}
    (opened : world.memory.state = .statement state nesting) (rows : List Value) :
    (((Query.ofStatement statement).execute rows).after world).memory.state = .statement state nesting := by
  have keeps (frame : Frame) := Statement.execute_keeps
    ((statementMeaning statement).placed_keepsIn_node (Query.ofStatement statement).environment) frame
  rw [EvalM.after, execute, Statement.executeReady, EvalM.bind_of_ok (Statement.opened_of_node opened), ← opened]
  dsimp only
  cases state.initialized
  · rfl
  · exact keeps _ world

/-- However executing a statement of standard functions ends, on whatever rows, the statement works on the variables
that it worked on before; through each scope there is, the same bind variables are seen as before, and each save value
that was set has the value that it had. -/
theorem execute_conserves {statement : Statement Expr} (brought : handlersOfStatement statement = []) {world : World}
    {state : StatementState} {nesting : Nesting} (opened : world.memory.state = .statement state nesting)
    (rows : List Value) :
    let left := ((Query.ofStatement statement).execute rows).after world
    left.memory.state = .statement state nesting ∧
      ∀ scope, world.heap.root scope < world.heap.stores.length →
        (∀ name, left.heap.get? scope .bind name = world.heap.get? scope .bind name) ∧
          ∀ name value, world.heap.saveValue? scope name = some value →
            left.heap.saveValue? scope name = some value := by
  intro left
  have keeps : (Query.ofStatement statement).statement.Keeps World.Conserves :=
    Statement.placed_keeps (statementMeaning_keeps statement (by simp [brought]))
  have conserved : world.heap.Conserves left.heap :=
    Statement.executeReady_keeps (keeps.within (Statement.ownEnvironment_keeps keeps)) rows none world
  refine ⟨execute_keeps_node opened rows, fun scope present => ⟨conserved.get?_bind present, ?_⟩⟩
  intro name value set
  exact conserved.saveValue? set

/-- Whether the query is ready, and works on a store that there is. -/
def isReady (world : World) : Bool :=
  match world.memory.state with
  | .statement state _ => state.initialized && decide (world.heap.root state.scope < world.heap.stores.length)
  | _ => false

theorem exists_state_of_isReady {world : World} (ready : isReady world = true) :
    ∃ state nesting, world.memory.state = .statement state nesting ∧ state.initialized = true ∧
      world.heap.root state.scope < world.heap.stores.length := by
  unfold isReady at ready
  cases found : world.memory.state with
  | statement state nesting =>
    rw [found] at ready
    obtain ⟨initialized, present⟩ := Bool.and_eq_true_iff.mp ready
    exact ⟨state, nesting, rfl, initialized, of_decide_eq_true present⟩
  | _ =>
    rw [found] at ready
    cases ready

/-- Rows are counted and then negated, and one of them cannot be. -/
theorem execute_conserves_on_tally :
    let world := ((Query.ofStatement tally).setVariable "limit" (.int32 3)).after Tally.ready
    let left := ((Query.ofStatement tally).execute [.int32 1, .string "b"]).after world
    handlersOfStatement tally = [] ∧
      ∃ state nesting, state.initialized = true ∧ world.memory.state = .statement state nesting ∧
        world.heap.root state.scope < world.heap.stores.length ∧
        left.memory.state = .statement state nesting ∧
        left.heap.get? state.scope .bind "limit" = world.heap.get? state.scope .bind "limit" := by
  intro world left
  obtain ⟨state, nesting, opened, initialized, present⟩ :=
    exists_state_of_isReady (by decide +kernel : isReady world = true)
  have conserved := @execute_conserves tally rfl world state nesting opened [.int32 1, .string "b"]
  exact ⟨rfl, state, nesting, initialized, opened, present, conserved.1, (conserved.2 _ present).1 "limit"⟩

end Query

end RecordQuery
