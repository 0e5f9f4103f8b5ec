import RecordQuery.Proofs.Meaning.Parts
import RecordQuery.Query
/-! The statement that a query runs, clause by clause: the meanings of the expressions that are written, each on the
branch of its clause, and all else as it is written. -/

namespace RecordQuery

namespace Statement

variable {ε δ γ : Type}

/-- What is changed by its branch may have been changed without it before. -/
theorem onBranches_map (change : Branch → δ → γ) (f : ε → δ) (statement : Statement ε) :
    (statement.map f).onBranches change = statement.onBranches fun branch expression => change branch (f expression) := by
  have column (branch : Branch) (column : Column ε) :
      (column.map f).map (change branch) = column.map fun expression => change branch (f expression) := rfl
  have order (branch : Branch) (order : OrderBy ε) :
      (order.map f).map (change branch) = order.map fun expression => change branch (f expression) := by
    obtain ⟨key, direction⟩ := order
    cases key <;> rfl
  have source : (statement.source.map f).map (change .source) =
      statement.source.map fun expression => change .source (f expression) := by
    cases statement.source <;> rfl
  have mapped {α β κ : Type} (items : List α) (first : α → β) (next : Nat → β → κ) :
      (items.map first).mapIdx next = items.mapIdx fun index item => next index (first item) :=
    List.ext_getElem (by simp) fun index _ _ => by simp
  simp only [Statement.map, onBranches, mapped, Option.map_map, Function.comp_def, column, order, source]

variable (statement : Statement Expr)

theorem placed_meaning : (statementMeaning statement).placed =
    statement.onBranches fun branch expression => expression.meaning.down branch := by
  rw [statementMeaning_eq_map, placed_eq, onBranches_map]

theorem placed_select : (statementMeaning statement).placed.select =
    statement.select.map (·.mapIdx fun index column => column.map (·.meaning.down (.column index))) := by
  rw [placed_meaning]
  rfl

theorem placed_columns : (statementMeaning statement).placed.columns =
    statement.columns.mapIdx fun index column => column.map (·.meaning.down (.column index)) := by
  rw [columns, placed_select, columns]
  cases statement.select <;> rfl

theorem placed_source : (statementMeaning statement).placed.source =
    statement.source.map (·.meaning.down .source) := by
  rw [placed_meaning]
  rfl

theorem placed_groupBy : (statementMeaning statement).placed.groupBy =
    statement.groupBy.mapIdx fun index expression => expression.meaning.down (.groupBy index) := by
  rw [placed_meaning]
  rfl

theorem placed_groupOrder : (statementMeaning statement).placed.groupOrder =
    statement.groupOrder.mapIdx fun index order => order.map (·.meaning.down (.groupOrder index)) := by
  rw [placed_meaning]
  rfl

theorem placed_orderBy : (statementMeaning statement).placed.orderBy =
    statement.orderBy.mapIdx fun index order => order.map (·.meaning.down (.orderBy index)) := by
  rw [placed_meaning]
  rfl

@[simp] theorem placed_groupLimit : (statementMeaning statement).placed.groupLimit = statement.groupLimit := by
  rw [placed_meaning]
  rfl

@[simp] theorem placed_limit : (statementMeaning statement).placed.limit = statement.limit := by
  rw [placed_meaning]
  rfl

@[simp] theorem placed_distinct : (statementMeaning statement).placed.distinct = statement.distinct := by
  rw [placed_meaning]
  rfl

@[simp] theorem placed_handlers : (statementMeaning statement).placed.handlers = statement.handlers := by
  rw [placed_meaning]
  rfl

end Statement

theorem FunctionRegistry.registered_eq (handlers : List Handler) (registry : FunctionRegistry) :
    handlers.foldl (·.register ·) registry = ⟨registry.own ++ handlers, registry.standard⟩ := by
  induction handlers generalizing registry with
  | nil => rw [List.foldl_nil, List.append_nil]
  | cons handler rest ih => rw [List.foldl_cons, ih, register, List.append_assoc, List.singleton_append]

/-- A query sees the types and functions that its statement brings along, and the standard functions. -/
theorem Query.environment_ofStatement (statement : Statement Expr) : (Query.ofStatement statement).environment =
    ⟨statement.types, statement.handlers, FunctionRegistry.default.standard⟩ := by
  rw [Query.environment, Query.ofStatement, Statement.placed_meaning, Statement.ownEnvironment, Statement.functions,
    FunctionRegistry.registered_eq]
  rfl

end RecordQuery
