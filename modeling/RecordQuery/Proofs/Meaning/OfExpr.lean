import RecordQuery.Proofs.Function.Keeps
import RecordQuery.Proofs.Meaning.Parts
import RecordQuery.Proofs.Statement.Keeps
/-! Every expression and every statement keeps a relation of worlds that the handlers they bring along keep. -/

namespace RecordQuery

open EvalM

mutual
/-- The handlers that the statements inside an expression bring along. -/
def Expr.handlers : Expr → List Handler
  | .constant _ | .member _ | .bind .. | .save .. => []
  | .arithmetic _ left right | .compare _ _ left right | .logical _ left right => left.handlers ++ right.handlers
  | .negate operand | .not operand | .isNull _ operand => operand.handlers
  | .between _ subject lower upper => subject.handlers ++ lower.handlers ++ upper.handlers
  | .like _ _ subject pattern => subject.handlers ++ pattern.handlers
  | .among _ _ _ _ subject items => subject.handlers ++ handlersOfAll items
  | .call _ arguments => handlersOfAll arguments
  | .construct _ arguments setters => handlersOfAll arguments ++ handlersOfSetters setters
  | .subquery statement => handlersOfStatement statement
termination_by structural expression => expression

def handlersOfAll : List Expr → List Handler
  | [] => []
  | expression :: rest => expression.handlers ++ handlersOfAll rest
termination_by structural expressions => expressions

def handlersOf? : Option Expr → List Handler
  | none => []
  | some expression => expression.handlers
termination_by structural expression => expression

def handlersOfSetters : List (Expr × String) → List Handler
  | [] => []
  | (setter, _) :: rest => setter.handlers ++ handlersOfSetters rest
termination_by structural setters => setters

def handlersOfColumns : List (Column Expr) → List Handler
  | [] => []
  | ⟨expression, _, _⟩ :: rest => expression.handlers ++ handlersOfColumns rest
termination_by structural columns => columns

def handlersOfSelect : Option (List (Column Expr)) → List Handler
  | none => []
  | some columns => handlersOfColumns columns
termination_by structural select => select

def handlersOfOrders : List (OrderBy Expr) → List Handler
  | [] => []
  | ⟨.expression expression, _⟩ :: rest => expression.handlers ++ handlersOfOrders rest
  | ⟨.column _, _⟩ :: rest => handlersOfOrders rest
termination_by structural orders => orders

def handlersOfSource : Source Expr → List Handler
  | .rows _ => []
  | .expression expression => expression.handlers
termination_by structural source => source

/-- The handlers that a statement and the statements inside it bring along. -/
def handlersOfStatement : Statement Expr → List Handler
  | ⟨select, source, filter, having, groupBy, groupOrder, _, orderBy, _, _, onAll, onResults, _, handlers, _, _, _⟩ =>
    handlers ++ handlersOfSelect select ++ handlersOfSource source ++ handlersOf? filter ++ handlersOf? having
      ++ handlersOfAll groupBy ++ handlersOfOrders groupOrder ++ handlersOfOrders orderBy ++ handlersOfAll onAll
      ++ handlersOfAll onResults
termination_by structural statement => statement
end

/-! The handlers inside an expression, by its parts. -/

theorem handlersOfAll_eq (expressions : List Expr) : handlersOfAll expressions = expressions.flatMap Expr.handlers := by
  induction expressions with
  | nil => rfl
  | cons expression rest ih => rw [handlersOfAll, ih, List.flatMap_cons]

theorem handlersOf?_eq (clause : Option Expr) : handlersOf? clause = clause.toList.flatMap Expr.handlers := by
  cases clause <;> simp [handlersOf?]

theorem handlersOfSetters_eq (setters : List (Expr × String)) :
    handlersOfSetters setters = (setters.map (·.1)).flatMap Expr.handlers := by
  induction setters with
  | nil => rfl
  | cons setter rest ih => rw [handlersOfSetters, ih, List.map_cons, List.flatMap_cons]

theorem handlersOfSelect_eq (select : Option (List (Column Expr))) :
    handlersOfSelect select = ((select.getD []).map (·.expression)).flatMap Expr.handlers := by
  cases select with
  | none => rfl
  | some columns =>
    change handlersOfColumns columns = _
    rw [Option.getD_some]
    induction columns with
    | nil => rfl
    | cons column rest ih => rw [handlersOfColumns, ih, List.map_cons, List.flatMap_cons]

theorem handlersOfOrders_eq (orders : List (OrderBy Expr)) :
    handlersOfOrders orders = (orderExpressions orders).flatMap Expr.handlers := by
  induction orders with
  | nil => rfl
  | cons order rest ih =>
    obtain ⟨key, direction⟩ := order
    cases key <;> rw [handlersOfOrders, ih] <;> simp [orderExpressions]

theorem handlers_orderParts {orders : List (OrderBy Expr)} {branch : Nat → Branch} {part : Branch × Expr}
    (member : part ∈ orderParts orders branch) : part.2.handlers ⊆ handlersOfOrders orders := fun _ inside =>
  handlersOfOrders_eq orders ▸ List.mem_flatMap_of_mem (mem_orderParts member) inside

theorem handlersOfSource_eq (statement : Statement Expr) :
    handlersOfSource statement.source = statement.sourceExpression?.toList.flatMap Expr.handlers := by
  unfold Statement.sourceExpression?
  cases statement.source <;> simp [handlersOfSource]

/-- A statement brings its own handlers along, and those inside its expressions. -/
theorem mem_handlersOfStatement {statement : Statement Expr} {handler : Handler} :
    handler ∈ handlersOfStatement statement ↔
      handler ∈ statement.handlers ∨ ∃ expression ∈ statement.expressions none, handler ∈ expression.handlers := by
  have all : handlersOfStatement statement = statement.handlers ++ handlersOfSelect statement.select
      ++ handlersOfSource statement.source ++ handlersOf? statement.filter ++ handlersOf? statement.having
      ++ handlersOfAll statement.groupBy ++ handlersOfOrders statement.groupOrder ++ handlersOfOrders statement.orderBy
      ++ handlersOfAll statement.onAll ++ handlersOfAll statement.onResults := by
    cases statement
    rfl
  simp only [all, handlersOfSelect_eq, handlersOfSource_eq, handlersOf?_eq, handlersOfAll_eq, handlersOfOrders_eq,
    Statement.expressions, Statement.columns, Option.none_or, List.mem_append, List.mem_flatMap, or_assoc, or_and_right,
    exists_or]
  -- HAVING stands behind the groupings in the text, and before them among the fields.
  simp only [or_left_comm, or_comm]

theorem Expr.handlers_part {expression : Expr} : ∀ part ∈ expression.parts, part.2.handlers ⊆ expression.handlers := by
  cases expression with
  | among _ _ _ _ subject items =>
    refine List.forall_mem_cons.mpr ⟨List.subset_append_left .., fun part member handler inside => ?_⟩
    rw [handlers, handlersOfAll_eq]
    exact List.mem_append_right _ (List.mem_flatMap_of_mem (Meaning.mem_numbered member) inside)
  | call _ arguments =>
    intro part member handler inside
    rw [handlers, handlersOfAll_eq]
    exact List.mem_flatMap_of_mem (Meaning.mem_numbered member) inside
  | construct _ arguments setters =>
    intro part member handler inside
    rw [handlers, handlersOfAll_eq, handlersOfSetters_eq]
    rcases List.mem_append.mp member with argument | setter
    · exact List.mem_append_left _ (List.mem_flatMap_of_mem (Meaning.mem_numbered argument) inside)
    · exact List.mem_append_right _ (List.mem_flatMap_of_mem (Meaning.mem_numbered setter) inside)
  | subquery statement =>
    intro part member handler inside
    refine mem_handlersOfStatement.mpr (.inr ⟨part.2, ?_, inside⟩)
    rw [← statement.expressions_clauses]
    exact List.mem_map_of_mem member
  | _ => simp [parts, handlers]

section Meanings

variable {such : Handler → Prop} {related : World → World → Prop}

/-- Whether an expression is a nested statement. -/
def Expr.isSubquery : Expr → Bool
  | .subquery _ => true
  | _ => false

section Plain

variable [AllowsRemembering related] {expression : Expr} (plain : expression.isSubquery = false)
include plain

/-- Evaluating an expression keeps what its parts keep on their branches, and the functions around. -/
theorem Expr.evaluate_keeps {environment : Environment} (around : environment.Keeps related)
    (parts : ∀ part ∈ expression.partMeanings, part.KeepsIn related environment) :
    expression.meaning.KeepsIn related environment := by
  cases expression with
  | constant value => exact fun _ => keeps_pure value
  | member path => exact ((Meaning.member_keeps path).within fun _ _ => trivial : Meaning.KeepsIn related _ _)
  | bind name path => exact ((Meaning.bind_keeps _ path).within fun _ _ => trivial : Meaning.KeepsIn related _ _)
  | save name path => exact ((Meaning.save_keeps _ path).within fun _ _ => trivial : Meaning.KeepsIn related _ _)
  | arithmetic op left right =>
    obtain ⟨first, second⟩ := by simpa [partMeanings, Expr.parts, Meaning.branched] using parts
    exact Meaning.arithmetic_conducts (.keeps related) op first second
  | compare op ignoreCase left right =>
    obtain ⟨first, second⟩ := by simpa [partMeanings, Expr.parts, Meaning.branched] using parts
    exact Meaning.compare_conducts (.keeps related) op ignoreCase first second
  | negate operand => exact Meaning.negate_conducts (.keeps related) (parts _ (List.mem_singleton_self _))
  | not operand => exact Meaning.not_conducts (.keeps related) (parts _ (List.mem_singleton_self _))
  | logical op left right =>
    obtain ⟨first, second⟩ := by simpa [partMeanings, Expr.parts, Meaning.branched] using parts
    exact Meaning.logical_conducts (.keeps related) op first second
  | isNull negated operand =>
    exact Meaning.isNull_conducts (.keeps related) negated (parts _ (List.mem_singleton_self _))
  | between negated subject lower upper =>
    obtain ⟨first, second, third⟩ := by simpa [partMeanings, Expr.parts, Meaning.branched] using parts
    exact Meaning.between_keepsIn negated first second third
  | like negated ignoreCase subject pattern =>
    obtain ⟨first, second⟩ := by simpa [partMeanings, Expr.parts, Meaning.branched] using parts
    exact Meaning.like_keepsIn negated ignoreCase first second
  | among negated ignoreCase like all subject items =>
    obtain ⟨first, others⟩ := List.forall_mem_cons.mp (partMeanings_among .. ▸ parts)
    exact Meaning.among_keepsIn _ first others
  | call name arguments => exact Meaning.call_keepsIn name around (partMeanings_call .. ▸ parts)
  | construct typeName arguments setters =>
    obtain ⟨first, second⟩ := List.forall_mem_append.mp (partMeanings_construct .. ▸ parts)
    exact Meaning.construct_keepsIn typeName first fun setter member => second setter.1 (List.mem_map_of_mem member)
  | subquery statement => cases plain

/-- Resolving an expression keeps what resolving its parts keeps on their branches. -/
theorem Expr.prepare_keeps {setting : Setting}
    (parts : ∀ part ∈ expression.partMeanings, EvalM.Keeps related (part.prepare setting)) :
    EvalM.Keeps related (expression.meaning.prepare setting) := by
  cases expression with
  | constant value => exact keeps_pure ()
  | member path => exact Meaning.resolvePath_keeps (some path) _ _
  | bind name path => exact (Meaning.bind_keeps _ path : Meaning.KeepsAmong (fun _ => True) related _).prepare setting
  | save name path => exact Meaning.resolvePath_keeps path _ _
  | arithmetic | compare | negate | not | logical | isNull => exact keeps_forM parts
  | between | like => exact Meaning.prepareAnew_keeps parts
  | among => exact Meaning.prepareAnew_keeps (partMeanings_among .. ▸ parts)
  | call name arguments => exact Meaning.call_prepare_keeps name (partMeanings_call .. ▸ parts)
  | construct typeName arguments setters =>
    exact Meaning.construct_prepare_keeps typeName (partMeanings_construct .. ▸ parts)
  | subquery statement => cases plain

/-- Numbering the variables in an expression keeps what numbering those in its parts keeps on their branches. -/
theorem Expr.number_keeps {scope : Scope}
    (parts : ∀ part ∈ expression.partMeanings, EvalM.Keeps related (part.number scope)) :
    EvalM.Keeps related (expression.meaning.number scope) := by
  cases expression with
  | constant value => exact keeps_pure ()
  | member path => exact keeps_pure ()
  | bind name path => exact (Meaning.bind_keeps _ path : Meaning.KeepsAmong (fun _ => True) related _).number scope
  | save name path => exact keeps_pure ()
  | arithmetic | compare | negate | not | logical | isNull | between | like => exact keeps_forM parts
  | among => exact keeps_forM (partMeanings_among .. ▸ parts)
  | call name arguments => exact keeps_forM (partMeanings_call .. ▸ parts)
  | construct typeName arguments setters => exact keeps_forM (partMeanings_construct .. ▸ parts)
  | subquery statement => cases plain

end Plain

/-- An expression keeps a relation if its parts do on their branches, and if such handlers are those that it brings
along and the standard ones. -/
theorem Expr.meaning_keepsAmong [AllowsNode related] [AllowsExecution related]
    (sound : ∀ handler : Handler, such handler → handler.Keeps related)
    (standard : ∀ handler ∈ FunctionRegistry.default.handlers, such handler) {expression : Expr}
    (brought : ∀ handler ∈ expression.handlers, such handler)
    (parts : ∀ part ∈ expression.partMeanings, part.KeepsAmong such related) :
    expression.meaning.KeepsAmong such related := by
  by_cases nested : ∃ statement, expression = .subquery statement
  · obtain ⟨statement, rfl⟩ := nested
    refine Meaning.subquery_keepsAmong ?_ standard fun handler member => ?_
    · rw [Statement.Every, Statement.expressions_placed_meaning]
      exact parts
    · rw [statementMeaning_eq_map] at member
      exact brought handler (mem_handlersOfStatement.mpr (.inl member))
  · have plain : expression.isSubquery = false := by
      cases expression with
      | subquery statement => exact absurd ⟨statement, rfl⟩ nested
      | _ => rfl
    exact ⟨fun around => evaluate_keeps plain (fun handler member => sound handler (around handler member))
        fun part member => (parts part member).within around,
      fun setting => prepare_keeps plain fun part member => (parts part member).prepare setting,
      fun scope => number_keeps plain fun part member => (parts part member).number scope⟩

end Meanings

/-- A statement keeps the relation wherever its expressions remember. -/
theorem Statement.placed_keeps {related : World → World → Prop} [AllowsStatements related]
    {statement : Statement Meaning}
    (keeps : statement.Keeps related) : statement.placed.Keeps related :=
  ⟨keeps.expressions.placed fun _ branch kept => kept.down branch, keeps.handlers⟩

/-- An expression keeps the relation if the handlers inside it do. -/
theorem Expr.meaning_keeps {related : World → World → Prop} [AllowsStatements related] (expression : Expr) :
    (∀ handler ∈ expression.handlers, handler.Keeps related) → expression.meaning.Keeps related := by
  induction expression using Expr.byParts with
  | whole expression ih =>
    intro keeps
    refine expression.meaning_keepsAmong (fun _ keeps => keeps) AllowsStatements.standard keeps ?_
    intro _ member
    obtain ⟨_, found, rfl⟩ := List.mem_map.mp member
    obtain ⟨part, inside, rfl⟩ := List.mem_map.mp found
    exact (ih part inside fun handler found => keeps handler (handlers_part part inside found)).down part.1

/-- A statement keeps the relation if the handlers that it and the statements inside it bring along do. -/
theorem statementMeaning_keeps {related : World → World → Prop} [AllowsStatements related] (statement : Statement Expr)
    (keeps : ∀ handler ∈ handlersOfStatement statement, handler.Keeps related) :
    (statementMeaning statement).Keeps related := by
  refine ⟨fun meaning member => ?_, fun handler member => ?_⟩
  · rw [statementMeaning_eq_map, Statement.expressions_map] at member
    obtain ⟨expression, inside, rfl⟩ := List.mem_map.mp member
    exact expression.meaning_keeps fun handler found =>
      keeps handler (mem_handlersOfStatement.mpr (.inr ⟨expression, inside, found⟩))
  · rw [statementMeaning_eq_map] at member
    exact keeps handler (mem_handlersOfStatement.mpr (.inl member))

instance : AllowsStatements World.Extends where
  standard := standard_keep

end RecordQuery
