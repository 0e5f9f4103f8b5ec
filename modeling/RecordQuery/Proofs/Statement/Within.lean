import RecordQuery.Proofs.Meaning.Mirroring
import RecordQuery.Proofs.Statement.Naming
import RecordQuery.Proofs.Statement.Unvarying
/-! A statement within a whole one, which it leaves some of the grouping and ordering out of. Where the whole one can be
made ready so can it, and it then does the same with variables of the same values, though by other numbers. -/

namespace RecordQuery

open EvalM

theorem Memory.descend_append (memory : Memory) (place rest : List Branch) :
    memory.descend (place ++ rest) = (memory.descend place).descend rest := by
  induction place generalizing memory with
  | nil => rfl
  | cons branch place ih => exact ih _

namespace Statement

/-! The names of variables. -/

/-- The name that a bind variable at a place of a statement goes by: its own, or its number in the order of the text. -/
def bindName (statement : Statement Expr) (place : List Branch) (name : Option String) : String :=
  (name.map normalizeName).getD (anonymousName ((statementScript statement).places.idxOf place + 1))

/-- The bind variables of a statement have the values that those at the same places of a whole one have. -/
def SameBinds (statement whole : Statement Expr) (binds wholeBinds : NameTable Value) : Prop :=
  ∀ place name path, statement.Contains place (.bind name path) →
    wholeBinds.bound (whole.bindName place name) = binds.bound (statement.bindName place name)

/-- Nothing is remembered of a statement but the numbers of its variables without a name. -/
structure Numbered (statement : Statement Expr) (memory : Memory) : Prop where
  unnamed {place : List Branch} {path : Option AccessorPath} (stands : statement.Contains place (.bind none path)) :
    (memory.descend place).state = .operand (some (statement.bindName place none)) none
  others {place : List Branch} {expression : Expr} (stands : statement.Contains place expression)
    (other : ∀ path, expression ≠ .bind none path) : (memory.descend place).state = .fresh

variable {statement whole : Statement Expr} {scope : Scope}

/-- Only the node of the statement itself stands at no place in it. -/
theorem Contains.ne_nil {place : List Branch} {expression : Expr} (stands : statement.Contains place expression) :
    place ≠ [] := by
  cases stands <;> simp

theorem Contains.not_mem_places {place : List Branch} {expression : Expr} (stands : statement.Contains place expression)
    (other : ∀ path, expression ≠ .bind none path) : place ∉ (statementScript statement).places := by
  have own : place ++ [] ∈ _ ↔ _ := stands.mem_places
  rw [List.append_nil, Expr.places_script other] at own
  exact fun inside => not_mem_placesBelow expression.parts (own.mp inside)

/-- Numbering a statement that nothing is remembered of leaves the variables, and remembers their numbers. -/
theorem number_of_fresh (statement : Statement Expr) {world : World}
    (present : world.heap.root scope < world.heap.stores.length) (uncounted : world.heap.numbered scope = 0)
    (fresh : ∀ branch, world.memory.child branch = .empty) :
    ∃ left, Meaning.forEach ((statementMeaning statement).placed.expressions none) (·.number scope) world = .ok () left ∧
      world.heap.SameTables left.heap ∧ statement.Numbered left.memory := by
  have unseen {place : List Branch} (below : place ≠ []) : (world.memory.descend place).state = .fresh := by
    obtain ⟨branch, place, rfl⟩ := List.exists_cons_of_ne_nil below
    rw [Memory.descend, fresh, Memory.descend_empty]
    rfl
  obtain ⟨left, ran, numbers⟩ := statement.placed_numbers scope world present fun place inside => by
    obtain ⟨path, stands⟩ := Contains.mem_places_iff.mp inside
    rw [World.nameAt, unseen stands.ne_nil]
    rfl
  refine ⟨left, ran, numbers.tables, fun {place path} stands => ?_, fun stands other => ?_⟩
  · have inside := Contains.mem_places_iff.mpr ⟨path, stands⟩
    have before : (statementScript statement).places.idxOf place < (statementScript statement).places.length :=
      List.idxOf_lt_length_of_mem inside
    have named : left.nameAt place = some (statement.bindName place none) := by
      have listed := congrArg (·[(statementScript statement).places.idxOf place]?) numbers.named
      rw [uncounted] at listed
      simpa [before, bindName, Nat.add_comm] using listed
    have path := numbers.paths place inside
    rw [unseen stands.ne_nil] at path
    unfold World.nameAt at named
    cases found : (left.memory.descend place).state with
    | operand name accessor =>
      rw [found] at named path
      cases named
      cases path
      rfl
    | _ =>
      rw [found] at named
      cases named
  · exact (numbers.others _ (stands.not_mem_places other)).trans (unseen stands.ne_nil)

/-- What holds throughout the expressions of a statement holds of all that stand in it. -/
theorem Contains.throughout {such : Expr → Prop}
    (every : ∀ expression ∈ statement.expressions none, expression.Throughout such) {place : List Branch}
    {expression : Expr} (stands : statement.Contains place expression) : expression.Throughout such := by
  induction stands with
  | clause inside => exact every _ (statement.expressions_clauses ▸ List.mem_map_of_mem inside)
  | part _ inside ih =>
    obtain ⟨_, below⟩ := ih
    exact below _ inside

/-- Variables have the same values if those of these names have, and those without a name, number by number. -/
theorem sameBinds_of_names {binds binds' : NameTable Value} {names : List String}
    (among : ∀ expression ∈ statement.expressions none,
      expression.Throughout fun part => ∀ name path, part = .bind (some name) path → name ∈ names)
    (named : ∀ name ∈ names, binds.bound (normalizeName name) = binds'.bound (normalizeName name))
    (unnamed : ∀ place ∈ (statementScript statement).places,
      binds.bound (whole.bindName place none) = binds'.bound (statement.bindName place none)) :
    statement.SameBinds whole binds' binds := by
  intro place name path stands
  cases name with
  | none => exact unnamed place (Contains.mem_places_iff.mpr ⟨path, stands⟩)
  | some name =>
    obtain ⟨own, _⟩ := stands.throughout among
    exact named name (own name path rfl)

/-! What is remembered alike. -/

/-- A statement and a whole one with the same scope: the names of a variable stand for each other. -/
def mirror (statement whole : Statement Expr) (scope : Scope) : Mirror where
  environment := (Query.ofStatement whole).environment
  scope
  pairs name name' := ∃ place written path, statement.Contains place (.bind written path) ∧
    name = whole.bindName place written ∧ name' = statement.bindName place written

/-- Variables that have the same values, and the same save values. -/
def SameBinds.tables {binds binds' : NameTable Value} (same : statement.SameBinds whole binds' binds) (scope : Scope)
    (saves : NameTable Value) : (statement.mirror whole scope).Tables where
  binds
  binds'
  saves
  values := by
    rintro _ _ ⟨place, written, path, stands, rfl, rfl⟩
    exact same place written path stands

theorem sameBinds_empty (statement whole : Statement Expr) : statement.SameBinds whole .empty .empty :=
  fun _ _ _ _ => rfl

theorem sameBinds_self (whole : Statement Expr) (binds : NameTable Value) : whole.SameBinds whole binds binds :=
  fun _ _ _ _ => rfl

/-- Where variables are numbered and nothing else has been done, the same is remembered. -/
theorem Numbered.shows (part : ∀ place expression, statement.Contains place expression → whole.Contains place expression)
    {memory memory' : Memory} (numbered : whole.Numbered memory) (numbered' : statement.Numbered memory')
    {place : List Branch} {expression : Expr} (stands : statement.Contains place expression) :
    (statement.mirror whole scope).Shows expression (memory.descend place) (memory'.descend place) := by
  induction expression using Expr.byParts generalizing place with
  | whole expression ih =>
    have stands' := part place expression stands
    refine .whole ?_ fun other inside => ?_
    · by_cases unnamed : ∃ path, expression = .bind none path
      · obtain ⟨path, rfl⟩ := unnamed
        rw [numbered.unnamed stands', numbered'.unnamed stands]
        exact ⟨⟨rfl, rfl⟩, ⟨place, none, path, stands, rfl, rfl⟩, fun _ => ⟨_, _, rfl, rfl⟩⟩
      · have other (path) (same : expression = .bind none path) : False := unnamed ⟨path, same⟩
        rw [numbered.others stands' other, numbered'.others stands other]
        cases expression with
        | bind written path =>
          cases written with
          | none => exact absurd rfl (other path)
          | some written => exact ⟨⟨rfl, rfl⟩, ⟨place, some written, path, stands, rfl, rfl⟩, nofun⟩
        | call _ _ => exact ⟨rfl, nofun⟩
        | _ => rfl
    · have below := ih other inside (stands.part inside)
      rwa [Memory.descend_append, Memory.descend_append] at below

/-! Statements within others. -/

/-- The statement without what groups and orders its rows. -/
def unordered {ε : Type} (statement : Statement ε) : Statement ε :=
  { statement with groupBy := [], groupOrder := [], groupLimit := none, orderBy := [] }

/-- A statement is a whole one, but that it need not group rows, and can order them by columns that there are. -/
structure Within (statement whole : Statement Expr) : Prop where
  rest : statement.unordered = whole.unordered
  groups : (statement.groupBy = whole.groupBy ∧ statement.groupOrder = whole.groupOrder ∧
      statement.groupLimit = whole.groupLimit) ∨
    statement.groupBy = [] ∧ statement.groupOrder = [] ∧ statement.groupLimit = none
  order : statement.orderBy = whole.orderBy ∨ orderExpressions statement.orderBy = [] ∧
    ∃ entries, sortSources (statementMeaning statement).placed.select (statementMeaning statement).placed.orderBy =
      .ok entries

theorem Within.refl (whole : Statement Expr) : whole.Within whole := ⟨rfl, .inl ⟨rfl, rfl, rfl⟩, .inl rfl⟩

/-- What does not depend on what groups and orders rows is the same. -/
theorem Within.congr {α : Type} (within : statement.Within whole) (f : Statement Expr → α)
    (independent : ∀ other, f other.unordered = f other) : f statement = f whole := by
  rw [← independent statement, within.rest, independent]

/-- The expressions that group and order rows stand on branches of their own. -/
theorem clause_of_branch {branch : Branch} {expression : Expr} (member : (branch, expression) ∈ statement.clauses) :
    match branch with
    | .groupBy _ => (branch, expression) ∈ Meaning.numbered statement.groupBy .groupBy
    | .groupOrder _ => (branch, expression) ∈ orderParts statement.groupOrder .groupOrder
    | .orderBy _ => (branch, expression) ∈ orderParts statement.orderBy .orderBy
    | _ => True := by
  simp only [clauses, List.mem_append, List.mem_map, Prod.mk.injEq, List.not_mem_nil, or_false] at member
  rcases member with own | ⟨_, _, rfl, _⟩ | ⟨_, _, rfl, _⟩ | own | own | ⟨_, _, rfl, _⟩ | own | own | own
  · obtain ⟨index, rfl⟩ := Meaning.branch_numbered own
    trivial
  · trivial
  · trivial
  · obtain ⟨index, rfl⟩ := Meaning.branch_numbered own
    exact own
  · obtain ⟨index, rfl⟩ := branch_orderParts own
    exact own
  · trivial
  · obtain ⟨index, rfl⟩ := branch_orderParts own
    exact own
  · obtain ⟨index, rfl⟩ := Meaning.branch_numbered own
    trivial
  · obtain ⟨index, rfl⟩ := Meaning.branch_numbered own
    trivial

/-- A clause of the statement has the parts that it has in the whole one, or the statement leaves them all out. -/
def Leaves (statement : Statement Expr) (parts wholeParts : List (Branch × Expr)) : Prop :=
  parts = wholeParts ∧ parts ⊆ statement.clauses ∨ parts = [] ∧ ∀ part ∈ wholeParts, part ∉ statement.clauses

theorem Leaves.subset {parts wholeParts : List (Branch × Expr)} (leaves : statement.Leaves parts wholeParts) :
    parts ⊆ wholeParts := by
  rcases leaves with ⟨rfl, -⟩ | ⟨rfl, -⟩
  · exact List.Subset.refl _
  · exact List.nil_subset _

section Within

variable (within : statement.Within whole)
include within

theorem Within.groupBy : statement.Leaves (Meaning.numbered statement.groupBy .groupBy)
    (Meaning.numbered whole.groupBy .groupBy) := by
  rcases within.groups with ⟨same, -, -⟩ | ⟨none, -, -⟩
  · exact .inl ⟨by rw [same], fun part member => by simp [clauses, member]⟩
  · refine .inr ⟨by rw [none]; rfl, fun part member kept => ?_⟩
    obtain ⟨branch, expression⟩ := part
    obtain ⟨index, rfl⟩ := Meaning.branch_numbered member
    have own := clause_of_branch kept
    rw [none] at own
    cases own

theorem Within.groupOrder : statement.Leaves (orderParts statement.groupOrder .groupOrder)
    (orderParts whole.groupOrder .groupOrder) := by
  rcases within.groups with ⟨-, same, -⟩ | ⟨-, none, -⟩
  · exact .inl ⟨by rw [same], fun part member => by simp [clauses, member]⟩
  · refine .inr ⟨by rw [none]; rfl, fun part member kept => ?_⟩
    obtain ⟨branch, expression⟩ := part
    obtain ⟨index, rfl⟩ := branch_orderParts member
    have own := clause_of_branch kept
    rw [none] at own
    cases own

theorem Within.orderBy : statement.Leaves (orderParts statement.orderBy .orderBy)
    (orderParts whole.orderBy .orderBy) := by
  rcases within.order with same | ⟨none, -⟩
  · exact .inl ⟨by rw [same], fun part member => by simp [clauses, member]⟩
  · have left : orderParts statement.orderBy .orderBy = [] :=
      List.map_eq_nil_iff.mp ((expressions_orderParts statement.orderBy .orderBy).trans none)
    refine .inr ⟨left, fun part member kept => ?_⟩
    obtain ⟨branch, expression⟩ := part
    obtain ⟨index, rfl⟩ := branch_orderParts member
    have own := clause_of_branch kept
    rw [left] at own
    cases own

theorem Within.clauses : statement.clauses ⊆ whole.clauses := by
  have columns := within.congr Statement.columns fun _ => rfl
  have source := within.congr Statement.sourceExpression? fun _ => rfl
  have filter := within.congr Statement.filter fun _ => rfl
  have having := within.congr Statement.having fun _ => rfl
  have onAll := within.congr Statement.onAll fun _ => rfl
  have onResults := within.congr Statement.onResults fun _ => rfl
  have groupBy := within.groupBy.subset
  have groupOrder := within.groupOrder.subset
  have orderBy := within.orderBy.subset
  intro part member
  simp only [Statement.clauses, columns, source, filter, having, onAll, onResults, List.mem_append] at member ⊢
  exact member.imp id <| .imp id <| .imp id <| .imp (groupBy ·) <| .imp (groupOrder ·) <| .imp id <|
    .imp (orderBy ·) id

theorem Within.expressions : statement.expressions none ⊆ whole.expressions none := by
  rw [← statement.expressions_clauses, ← whole.expressions_clauses]
  exact List.map_subset _ within.clauses

/-- What stands in the statement stands at the same place in the whole one. -/
theorem Within.contains {place : List Branch} {expression : Expr} (stands : statement.Contains place expression) :
    whole.Contains place expression := by
  induction stands with
  | clause inside => exact .clause (within.clauses inside)
  | part _ inside ih => exact .part ih inside

theorem Within.environment : (Query.ofStatement statement).environment = (Query.ofStatement whole).environment := by
  rw [Query.environment_ofStatement, Query.environment_ofStatement, within.congr Statement.types fun _ => rfl,
    within.congr Statement.handlers fun _ => rfl]

theorem Within.quiet {unread : List String} (quiet : whole.IsQuiet unread) : statement.IsQuiet unread := by
  intro expression member
  rw [within.congr Statement.handlers fun _ => rfl]
  refine quiet expression ?_
  rw [← expressions_clauses] at member ⊢
  exact List.map_subset _ within.clauses member

theorem Within.parts (ofRows : (statementMeaning whole).sourceExpression? = none) :
    (statementMeaning statement).parts ⊆ (statementMeaning whole).parts := by
  intro part member
  refine mem_parts_of_clauses ofRows ?_
  have present := mem_clauses_of_parts member
  rw [statementMeaning_eq_map, clauses_map] at present ⊢
  exact List.map_subset _ within.clauses present

/-- What is settled of the whole statement is so of the statement. -/
theorem Within.settled {unread : List String} {base : Memory} (settled : whole.QuietOver unread base) :
    statement.QuietOver unread base where
  ofRows := by
    have source := within.congr (fun other => (other.map Expr.meaning).sourceExpression?) fun _ => rfl
    have whole := settled.ofRows
    rw [statementMeaning_eq_map] at whole ⊢
    exact source.trans whole
  quiet := within.quiet settled.quiet
  prepared := within.environment ▸ settled.prepared.fewer (within.parts settled.ofRows)
  reads part member := settled.reads part (within.clauses member)

theorem Within.since {base memory : Memory} (ofRows : (statementMeaning whole).sourceExpression? = none)
    (since : (statementMeaning whole).Since (Query.ofStatement whole).environment base memory) :
    (statementMeaning statement).Since (Query.ofStatement statement).environment base memory :=
  within.environment ▸ since.fewer (within.parts ofRows)

end Within

/-! Making both ready. -/

/-- Prepares expressions, each on its branch. -/
def prepareParts (place : Branch → String) (setting : Setting) (parts : List (Branch × Expr)) : EvalM Unit :=
  parts.forM fun part => ((part.2.meaning.prepare setting).on part.1).inside (place part.1)

/-- What is wrong with a column is told by its number. -/
def columnPlace : Branch → String
  | .column index => "column " ++ toString (index + 1)
  | _ => ""

theorem checkGroups_agrees (statement : Statement Meaning) (related : World → World → Prop) :
    Agrees related statement.checkGroups := by
  have checked : Agrees related (discard (EvalM.ofExcept (groupSources statement.groupBy statement.groupOrder))) :=
    (agrees_ofExcept _).bind fun _ => agrees_pure _
  unfold checkGroups
  split
  · split
    · exact (agrees_throw _).bind fun _ => checked
    · exact checked
  · exact agrees_pure ()

theorem prepareClause_parts (place : String) (setting : Setting) (parts : List (Branch × Expr)) :
    prepareClause place setting (Meaning.branched (parts.map (Prod.map id Expr.meaning))) =
      prepareParts (fun _ => place) setting parts := by
  rw [prepareClause, prepareParts, Meaning.branched, List.map_map, List.forM_eq_forM, List.forM_map]
  rfl

theorem prepareColumns_parts (setting : Setting) (statement : Statement Expr) :
    prepareColumns setting (statementMeaning statement).placed.columns =
      prepareParts columnPlace setting (Meaning.numbered (statement.columns.map (·.expression)) .column) := by
  rw [prepareColumns, prepareParts, List.forM_eq_forM, List.forM_eq_forM]
  have placed : (statementMeaning statement).placed.columns.zipIdx =
      statement.columns.zipIdx.map fun entry => (entry.1.map (·.meaning.down (.column entry.2)), entry.2) := by
    rw [placed_columns]
    exact List.ext_getElem (by simp) fun index _ _ => by simp
  have parts : Meaning.numbered (statement.columns.map (·.expression)) .column =
      statement.columns.zipIdx.map fun entry => (.column entry.2, entry.1.expression) :=
    List.ext_getElem (by simp [Meaning.numbered]) fun index _ _ => by simp [Meaning.numbered]
  rw [placed, parts, List.forM_map, List.forM_map]
  rfl

/-- After the numbering, a statement is prepared clause by clause, and checked. -/
theorem resolve_placed (statement : Statement Expr) (setting : Setting) :
    (statementMeaning statement).placed.resolve setting = (do
      EvalM.ofExcept (checkSplice (statementMeaning statement).placed.columns)
      prepareParts columnPlace setting (Meaning.numbered (statement.columns.map (·.expression)) .column)
      prepareParts (fun _ => "where clause") setting (statement.filter.toList.map (.filter, ·))
      prepareParts (fun _ => "having clause") setting (statement.having.toList.map (.having, ·))
      prepareParts (fun _ => "group by") setting (Meaning.numbered statement.groupBy .groupBy)
      prepareParts (fun _ => "order by") setting (orderParts statement.orderBy .orderBy)
      prepareParts (fun _ => "execute on") setting
        (Meaning.numbered statement.onAll .onAll ++ Meaning.numbered statement.onResults .onResults)
      prepareParts (fun _ => "group by order by") { setting with rowType := .any }
        (orderParts statement.groupOrder .groupOrder)
      discard (EvalM.ofExcept (sortSources (statementMeaning statement).placed.select
        (statementMeaning statement).placed.orderBy))
      (statementMeaning statement).placed.checkGroups) := by
  have optional (clause : Option Expr) (branch : Branch) :
      ((clause.map Expr.meaning).map (·.down branch)).toList =
        Meaning.branched ((clause.toList.map (branch, ·)).map (Prod.map id Expr.meaning)) := by cases clause <;> rfl
  have numbered (expressions : List Expr) (branch : Nat → Branch) :
      Meaning.each (expressions.map Expr.meaning) branch =
        Meaning.branched ((Meaning.numbered expressions branch).map (Prod.map id Expr.meaning)) := by
    rw [← Meaning.numbered_map, Meaning.branched_numbered]
  have ordered (orders : List (OrderBy Expr)) (branch : Nat → Branch) :
      orderExpressions ((orders.map (·.map Expr.meaning)).mapIdx fun index order => order.down (branch index)) =
        Meaning.branched ((orderParts orders branch).map (Prod.map id Expr.meaning)) := by
    rw [← orderParts_map, branched_orderParts]
  have filter : (statement.map Expr.meaning).placed.filter.toList = _ := optional statement.filter .filter
  have having : (statement.map Expr.meaning).placed.having.toList = _ := optional statement.having .having
  have groupBy : (statement.map Expr.meaning).placed.groupBy = _ := numbered statement.groupBy .groupBy
  have orderBy : orderExpressions (statement.map Expr.meaning).placed.orderBy = _ := ordered statement.orderBy .orderBy
  have onAll : (statement.map Expr.meaning).placed.onAll = _ := numbered statement.onAll .onAll
  have onResults : (statement.map Expr.meaning).placed.onResults = _ := numbered statement.onResults .onResults
  have groupOrder : orderExpressions (statement.map Expr.meaning).placed.groupOrder = _ :=
    ordered statement.groupOrder .groupOrder
  have onRows : (statement.map Expr.meaning).placed.onAll ++ (statement.map Expr.meaning).placed.onResults =
      Meaning.branched ((Meaning.numbered statement.onAll .onAll ++
        Meaning.numbered statement.onResults .onResults).map (Prod.map id Expr.meaning)) := by
    rw [onAll, onResults, Meaning.branched, Meaning.branched, ← List.map_append, ← List.map_append]
    rfl
  have columns := prepareColumns_parts setting statement
  rw [statementMeaning_eq_map] at columns ⊢
  unfold resolve checkGroups
  rw [columns, filter, having, orderBy, onRows, groupOrder]
  simp only [prepareClause_parts]
  rw [groupBy, prepareClause_parts]

/-- Two worlds in which the same is remembered of a statement and of the whole one, with the same variables. What the
whole one remembers besides is as if it was remembered twice. -/
structure Beside (same : statement.SameBinds whole binds binds) (scope : Scope) (saves : NameTable Value)
    (world world' : World) : Prop where
  both : Mirror.Worlds (same.tables scope saves) (fun _ _ => True) statement.clauses world world'
  own : Mirror.Worlds ((whole.sameBinds_self binds).tables scope saves) (fun _ _ => True) whole.clauses world world

/-- Each part is prepared alike by itself. -/
theorem prepare_part_agrees (tables : (statement.mirror whole scope).Tables) {setting : Setting}
    (around : setting.environment = (Query.ofStatement whole).environment) (inside : setting.scope = scope)
    {part : Branch × Expr} (member : part ∈ statement.clauses)
    (bare : part.2.Throughout fun part => part.isBare = true) :
    Agrees (Mirror.Worlds tables (fun _ _ => True) statement.clauses) ((part.2.meaning.prepare setting).on part.1) :=
  Mirror.agrees_on statement.clauses_apart member (Mirror.prepare_agrees around inside bare)

section Checks

variable (within : statement.Within whole)
include within

/-- Where the whole statement can be ordered, so can the statement. -/
theorem Within.sorts {entries : List (SortSource × Direction)}
    (sorted : sortSources (statementMeaning whole).placed.select (statementMeaning whole).placed.orderBy = .ok entries) :
    ∃ entries', sortSources (statementMeaning statement).placed.select (statementMeaning statement).placed.orderBy =
      .ok entries' := by
  rcases within.order with equal | ⟨-, sorts⟩
  · refine ⟨entries, ?_⟩
    rw [← sorted, statementMeaning_eq_map, statementMeaning_eq_map]
    have select := within.congr (fun other => (other.map Expr.meaning).placed.select) fun _ => rfl
    have orderBy : (statement.map Expr.meaning).placed.orderBy = (whole.map Expr.meaning).placed.orderBy := by
      simp only [placed, map, equal]
    rw [select, orderBy]
  · exact sorts

/-- Where the whole statement can be grouped, so can the statement. -/
theorem Within.checkGroups_carries {alike : World → World → Prop} :
    Carries alike (statementMeaning whole).placed.checkGroups (statementMeaning statement).placed.checkGroups
      fun _ _ => True := by
  have agrees := (statementMeaning whole).placed.checkGroups_agrees
  rcases within.groups with ⟨groupBy, groupOrder, groupLimit⟩ | ⟨groupBy, groupOrder, groupLimit⟩
  · have equal : (statementMeaning statement).placed.checkGroups = (statementMeaning whole).placed.checkGroups := by
      rw [statementMeaning_eq_map, statementMeaning_eq_map]
      simp only [checkGroups, placed, map, groupBy, groupOrder, groupLimit]
      rfl
    rw [equal]
    exact (agrees alike).carries.mono fun _ _ _ => trivial
  · have none : (statementMeaning statement).placed.checkGroups = pure () := by
      rw [statementMeaning_eq_map]
      simp [checkGroups, placed, map, groupOrder, groupLimit]
    rw [none]
    exact carries_leave agrees

end Checks

section Beside

variable {binds saves : NameTable Value} {same : statement.SameBinds whole binds binds} (within : statement.Within whole)
  (bare : ∀ part ∈ whole.clauses, part.2.Throughout fun part => part.isBare = true) {setting : Setting}
  (around : setting.environment = (Query.ofStatement whole).environment) (inside : setting.scope = scope)
include within bare around inside

/-- A part of the statement is prepared alike. -/
theorem prepare_carries {part : Branch × Expr} (member : part ∈ statement.clauses) :
    Carries (Beside same scope saves) ((part.2.meaning.prepare setting).on part.1)
      ((part.2.meaning.prepare setting).on part.1) fun _ _ => True := by
  have known := within.clauses member
  intro world world' value left begins ran
  have both := prepare_part_agrees (same.tables scope saves) around inside member (bare part known)
  have own := prepare_part_agrees ((whole.sameBinds_self binds).tables scope saves) around inside known (bare part known)
  obtain ⟨_, left', ran', ends, -⟩ := both.carries begins.both ran
  obtain ⟨_, _, ran'', ends', -⟩ := own.carries begins.own ran
  cases ran.symm.trans ran''
  exact ⟨(), left', ran', ⟨ends, ends'⟩, trivial⟩

/-- A part that the statement leaves out is prepared aside. -/
theorem prepare_skips {part : Branch × Expr} (member : part ∈ whole.clauses) (left : part ∉ statement.clauses) :
    Carries (Beside same scope saves) ((part.2.meaning.prepare setting).on part.1) (pure ()) fun _ _ => True := by
  intro world world' value after begins ran
  have own := prepare_part_agrees ((whole.sameBinds_self binds).tables scope saves) around inside member
    (bare part member)
  obtain ⟨_, _, ran', ends, -⟩ := own.carries begins.own ran
  cases ran.symm.trans ran'
  refine ⟨(), world', rfl, ⟨⟨ends.holds, begins.both.holds', trivial, fun other kept => ?_⟩, ends⟩, trivial⟩
  obtain ⟨_, -, rfl⟩ := on_ok ran
  have apart : other.1 ≠ part.1 := fun twin => by
    cases List.inj_on_of_nodup_map whole.clauses_apart (within.clauses kept) member twin
    exact left kept
  dsimp only
  rw [Memory.child_setChild, if_neg apart]
  exact begins.both.parts other kept

theorem prepareParts_carries (place : Branch → String) {parts wholeParts : List (Branch × Expr)}
    (leaves : statement.Leaves parts wholeParts) (known : wholeParts ⊆ whole.clauses) :
    Carries (Beside same scope saves) (prepareParts place setting wholeParts) (prepareParts place setting parts)
      fun _ _ => True := by
  rcases leaves with ⟨rfl, kept⟩ | ⟨rfl, left⟩
  · exact Carries.forM fun part member => (prepare_carries within bare around inside (kept member)).inside _ _
  · exact Carries.skips fun part member =>
      (prepare_skips within bare around inside (known member) (left part member)).inside _ ""

/-- Where the clauses of the whole statement can be prepared, so can those of the statement. -/
theorem resolve_carries : Carries (Beside same scope saves) ((statementMeaning whole).placed.resolve setting)
    ((statementMeaning statement).placed.resolve setting) fun _ _ => True := by
  have spliced : (statementMeaning statement).placed.columns = (statementMeaning whole).placed.columns := by
    rw [statementMeaning_eq_map, statementMeaning_eq_map]
    exact within.congr (fun other => (other.map Expr.meaning).placed.columns) fun _ => rfl
  have clause (place : Branch → String) {parts wholeParts : List (Branch × Expr)} (equal : parts = wholeParts)
      (kept : parts ⊆ statement.clauses) : Carries (Beside same scope saves) (prepareParts place setting wholeParts)
        (prepareParts place setting parts) fun _ _ => True :=
    prepareParts_carries within bare around inside place (.inl ⟨equal, kept⟩)
      fun part member => within.clauses (kept (equal ▸ member))
  rw [resolve_placed, resolve_placed, spliced]
  refine carries_ofExcept_bind fun _ _ => ?_
  refine (clause _ (within.congr (fun other => Meaning.numbered (other.columns.map (·.expression)) .column)
    fun _ => rfl) fun part member => by simp [clauses, member]).bind fun _ _ _ => ?_
  refine (clause _ (within.congr (fun other => other.filter.toList.map (.filter, ·)) fun _ => rfl)
    fun part member => by simp only [clauses, List.mem_append, member, true_or, or_true]).bind fun _ _ _ => ?_
  refine (clause _ (within.congr (fun other => other.having.toList.map (.having, ·)) fun _ => rfl)
    fun part member => by simp only [clauses, List.mem_append, member, true_or, or_true]).bind fun _ _ _ => ?_
  refine (prepareParts_carries within bare around inside _ within.groupBy
    fun part member => by simp [clauses, member]).bind fun _ _ _ => ?_
  refine (prepareParts_carries within bare around inside _ within.orderBy
    fun part member => by simp [clauses, member]).bind fun _ _ _ => ?_
  refine (clause _ (within.congr (fun other =>
    Meaning.numbered other.onAll .onAll ++ Meaning.numbered other.onResults .onResults) fun _ => rfl)
    fun part member => by
      rcases List.mem_append.mp member with onAll | onResults
      · simp [clauses, onAll]
      · simp [clauses, onResults]).bind fun _ _ _ => ?_
  let ofGroups : Setting := { setting with rowType := .any }
  have around' : ofGroups.environment = (Query.ofStatement whole).environment := around
  refine (prepareParts_carries within bare around' inside _ within.groupOrder
    fun part member => by simp [clauses, member]).bind fun _ _ _ => ?_
  exact (carries_check fun _ sorted => within.sorts sorted).bind fun _ _ _ => within.checkGroups_carries

end Beside

end Statement

end RecordQuery
