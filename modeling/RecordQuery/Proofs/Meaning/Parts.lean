import Mathlib.Data.List.Nodup
import RecordQuery.Proofs.Statement.Expressions
/-! The parts of expressions and of statements in the order of the text, each with the branch on which it remembers. No
two parts of an expression are on one branch, and what passes from its parts to it holds of every expression. -/

namespace RecordQuery

namespace Meaning

/-- Parts, each on a branch. -/
def branched (parts : List (Branch × Meaning)) : List Meaning := parts.map fun part => part.2.down part.1

/-- Parts on numbered branches. -/
def numbered {ε : Type} (parts : List ε) (branch : Nat → Branch) : List (Branch × ε) :=
  parts.mapIdx fun index part => (branch index, part)

theorem branched_numbered (parts : List Meaning) (branch : Nat → Branch) :
    branched (numbered parts branch) = each parts branch := by
  refine List.ext_getElem (by simp [branched, numbered, each]) fun index _ _ => ?_
  simp [branched, numbered, each]

variable {ε δ : Type}

theorem branches_numbered (parts : List ε) (branch : Nat → Branch) :
    (numbered parts branch).map (·.1) = (List.range parts.length).map branch := by
  refine List.ext_getElem (by simp [numbered]) fun index _ _ => ?_
  simp [numbered]

theorem numbered_apart (parts : List ε) {branch : Nat → Branch} (injective : Function.Injective branch) :
    ((numbered parts branch).map (·.1)).Nodup := by
  rw [branches_numbered]
  exact List.nodup_range.map injective

theorem mem_numbered {parts : List ε} {branch : Nat → Branch} {part : Branch × ε}
    (member : part ∈ numbered parts branch) : part.2 ∈ parts := by
  obtain ⟨index, inside, rfl⟩ := List.mem_mapIdx.mp member
  exact List.getElem_mem inside

theorem expressions_numbered (parts : List ε) (branch : Nat → Branch) :
    (numbered parts branch).map (·.2) = parts := by
  refine List.ext_getElem (by simp [numbered]) fun index _ _ => ?_
  simp [numbered]

theorem forall_numbered {parts : List ε} {branch : Nat → Branch} {property : ε → Prop} :
    (∀ part ∈ numbered parts branch, property part.2) ↔ ∀ part ∈ parts, property part := by
  refine ⟨fun every part member => ?_, fun every part member => every part.2 (mem_numbered member)⟩
  rw [← expressions_numbered parts branch] at member
  obtain ⟨found, inside, rfl⟩ := List.mem_map.mp member
  exact every found inside

theorem numbered_sublist (parts : List ε) (branch : Nat → Branch) :
    ((numbered parts branch).map (·.1)).Sublist ((List.range parts.length).map branch) := by
  rw [branches_numbered]

theorem branch_numbered {parts : List ε} {branch : Nat → Branch} {part : Branch × ε}
    (member : part ∈ numbered parts branch) : ∃ index, part.1 = branch index := by
  obtain ⟨index, -, same⟩ := List.mem_map.mp ((numbered_sublist parts branch).subset (List.mem_map_of_mem member))
  exact ⟨index, same.symm⟩

theorem numbered_map (f : ε → δ) (parts : List ε) (branch : Nat → Branch) :
    numbered (parts.map f) branch = (numbered parts branch).map (Prod.map id f) := by
  refine List.ext_getElem (by simp [numbered]) fun index _ _ => ?_
  simp [numbered]

end Meaning

open Meaning

section Orders

variable {ε δ : Type}

/-- Parts of an ordering clause: the entries that are expressions, on numbered branches. -/
def orderParts (orders : List (OrderBy ε)) (branch : Nat → Branch) : List (Branch × ε) :=
  orders.zipIdx.filterMap fun (order, index) =>
    match order.key with
    | .expression meaning => some (branch index, meaning)
    | .column _ => none

theorem branched_orderParts (orders : List (OrderBy Meaning)) (branch : Nat → Branch) :
    Meaning.branched (orderParts orders branch) =
      orderExpressions (orders.mapIdx fun index order => order.down (branch index)) := by
  rw [Meaning.branched, orderParts, List.map_filterMap, orderExpressions, List.mapIdx_eq_zipIdx_map, List.filterMap_map]
  refine List.filterMap_congr fun entry _ => ?_
  obtain ⟨⟨key, direction⟩, index⟩ := entry
  cases key <;> rfl

theorem orderParts_map (f : ε → δ) (orders : List (OrderBy ε)) (branch : Nat → Branch) :
    orderParts (orders.map (·.map f)) branch = (orderParts orders branch).map (Prod.map id f) := by
  rw [orderParts, orderParts, List.zipIdx_map, List.filterMap_map, List.map_filterMap]
  refine List.filterMap_congr fun entry _ => ?_
  obtain ⟨⟨key, direction⟩, index⟩ := entry
  cases key <;> rfl

theorem expressions_orderParts (orders : List (OrderBy ε)) (branch : Nat → Branch) :
    (orderParts orders branch).map (·.2) = orderExpressions orders := by
  have entries : orderExpressions orders = orderExpressions (orders.zipIdx.map (·.1)) := by rw [List.zipIdx_map_fst]
  rw [entries, orderParts, orderExpressions, List.map_filterMap, List.filterMap_map]
  refine List.filterMap_congr fun entry _ => ?_
  obtain ⟨⟨key, direction⟩, index⟩ := entry
  cases key <;> rfl

theorem mem_orderParts {orders : List (OrderBy ε)} {branch : Nat → Branch} {part : Branch × ε}
    (member : part ∈ orderParts orders branch) : part.2 ∈ orderExpressions orders := by
  rw [← expressions_orderParts orders branch]
  exact List.mem_map_of_mem member

theorem branches_orderParts (orders : List (OrderBy ε)) (branch : Nat → Branch) :
    ((orderParts orders branch).map (·.1)).Sublist ((List.range orders.length).map branch) := by
  have all : (List.range orders.length).map branch = orders.zipIdx.map fun entry => branch entry.2 :=
    List.ext_getElem (by simp) fun index _ _ => by simp
  rw [all, orderParts]
  induction orders.zipIdx with
  | nil => exact .slnil
  | cons entry rest ih =>
    obtain ⟨⟨key, direction⟩, index⟩ := entry
    cases key with
    | expression meaning => exact ih.cons_cons _
    | column number => exact ih.cons _

theorem branch_orderParts {orders : List (OrderBy ε)} {branch : Nat → Branch} {part : Branch × ε}
    (member : part ∈ orderParts orders branch) : ∃ index, part.1 = branch index := by
  obtain ⟨index, -, same⟩ := List.mem_map.mp ((branches_orderParts orders branch).subset (List.mem_map_of_mem member))
  exact ⟨index, same.symm⟩

end Orders

/-! Branches that are told apart. -/

/-- Branches that are told apart, of ranks from one on. -/
def RanksFrom (rank : Branch → Nat) (first : Nat) (branches : List Branch) : Prop :=
  branches.Nodup ∧ ∀ branch ∈ branches, first ≤ rank branch

section Ranks

variable {rank : Branch → Nat} {first : Nat} {own others : List Branch}

/-- The branches of one rank before those of later ones. -/
theorem RanksFrom.append (later : RanksFrom rank (first + 1) others) (own : List Branch) (apart : own.Nodup)
    (here : ∀ branch ∈ own, rank branch = first) : RanksFrom rank first (own ++ others) := by
  refine ⟨apart.append later.1 fun branch early late => ?_, fun branch member => ?_⟩
  · have after := later.2 branch late
    rw [here branch early] at after
    omega
  · rcases List.mem_append.mp member with early | late
    · exact Nat.le_of_eq (here branch early).symm
    · exact Nat.le_of_succ_le (later.2 branch late)

theorem RanksFrom.numbered {n : Nat} {branch : Nat → Branch} (later : RanksFrom rank (first + 1) others)
    (numbered : own.Sublist ((List.range n).map branch)) (injective : Function.Injective branch)
    (here : ∀ index, rank (branch index) = first) : RanksFrom rank first (own ++ others) := by
  refine later.append own (numbered.nodup (List.nodup_range.map injective)) fun found member => ?_
  obtain ⟨index, -, rfl⟩ := List.mem_map.mp (numbered.subset member)
  exact here index

/-- One branch, which may be missing, before those of later ranks. -/
theorem RanksFrom.optional {ε : Type} (later : RanksFrom rank (first + 1) others) (part : Option ε) {branch : Branch}
    (here : rank branch = first) : RanksFrom rank first ((part.toList.map fun _ => branch) ++ others) :=
  later.append _ (by cases part <;> simp) (by simp [here])

end Ranks

/-- The place of a branch among those of one expression, or of one statement, in the order of the text. -/
def Branch.rank : Branch → Nat
  | .left | .subject | .argument _ | .column _ => 0
  | .right | .lower | .pattern | .item _ | .setter _ | .source => 1
  | .upper | .filter => 2
  | .groupBy _ => 3
  | .groupOrder _ => 4
  | .having => 5
  | .orderBy _ => 6
  | .onAll _ => 7
  | .onResults _ => 8
  | .reorder _ => 9

/-! The parts of a statement. -/

namespace Statement

variable {ε δ : Type}

/-- The expressions of a statement in the order of its text, each with the branch of its clause. -/
def clauses (statement : Statement ε) : List (Branch × ε) :=
  numbered (statement.columns.map (·.expression)) .column
    ++ (statement.sourceExpression?.toList.map (.source, ·) ++ (statement.filter.toList.map (.filter, ·)
    ++ (numbered statement.groupBy .groupBy ++ (orderParts statement.groupOrder .groupOrder
    ++ (statement.having.toList.map (.having, ·) ++ (orderParts statement.orderBy .orderBy
    ++ (numbered statement.onAll .onAll ++ (numbered statement.onResults .onResults ++ []))))))))

theorem expressions_clauses (statement : Statement ε) :
    statement.clauses.map (·.2) = statement.expressions none := by
  simp [clauses, expressions, expressions_numbered, expressions_orderParts, Function.comp_def]

theorem clauses_apart (statement : Statement ε) : (statement.clauses.map (·.1)).Nodup := by
  have last : RanksFrom Branch.rank 9 [] := ⟨.nil, by simp⟩
  have onResults := last.numbered (numbered_sublist statement.onResults .onResults)
    (fun _ _ => Branch.onResults.inj) fun _ => rfl
  have onAll := onResults.numbered (numbered_sublist statement.onAll .onAll)
    (fun _ _ => Branch.onAll.inj) fun _ => rfl
  have orderBy := onAll.numbered (branches_orderParts statement.orderBy .orderBy)
    (fun _ _ => Branch.orderBy.inj) fun _ => rfl
  have having := orderBy.optional statement.having (rfl : Branch.rank .having = 5)
  have groupOrder := having.numbered (branches_orderParts statement.groupOrder .groupOrder)
    (fun _ _ => Branch.groupOrder.inj) fun _ => rfl
  have groupBy := groupOrder.numbered (numbered_sublist statement.groupBy .groupBy)
    (fun _ _ => Branch.groupBy.inj) fun _ => rfl
  have filter := groupBy.optional statement.filter (rfl : Branch.rank .filter = 2)
  have source := filter.optional statement.sourceExpression? (rfl : Branch.rank .source = 1)
  have columns := source.numbered (numbered_sublist (statement.columns.map (·.expression)) .column)
    (fun _ _ => Branch.column.inj) fun _ => rfl
  simpa [clauses, Function.comp_def] using columns.1

/-- What is told of the branches of all kinds of clauses is told of the branches of a statement. -/
theorem forall_clauses {property : Branch → Prop} {statement : Statement ε}
    (source : ∀ part ∈ statement.sourceExpression?, property .source) (column : ∀ index, property (.column index))
    (filter : property .filter) (groupBy : ∀ index, property (.groupBy index))
    (groupOrder : ∀ index, property (.groupOrder index)) (having : property .having)
    (orderBy : ∀ index, property (.orderBy index)) (onAll : ∀ index, property (.onAll index))
    (onResults : ∀ index, property (.onResults index)) : ∀ part ∈ statement.clauses, property part.1 := by
  have among {n : Nat} {branch : Nat → Branch} (own : ∀ index, property (branch index)) {parts : List (Branch × ε)}
      (listed : (parts.map (·.1)).Sublist ((List.range n).map branch)) : ∀ part ∈ parts, property part.1 := by
    intro part member
    obtain ⟨index, -, found⟩ := List.mem_map.mp (listed.subset (List.mem_map_of_mem member))
    exact found ▸ own index
  have optional {branch : Branch} {clause : Option ε} (own : ∀ part ∈ clause, property branch) :
      ∀ part ∈ clause.toList.map (branch, ·), property part.1 :=
    List.forall_mem_map.mpr fun part member => own part (Option.mem_toList.mp member)
  simp only [clauses, List.forall_mem_append]
  exact ⟨among column (numbered_sublist ..), optional source, optional fun _ _ => filter,
    among groupBy (numbered_sublist ..), among groupOrder (branches_orderParts ..), optional fun _ _ => having,
    among orderBy (branches_orderParts ..), among onAll (numbered_sublist ..), among onResults (numbered_sublist ..),
    List.forall_mem_nil _⟩

theorem clauses_map (f : ε → δ) (statement : Statement ε) :
    (statement.map f).clauses = statement.clauses.map (Prod.map id f) := by
  simp only [clauses, columns_map, sourceExpression?_map, numbered_map]
  simp [Statement.map, numbered_map, orderParts_map, Option.toList_map, Function.comp_def]

/-! Changing the expressions of a statement by their branches. -/

variable {change : Branch → ε → δ}

/-- The statement with each expression changed by the branch of its clause. -/
def onBranches (change : Branch → ε → δ) (statement : Statement ε) : Statement δ :=
  { statement with
    select := statement.select.map (·.mapIdx fun index column => column.map (change (.column index)))
    source := statement.source.map (change .source)
    filter := statement.filter.map (change .filter)
    having := statement.having.map (change .having)
    groupBy := statement.groupBy.mapIdx fun index part => change (.groupBy index) part
    groupOrder := statement.groupOrder.mapIdx fun index order => order.map (change (.groupOrder index))
    orderBy := statement.orderBy.mapIdx fun index order => order.map (change (.orderBy index))
    onAll := statement.onAll.mapIdx fun index part => change (.onAll index) part
    onResults := statement.onResults.mapIdx fun index part => change (.onResults index) part }

theorem placed_eq (statement : Statement Meaning) :
    statement.placed = statement.onBranches fun branch meaning => meaning.down branch := rfl

theorem columns_onBranches (change : Branch → ε → δ) (statement : Statement ε) :
    (statement.onBranches change).columns.map (·.expression) =
      (numbered (statement.columns.map (·.expression)) .column).map fun part => change part.1 part.2 := by
  cases selected : statement.select with
  | none => simp [Statement.columns, onBranches, selected, numbered]
  | some columns =>
    refine List.ext_getElem (by simp [Statement.columns, onBranches, selected, numbered]) fun index _ _ => ?_
    simp [Statement.columns, onBranches, selected, numbered, Column.map]

theorem mapIdx_eq_numbered (parts : List ε) (branch : Nat → Branch) (change : Branch → ε → δ) :
    (parts.mapIdx fun index part => change (branch index) part) =
      (numbered parts branch).map fun part => change part.1 part.2 := by
  refine List.ext_getElem (by simp [numbered]) fun index _ _ => ?_
  simp [numbered]

theorem orderExpressions_mapIdx (orders : List (OrderBy ε)) (branch : Nat → Branch) (change : Branch → ε → δ) :
    orderExpressions (orders.mapIdx fun index order => order.map (change (branch index))) =
      (orderParts orders branch).map fun part => change part.1 part.2 := by
  rw [orderParts, List.map_filterMap, orderExpressions, List.mapIdx_eq_zipIdx_map, List.filterMap_map]
  refine List.filterMap_congr fun entry _ => ?_
  obtain ⟨⟨key, direction⟩, index⟩ := entry
  cases key <;> rfl

theorem expressions_onBranches (change : Branch → ε → δ) (statement : Statement ε) :
    (statement.onBranches change).expressions none = statement.clauses.map fun part => change part.1 part.2 := by
  have optional (clause : Option ε) (branch : Branch) : (clause.map (change branch)).toList =
      (clause.toList.map (branch, ·)).map fun part => change part.1 part.2 := by cases clause <;> rfl
  have source : (statement.onBranches change).sourceExpression? =
      statement.sourceExpression?.map (change .source) := by
    cases found : statement.source <;> simp [onBranches, sourceExpression?, found, Source.map]
  have filter := optional statement.filter .filter
  have having := optional statement.having .having
  have groupBy := mapIdx_eq_numbered statement.groupBy .groupBy change
  have groupOrder := orderExpressions_mapIdx statement.groupOrder .groupOrder change
  have orderBy := orderExpressions_mapIdx statement.orderBy .orderBy change
  have onAll := mapIdx_eq_numbered statement.onAll .onAll change
  have onResults := mapIdx_eq_numbered statement.onResults .onResults change
  simp only [expressions, Option.none_or, columns_onBranches, source, optional, clauses, List.map_append,
    List.append_assoc, List.append_nil]
  simp only [onBranches, filter, having, groupBy, groupOrder, orderBy, onAll, onResults]

/-- The expressions of the placed statement are those of the statement, each down the branch of its clause. -/
theorem expressions_placed (statement : Statement Meaning) :
    statement.placed.expressions none = branched statement.clauses := by
  rw [placed_eq, expressions_onBranches]
  rfl

section Alike

variable {γ : Type} {f : δ → γ} {g : ε → γ}

/-- What does not look at branches makes of a statement what it makes of it without them. -/
theorem map_onBranches (alike : ∀ branch expression, f (change branch expression) = g expression)
    (statement : Statement ε) : (statement.onBranches change).map f = statement.map g := by
  have column (branch : Branch) (column : Column ε) : (column.map (change branch)).map f = column.map g := by
    simp [Column.map, alike]
  have order (branch : Branch) (order : OrderBy ε) : (order.map (change branch)).map f = order.map g := by
    obtain ⟨key, direction⟩ := order
    cases key <;> simp [OrderBy.map, SortKey.map, alike]
  have columns (columns : List (Column ε)) : (columns.mapIdx fun index column =>
      column.map (change (.column index))).map (·.map f) = columns.map (·.map g) :=
    List.ext_getElem (by simp) fun index _ _ => by simp [column]
  have orders (orders : List (OrderBy ε)) (branch : Nat → Branch) : (orders.mapIdx fun index order =>
      order.map (change (branch index))).map (·.map f) = orders.map (·.map g) :=
    List.ext_getElem (by simp) fun index _ _ => by simp [order]
  have parts (parts : List ε) (branch : Nat → Branch) : (parts.mapIdx fun index part =>
      change (branch index) part).map f = parts.map g :=
    List.ext_getElem (by simp) fun index _ _ => by simp [alike]
  have select : (statement.select.map (·.mapIdx fun index column => column.map (change (.column index)))).map
      (·.map (·.map f)) = statement.select.map (·.map (·.map g)) := by
    cases statement.select with
    | none => rfl
    | some own => exact congrArg some (columns own)
  have source : (statement.source.map (change .source)).map f = statement.source.map g := by
    cases statement.source <;> simp [Source.map, alike]
  have optional (branch : Branch) (clause : Option ε) : (clause.map (change branch)).map f = clause.map g := by
    cases clause <;> simp [alike]
  simp only [Statement.map, onBranches, select, source, optional, orders, parts]

/-- Only the expressions of a statement matter to what is made of it. -/
theorem map_congr {f : ε → γ} {statement : Statement ε}
    (alike : ∀ expression ∈ statement.expressions none, f expression = g expression) :
    statement.map f = statement.map g := by
  have column : ∀ column ∈ statement.columns, column.map f = column.map g := by
    intro column member
    have own := alike column.expression (by simp [expressions, List.mem_map_of_mem member])
    simp [Column.map, own]
  have ordered {orders : List (OrderBy ε)} (inside : orderExpressions orders ⊆ statement.expressions none) :
      orders.map (·.map f) = orders.map (·.map g) := by
    refine List.map_congr_left fun order member => ?_
    obtain ⟨key, direction⟩ := order
    cases key with
    | column number => rfl
    | expression own =>
      have found : own ∈ orderExpressions orders := List.mem_filterMap.mpr ⟨_, member, rfl⟩
      simp [OrderBy.map, SortKey.map, alike own (inside found)]
  have optional {clause : Option ε} (inside : clause.toList ⊆ statement.expressions none) :
      clause.map f = clause.map g := by
    cases clause with
    | none => rfl
    | some own => exact congrArg some (alike own (inside (List.mem_singleton_self own)))
  have listed {clause : List ε} (inside : clause ⊆ statement.expressions none) : clause.map f = clause.map g :=
    List.map_congr_left fun expression member => alike expression (inside member)
  have select : statement.select.map (·.map (·.map f)) = statement.select.map (·.map (·.map g)) := by
    cases selected : statement.select with
    | none => rfl
    | some columns =>
      refine congrArg some (List.map_congr_left fun own member => column own ?_)
      rwa [Statement.columns, selected]
  have source : statement.source.map f = statement.source.map g := by
    cases found : statement.source with
    | rows type => rfl
    | expression own =>
      have inside : own ∈ statement.expressions none := by simp [expressions, sourceExpression?, found]
      exact congrArg Source.expression (alike own inside)
  have filter : statement.filter.map f = statement.filter.map g := optional fun _ member => by
    simp only [expressions, List.mem_append, member, true_or, or_true]
  have having : statement.having.map f = statement.having.map g := optional fun _ member => by
    simp only [expressions, List.mem_append, member, true_or, or_true]
  have groupBy : statement.groupBy.map f = statement.groupBy.map g := listed fun _ member => by
    simp only [expressions, List.mem_append, member, true_or, or_true]
  have onAll : statement.onAll.map f = statement.onAll.map g := listed fun _ member => by
    simp only [expressions, List.mem_append, member, true_or, or_true]
  have onResults : statement.onResults.map f = statement.onResults.map g := listed fun _ member => by
    simp only [expressions, List.mem_append, member, or_true]
  have groupOrder : statement.groupOrder.map (·.map f) = statement.groupOrder.map (·.map g) :=
    ordered fun _ member => by simp only [expressions, List.mem_append, member, true_or, or_true]
  have orderBy : statement.orderBy.map (·.map f) = statement.orderBy.map (·.map g) :=
    ordered fun _ member => by simp only [expressions, List.mem_append, member, true_or, or_true]
  simp only [Statement.map, select, source, filter, having, groupBy, groupOrder, orderBy, onAll, onResults]

end Alike

section Size

variable [SizeOf ε]

theorem sizeOf_orderExpression {orders : List (OrderBy ε)} {expression : ε}
    (member : expression ∈ orderExpressions orders) : sizeOf expression < sizeOf orders := by
  obtain ⟨⟨key, direction⟩, inside, found⟩ := List.mem_filterMap.mp member
  have smaller := List.sizeOf_lt_of_mem inside
  cases key <;> cases found
  simp only [OrderBy.mk.sizeOf_spec, SortKey.expression.sizeOf_spec] at smaller
  omega

theorem sizeOf_lt_of_mem {statement : Statement ε} {expression : ε}
    (member : expression ∈ statement.expressions none) : sizeOf expression < sizeOf statement := by
  obtain ⟨select, source, filter, having, groupBy, groupOrder, _, orderBy, _, _, onAll, onResults⟩ := statement
  have optional {clause : Option ε} (inside : expression ∈ clause.toList) : sizeOf expression < sizeOf clause := by
    cases clause with
    | none => cases inside
    | some own =>
      cases List.mem_singleton.mp inside
      simp
  simp only [expressions, Statement.columns, sourceExpression?, Option.none_or, List.mem_append] at member
  simp only [Statement.mk.sizeOf_spec]
  rcases member with
    (((((((inside | inside) | inside) | inside) | inside) | inside) | inside) | inside) | inside
  · obtain ⟨column, listed, rfl⟩ := List.mem_map.mp inside
    cases select with
    | none => cases listed
    | some columns =>
      have smaller := List.sizeOf_lt_of_mem listed
      cases column
      simp only [Column.mk.sizeOf_spec, Option.getD_some] at smaller
      simp only [Option.some.sizeOf_spec]
      omega
  · cases source with
    | rows type => cases inside
    | expression own =>
      cases List.mem_singleton.mp inside
      simp only [Source.expression.sizeOf_spec]
      omega
  · have smaller := optional inside
    omega
  · have smaller := List.sizeOf_lt_of_mem inside
    omega
  · have smaller := sizeOf_orderExpression inside
    omega
  · have smaller := optional inside
    omega
  · have smaller := sizeOf_orderExpression inside
    omega
  · have smaller := List.sizeOf_lt_of_mem inside
    omega
  · have smaller := List.sizeOf_lt_of_mem inside
    omega

end Size

end Statement

/-! The parts of an expression. -/

namespace Expr

/-- The parts of an expression in the order of its text, each with its branch. -/
def parts : Expr → List (Branch × Expr)
  | .constant _ | .member _ | .bind .. | .save .. => []
  | .arithmetic _ left right | .compare _ _ left right | .logical _ left right => [(.left, left), (.right, right)]
  | .negate operand | .not operand | .isNull _ operand => [(.subject, operand)]
  | .between _ subject lower upper => [(.subject, subject), (.lower, lower), (.upper, upper)]
  | .like _ _ subject pattern => [(.subject, subject), (.pattern, pattern)]
  | .among _ _ _ _ subject items => (.subject, subject) :: numbered items .item
  | .call _ arguments => numbered arguments .argument
  | .construct _ arguments setters => numbered arguments .argument ++ numbered (setters.map (·.1)) .setter
  | .subquery statement => statement.clauses

theorem parts_apart (expression : Expr) : (expression.parts.map (·.1)).Nodup := by
  have last (rank : Nat) : RanksFrom Branch.rank rank [] := ⟨.nil, by simp⟩
  cases expression with
  | among _ _ _ _ subject items =>
    have items := (last 2).numbered (numbered_sublist items .item) (fun _ _ => Branch.item.inj) fun _ => rfl
    have subject := items.append [.subject] (List.nodup_singleton _) (by simp [Branch.rank])
    simpa [parts] using subject.1
  | call _ arguments => exact numbered_apart arguments fun _ _ => Branch.argument.inj
  | construct _ arguments setters =>
    have setters := (last 2).numbered (numbered_sublist (setters.map (·.1)) .setter) (fun _ _ => Branch.setter.inj)
      fun _ => rfl
    have arguments := setters.numbered (numbered_sublist arguments .argument) (fun _ _ => Branch.argument.inj)
      fun _ => rfl
    simpa [parts] using arguments.1
  | subquery statement => exact statement.clauses_apart
  | _ => simp [parts]

theorem sizeOf_part_lt (expression : Expr) : ∀ part ∈ expression.parts, sizeOf part.2 < sizeOf expression := by
  cases expression with
  | among _ _ _ _ subject items =>
    rintro ⟨branch, part⟩ member
    rcases List.mem_cons.mp member with same | inside
    · cases same
      simp +arith
    · have smaller : sizeOf part < sizeOf items := List.sizeOf_lt_of_mem (mem_numbered inside)
      simp only [among.sizeOf_spec]
      omega
  | call _ arguments =>
    rintro ⟨branch, part⟩ member
    have smaller : sizeOf part < sizeOf arguments := List.sizeOf_lt_of_mem (mem_numbered member)
    simp only [call.sizeOf_spec]
    omega
  | construct _ arguments setters =>
    rintro ⟨branch, part⟩ member
    simp only [construct.sizeOf_spec]
    rcases List.mem_append.mp member with inside | inside
    · have smaller : sizeOf part < sizeOf arguments := List.sizeOf_lt_of_mem (mem_numbered inside)
      omega
    · obtain ⟨⟨_, property⟩, listed, rfl⟩ := List.mem_map.mp (mem_numbered inside)
      have smaller := List.sizeOf_lt_of_mem listed
      simp only [Prod.mk.sizeOf_spec] at smaller ⊢
      omega
  | subquery statement =>
    intro part member
    have listed : part.2 ∈ statement.expressions none := statement.expressions_clauses ▸ List.mem_map_of_mem member
    have smaller := Statement.sizeOf_lt_of_mem listed
    simp only [subquery.sizeOf_spec]
    omega
  | _ => simp +arith [parts]

/-- What passes from the parts of an expression to it holds of every expression. -/
theorem byParts {property : Expr → Prop}
    (whole : ∀ expression : Expr, (∀ part ∈ expression.parts, property part.2) → property expression)
    (expression : Expr) : property expression :=
  whole expression fun part _ => byParts whole part.2
termination_by sizeOf expression
decreasing_by exact sizeOf_part_lt expression _ ‹_›

end Expr

/-! The meanings of the parts. -/

/-- The meanings of the parts of an expression, each on its branch. -/
def Expr.partMeanings (expression : Expr) : List Meaning :=
  Meaning.branched (expression.parts.map (Prod.map id Expr.meaning))

theorem Meaning.branched_numbered_meanings (expressions : List Expr) (branch : Nat → Branch) :
    branched ((numbered expressions branch).map (Prod.map id Expr.meaning)) = each (meanings expressions) branch := by
  rw [← numbered_map, branched_numbered, meanings_eq_map]

theorem placed_setterMeanings (setters : List (Expr × String)) :
    ((setterMeanings setters).mapIdx fun index (setter, property) =>
      (setter.down (.setter index), property)).map (·.1) = Meaning.each (meanings (setters.map (·.1))) .setter := by
  rw [setterMeanings_eq_map, meanings_eq_map, Meaning.each]
  refine List.ext_getElem (by simp) fun index _ _ => ?_
  simp

namespace Expr

variable (arguments : List Expr)

theorem partMeanings_among (negated ignoreCase like all : Bool) (subject : Expr) (items : List Expr) :
    (among negated ignoreCase like all subject items).partMeanings =
      subject.meaning.down .subject :: Meaning.each (meanings items) .item :=
  congrArg (List.cons _) (Meaning.branched_numbered_meanings items .item)

theorem partMeanings_call (name : String) :
    (call name arguments).partMeanings = Meaning.each (meanings arguments) .argument :=
  Meaning.branched_numbered_meanings arguments .argument

theorem partMeanings_construct (typeName : String) (setters : List (Expr × String)) :
    (construct typeName arguments setters).partMeanings =
      Meaning.each (meanings arguments) .argument ++
        ((setterMeanings setters).mapIdx fun index (setter, property) =>
          (setter.down (.setter index), property)).map (·.1) := by
  rw [placed_setterMeanings, ← Meaning.branched_numbered_meanings, ← Meaning.branched_numbered_meanings]
  exact (congrArg Meaning.branched List.map_append).trans List.map_append

end Expr

/-- The variables that an expression reads are a bind variable or a save value, or what its parts read. -/
theorem Expr.variables_parts (expression : Expr) (memory : Memory) : expression.meaning.variables memory =
    match expression with
    | .bind name _ => [(.bind, Meaning.storedName (name.map normalizeName) memory.state)]
    | .save name _ => [(.save, normalizeName name)]
    | .subquery statement => (Expr.subquery statement).meaning.variables memory
    | expression => expression.partMeanings.flatMap (·.variables memory) := by
  cases expression with
  | among _ _ _ _ subject items => exact congrArg (List.flatMap _) (partMeanings_among ..).symm
  | call name arguments => exact congrArg (List.flatMap _) (partMeanings_call ..).symm
  | construct typeName arguments setters => exact congrArg (List.flatMap _) (partMeanings_construct ..).symm
  | _ => rfl

theorem Statement.expressions_placed_meaning (statement : Statement Expr) :
    (statementMeaning statement).placed.expressions none =
      Meaning.branched (statement.clauses.map (Prod.map id Expr.meaning)) := by
  rw [expressions_placed, statementMeaning_eq_map, clauses_map]

end RecordQuery
