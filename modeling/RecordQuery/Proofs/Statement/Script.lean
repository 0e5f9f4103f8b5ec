import RecordQuery.Proofs.Meaning.Parts
import RecordQuery.Query
/-! Where the variables without a name stand in a text. A script is a text in pieces, each `?` in it with the way down
the memory to the node of its variable; it follows the text of expressions and statements clause by clause. -/

namespace RecordQuery

/-- A piece of a text: some text, or the `?` of a variable without a name, with the place of its node. -/
inductive Piece where
  | text (words : String)
  | unnamed (place : List Branch)
deriving DecidableEq

namespace Piece

@[simp] def shown : Piece → String
  | .text words => words
  | .unnamed _ => "?"

def place? : Piece → Option (List Branch)
  | .text _ => none
  | .unnamed place => some place

/-- The piece seen from above a branch. -/
def under (branch : Branch) : Piece → Piece
  | .text words => .text words
  | .unnamed place => .unnamed (branch :: place)

end Piece

abbrev Script := List Piece

namespace Script

/-- The text that is written. -/
def text (script : Script) : String := script.foldr (fun piece rest => piece.shown ++ rest) ""

/-- The places of the variables without a name, from left to right. -/
def places (script : Script) : List (List Branch) := script.filterMap Piece.place?

def under (script : Script) (branch : Branch) : Script := script.map (Piece.under branch)

/-- Scripts with commas between them. -/
def commas (scripts : List Script) : Script := List.intercalate [.text ", "] scripts

/-- Scripts on numbered branches. -/
def each (scripts : List Script) (branch : Nat → Branch) : List Script :=
  scripts.mapIdx fun index script => script.under (branch index)

@[simp] theorem text_nil : text [] = "" := rfl

@[simp] theorem text_cons (piece : Piece) (script : Script) : text (piece :: script) = piece.shown ++ text script := rfl

@[simp] theorem text_append (first second : Script) : text (first ++ second) = text first ++ text second := by
  induction first with
  | nil => rw [List.nil_append, text_nil, String.empty_append]
  | cons piece rest ih => rw [List.cons_append, text_cons, ih, text_cons, String.append_assoc]

@[simp] theorem text_under (script : Script) (branch : Branch) : (script.under branch).text = script.text := by
  induction script with
  | nil => rfl
  | cons piece rest ih =>
    change (piece.under branch).shown ++ (under rest branch).text = _
    rw [ih]
    cases piece <;> rfl

@[simp] theorem text_commas (scripts : List Script) : (commas scripts).text = ", ".intercalate (scripts.map text) := by
  unfold commas
  induction scripts with
  | nil => rfl
  | cons first rest ih =>
    cases rest with
    | nil => simp
    | cons second others =>
      simp [List.intercalate_cons_cons, String.intercalate_cons_cons, ih, String.append_assoc]

@[simp] theorem places_nil : places [] = [] := rfl

@[simp] theorem places_text (text : String) (script : Script) : places (.text text :: script) = places script := rfl

@[simp] theorem places_unnamed (place : List Branch) (script : Script) :
    places (.unnamed place :: script) = place :: places script := rfl

@[simp] theorem places_append (first second : Script) : places (first ++ second) = places first ++ places second :=
  List.filterMap_append

@[simp] theorem places_under (script : Script) (branch : Branch) :
    (script.under branch).places = script.places.map (branch :: ·) := by
  rw [places, under, List.filterMap_map, places, List.map_filterMap]
  refine List.filterMap_congr fun piece _ => ?_
  cases piece <;> rfl

@[simp] theorem places_commas (scripts : List Script) : (commas scripts).places = scripts.flatMap places := by
  unfold commas
  induction scripts with
  | nil => rfl
  | cons first rest ih =>
    cases rest with
    | nil => simp
    | cons second others => simp [List.intercalate_cons_cons, ih]

theorem each_eq (scripts : List Script) (branch : Nat → Branch) :
    each scripts branch = (Meaning.numbered scripts branch).map fun part => part.2.under part.1 := by
  refine List.ext_getElem (by simp [each, Meaning.numbered]) fun index _ _ => ?_
  simp [each, Meaning.numbered]

end Script

open Script

/-! The script of a statement over scripts. -/

def Column.script (column : Column Script) : Script :=
  .text (if column.splice then "[*] " else "") :: column.expression
    ++ [.text ((column.alias.map (" AS " ++ ·)).getD "")]

def OrderBy.script (order : OrderBy Script) : Script :=
  (match order.key with
    | .expression script => script
    | .column number => [.text (toString number)]) ++ [.text order.direction.text]

/-- A clause with its items between commas; nothing without items. -/
def clauseScript (keyword : String) (items : List Script) : Script :=
  if items.isEmpty then [] else .text keyword :: commas items

namespace Script

theorem text_clauseScript (keyword : String) (items : List Script) :
    (clauseScript keyword items).text = clauseText keyword (items.map Script.text) := by
  unfold clauseScript clauseText
  cases items <;> simp 

theorem text_optional (keyword : String) (clause : Option Script) :
    text ((clause.map ([.text keyword] ++ ·)).getD []) = ((clause.map Script.text).map (keyword ++ ·)).getD "" := by
  cases clause <;> simp 

theorem texts_columns (columns : List (Column Script)) :
    (columns.map Column.script).map Script.text = (columns.map (·.map Script.text)).map Column.text := by
  rw [List.map_map, List.map_map]
  refine List.map_congr_left fun column _ => ?_
  cases column
  simp [Column.script, Column.text, Column.map, String.append_assoc]

theorem texts_orders (orders : List (OrderBy Script)) :
    (orders.map OrderBy.script).map Script.text = (orders.map (·.map Script.text)).map OrderBy.text := by
  rw [List.map_map, List.map_map]
  refine List.map_congr_left fun order _ => ?_
  obtain ⟨key, direction⟩ := order
  cases key <;> simp [OrderBy.script, OrderBy.text, OrderBy.map, SortKey.map]

theorem text_single (words : String) : text [.text words] = words := String.append_empty

/-! The places in them. -/

theorem places_clauseScript (keyword : String) (items : List Script) :
    (clauseScript keyword items).places = items.flatMap Script.places := by
  unfold clauseScript
  cases items <;> simp

theorem places_optional (keyword : String) (clause : Option Script) :
    places ((clause.map ([.text keyword] ++ ·)).getD []) = clause.toList.flatMap places := by
  cases clause <;> simp

theorem places_orders (orders : List (OrderBy Script)) :
    (orders.map OrderBy.script).flatMap Script.places = (orderExpressions orders).flatMap Script.places := by
  induction orders with
  | nil => rfl
  | cons order rest ih =>
    obtain ⟨key, direction⟩ := order
    cases key <;> simp_all [OrderBy.script, orderExpressions]

end Script

namespace Statement

/-- The columns, or a star for the rows themselves. -/
def selectScript (statement : Statement Script) : Script :=
  match statement.select with
  | none => [.text "*"]
  | some columns => commas (columns.map Column.script)

def sourceScript (statement : Statement Script) : Script :=
  match statement.source with
  | .expression script => script
  | .rows .any => [.text "null"]
  | .rows type => [.text type.text]

/-- The script of a statement, from the scripts of its expressions. -/
def script (statement : Statement Script) : Script :=
  [.text "SELECT "] ++ [.text (if statement.distinct then "DISTINCT " else "")] ++ statement.selectScript
    ++ [.text " FROM "] ++ statement.sourceScript
    ++ (statement.filter.map ([.text " WHERE "] ++ ·)).getD []
    ++ clauseScript " GROUP BY " statement.groupBy
    ++ clauseScript " GROUP BY ORDER BY " (statement.groupOrder.map OrderBy.script)
    ++ [.text ((statement.groupLimit.map (" GROUP BY " ++ ·.text)).getD "")]
    ++ (statement.having.map ([.text " HAVING "] ++ ·)).getD []
    ++ clauseScript " ORDER BY " (statement.orderBy.map OrderBy.script)
    ++ [.text ((statement.limit.map (" " ++ ·.text)).getD "")]
    ++ clauseScript " EXECUTE ON ALL " statement.onAll
    ++ clauseScript " EXECUTE ON RESULTS " statement.onResults

/-- What a statement writes of its columns. -/
def selectText (statement : Statement String) : String :=
  match statement.select with
  | none => "*"
  | some columns => ", ".intercalate (columns.map Column.text)

/-- What a statement writes of its rows. -/
def sourceText (statement : Statement String) (source : Option String) : String :=
  match source, statement.source with
  | some text, _ | none, .expression text => text
  | none, .rows .any => "null"
  | none, .rows type => type.text

/-- A script writes the text of its statement. -/
theorem text_script (statement : Statement Script) : statement.script.text = (statement.map Script.text).text none := by
  have selected : statement.selectScript.text = (statement.map Script.text).selectText := by
    unfold selectScript selectText Statement.map
    cases statement.select with
    | none => rfl
    | some columns => exact (text_commas _).trans (congrArg _ (texts_columns columns))
  have sourced : statement.sourceScript.text = (statement.map Script.text).sourceText none := by
    unfold sourceScript sourceText Statement.map Source.map
    cases statement.source with
    | expression script => rfl
    | rows type => cases type <;> exact text_single _
  have groupOrder := texts_orders statement.groupOrder
  have orderBy := texts_orders statement.orderBy
  simp only [script, text_append, text_single, text_clauseScript, text_optional, selected, sourced, groupOrder, orderBy]
  rfl

/-- The variables of a statement stand in its expressions, in the order of its text. -/
theorem places_script (statement : Statement Script) :
    statement.script.places = (statement.expressions none).flatMap Script.places := by
  have selected : statement.selectScript.places = (statement.columns.map (·.expression)).flatMap Script.places := by
    unfold selectScript Statement.columns
    cases statement.select with
    | none => rfl
    | some columns => simp [Column.script, List.flatMap_map]
  have sourced : statement.sourceScript.places = statement.sourceExpression?.toList.flatMap Script.places := by
    unfold sourceScript sourceExpression?
    cases statement.source with
    | expression script => simp
    | rows type => cases type <;> rfl
  simp only [script, places_append, places_text, places_nil, List.nil_append, selected, sourced,
    places_optional, places_clauseScript, places_orders, expressions, Option.none_or, List.flatMap_append,
    List.append_assoc]

end Statement

/-! The scripts of expressions. -/

mutual
/-- The text of an expression with the places of its variables without a name. -/
def Expr.script : Expr → Script
  | .constant value => [.text value.quoted]
  | .member path => [.text path.text]
  | .bind none path => [.unnamed [], .text (Meaning.pathSuffix path)]
  | .bind (some name) path => [.text (":" ++ normalizeName name ++ Meaning.pathSuffix path)]
  | .save name path => [.text ("@" ++ normalizeName name ++ Meaning.pathSuffix path)]
  | .arithmetic op left right =>
    left.script.under .left ++ [.text (" " ++ op.symbol ++ " ")] ++ right.script.under .right
  | .compare op ignoreCase left right =>
    left.script.under .left ++ [.text (" " ++ (if ignoreCase then "$" else "") ++ op.symbol ++ " ")]
      ++ right.script.under .right
  | .negate operand => [.text "-"] ++ operand.script.under .subject
  | .not operand => [.text "NOT "] ++ operand.script.under .subject
  | .logical op left right =>
    left.script.under .left ++ [.text (" " ++ op.symbol ++ " ")] ++ right.script.under .right
  | .isNull negated operand =>
    operand.script.under .subject ++ [.text (if negated then " IS NOT NULL" else " IS NULL")]
  | .between negated subject lower upper =>
    subject.script.under .subject ++ [.text ((if negated then " NOT" else "") ++ " BETWEEN ")]
      ++ lower.script.under .lower ++ [.text " AND "] ++ upper.script.under .upper
  | .like negated ignoreCase subject pattern =>
    subject.script.under .subject
      ++ [.text (" " ++ (if negated then "NOT " else "") ++ (if ignoreCase then "$" else "") ++ "LIKE ")]
      ++ pattern.script.under .pattern
  | .among negated ignoreCase like all subject items =>
    subject.script.under .subject
      ++ [.text (" " ++ (if negated then "NOT " else "") ++ (if ignoreCase then "$" else "") ++ "IN "
        ++ (if like then "LIKE " else "") ++ (if all then "ALL " else "") ++ "(")]
      ++ commas (each (scripts items) .item) ++ [.text ")"]
  | .call name arguments => [.text (name ++ "(")] ++ commas (each (scripts arguments) .argument) ++ [.text ")"]
  | .construct typeName arguments setters =>
    [.text ("new " ++ typeName ++ "(")] ++ commas (each (scripts arguments) .argument) ++ [.text ")"]
      ++ (if setters.isEmpty then []
          else [.text " \x7b"] ++ commas ((setterScripts setters).mapIdx fun index (script, property) =>
            script.under (.setter index) ++ [.text (" -> " ++ property)]) ++ [.text "\x7d"])
  | .subquery statement => [.text "("] ++ statementScript statement ++ [.text ")"]
termination_by structural expression => expression

def scripts : List Expr → List Script
  | [] => []
  | expression :: rest => expression.script :: scripts rest
termination_by structural expressions => expressions

def scriptOf? : Option Expr → Option Script
  | none => none
  | some expression => some expression.script
termination_by structural expression => expression

def setterScripts : List (Expr × String) → List (Script × String)
  | [] => []
  | (setter, property) :: rest => (setter.script, property) :: setterScripts rest
termination_by structural setters => setters

def columnScripts : List (Column Expr) → List (Column Script)
  | [] => []
  | ⟨expression, label, splice⟩ :: rest => ⟨expression.script, label, splice⟩ :: columnScripts rest
termination_by structural columns => columns

def columnScripts? : Option (List (Column Expr)) → Option (List (Column Script))
  | none => none
  | some columns => some (columnScripts columns)
termination_by structural select => select

def orderScripts : List (OrderBy Expr) → List (OrderBy Script)
  | [] => []
  | ⟨.expression expression, direction⟩ :: rest => ⟨.expression expression.script, direction⟩ :: orderScripts rest
  | ⟨.column number, direction⟩ :: rest => ⟨.column number, direction⟩ :: orderScripts rest
termination_by structural orders => orders

def sourceScriptOf : Source Expr → Source Script
  | .rows type => .rows type
  | .expression expression => .expression expression.script
termination_by structural source => source

/-- The text of a statement with the places of its variables without a name, nested statements included. -/
def statementScript : Statement Expr → Script
  | ⟨select, source, filter, having, groupBy, groupOrder, groupLimit, orderBy, limit, distinct, onAll, onResults,
      types, handlers, names, cacheKeys, clock⟩ =>
    (Statement.onBranches (fun branch script => Script.under script branch)
      { select := columnScripts? select
        source := sourceScriptOf source
        filter := scriptOf? filter
        having := scriptOf? having
        groupBy := scripts groupBy
        groupOrder := orderScripts groupOrder
        «variables» := names
        groupLimit, limit, distinct, types, handlers, cacheKeys, clock
        orderBy := orderScripts orderBy
        onAll := scripts onAll
        onResults := scripts onResults }).script
termination_by structural statement => statement
end

/-! The script of an expression, by its parts. -/

theorem scripts_eq_map (expressions : List Expr) : scripts expressions = expressions.map Expr.script := by
  induction expressions with
  | nil => rfl
  | cons expression rest ih => rw [scripts, ih, List.map_cons]

theorem setterScripts_eq_map (setters : List (Expr × String)) :
    setterScripts setters = setters.map (Prod.map Expr.script id) := by
  induction setters with
  | nil => rfl
  | cons setter rest ih => rw [setterScripts, ih, List.map_cons]; rfl

theorem columnScripts_eq_map (columns : List (Column Expr)) :
    columnScripts columns = columns.map (·.map Expr.script) := by
  induction columns with
  | nil => rfl
  | cons column rest ih => rw [columnScripts, ih, List.map_cons]; rfl

theorem orderScripts_eq_map (orders : List (OrderBy Expr)) :
    orderScripts orders = orders.map (·.map Expr.script) := by
  induction orders with
  | nil => rfl
  | cons order rest ih =>
    obtain ⟨key, direction⟩ := order
    cases key <;> rw [orderScripts, ih, List.map_cons] <;> rfl

theorem statementScript_eq (statement : Statement Expr) :
    statementScript statement =
      ((statement.map Expr.script).onBranches fun branch script => script.under branch).script := by
  obtain ⟨select, source, filter, having⟩ := statement
  have selected : columnScripts? select = select.map (·.map (·.map Expr.script)) := by
    cases select with
    | none => rfl
    | some columns => rw [columnScripts?, columnScripts_eq_map]; rfl
  have optional (expression : Option Expr) : scriptOf? expression = expression.map Expr.script := by
    cases expression <;> rfl
  have sourced : sourceScriptOf source = source.map Expr.script := by
    cases source <;> rfl
  simp only [statementScript, Statement.map, selected, optional, sourced, scripts_eq_map, orderScripts_eq_map]

/-! A script writes the text. -/

namespace Statement

theorem map_map {ε δ γ : Type} (f : ε → δ) (g : δ → γ) (statement : Statement ε) :
    (statement.map f).map g = statement.map (g ∘ f) := by
  have orders (orders : List (OrderBy ε)) :
      (orders.map (·.map f)).map (·.map g) = orders.map (·.map (g ∘ f)) := by
    rw [List.map_map]
    refine List.map_congr_left fun order _ => ?_
    obtain ⟨key, direction⟩ := order
    cases key <;> rfl
  have source : (statement.source.map f).map g = statement.source.map (g ∘ f) := by
    cases statement.source <;> rfl
  have select : (statement.select.map (·.map (·.map f))).map (·.map (·.map g)) =
      statement.select.map (·.map (·.map (g ∘ f))) := by
    cases statement.select with
    | none => rfl
    | some columns => exact congrArg some List.map_map
  simp only [Statement.map, select, Option.map_map, List.map_map, orders, source]

theorem text_behind {statement : Statement String} {source : String} (found : statement.source = .expression source)
    (type : DataType) : Statement.text { statement with source := .rows type } (some source) = statement.text none := by
  unfold Statement.text
  rw [found]

/-- A statement behind its source is shown as it is with it. -/
theorem shown_withoutSource (statement : Statement Meaning) :
    statement.withoutSource.shown statement.sourceExpression? = statement.shown none := by
  cases found : statement.source with
  | rows type => rw [withoutSource, sourceExpression?, found]
  | expression own =>
    have sourced : (statement.map (·.text)).source = .expression own.text := congrArg (Source.map Meaning.text) found
    rw [withoutSource, sourceExpression?, found]
    exact text_behind sourced .any

theorem shown_placed (statement : Statement Meaning) : statement.placed.shown none = statement.shown none := by
  have same (branch : Branch) (meaning : Meaning) : (meaning.down branch).text = meaning.text := rfl
  have texts := map_onBranches same statement
  exact congrArg (·.text none) texts

end Statement

theorem text_statementScript {statement : Statement Expr}
    (written : ∀ expression ∈ statement.expressions none, expression.script.text = expression.meaning.text) :
    (statementScript statement).text = (statementMeaning statement).placed.shown none := by
  have same (branch : Branch) (script : Script) : (script.under branch).text = script.text := text_under script branch
  have scripts := Statement.map_onBranches same (statement.map Expr.script)
  have texts : (statement.map Expr.script).map Script.text = (statement.map Expr.meaning).map (·.text) := by
    rw [Statement.map_map, Statement.map_map]
    exact Statement.map_congr written
  rw [statementScript_eq, Statement.text_script, scripts, texts, ← statementMeaning_eq_map, Statement.shown_placed]
  rfl

namespace Meaning

@[simp] theorem text_down (meaning : Meaning) (branch : Branch) : (meaning.down branch).text = meaning.text := rfl

@[simp] theorem text_compound (text : String) (type : Setting → World → DataType) (parts : List Meaning)
    (evaluate : Environment → Frame → EvalM Value) : (compound text type parts evaluate).text = text := rfl

@[simp] theorem text_predicate (text : String) (parts : List Meaning)
    (decide : Environment → Frame → EvalM Bool) : (predicate text parts decide).text = text := rfl

@[simp] theorem texts_each (parts : List Meaning) (branch : Nat → Branch) :
    (each parts branch).map (·.text) = parts.map (·.text) := by
  refine List.ext_getElem (by simp [each]) fun index _ _ => ?_
  simp [each]

end Meaning

theorem texts_each (scripts : List Script) (branch : Nat → Branch) :
    (each scripts branch).map Script.text = scripts.map Script.text := by
  refine List.ext_getElem (by simp [each]) fun index _ _ => ?_
  simp [each]

/-- Expressions on numbered branches are written like their meanings on those branches. -/
theorem texts_parts {expressions : List Expr}
    (written : ∀ expression ∈ expressions, expression.script.text = expression.meaning.text) (branch : Nat → Branch) :
    (each (scripts expressions) branch).map Script.text =
      (Meaning.each (meanings expressions) branch).map (·.text) := by
  rw [texts_each, Meaning.texts_each, scripts_eq_map, meanings_eq_map, List.map_map, List.map_map]
  exact List.map_congr_left written

theorem texts_setters {setters : List (Expr × String)}
    (written : ∀ setter ∈ setters, setter.1.script.text = setter.1.meaning.text) :
    ((setterScripts setters).mapIdx fun index (script, property) =>
        script.under (.setter index) ++ [.text (" -> " ++ property)]).map Script.text =
      ((setterMeanings setters).mapIdx fun index (setter, property) => (setter.down (.setter index), property)).map
        fun (setter, property) => setter.text ++ " -> " ++ property := by
  rw [setterScripts_eq_map, setterMeanings_eq_map]
  refine List.ext_getElem (by simp) fun index inside _ => ?_
  simp only [List.length_map, List.length_mapIdx] at inside
  have own := written setters[index] (List.getElem_mem inside)
  simp [own, String.append_assoc]

theorem Expr.text_script (expression : Expr) : expression.script.text = expression.meaning.text := by
  induction expression using Expr.byParts with
  | whole expression ih =>
    cases expression with
    | constant value => simp [script, Expr.meaning, Meaning.constant]
    | member path => simp [script, Expr.meaning, Meaning.member]
    | bind name path => cases name <;> simp [script, Expr.meaning, Meaning.bind]
    | save name path => simp [script, Expr.meaning, Meaning.save]
    | arithmetic op left right =>
      simp only [parts, List.forall_mem_cons] at ih
      simp [script, Expr.meaning, Meaning.arithmetic, String.append_assoc, ih]
    | compare op ignoreCase left right =>
      simp only [parts, List.forall_mem_cons] at ih
      simp [script, Expr.meaning, Meaning.compare, String.append_assoc, ih]
    | negate operand =>
      simp only [parts, List.forall_mem_cons] at ih
      simp [script, Expr.meaning, Meaning.negate, ih]
    | not operand =>
      simp only [parts, List.forall_mem_cons] at ih
      simp [script, Expr.meaning, Meaning.not, ih]
    | logical op left right =>
      simp only [parts, List.forall_mem_cons] at ih
      simp [script, Expr.meaning, Meaning.logical, String.append_assoc, ih]
    | isNull negated operand =>
      simp only [parts, List.forall_mem_cons] at ih
      simp [script, Expr.meaning, Meaning.isNull, ih]
    | between negated subject lower upper =>
      simp only [parts, List.forall_mem_cons] at ih
      simp [script, Expr.meaning, Meaning.between, String.append_assoc, ih]
    | like negated ignoreCase subject pattern =>
      simp only [parts, List.forall_mem_cons] at ih
      simp [script, Expr.meaning, Meaning.like, String.append_assoc, ih]
    | among negated ignoreCase like all subject items =>
      obtain ⟨first, others⟩ := List.forall_mem_cons.mp ih
      have items := texts_parts (Meaning.forall_numbered.mp others) .item
      simp [script, Expr.meaning, Meaning.among, String.append_assoc, first, items]
    | call name arguments =>
      have arguments := texts_parts (Meaning.forall_numbered.mp ih) .argument
      simp [script, Expr.meaning, Meaning.call, String.append_assoc, arguments]
    | construct typeName arguments setters =>
      obtain ⟨first, second⟩ := List.forall_mem_append.mp ih
      have arguments := texts_parts (Meaning.forall_numbered.mp first) .argument
      have own : ∀ own ∈ setters.map (·.1), own.script.text = own.meaning.text := Meaning.forall_numbered.mp second
      have assigned := texts_setters (List.forall_mem_map.mp own)
      have none : ((setterMeanings setters).mapIdx fun index (setter, property) =>
          (setter.down (.setter index), property)).isEmpty = setters.isEmpty := by
        cases setters <;> simp [setterMeanings]
      simp only [script, Expr.meaning, Meaning.construct, Meaning.text_compound, text_append, text_single, text_commas,
        arguments, none, String.append_assoc]
      split
      · rfl
      · simp only [text_append, text_single, text_commas, assigned, String.append_assoc]
    | subquery statement =>
      have written : ∀ expression ∈ statement.expressions none, expression.script.text = expression.meaning.text := by
        rw [← statement.expressions_clauses]
        exact List.forall_mem_map.mpr ih
      have text := text_statementScript written
      simp [script, Expr.meaning, Meaning.subquery, String.append_assoc, text, Statement.shown_withoutSource]

/-! The places in a script. -/

/-- The places in expressions on branches, seen from above. -/
def placesBelow (parts : List (Branch × Expr)) : List (List Branch) :=
  parts.flatMap fun part => part.2.script.places.map (part.1 :: ·)

theorem places_parts (expressions : List Expr) (branch : Nat → Branch) :
    (each (scripts expressions) branch).flatMap places = placesBelow (Meaning.numbered expressions branch) := by
  rw [each_eq, scripts_eq_map, Meaning.numbered_map, List.map_map, List.flatMap_map]
  simp [placesBelow]

theorem places_setters (setters : List (Expr × String)) :
    ((setterScripts setters).mapIdx fun index (script, property) =>
        script.under (.setter index) ++ [.text (" -> " ++ property)]).flatMap places =
      placesBelow (Meaning.numbered (setters.map (·.1)) .setter) := by
  rw [setterScripts_eq_map, placesBelow, List.flatMap_def, List.flatMap_def]
  refine congrArg List.flatten (List.ext_getElem (by simp [Meaning.numbered]) fun index _ _ => ?_)
  simp [Meaning.numbered]

theorem places_statementScript (statement : Statement Expr) :
    (statementScript statement).places = placesBelow statement.clauses := by
  rw [statementScript_eq, Statement.places_script, Statement.expressions_onBranches, Statement.clauses_map,
    List.map_map, List.flatMap_map]
  simp [placesBelow]

theorem Expr.places_unnamed (path : Option AccessorPath) : (Expr.bind none path).script.places = [[]] := rfl

/-- All but the variables without a name themselves have such variables in their parts only. -/
theorem Expr.places_script {expression : Expr} (other : ∀ path, expression ≠ .bind none path) :
    expression.script.places = placesBelow expression.parts := by
  cases expression with
  | bind name path =>
    cases name with
    | none => exact absurd rfl (other path)
    | some name => rfl
  | among _ _ _ _ subject items =>
    simp only [script, parts, places_append, places_under, places_commas, places_text, places_nil, places_parts]
    simp [placesBelow]
  | call _ arguments => simp [script, parts, places_parts]
  | construct typeName arguments setters =>
    have all : placesBelow (Expr.construct typeName arguments setters).parts =
        placesBelow (Meaning.numbered arguments .argument)
          ++ placesBelow (Meaning.numbered (setters.map (·.1)) .setter) := List.flatMap_append
    rw [all, ← places_setters, script]
    split
    · next none =>
      cases List.isEmpty_iff.mp none
      simp [places_parts, setterScripts]
    · simp only [places_append, places_commas, places_text, places_nil, places_parts, List.nil_append, List.append_nil]
  | subquery statement => simp [script, parts, places_statementScript]
  | _ => simp [script, parts, placesBelow]

end RecordQuery
