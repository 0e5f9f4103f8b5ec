import RecordQuery.Proofs.Meaning.OfExpr
import RecordQuery.Proofs.Statement.Script
/-! The names that the variables without a name are given. Once such a variable has a name, nothing that is done with
the expression or the statement it stands in takes it away. -/

namespace RecordQuery

/-- What is remembered at a place. -/
def Memory.descend (memory : Memory) : List Branch → Memory
  | [] => memory
  | branch :: place => (memory.child branch).descend place

/-- The name that the variable at a place has been given. -/
def World.nameAt (world : World) (place : List Branch) : Option String := (world.memory.descend place).state.name?

/-- The variables at such places that have a name go on having it. -/
def World.KeepsNames (held : List Branch → Prop) (before after : World) : Prop :=
  ∀ place, held place → ∀ name ∈ before.nameAt place, after.nameAt place = some name

namespace World

variable {held : List Branch → Prop}

/-- What a part leaves is found down its branch; the rest is as it was. -/
theorem nameAt_setChild (world left : World) (branch : Branch) (place : List Branch) :
    nameAt { left with memory := world.memory.setChild branch left.memory } place =
      match place with
      | [] => world.nameAt []
      | other :: rest => if other = branch then left.nameAt rest else world.nameAt (other :: rest) := by
  cases place with
  | nil => rfl
  | cons other rest =>
    simp only [nameAt, Memory.descend, Memory.child_setChild]
    split <;> rfl

theorem nameAt_withState (world : World) (state : NodeState) (place : List Branch) :
    nameAt { world with memory := world.memory.withState state } place =
      if place = [] then state.name? else world.nameAt place := by
  cases place <;> simp [nameAt, Memory.descend]

instance : IsPreorder World (KeepsNames held) where
  refl _ _ _ _ named := named
  trans _ _ _ first second place here name named := second place here name (first place here name named)

theorem keepsNames_of_memory {before after : World} (same : after.memory = before.memory) :
    KeepsNames held before after := by
  intro place _ name named
  rw [← named, nameAt, nameAt, same]

/-- What is kept below a branch is kept down that branch. -/
theorem KeepsNames.part {world left : World} {branch : Branch}
    (below : KeepsNames (fun place => held (branch :: place)) (world.down branch) left) :
    KeepsNames held world { left with memory := world.memory.setChild branch left.memory } := by
  intro place here name named
  rw [nameAt_setChild]
  cases place with
  | nil => exact named
  | cons other rest =>
    dsimp only
    split
    · next same =>
      subst same
      exact below rest here name named
    · exact named

theorem keepsNames_withState (elsewhere : ¬held []) (world : World) (state : NodeState) :
    KeepsNames held world { world with memory := world.memory.withState state } := by
  intro place here name named
  have below : place ≠ [] := fun top => elsewhere (top ▸ here)
  rw [nameAt_withState, if_neg below]
  exact named

instance : AllowsOperands (KeepsNames held) where
  named kept _ := by
    intro place _ name named
    rw [nameAt_withState]
    split
    · next here =>
      subst here
      exact kept name named
    · exact named
  numbered _ _ := keepsNames_of_memory rfl

/-- Any node can remember anything where no name is held. -/
theorem allowsNode_keepsNames (elsewhere : ¬held []) : AllowsNode (KeepsNames held) where
  remembered := keepsNames_withState elsewhere
  opened _ _ := keepsNames_of_memory rfl
  numbered _ _ := keepsNames_of_memory rfl
  watched _ _ _ _ := keepsNames_of_memory rfl
  released _ _ := keepsNames_of_memory rfl
  lowered _ _ _ := keepsNames_of_memory rfl

instance : AllowsExecution (KeepsNames held) where
  timed _ _ := keepsNames_of_memory rfl
  restored later _ := later

instance : AllowsFunctions (KeepsNames held) where
  saved later _ _ _ _ := later
  accessed _ _ := keepsNames_of_memory rfl

end World

/-- A handler takes no name away, at whatever places its arguments take none away. -/
def Handler.KeepsNames (handler : Handler) : Prop := ∀ held, handler.Keeps (World.KeepsNames held)

theorem standard_keepNames : ∀ handler ∈ FunctionRegistry.default.handlers, handler.KeepsNames :=
  fun handler member _ => standard_keep handler member

/-! What stands where. -/

theorem not_mem_placesBelow (parts : List (Branch × Expr)) : [] ∉ placesBelow parts := by
  simp [placesBelow]

/-- Behind the branch of a part stand the places of that part. -/
theorem mem_placesBelow {parts : List (Branch × Expr)} (apart : (parts.map (·.1)).Nodup) {part : Branch × Expr}
    (inside : part ∈ parts) {place : List Branch} :
    part.1 :: place ∈ placesBelow parts ↔ place ∈ part.2.script.places := by
  refine ⟨fun member => ?_, fun member => List.mem_flatMap.mpr ⟨part, inside, List.mem_map_of_mem member⟩⟩
  obtain ⟨other, present, found⟩ := List.mem_flatMap.mp member
  obtain ⟨rest, below, same⟩ := List.mem_map.mp found
  obtain ⟨branches, rfl⟩ := List.cons.inj same
  rwa [← List.inj_on_of_nodup_map apart present inside branches]

theorem Expr.mem_places_part {expression : Expr} {part : Branch × Expr} (inside : part ∈ expression.parts)
    {place : List Branch} : part.1 :: place ∈ expression.script.places ↔ place ∈ part.2.script.places := by
  have other : ∀ path, expression ≠ .bind none path := by
    rintro path rfl
    cases inside
  rw [places_script other]
  exact mem_placesBelow expression.parts_apart inside

/-- Parts on branches that are told apart take no name away if each by itself takes none away. -/
theorem Meaning.branched_keepsNames {parts : List (Branch × Expr)} (apart : (parts.map (·.1)).Nodup)
    {held : List Branch → Prop} (inside : ∀ place, held place → place ∈ placesBelow parts)
    (each : ∀ part ∈ parts, ∀ own : List Branch → Prop, (∀ place, own place → place ∈ part.2.script.places) →
      part.2.meaning.KeepsAmong Handler.KeepsNames (World.KeepsNames own)) :
    ∀ meaning ∈ branched (parts.map (Prod.map id Expr.meaning)),
      meaning.KeepsAmong Handler.KeepsNames (World.KeepsNames held) := by
  intro _ member
  obtain ⟨_, found, rfl⟩ := List.mem_map.mp member
  obtain ⟨part, present, rfl⟩ := List.mem_map.mp found
  exact (each part present (fun place => held (part.1 :: place)) fun place here =>
    (mem_placesBelow apart present).mp (inside _ here)).down World.KeepsNames.part

/-- An expression takes no name away from the variables in it. -/
theorem Expr.meaning_keepsNames (expression : Expr) : (∀ handler ∈ expression.handlers, handler.KeepsNames) →
    ∀ held : List Branch → Prop, (∀ place, held place → place ∈ expression.script.places) →
      expression.meaning.KeepsAmong Handler.KeepsNames (World.KeepsNames held) := by
  induction expression using Expr.byParts with
  | whole expression ih =>
    intro brought held inside
    by_cases unnamed : ∃ path, expression = .bind none path
    · obtain ⟨path, rfl⟩ := unnamed
      exact Meaning.bind_keeps none path
    · have other (path) (same : expression = .bind none path) : False := unnamed ⟨path, same⟩
      rw [places_script other] at inside
      have := World.allowsNode_keepsNames fun top => not_mem_placesBelow expression.parts (inside [] top)
      exact expression.meaning_keepsAmong (fun _ keeps => keeps held) standard_keepNames brought
        (Meaning.branched_keepsNames expression.parts_apart inside fun part present =>
          ih part present fun handler found => brought handler (handlers_part part present found))

/-- The expressions of a statement take no name away from the variables in it. -/
theorem Statement.placed_keepsNames {statement : Statement Expr}
    (brought : ∀ handler ∈ handlersOfStatement statement, handler.KeepsNames) {held : List Branch → Prop}
    (inside : ∀ place, held place → place ∈ (statementScript statement).places) :
    (statementMeaning statement).placed.Every (Meaning.KeepsAmong Handler.KeepsNames (World.KeepsNames held)) := by
  rw [Every, expressions_placed_meaning]
  rw [places_statementScript] at inside
  refine Meaning.branched_keepsNames statement.clauses_apart inside fun part present => ?_
  have expression : part.2 ∈ statement.expressions none := expressions_clauses statement ▸ List.mem_map_of_mem present
  exact part.2.meaning_keepsNames fun handler found =>
    brought handler (mem_handlersOfStatement.mpr (.inr ⟨part.2, expression, found⟩))

/-! Expressions inside a statement. -/

/-- An expression stands in a statement at a place, in one of its clauses or inside another expression. -/
inductive Statement.Contains (statement : Statement Expr) : List Branch → Expr → Prop
  | clause {part : Branch × Expr} (inside : part ∈ statement.clauses) : statement.Contains [part.1] part.2
  | part {place : List Branch} {expression : Expr} {part : Branch × Expr} (around : statement.Contains place expression)
    (inside : part ∈ expression.parts) : statement.Contains (place ++ [part.1]) part.2

namespace Statement.Contains

variable {statement : Statement Expr} {place : List Branch} {expression : Expr}

theorem handlers (contains : statement.Contains place expression) :
    expression.handlers ⊆ handlersOfStatement statement := by
  induction contains with
  | clause inside =>
    intro handler found
    refine mem_handlersOfStatement.mpr (.inr ⟨_, ?_, found⟩)
    exact expressions_clauses statement ▸ List.mem_map_of_mem inside
  | part around inside ih => exact fun handler found => ih (Expr.handlers_part _ inside found)

/-- A place of the statement behind that of an expression is a place of that expression. -/
theorem mem_places (contains : statement.Contains place expression) {rest : List Branch} :
    place ++ rest ∈ (statementScript statement).places ↔ rest ∈ expression.script.places := by
  induction contains generalizing rest with
  | clause inside =>
    rw [places_statementScript]
    exact mem_placesBelow statement.clauses_apart inside
  | part around inside ih =>
    rw [List.append_assoc, ih]
    exact Expr.mem_places_part inside

/-- At each place of an expression in the statement stands a variable without a name. -/
theorem unnamed (contains : statement.Contains place expression) {rest : List Branch}
    (found : rest ∈ expression.script.places) : ∃ path, statement.Contains (place ++ rest) (.bind none path) := by
  induction expression using Expr.byParts generalizing place rest with
  | whole expression ih =>
    by_cases unnamed : ∃ path, expression = .bind none path
    · obtain ⟨path, rfl⟩ := unnamed
      cases List.mem_singleton.mp found
      exact ⟨path, (List.append_nil place).symm ▸ contains⟩
    · rw [Expr.places_script fun path same => unnamed ⟨path, same⟩] at found
      obtain ⟨part, inside, below⟩ := List.mem_flatMap.mp found
      obtain ⟨rest, own, rfl⟩ := List.mem_map.mp below
      have stands := ih part inside (contains.part inside) own
      rwa [List.append_assoc] at stands

/-- The places of the script are those of the variables without a name. -/
theorem mem_places_iff : place ∈ (statementScript statement).places ↔
    ∃ path, statement.Contains place (.bind none path) := by
  refine ⟨fun member => ?_, fun ⟨path, contains⟩ => ?_⟩
  · rw [places_statementScript] at member
    obtain ⟨part, inside, below⟩ := List.mem_flatMap.mp member
    obtain ⟨rest, own, rfl⟩ := List.mem_map.mp below
    exact unnamed (.clause inside) own
  · have own := contains.mem_places.mpr (List.mem_singleton_self [])
    rwa [List.append_nil] at own

/-- What stands in a statement takes no name away from the variables of the statement. -/
theorem keepsNames (contains : statement.Contains place expression)
    (brought : ∀ handler ∈ handlersOfStatement statement, handler.KeepsNames) :
    expression.meaning.KeepsAmong Handler.KeepsNames
      (World.KeepsNames fun rest => place ++ rest ∈ (statementScript statement).places) :=
  expression.meaning_keepsNames (fun handler found => brought handler (contains.handlers found)) _
    fun _ here => contains.mem_places.mp here

end Statement.Contains

end RecordQuery
