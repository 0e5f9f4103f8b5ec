import RecordQuery.Proofs.Meaning.Names
import RecordQuery.Proofs.Variables.Types
/-! Numbering the variables without a name. Those of an expression get the next names of the scope, in the order of its
text: what one part does to the count and to the names is put together with what the parts after it do. -/

namespace RecordQuery

namespace Heap

/-- How many variables without a name have been numbered in a scope. -/
def numbered (heap : Heap) (scope : Scope) : Nat := (heap.rootStore scope).anonymous

theorem numbered_nextAnonymous {heap : Heap} {scope : Scope} (present : heap.root scope < heap.stores.length) :
    (heap.nextAnonymous scope).2.numbered scope = heap.numbered scope + 1 := by
  unfold numbered rootStore
  rw [(heap.extends_nextAnonymous scope).root, nextAnonymous]
  dsimp only
  rw [store_modify, if_pos ⟨rfl, present⟩]

/-- The stores have counted as many variables without a name as before. -/
def SameCounts (before after : Heap) : Prop := ∀ id, (after.store id).anonymous = (before.store id).anonymous

instance : IsPreorder Heap SameCounts where
  refl _ _ := rfl
  trans _ _ _ first second id := (second id).trans (first id)

theorem sameCounts_modify (heap : Heap) (id : StoreId) {change : VariableStore → VariableStore}
    (kept : ∀ store, (change store).anonymous = store.anonymous) : heap.SameCounts (heap.modify id change) := by
  intro asked
  rw [store_modify]
  split
  · exact kept _
  · rfl

theorem sameCounts_set (heap : Heap) (scope : Scope) (kind : VariableKind) (name : String) (value : Value) :
    heap.SameCounts (heap.set scope kind name value) := by
  have put := heap.sameCounts_modify (heap.root scope) fun store =>
    (by cases kind <;> rfl :
      (store.withTable kind ((store.table kind).insert (normalizeName name) value)).anonymous = store.anonymous)
  have noted (heap : Heap) (id : StoreId) (change : VariableChange) : heap.SameCounts (heap.notify id change) :=
    heap.sameCounts_modify id fun _ => rfl
  unfold Heap.set
  dsimp only
  split
  · exact put
  · exact IsTrans.trans _ _ _ put (noted _ _ _)

/-- A statement is opened with a store of its own, in which nothing has been numbered. -/
theorem numbered_opened (statement : Statement Meaning) (heap : Heap) :
    (statement.newScope heap).2.root (statement.newScope heap).1 < (statement.newScope heap).2.stores.length ∧
      (statement.newScope heap).2.numbered (statement.newScope heap).1 = 0 := by
  have extended : heap.newScope.2.Extends (statement.newScope heap).2 :=
    foldl_related (fun heap (name, value) => heap.extends_set _ .bind name value) _ _
  have counted : heap.newScope.2.SameCounts (statement.newScope heap).2 :=
    foldl_related (fun heap (name, value) => heap.sameCounts_set _ .bind name value) _ _
  have size := extended.size
  have fresh : (heap.newScope.2.store heap.stores.length).anonymous = 0 := by
    simp [store, newScope, VariableStore.empty]
  refine ⟨?_, (counted heap.stores.length).trans fresh⟩
  simp only [newScope, List.length_append, List.length_singleton] at size
  exact size

end Heap

/-- The variables at some places have been given the next names of a scope, in turn, and nothing else has. -/
structure World.Numbers (scope : Scope) (places : List (List Branch)) (before after : World) : Prop where
  tables : before.heap.SameTables after.heap
  counted : after.heap.numbered scope = before.heap.numbered scope + places.length
  named : places.map after.nameAt =
    (List.range' (before.heap.numbered scope + 1) places.length).map fun place => some (anonymousName place)
  others : ∀ place ∉ places, (after.memory.descend place).state = (before.memory.descend place).state
  paths : ∀ place ∈ places,
    (after.memory.descend place).state.accessor? = (before.memory.descend place).state.accessor?

/-- Names are kept at all other places. -/
theorem World.Numbers.nameAt {scope : Scope} {places : List (List Branch)} {before after : World}
    (numbers : World.Numbers scope places before after) {place : List Branch} (outside : place ∉ places) :
    after.nameAt place = before.nameAt place :=
  congrArg NodeState.name? (numbers.others place outside)

namespace EvalM

/-- A computation gives the variables at some places the next names of a scope whose store there is, in turn, if they
have none. -/
def Numbers (scope : Scope) (places : List (List Branch)) (action : EvalM Unit) : Prop :=
  ∀ world, world.heap.root scope < world.heap.stores.length → (∀ place ∈ places, world.nameAt place = none) →
    ∃ left, action world = .ok () left ∧ world.Numbers scope places left

variable {scope : Scope}

theorem numbers_pure : Numbers scope [] (pure ()) :=
  fun world _ _ => ⟨world, rfl, refl world.heap, rfl, rfl, fun _ _ => rfl, fun _ _ => rfl⟩

theorem Numbers.bind {first second : List (List Branch)} {action next : EvalM Unit} (head : Numbers scope first action)
    (rest : Numbers scope second next) (apart : first.Disjoint second) :
    Numbers scope (first ++ second) (action >>= fun _ => next) := by
  intro world present unnamed
  obtain ⟨middle, ran, begun⟩ := head world present fun place inside => unnamed place (List.mem_append_left _ inside)
  have fresh : ∀ place ∈ second, middle.nameAt place = none := fun place inside =>
    (begun.nameAt fun own => apart own inside).trans (unnamed place (List.mem_append_right _ inside))
  obtain ⟨left, ran', ended⟩ := rest middle (begun.tables.present present) fresh
  refine ⟨left, (bind_of_ok ran).trans ran', IsTrans.trans _ _ _ begun.tables ended.tables, ?_, ?_, ?_, ?_⟩
  · rw [ended.counted, begun.counted, List.length_append, Nat.add_assoc]
  · have kept : first.map left.nameAt = first.map middle.nameAt :=
      List.map_congr_left fun place inside => ended.nameAt fun other => apart inside other
    rw [List.map_append, kept, begun.named, ended.named, begun.counted, ← List.map_append, List.length_append,
      Nat.add_right_comm, List.range'_append_1]
  · intro place outside
    rw [List.mem_append, not_or] at outside
    rw [ended.others place outside.2, begun.others place outside.1]
  · intro place inside
    rcases List.mem_append.mp inside with own | other
    · rw [ended.others place fun other => apart own other, begun.paths place own]
    · rw [ended.paths place other, begun.others place fun own => apart own other]

theorem Numbers.on {places : List (List Branch)} {action : EvalM Unit} (numbers : Numbers scope places action)
    (branch : Branch) : Numbers scope (places.map (branch :: ·)) (action.on branch) := by
  intro world present unnamed
  obtain ⟨left, ran, done⟩ := numbers (world.down branch) present fun place inside =>
    unnamed _ (List.mem_map_of_mem inside)
  refine ⟨{ left with memory := world.memory.setChild branch left.memory }, ?_, done.tables, ?_, ?_, ?_, ?_⟩
  · exact EvalM.on_of_ok ran
  · rw [List.length_map]
    exact done.counted
  · have below (place : List Branch) : World.nameAt { left with memory := world.memory.setChild branch left.memory }
        (branch :: place) = left.nameAt place := by
      rw [World.nameAt_setChild]
      exact if_pos rfl
    rw [List.length_map, List.map_map]
    exact (List.map_congr_left fun place _ => below place).trans done.named
  · intro place outside
    cases place with
    | nil => rfl
    | cons other rest =>
      simp only [Memory.descend, Memory.child_setChild]
      split
      · next same =>
        subst same
        exact done.others rest fun inside => outside (List.mem_map_of_mem inside)
      · rfl
  · rintro _ inside
    obtain ⟨rest, own, rfl⟩ := List.mem_map.mp inside
    simp only [Memory.descend, Memory.child_setChild, if_true]
    exact done.paths rest own

end EvalM

namespace Meaning

open EvalM

variable {scope : Scope}

theorem takeNumber_numbers : EvalM.Numbers scope [[]] (takeNumber scope) := by
  intro world present unnamed
  have without : world.memory.state.name? = none := unnamed [] (List.mem_singleton_self [])
  let name := anonymousName (world.heap.numbered scope + 1)
  let left : World :=
    { world with
      heap := (world.heap.nextAnonymous scope).2
      memory := world.memory.withState (.operand (some name) world.memory.state.accessor?) }
  refine ⟨left, ?_, world.heap.sameTables_nextAnonymous scope, Heap.numbered_nextAnonymous present, rfl, ?_, ?_⟩
  · rw [takeNumber, node_bind, without]
    rfl
  · intro place outside
    cases place with
    | nil => exact absurd (List.mem_singleton_self []) outside
    | cons branch rest => rfl
  · intro place inside
    cases List.mem_singleton.mp inside
    rfl

/-- Parts on branches that are told apart are numbered one after the other. -/
theorem forEach_numbers {parts : List (Branch × Expr)} (apart : (parts.map (·.1)).Nodup)
    (each : ∀ part ∈ parts, EvalM.Numbers scope part.2.script.places (part.2.meaning.number scope)) :
    EvalM.Numbers scope (placesBelow parts)
      (forEach (branched (parts.map (Prod.map id Expr.meaning))) (·.number scope)) := by
  induction parts with
  | nil => exact numbers_pure
  | cons part rest ih =>
    obtain ⟨others, apart⟩ := List.nodup_cons.mp apart
    obtain ⟨own, each⟩ := List.forall_mem_cons.mp each
    refine (own.on part.1).bind (ih apart each) fun place here there => ?_
    obtain ⟨_, _, rfl⟩ := List.mem_map.mp here
    obtain ⟨other, inside, found⟩ := List.mem_flatMap.mp there
    obtain ⟨_, _, same⟩ := List.mem_map.mp found
    have branch : other.1 = part.1 := (List.cons.inj same).1
    exact others (List.mem_map.mpr ⟨other, inside, branch⟩)

end Meaning

/-- All but the variables without a name themselves have their parts numbered in turn. -/
theorem Expr.number_eq {expression : Expr} (other : ∀ path, expression ≠ .bind none path) (scope : Scope) :
    expression.meaning.number scope = Meaning.forEach expression.partMeanings (·.number scope) := by
  cases expression with
  | bind name path =>
    cases name with
    | none => exact absurd rfl (other path)
    | some name => rfl
  | among => rw [partMeanings_among]; rfl
  | call => rw [partMeanings_call]; rfl
  | construct => rw [partMeanings_construct]; rfl
  | subquery statement =>
    change Meaning.forEach ((statementMeaning statement).placed.withoutSource.expressions
      (statementMeaning statement).placed.sourceExpression?) (·.number scope) = _
    rw [Statement.expressions_withoutSource, Statement.expressions_placed_meaning]
    rfl
  | _ => rfl

/-- Numbering an expression gives the variables in it the next names, in the order of its text. -/
theorem Expr.meaning_numbers (scope : Scope) (expression : Expr) :
    EvalM.Numbers scope expression.script.places (expression.meaning.number scope) := by
  induction expression using Expr.byParts with
  | whole expression ih =>
    by_cases unnamed : ∃ path, expression = .bind none path
    · obtain ⟨path, rfl⟩ := unnamed
      exact Meaning.takeNumber_numbers
    · have other (path) (same : expression = .bind none path) : False := unnamed ⟨path, same⟩
      rw [number_eq other, places_script other]
      exact Meaning.forEach_numbers expression.parts_apart ih

theorem Statement.placed_numbers (scope : Scope) (statement : Statement Expr) :
    EvalM.Numbers scope (statementScript statement).places
      (Meaning.forEach ((statementMeaning statement).placed.expressions none) (·.number scope)) := by
  rw [places_statementScript, expressions_placed_meaning]
  exact Meaning.forEach_numbers statement.clauses_apart fun part _ => part.2.meaning_numbers scope

end RecordQuery
