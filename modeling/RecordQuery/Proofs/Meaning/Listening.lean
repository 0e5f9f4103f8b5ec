import RecordQuery.Proofs.Evaluation.Nodes
import RecordQuery.Proofs.Meaning.OfExpr
import RecordQuery.Proofs.Meaning.Preparation
import RecordQuery.Proofs.Variables.Listening
/-! The subscriptions that sub-queries hold, as the nodes of the memory tell them, and who else listens to the store at
the root. Whatever a computation does, it balances if the account that was right before it is right after it, for
whatever others there are; so what balances for a part balances for the whole, where the other parts are others. -/

namespace RecordQuery

open EvalM

theorem NodeState.statement?_of_plain {state : NodeState} (plain : state.isStatement = false) :
    state.statement? = none := by
  cases state <;> first | rfl | cases plain

/-! The account of who listens to the store at the root. -/

/-- A nested statement that has been given the variables around it works on the store at the root, and it is there that
it listens, once to each kind of variables at most. -/
structure Nesting.Fits (root : StoreId) (heap : Heap) (nesting : Nesting) (state : StatementState) : Prop where
  linked : nesting.adopted = true → state.scope.parent = some root
  stored : nesting.subscriptions ≠ [] → nesting.store = root
  once : heap.OnePerKind root nesting.subscriptions

/-- A statement that has just been opened knows nothing around it, and listens to nothing. -/
theorem Nesting.fits_fresh (root : StoreId) (heap : Heap) (state : StatementState) :
    Statement.freshNesting.Fits root heap state where
  linked adopted := absurd adopted Bool.false_ne_true
  stored listening := absurd rfl listening
  once _ _ _ _ listed := absurd listed List.not_mem_nil

/-- Those who listen to the store at the root are statements, as they know of themselves, and others. -/
structure Heap.Accounts (heap : Heap) (root : StoreId) (others : List Nat)
    (statements : List (StatementState × Nesting)) : Prop where
  lists : heap.Lists root (others ++ statements.flatMap (·.2.subscriptions))
  fits : ∀ entry ∈ statements, entry.2.Fits root heap entry.1

namespace Heap.Accounts

variable {heap after : Heap} {root : StoreId} {others : List Nat} {statements rest : List (StatementState × Nesting)}

theorem perm (accounts : heap.Accounts root others statements) {same : List (StatementState × Nesting)}
    (alike : statements.Perm same) : heap.Accounts root others same where
  lists := accounts.lists.perm ((alike.flatMap_right _).append_left _)
  fits entry member := accounts.fits entry (alike.mem_iff.mpr member)

/-- What some of the statements hold is what others hold to the rest of them. -/
theorem part (accounts : heap.Accounts root others (rest ++ statements)) :
    heap.Accounts root (others ++ rest.flatMap (·.2.subscriptions)) statements where
  lists := by
    have lists := accounts.lists
    rwa [List.flatMap_append, ← List.append_assoc] at lists
  fits entry member := accounts.fits entry (List.mem_append_right _ member)

/-- What others take and give up is nothing to a statement. -/
theorem continued (accounts : heap.Accounts root others statements) (continued : Heap.Continues root heap after) :
    ∀ entry ∈ statements, entry.2.Fits root after entry.1 := by
  intro entry member
  have fits := accounts.fits entry member
  refine ⟨fits.linked, fits.stored, fits.once.continued continued fun id listed => accounts.lists.numbered id ?_⟩
  exact List.mem_append_right _ (List.mem_flatMap.mpr ⟨entry, member, listed⟩)

/-- What only takes and gives up subscriptions of some of the statements keeps the account of the rest. -/
theorem whole (accounts : heap.Accounts root others (rest ++ statements)) (continued : Heap.Continues root heap after)
    {later : List (StatementState × Nesting)}
    (account : after.Accounts root (others ++ rest.flatMap (·.2.subscriptions)) later) :
    after.Accounts root others (rest ++ later) where
  lists := by
    rw [List.flatMap_append, ← List.append_assoc]
    exact account.lists
  fits entry member := by
    rcases List.mem_append.mp member with old | new
    · exact accounts.continued continued entry (List.mem_append_left _ old)
    · exact account.fits entry new

theorem of_quiet (accounts : heap.Accounts root others statements) (quiet : Heap.QuietAt root heap after) :
    after.Accounts root others statements where
  lists := quiet.lists accounts.lists
  fits := accounts.continued quiet.continues

/-- Some of the statements have given up what they held. -/
theorem released (accounts : heap.Accounts root others (rest ++ statements)) :
    Heap.Continues root heap (heap.release (rest.flatMap (·.2.held))) ∧
      (heap.release (rest.flatMap (·.2.held))).Accounts root others statements := by
  have held : rest.flatMap (·.2.held) = (rest.flatMap (·.2.subscriptions)).map (root, ·) := by
    rw [List.map_flatMap]
    refine List.flatMap_congr fun entry member => ?_
    by_cases none : entry.2.subscriptions = []
    · rw [Nesting.held, none]
      rfl
    · rw [Nesting.held, (accounts.fits entry (List.mem_append_left _ member)).stored none]
  have lists := accounts.lists
  rw [List.flatMap_append] at lists
  obtain ⟨fewer, continued⟩ := (lists.perm (List.perm_append_comm_assoc ..)).release
  rw [← held] at fewer continued
  exact ⟨continued, fewer, fun entry member =>
    accounts.continued continued entry (List.mem_append_right _ member)⟩

end Heap.Accounts

/-- Whoever else listens to the store at the root, the account of what the nodes hold goes on being right. -/
structure World.Balances (root : StoreId) (before after : World) : Prop where
  extended : before.heap.Extends after.heap
  continued : Heap.Continues root before.heap after.heap
  apart (unlike : before.memory.Apart) : after.memory.Apart
  accounts {others : List Nat} (right : before.heap.Accounts root others before.memory.statements) :
    after.heap.Accounts root others after.memory.statements

namespace World.Balances

variable {root : StoreId}

instance : IsPreorder World (Balances root) where
  refl world := ⟨refl world.heap, refl world.heap, id, id⟩
  trans _ _ _ first second := ⟨IsTrans.trans _ _ _ first.extended second.extended,
    IsTrans.trans _ _ _ first.continued second.continued, fun unlike => second.apart (first.apart unlike),
    fun right => second.accounts (first.accounts right)⟩

/-- What balances below a branch balances at the node. -/
theorem part {world left : World} {branch : Branch} (below : Balances root (world.down branch) left) :
    Balances root world { left with memory := world.memory.setChild branch left.memory } where
  extended := below.extended
  continued := below.continued
  apart unlike := unlike.setChild branch (below.apart (unlike.child branch))
  accounts right := by
    obtain ⟨rest, found, put⟩ := world.memory.statements_setChild branch
    have split := right.perm found
    exact (split.whole below.continued (below.accounts split.part)).perm (put left.memory).symm

theorem of_quiet {before after : World} (memory : after.memory = before.memory)
    (quiet : before.heap.Quiet after.heap) : Balances root before after where
  extended := quiet.extended
  continued := (quiet.quietAt root).continues
  apart := memory ▸ id
  accounts right := memory ▸ right.of_quiet (quiet.quietAt root)

/-- What is remembered at a node that is not that of a statement is no matter. -/
theorem of_plain {world : World} {state : NodeState} (plain : world.memory.state.isStatement = false)
    (plain' : state.isStatement = false) :
    Balances root world { world with memory := world.memory.withState state } where
  extended := refl world.heap
  continued := refl world.heap
  apart unlike := unlike.withState state
  accounts right := by
    rw [Memory.statements_eq, NodeState.statement?_of_plain plain] at right
    rw [Memory.withState, Memory.statements, NodeState.statement?_of_plain plain']
    exact right

/-- The statement at the node changes without taking or giving up a subscription. -/
theorem of_node {world : World} {state state' : StatementState} {nesting nesting' : Nesting}
    (node : world.memory.state = .statement state nesting) (held : nesting'.subscriptions = nesting.subscriptions)
    (fits : ∀ heap, nesting.Fits root heap state → nesting'.Fits root heap state') :
    Balances root world { world with memory := world.memory.withState (.statement state' nesting') } where
  extended := refl world.heap
  continued := refl world.heap
  apart unlike := unlike.withState _
  accounts right := by
    rw [Memory.statements_eq, node] at right
    refine ⟨?_, List.forall_mem_cons.mpr ⟨fits _ (right.fits _ (List.mem_cons_self ..)), fun entry member =>
      right.fits entry (List.mem_cons_of_mem _ member)⟩⟩
    have lists := right.lists
    change world.heap.Lists root (_ ++ (nesting'.subscriptions ++ _))
    rw [held]
    exact lists

/-- A statement that is opened listens to nothing. -/
theorem of_opened {world : World} {heap : Heap} {state : StatementState}
    (plain : world.memory.state.isStatement = false) (quiet : world.heap.Quiet heap) :
    Balances root world
      { world with heap, memory := world.memory.withState (.statement state Statement.freshNesting) } where
  extended := quiet.extended
  continued := (quiet.quietAt root).continues
  apart unlike := unlike.withState _
  accounts right := by
    rw [Memory.statements_eq, NodeState.statement?_of_plain plain] at right
    have later := right.of_quiet (quiet.quietAt root)
    exact ⟨later.lists, List.forall_mem_cons.mpr ⟨Nesting.fits_fresh root heap state, later.fits⟩⟩

end World.Balances

/-- From a world that is such on, a computation leads to such a world, and balances. -/
def World.Tied (root : StoreId) (such : World → Prop) (before after : World) : Prop :=
  such before → such after ∧ World.Balances root before after

/-- The store at the root lives, and a scope works on it. There is an account of who listens to it, and what is
remembered is such. -/
structure World.Stands (root : StoreId) (scope : Option Scope) (such : Memory → Prop) (world : World) : Prop where
  alive : world.heap.isAlive root = true
  scope : ∀ given ∈ scope, world.heap.root given = root
  apart : world.memory.Apart
  account : ∃ others, world.heap.Accounts root others world.memory.statements
  such : such world.memory

namespace World

variable {root : StoreId} {scope : Option Scope} {such : Memory → Prop}

instance (such : World → Prop) : IsPreorder World (Tied root such) where
  refl world stands := ⟨stands, refl world⟩
  trans _ _ _ first second stands :=
    have ⟨between, early⟩ := first stands
    have ⟨after, late⟩ := second between
    ⟨after, IsTrans.trans _ _ _ early late⟩

/-- What balances leaves the store at the root, and the scopes that work on it. -/
theorem Stands.later {before after : World} (stands : Stands root scope such before)
    (balances : Balances root before after) {other : Memory → Prop} (later : other after.memory) :
    Stands root scope other after where
  alive := by
    rw [Heap.isAlive, balances.extended.holders]
    exact stands.alive
  scope given member := (balances.extended.root given).trans (stands.scope given member)
  apart := balances.apart stands.apart
  account := stands.account.imp fun _ right => balances.accounts right
  such := later

theorem Stands.anywhere {world : World} (stands : Stands root scope such world) {other : Memory → Prop}
    (holds : other world.memory) : Stands root none other world :=
  ⟨stands.alive, nofun, stands.apart, stands.account, holds⟩

theorem tied_of_balances {before after : World} (balances : Balances root before after)
    (later : such before.memory → such after.memory) : Tied root (Stands root scope such) before after :=
  fun stands => ⟨stands.later balances (later stands.such), balances⟩

end World

/-- A preorder of worlds that allows for whatever touches neither what is remembered nor the subscriptions. -/
class AllowsAside (related : World → World → Prop) : Prop extends IsPreorder World related where
  aside {before after : World} (memory : after.memory = before.memory) (quiet : before.heap.Quiet after.heap) :
    related before after

instance {related : World → World → Prop} [AllowsAside related] : AllowsExecution related where
  timed world _ := AllowsAside.aside rfl (refl world.heap)
  restored {_ world} later scope :=
    IsTrans.trans _ _ _ later (AllowsAside.aside rfl (world.heap.quiet_replaceSaves scope _))

instance {related : World → World → Prop} [AllowsAside related] : AllowsFunctions related where
  saved {_ world} later {scope name} _ value :=
    IsTrans.trans _ _ _ later (AllowsAside.aside rfl (world.heap.quiet_set scope .save name value))
  accessed world _ := AllowsAside.aside rfl (refl world.heap)

/-- A handler touches neither what is remembered nor the subscriptions: what it does beyond evaluating its arguments
keeps all that such changes keep. -/
def Handler.KeepsAside (handler : Handler) : Prop :=
  ∀ (related : World → World → Prop) [AllowsAside related], handler.Keeps related

theorem standard_keepAside : ∀ handler ∈ FunctionRegistry.default.handlers, handler.KeepsAside :=
  fun handler member _ _ => standard_keep handler member

section Tied

variable {root : StoreId} {scope : Option Scope} {such : Memory → Prop}

instance : AllowsAside (World.Tied root (World.Stands root scope such)) where
  aside memory quiet := World.tied_of_balances (.of_quiet memory quiet) fun holds => memory ▸ holds

/-- A node that is not that of a statement, and what is remembered below it. -/
abbrev Memory.Plain (below : Branch → Memory → Prop) : Memory → Prop := Memory.Within (·.isStatement = false) below

instance (below : Branch → Memory → Prop) :
    AllowsRemembering (World.Tied root (World.Stands root scope (Memory.Plain below))) where
  kept world state plain stands := by
    have balances : World.Balances root world { world with memory := world.memory.withState state } :=
      .of_plain stands.such.1 plain
    exact ⟨stands.later balances (stands.such.withState plain), balances⟩
  numbered world scope := AllowsAside.aside rfl (world.heap.quiet_nextAnonymous scope)

/-- What is such below a branch stays such at the node. -/
theorem World.Tied.part {own : NodeState → Prop} {below : Branch → Memory → Prop} {branch : Branch}
    (same : ∀ memory, below branch memory ↔ such memory) {world left : World}
    (tied : Tied root (Stands root scope such) (world.down branch) left) :
    Tied root (Stands root scope (Memory.Within own below)) world
      { left with memory := world.memory.setChild branch left.memory } := by
  intro stands
  obtain ⟨others, right⟩ := stands.account
  obtain ⟨rest, found, -⟩ := world.memory.statements_setChild branch
  obtain ⟨after, balances⟩ :=
    tied ⟨stands.alive, stands.scope, stands.apart.child branch, ⟨_, (right.perm found).part⟩,
      (same _).mp (stands.such.2 branch)⟩
  exact ⟨stands.later balances.part (stands.such.setChild ((same _).mpr after.such)), balances.part⟩

end Tied

/-- What is told of each part holds of what is remembered on its branch. -/
def Memory.AtParts (parts : List (Branch × Expr)) (each : Branch × Expr → Memory → Prop) (branch : Branch)
    (memory : Memory) : Prop :=
  ∀ part ∈ parts, part.1 = branch → each part memory

theorem Memory.atParts_iff {parts : List (Branch × Expr)} (apart : (parts.map (·.1)).Nodup) {part : Branch × Expr}
    (member : part ∈ parts) (each : Branch × Expr → Memory → Prop) (memory : Memory) :
    AtParts parts each part.1 memory ↔ each part memory := by
  refine ⟨fun all => all part member rfl, fun own other member' same => ?_⟩
  cases List.inj_on_of_nodup_map apart member' member same
  exact own

/-- What is told of each part holds of what is remembered on its branch, and on other branches nothing is. -/
def Memory.OnlyAtParts (parts : List (Branch × Expr)) (each : Branch × Expr → Memory → Prop) (branch : Branch)
    (memory : Memory) : Prop :=
  AtParts parts each branch memory ∧ (branch ∉ parts.map (·.1) → memory = .empty)

theorem Memory.onlyAtParts_iff {parts : List (Branch × Expr)} (apart : (parts.map (·.1)).Nodup)
    {part : Branch × Expr} (member : part ∈ parts) (each : Branch × Expr → Memory → Prop) (memory : Memory) :
    OnlyAtParts parts each part.1 memory ↔ each part memory := by
  rw [OnlyAtParts, atParts_iff apart member]
  exact ⟨And.left, fun own => ⟨own, fun absent => absurd (List.mem_map_of_mem member) absent⟩⟩

namespace Expr

/-- Statements are remembered at sub-queries only, and nothing is where no part is. -/
inductive Shaped : Expr → Memory → Prop
  | shaped {expression : Expr} {memory : Memory}
    (own : expression.isSubquery = false → memory.state.isStatement = false)
    (parts : ∀ part ∈ expression.parts, Shaped part.2 (memory.child part.1))
    (others : ∀ branch, branch ∉ expression.parts.map (·.1) → memory.child branch = .empty) : Shaped expression memory

/-- An expression has been resolved, and so have the sub-queries in it: each has been given the variables around it,
its source has been resolved, and, from when it has been made ready, its clauses. -/
inductive Prepared : Expr → Memory → Prop
  | plain {expression : Expr} {memory : Memory} (plain : expression.isSubquery = false)
    (parts : ∀ part ∈ expression.parts, Prepared part.2 (memory.child part.1)) : Prepared expression memory
  | nested {statement : Statement Expr} {memory : Memory} {state : StatementState} {nesting : Nesting}
    (node : memory.state = .statement state nesting) (adopted : nesting.adopted = true)
    (source : ∀ expression, statement.sourceExpression? = some expression → Prepared expression (memory.child .source))
    (clauses : nesting.stale = false → state.initialized = true → ∀ part ∈ statement.withoutSource.clauses,
      Prepared part.2 (memory.child part.1)) : Prepared (.subquery statement) memory

/-- Whatever is done with an expression balances, if it is resolved within a scope that works on the store at the root,
and evaluated when it has been resolved. -/
structure Balanced (expression : Expr) : Prop where
  prepare (root : StoreId) (setting : Setting) : EvalM.Keeps
    (World.Tied root (World.Stands root (some setting.scope) expression.Shaped)) (expression.meaning.prepare setting)
  number (root : StoreId) (given : Option Scope) (scope : Scope) : EvalM.Keeps
    (World.Tied root (World.Stands root given expression.Shaped)) (expression.meaning.number scope)
  prepared {setting : Setting} {start left : World}
    (ran : expression.meaning.prepare setting start = .ok () left) : expression.Prepared left.memory
  evaluate (root : StoreId) {environment : Environment}
    (around : ∀ handler ∈ environment.functions.handlers, handler.KeepsAside) : expression.meaning.KeepsIn
      (World.Tied root (World.Stands root none fun memory => expression.Shaped memory ∧ expression.Prepared memory))
      environment

/-! Expressions that are no sub-queries. -/

section Plain

variable {expression : Expr}

/-- An expression that is resolved has had its parts resolved. -/
theorem prepared_parts (plain : expression.isSubquery = false) {setting : Setting} {start left : World}
    (ran : expression.meaning.prepare setting start = .ok () left) : ∀ part ∈ expression.parts,
      ∃ begun ended, part.2.meaning.prepare setting begun = .ok () ended ∧
        left.memory.child part.1 = ended.memory := by
  have each {next : World} (ran : Meaning.forEach expression.partMeanings (·.prepare setting) start = .ok () next)
      (same : ∀ branch, left.memory.child branch = next.memory.child branch) : ∀ part ∈ expression.parts,
        ∃ begun ended, part.2.meaning.prepare setting begun = .ok () ended ∧
          left.memory.child part.1 = ended.memory := by
    have apart : ((expression.parts.map (Prod.map id meaning)).map (·.1)).Nodup := by
      simpa [Function.comp_def] using expression.parts_apart
    have prepares : Meaning.Prepares (· = setting) (expression.parts.map (Prod.map id meaning)) _ :=
      Meaning.prepares_forEach rfl apart
    intro part member
    obtain ⟨_, begun, ended, rfl, own, found⟩ := (prepares start next ran).2.2 _ (List.mem_map_of_mem member)
    exact ⟨begun, ended, own, (same _).trans found⟩
  cases expression with
  | constant | member | bind | save => simp [parts]
  | arithmetic | compare | negate | not | logical | isNull => exact each ran fun _ => rfl
  | between | like =>
    obtain ⟨_, next, began, written⟩ := ok_of_bind ran
    cases written
    exact each began fun _ => rfl
  | among negated ignoreCase like all subject items =>
    obtain ⟨_, next, began, written⟩ := ok_of_bind ran
    cases written
    change Meaning.forEach (subject.meaning.down .subject :: Meaning.each (meanings items) .item) _ _ = _ at began
    rw [← partMeanings_among negated ignoreCase like all] at began
    exact each began fun _ => rfl
  | call name arguments =>
    obtain ⟨next, resolution, began, -, same⟩ := Meaning.call_prepare ran
    exact each (partMeanings_call .. ▸ began) fun _ => by rw [same, Memory.child_withState]
  | construct typeName arguments setters =>
    obtain ⟨next, factory, constructor, began, -, same⟩ := Meaning.construct_prepare ran
    exact each (partMeanings_construct .. ▸ began) fun _ => by rw [same, Memory.child_withState]
  | subquery statement => cases plain

theorem shaped_eq (expression : Expr) : expression.Shaped =
    Memory.Within (fun state => expression.isSubquery = false → state.isStatement = false)
      (Memory.OnlyAtParts expression.parts fun part => part.2.Shaped) := by
  funext memory
  refine propext ⟨fun ⟨own, parts, others⟩ => ⟨own, fun branch => ⟨?_, others branch⟩⟩, fun ⟨own, below⟩ =>
    ⟨own, fun part member => (below _).1 part member rfl, fun branch => (below branch).2⟩⟩
  rintro part member rfl
  exact parts part member

theorem shaped_of_plain (plain : expression.isSubquery = false) : expression.Shaped =
    Memory.Plain (Memory.OnlyAtParts expression.parts fun part => part.2.Shaped) := by
  rw [shaped_eq]
  simp only [plain, true_implies]

theorem ready_of_plain (plain : expression.isSubquery = false) :
    (fun memory => expression.Shaped memory ∧ expression.Prepared memory) =
      Memory.Plain (Memory.OnlyAtParts expression.parts fun part memory =>
        part.2.Shaped memory ∧ part.2.Prepared memory) := by
  funext memory
  rw [shaped_of_plain plain]
  refine propext ⟨fun ⟨⟨own, below⟩, prepared⟩ => ⟨own, fun branch => ⟨?_, (below branch).2⟩⟩, fun ⟨own, below⟩ =>
    ⟨⟨own, fun branch => ⟨?_, (below branch).2⟩⟩, .plain plain ?_⟩⟩
  · rintro part member rfl
    cases prepared with
    | plain _ parts => exact ⟨(below _).1 part member rfl, parts part member⟩
    | nested => cases plain
  · exact fun part member same => ((below branch).1 part member same).1
  · exact fun part member => ((below _).1 part member rfl).2

theorem balanced_of_plain (plain : expression.isSubquery = false) (parts : ∀ part ∈ expression.parts, part.2.Balanced) :
    expression.Balanced where
  prepare root setting := by
    rw [shaped_of_plain plain]
    refine prepare_keeps plain fun _ member => ?_
    obtain ⟨_, found, rfl⟩ := List.mem_map.mp member
    obtain ⟨part, inside, rfl⟩ := List.mem_map.mp found
    exact ((parts part inside).prepare root setting).on
      (World.Tied.part (Memory.onlyAtParts_iff expression.parts_apart inside fun part => part.2.Shaped))
  number root given scope := by
    rw [shaped_of_plain plain]
    refine number_keeps plain fun _ member => ?_
    obtain ⟨_, found, rfl⟩ := List.mem_map.mp member
    obtain ⟨part, inside, rfl⟩ := List.mem_map.mp found
    exact ((parts part inside).number root given scope).on
      (World.Tied.part (Memory.onlyAtParts_iff expression.parts_apart inside fun part => part.2.Shaped))
  prepared ran := by
    refine .plain plain fun part member => ?_
    obtain ⟨begun, ended, own, found⟩ := prepared_parts plain ran part member
    exact found ▸ (parts part member).prepared own
  evaluate root _ around := by
    rw [ready_of_plain plain]
    refine evaluate_keeps plain (fun handler member => around handler member _) fun _ member => ?_
    obtain ⟨_, found, rfl⟩ := List.mem_map.mp member
    obtain ⟨part, inside, rfl⟩ := List.mem_map.mp found
    exact fun frame => ((parts part inside).evaluate root around frame).on
      (World.Tied.part (Memory.onlyAtParts_iff expression.parts_apart inside
        fun part memory => part.2.Shaped memory ∧ part.2.Prepared memory))

end Plain

end Expr
end RecordQuery
