import Mathlib.Data.List.Perm.Basic
import RecordQuery.Proofs.Statement.Uses
/-! Who listens to the variables of a query: its sub-queries, as they know of themselves, and those who have subscribed
themselves. Nothing that is done with the query leaves a subscription behind that is neither's. -/

namespace RecordQuery

open EvalM

/-! The nodes of sub-queries. -/

/-- What the sub-queries in an expression are remembered as, those inside them included. -/
def Expr.nested (expression : Expr) (memory : Memory) : List (StatementState × Nesting) :=
  (if expression.isSubquery then memory.state.statement?.toList else []) ++
    expression.parts.attach.flatMap fun part => part.1.2.nested (memory.child part.1.1)
termination_by sizeOf expression
decreasing_by exact sizeOf_part_lt expression part.1 part.2

theorem Expr.nested_eq (expression : Expr) (memory : Memory) : expression.nested memory =
    (if expression.isSubquery then memory.state.statement?.toList else []) ++
      expression.parts.flatMap fun part => part.2.nested (memory.child part.1) := by
  rw [nested]
  exact congrArg (_ ++ ·) ((List.flatMap_subtype fun _ _ => rfl).trans (by rw [List.unattach_attach]))

/-- What the sub-queries in a statement are remembered as. -/
def Statement.nested (statement : Statement Expr) (memory : Memory) : List (StatementState × Nesting) :=
  statement.clauses.flatMap fun part => part.2.nested (memory.child part.1)

/-- Where nothing is remembered but on the branches of parts, the statements below are those of the parts. -/
theorem Memory.Apart.parts_perm {memory : Memory} (apart : memory.Apart) {parts : List (Branch × Expr)}
    (unlike : (parts.map (·.1)).Nodup) (others : ∀ branch, branch ∉ parts.map (·.1) → memory.child branch = .empty)
    (each : ∀ part ∈ parts, (memory.child part.1).statements.Perm (part.2.nested (memory.child part.1))) :
    (branchStatements memory.branches).Perm (parts.flatMap fun part => part.2.nested (memory.child part.1)) := by
  have below := branchStatements_perm apart.keys unlike others
  rw [List.flatMap_map] at below
  exact below.trans (List.Perm.flatMap_left _ each)

theorem Expr.Shaped.statements_perm {expression : Expr} : ∀ {memory : Memory}, expression.Shaped memory →
    memory.Apart → memory.statements.Perm (expression.nested memory) := by
  induction expression using Expr.byParts with
  | whole expression ih =>
    rintro memory ⟨own, parts, others⟩ apart
    have node : memory.state.statement?.toList =
        if expression.isSubquery then memory.state.statement?.toList else [] := by
      cases plain : expression.isSubquery with
      | false => rw [NodeState.statement?_of_plain (own plain)]; rfl
      | true => rfl
    rw [Memory.statements_eq, nested_eq, ← node]
    refine List.Perm.append_left _ (apart.parts_perm expression.parts_apart others fun part member => ?_)
    exact ih part member (parts part member) (apart.child part.1)

namespace Query

variable {statement : Statement Expr} {scope : Scope} {own : List Nat} {world : World}

/-- The variables of a query are in a store of its own, and there is an account of who listens to them. -/
structure Attends (statement : Statement Expr) (scope : Scope) (own : List Nat) (world : World) : Prop where
  alone : scope.parent = none
  alive : world.heap.isAlive scope.own = true
  apart : world.memory.Apart
  accounts : world.heap.Accounts scope.own own world.memory.statements
  rests : Rests statement scope world.memory

theorem Attends.stands (attends : Attends statement scope own world) :
    World.Stands scope.own (some scope) (Rests statement scope) world where
  alive := attends.alive
  scope := by
    rintro _ ⟨⟩
    rw [Heap.root, attends.alone]
  apart := attends.apart
  account := ⟨own, attends.accounts⟩
  such := attends.rests

/-- What balances leaves the account right. -/
theorem Attends.after {α : Type} {action : EvalM α} (attends : Attends statement scope own world)
    (keeps : EvalM.Keeps (Uses statement scope.own scope) action) :
    Attends statement scope own (action.after world) := by
  obtain ⟨stands, balances⟩ := keeps world attends.stands
  exact ⟨attends.alone, stands.alive, stands.apart, balances.accounts attends.accounts, stands.such⟩

/-- A query of which nothing was known has a store to which no one listens. -/
theorem attends_opened (unknown : world.memory = .empty) : ∃ state nesting begun,
    (Query.ofStatement statement).statement.opened world = .ok (state, nesting) begun ∧
      begun.memory.state = .statement state nesting ∧ Attends statement state.scope [] begun := by
  let whole := (Query.ofStatement statement).statement
  have ran : whole.opened world = _ := Statement.opened_of_other fun state nesting node => by
    rw [unknown] at node
    cases node
  have quiet := world.heap.quiet_opened whole
  have fresh : world.heap.store (whole.newScope world.heap).1.own = .empty := by
    change world.heap.store world.heap.stores.length = .empty
    simp [Heap.store]
  have lists : (whole.newScope world.heap).2.Lists (whole.newScope world.heap).1.own [] := by
    refine ⟨(Heap.numbered_opened whole world.heap).1, ?_, .nil, List.forall_mem_nil _⟩
    rw [quiet.subscriptions, fresh]
    exact .refl _
  refine ⟨_, _, _, ran, rfl, rfl, ?_, ?_, ?_, ?_⟩
  · rw [Heap.isAlive, quiet.extended.holders, fresh]
    rfl
  all_goals rw [unknown]
  · exact Memory.apart_empty.withState _
  · exact ⟨lists, List.forall_mem_singleton.mpr (Nesting.fits_fresh ..)⟩
  · exact ⟨_, _, rfl, rfl, rfl, fun _ => ⟨fun part _ _ => part.2.shaped_empty, fun ready =>
      absurd ready Bool.false_ne_true, fun _ => rfl⟩⟩

/-! What is done with the variables of a query. -/

section Attends

variable (attends : Attends statement scope own world)
include attends

theorem Attends.scope_eq {state : StatementState} {nesting : Nesting}
    (node : world.memory.state = .statement state nesting) : state.scope = scope := by
  obtain ⟨state', nesting', same, -, knows⟩ := attends.rests
  cases node.symm.trans knows.1
  exact same

/-- The statements whose account there is are the sub-queries of the query. -/
theorem Attends.listed {state : StatementState} {nesting : Nesting}
    (node : world.memory.state = .statement state nesting) :
    world.heap.Accounts scope.own own (statement.nested world.memory) := by
  obtain ⟨state', nesting', -, silent, knows⟩ := attends.rests
  cases node.symm.trans knows.1
  have below : (Memory.branchStatements world.memory.branches).Perm (statement.nested world.memory) := by
    refine attends.apart.parts_perm statement.clauses_apart (fun branch => (knows.2 branch).2.2) fun part member => ?_
    exact ((knows.2 part.1).1 part member rfl).statements_perm (attends.apart.child part.1)
  have right := attends.accounts
  rw [Memory.statements_eq, node] at right
  have accounts := right.perm (below.append_left _)
  refine ⟨?_, fun entry member => accounts.fits entry (List.mem_cons_of_mem _ member)⟩
  have lists := accounts.lists
  rw [List.flatMap_append] at lists
  simpa [NodeState.statement?, silent] using lists

theorem Attends.aside {other : World} (same : other.memory = world.memory)
    (quiet : Heap.QuietAt scope.own world.heap other.heap) : Attends statement scope own other where
  alone := attends.alone
  alive := quiet.alive.trans attends.alive
  apart := same ▸ attends.apart
  accounts := same ▸ attends.accounts.of_quiet quiet
  rests := same ▸ attends.rests

theorem Attends.subscribe (kind : VariableKind) (listener : Listener) :
    Attends statement scope ((world.heap.subscribe scope kind listener).1 :: own)
      { world with heap := (world.heap.subscribe scope kind listener).2 } where
  alone := attends.alone
  alive := by
    rw [Heap.isAlive, (world.heap.extends_subscribe scope kind listener).holders]
    exact attends.alive
  apart := attends.apart
  accounts := by
    have here := attends.stands.scope scope rfl
    exact ⟨attends.accounts.lists.subscribe here kind listener, attends.accounts.continued
      (Heap.continues_subscribe attends.accounts.lists.inside here kind listener)⟩
  rests := attends.rests

theorem Attends.unsubscribe {id : Nat} (member : id ∈ own) : Attends statement scope (own.erase id)
    { world with heap := (world.heap.unsubscribe (world.heap.root scope) id).2 } where
  alone := attends.alone
  alive := by
    rw [Heap.isAlive, (world.heap.extends_unsubscribe _ id).holders]
    exact attends.alive
  apart := attends.apart
  accounts := by
    rw [attends.stands.scope scope rfl]
    have lists := attends.accounts.lists.perm ((List.perm_cons_erase member).append_right _)
    exact ⟨lists.unsubscribe, attends.accounts.continued (world.heap.continues_unsubscribe scope.own id)⟩
  rests := attends.rests

end Attends

/-- What can have become of the world of a query, and the subscriptions to its variables that were taken otherwise than
by its sub-queries, and not given up. -/
inductive Attended (statement : Statement Expr) : List Nat → World → Prop
  | unused {world : World} (unknown : world.memory = .empty) : Attended statement [] world
  /-- Anything has changed but what the query remembers, and who listens to its variables. -/
  | aside {own : List Nat} {world other : World} (before : Attended statement own world)
    (same : other.memory = world.memory) (quiet : ∀ state nesting, world.memory.state = .statement state nesting →
      Heap.QuietAt (world.heap.root state.scope) world.heap other.heap) : Attended statement own other
  | subscribed {own : List Nat} {world : World} {state : StatementState} {nesting : Nesting}
    (before : Attended statement own world) (node : world.memory.state = .statement state nesting)
    (kind : VariableKind) (listener : Listener) :
    Attended statement ((world.heap.subscribe state.scope kind listener).1 :: own)
      { world with heap := (world.heap.subscribe state.scope kind listener).2 }
  | unsubscribed {own : List Nat} {world : World} {state : StatementState} {nesting : Nesting} {id : Nat}
    (before : Attended statement own world) (node : world.memory.state = .statement state nesting) (member : id ∈ own) :
    Attended statement (own.erase id)
      { world with heap := (world.heap.unsubscribe (world.heap.root state.scope) id).2 }
  | asked {own : List Nat} {world : World} (before : Attended statement own world) :
    Attended statement own ((Query.ofStatement statement).state.after world)
  | prepared {own : List Nat} {world : World} (before : Attended statement own world) :
    Attended statement own ((Query.ofStatement statement).prepare.after world)
  | executed {own : List Nat} {world : World} (before : Attended statement own world) (rows : List Value) :
    Attended statement own (((Query.ofStatement statement).execute rows).after world)
  | reordered {own : List Nat} {world : World} (before : Attended statement own world) (results : Results)
    {orders : List (OrderBy Expr)} (given : ∀ handler ∈ handlersOfOrders orders, handler.KeepsAside) :
    Attended statement own (((Query.ofStatement statement).reorderBy results orders).after world)

/-- Nothing is known of a query yet, or there is an account of who listens to its variables. -/
def Accounted (statement : Statement Expr) (own : List Nat) (world : World) : Prop :=
  (world.memory = .empty ∧ own = []) ∨ ∃ scope, Attends statement scope own world

/-- What begins with the node of a query being opened does the same once that has been done. -/
theorem Accounted.after {α : Type} {action : EvalM α} (accounted : Accounted statement own world)
    (opens : ∀ {opened begun}, (Query.ofStatement statement).statement.opened world = .ok opened begun →
      (Query.ofStatement statement).statement.opened begun = .ok opened begun →
        action.after world = action.after begun)
    (keeps : ∀ scope, EvalM.Keeps (Uses statement scope.own scope) action) :
    Accounted statement own (action.after world) := by
  rcases accounted with ⟨unknown, rfl⟩ | ⟨scope, attends⟩
  · obtain ⟨state, nesting, begun, ran, node, attends⟩ := @attends_opened statement world unknown
    rw [opens ran (Statement.opened_of_node node)]
    exact .inr ⟨_, attends.after (keeps _)⟩
  · exact .inr ⟨scope, attends.after (keeps scope)⟩

theorem Accounted.attends (accounted : Accounted statement own world) {state : StatementState} {nesting : Nesting}
    (node : world.memory.state = .statement state nesting) : Attends statement state.scope own world := by
  rcases accounted with ⟨unknown, -⟩ | ⟨scope, attends⟩
  · rw [unknown] at node
    cases node
  · exact attends.scope_eq node ▸ attends

theorem after_again {α β : Type} {first : EvalM β} {next : β → EvalM α} {value : β} {begun : World}
    (ran : first world = .ok value begun) (again : first begun = .ok value begun) :
    (first >>= next).after world = (first >>= next).after begun := by
  rw [EvalM.after, EvalM.after, bind_of_ok ran, bind_of_ok again]

section Account

variable (brought : ∀ handler ∈ handlersOfStatement statement, handler.KeepsAside)
include brought

theorem clauses_balanced : ∀ part ∈ statement.clauses, part.2.Balanced := fun part member =>
  part.2.balanced fun handler inside => brought handler ((Expr.subquery statement).handlers_part part member inside)

theorem Attended.accounted (attended : Attended statement own world) : Accounted statement own world := by
  have balanced := clauses_balanced brought
  induction attended with
  | unused unknown => exact .inl ⟨unknown, rfl⟩
  | aside _ same quiet ih =>
    rcases ih with ⟨unknown, rfl⟩ | ⟨scope, attends⟩
    · exact .inl ⟨same.trans unknown, rfl⟩
    · obtain ⟨state, nesting, rfl, -, knows⟩ := attends.rests
      have quiet := quiet state nesting knows.1
      rw [attends.stands.scope _ rfl] at quiet
      exact .inr ⟨_, attends.aside same quiet⟩
  | subscribed _ node kind listener ih => exact .inr ⟨_, (ih.attends node).subscribe kind listener⟩
  | unsubscribed _ node member ih => exact .inr ⟨_, (ih.attends node).unsubscribe member⟩
  | asked _ ih => exact ih.after (fun ran again => after_again ran again) fun scope => state_tied scope.own
  | prepared _ ih =>
    refine ih.after (fun ran again => ?_) fun scope => prepare_tied balanced scope.own
    exact after_again (bind_of_ok (bind_of_ok ran)) (bind_of_ok (bind_of_ok again))
  | executed _ rows ih =>
    exact ih.after (fun ran again => after_again ran again) fun scope => execute_tied balanced brought scope.own rows
  | reordered _ results given ih =>
    refine ih.after (fun ran again => ?_) fun scope => reorderBy_tied balanced brought scope.own results given
    rw [after_reorderBy, after_reorderBy]
    exact congrArg forgetReorder (after_again (bind_of_ok ran) (bind_of_ok again))

/-- Whatever has been done with a query, and however it ended, those who listen to its variables are those who have
subscribed themselves and its sub-queries, at whatever depth; and a sub-query has one live subscription of a kind at
most. -/
theorem Attended.listeners_accounted (attended : Attended statement own world) {state : StatementState}
    {nesting : Nesting} (node : world.memory.state = .statement state nesting) :
    ((world.heap.rootStore state.scope).subscriptions.map (·.id)).Perm
        (own ++ (statement.nested world.memory).flatMap (·.2.subscriptions)) ∧
      (own ++ (statement.nested world.memory).flatMap (·.2.subscriptions)).Nodup ∧
      ∀ nested ∈ statement.nested world.memory,
        (nested.2.subscriptions ≠ [] → nested.2.store = world.heap.root state.scope) ∧
        ∀ kind, ((world.heap.store nested.2.store).subscriptions.filter fun subscription =>
          nested.2.subscriptions.contains subscription.id && subscription.kind == kind).length ≤ 1 := by
  have attends := (attended.accounted brought).attends node
  have accounts := attends.listed node
  have here := attends.stands.scope _ rfl
  rw [Heap.rootStore, here]
  refine ⟨accounts.lists.listed, accounts.lists.apart, fun nested member => ?_⟩
  have fits := accounts.fits nested member
  refine ⟨fits.stored, fun kind => ?_⟩
  by_cases none : nested.2.subscriptions = []
  · simp [none]
  · rw [fits.stored none]
    exact accounts.lists.length_le_one fits.once kind

end Account

/-- A sub-query over variables of both kinds, and another one inside it. -/
def listening : Statement Expr :=
  let inner : Statement Expr := { Statement.all with source := .expression (.bind (some "items") none) }
  let outer : Statement Expr :=
    { Statement.all with
      source := .expression (.arithmetic .add (.bind (some "low") none) (.save "high" none))
      filter := some (.isNull true (.subquery inner)) }
  { Statement.all with filter := some (.isNull true (.subquery outer)) }

theorem exists_node {world : World} {scope : Scope} (stands : (match world.memory.state with
    | .statement state _ => state.scope == scope
    | _ => false) = true) :
    ∃ state nesting, world.memory.state = .statement state nesting ∧ state.scope = scope := by
  split at stands
  · next state nesting node => exact ⟨state, nesting, node, by simpa using stands⟩
  · cases stands

/-- One subscription is the caller's own. Made ready and executed twice, the sub-queries have taken and given up their
first ones, and hold as many as after the first time. -/
theorem Attended.listeners_accounted_of_listening :
    let query := Query.ofStatement listening
    let asked := query.state.after .start
    let heap := (asked.heap.subscribe ⟨0, none⟩ .bind (.journal "log")).2
    let once := (query.execute [.int32 1]).after (query.prepare.after { asked with heap })
    let twice := (query.execute [.int32 1]).after (query.prepare.after once)
    handlersOfStatement listening = [] ∧ Attended listening [1] once ∧ Attended listening [1] twice ∧
      (listening.nested once.memory).map (·.2.subscriptions) = [[2, 3], [4]] ∧
      (listening.nested twice.memory).map (·.2.subscriptions) = [[5, 6], [7]] ∧
      ((twice.heap.store 0).subscriptions.map (·.id)).Perm [1, 5, 6, 7] := by
  intro query asked heap once twice
  have bare : handlersOfStatement listening = [] := rfl
  obtain ⟨state, nesting, node, same⟩ := @exists_node asked ⟨0, none⟩ (by decide +kernel)
  have begun : Attended listening [] asked := .asked (.unused rfl)
  have heard := begun.subscribed node .bind (.journal "log")
  rw [same] at heard
  have first : Attended listening [1] once := heard.prepared.executed [.int32 1]
  have second : Attended listening [1] twice := first.prepared.executed [.int32 1]
  obtain ⟨state, nesting, node, same⟩ := @exists_node twice ⟨0, none⟩ (by decide +kernel)
  obtain ⟨listed, -, -⟩ := Attended.listeners_accounted (by simp [bare]) second node
  have held : (listening.nested twice.memory).map (·.2.subscriptions) = [[5, 6], [7]] := by decide +kernel
  rw [same, List.flatMap_def, held] at listed
  exact ⟨bare, first, second, by decide +kernel, held, listed⟩

end Query

end RecordQuery
