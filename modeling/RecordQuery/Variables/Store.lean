import RecordQuery.NameTable
import RecordQuery.Value.Order
/-! A store of variables: bind variables that the caller sets, save values that statements compute, and the
subscriptions to changes of either kind. -/

namespace RecordQuery

inductive VariableKind where
  | bind
  | save
deriving DecidableEq

structure VariableChange where
  kind : VariableKind
  name : String
  old : Value
  new : Value

/-- What a subscription does with a change. -/
inductive Listener where
  /-- Writes the change into the journal of this name. -/
  | journal (name : String)
  /-- Notes that one of the names has changed. -/
  | watch (names : List String)

structure Subscription where
  id : Nat
  kind : VariableKind
  listener : Listener

structure VariableStore where
  binds : NameTable Value
  saves : NameTable Value
  /-- The live subscriptions, oldest first. -/
  subscriptions : List Subscription
  lastSubscription : Nat
  /-- The watches that have noted a change, whether they still live or not. -/
  raised : List Nat
  /-- How many variables without a name have been numbered. -/
  anonymous : Nat
  /-- How many scopes own the store. -/
  holders : Nat
deriving Inhabited

namespace VariableStore

def empty : VariableStore := ⟨.empty, .empty, [], 0, [], 0, 1⟩

def table (store : VariableStore) : VariableKind → NameTable Value
  | .bind => store.binds
  | .save => store.saves

def withTable (store : VariableStore) (kind : VariableKind) (table : NameTable Value) : VariableStore :=
  match kind with
  | .bind => { store with binds := table }
  | .save => { store with saves := table }

def subscribe (store : VariableStore) (kind : VariableKind) (listener : Listener) : Nat × VariableStore :=
  let id := store.lastSubscription + 1
  (id, { store with lastSubscription := id, subscriptions := store.subscriptions ++ [⟨id, kind, listener⟩] })

def unsubscribe (store : VariableStore) (id : Nat) : Bool × VariableStore :=
  (store.subscriptions.any (·.id == id),
    { store with subscriptions := store.subscriptions.filter (·.id != id) })

/-- The changes between two states of the save values: the old names in order, then the new ones. -/
def saveChanges (previous next : NameTable Value) : List VariableChange :=
  let changed := previous.entries.filterMap fun (name, old) =>
    let new := (next.get? name).getD .null
    if old == new then none else some ⟨.save, name, old, new⟩
  let added := next.entries.filterMap fun (name, new) =>
    if previous.contains name || new.isNull then none else some ⟨.save, name, .null, new⟩
  changed ++ added

/-- The live watches of a change: those of its kind that have its name. -/
def watches (store : VariableStore) (change : VariableChange) : List Nat :=
  store.subscriptions.filterMap fun subscription =>
    match subscription.listener with
    | .watch names =>
      if subscription.kind == change.kind && names.contains change.name then some subscription.id else none
    | .journal _ => none

/-- Has the watches of a change note it. -/
def raise (store : VariableStore) (change : VariableChange) : VariableStore :=
  { store with raised := store.raised ++ (store.watches change).filter (!store.raised.contains ·) }

/-- Forgets what some subscriptions have noted. -/
def lower (store : VariableStore) (subscriptions : List Nat) : VariableStore :=
  { store with raised := store.raised.filter (!subscriptions.contains ·) }

/-- The journals that changes of a kind go to, once for each subscription. -/
def journals (store : VariableStore) (kind : VariableKind) : List String :=
  store.subscriptions.filterMap fun subscription =>
    match subscription.listener with
    | .journal name => if subscription.kind == kind then some name else none
    | .watch _ => none

end VariableStore

end RecordQuery
