import RecordQuery.Variables.Name
import RecordQuery.Variables.Store
/-! Scopes. Each owns a store; a scope linked to another one works on that one's store instead, for as long as some
scope still owns it. -/

namespace RecordQuery

/-- The place of a store among the stores. -/
abbrev StoreId := Nat

/-- All stores, and the journals that subscriptions write. -/
structure Heap where
  stores : List VariableStore
  journals : NameTable (List VariableChange)
deriving Inhabited

structure Scope where
  own : StoreId
  parent : Option StoreId
deriving Inhabited, DecidableEq

namespace Heap

def empty : Heap := ⟨[], .empty⟩

def store (heap : Heap) (id : StoreId) : VariableStore := (heap.stores[id]?).getD .empty

def modify (heap : Heap) (id : StoreId) (change : VariableStore → VariableStore) : Heap :=
  { heap with stores := heap.stores.modify id change }

/-- Whether some scope owns the store. -/
def isAlive (heap : Heap) (id : StoreId) : Bool := 0 < (heap.store id).holders

/-- A scope that owns a fresh store. -/
def newScope (heap : Heap) : Scope × Heap :=
  (⟨heap.stores.length, none⟩, { heap with stores := heap.stores ++ [.empty] })

/-- Another handle on the same store. -/
def cloneScope (heap : Heap) (scope : Scope) : Heap :=
  heap.modify scope.own fun store => { store with holders := store.holders + 1 }

/-- Gives a scope up; a store that no scope owns any more is gone. -/
def dropScope (heap : Heap) (scope : Scope) : Heap :=
  heap.modify scope.own fun store => { store with holders := store.holders - 1 }

/-- The store that a scope works on: the one it is linked to while that lives, its own otherwise. -/
def root (heap : Heap) (scope : Scope) : StoreId :=
  match scope.parent with
  | some id => if heap.isAlive id then id else scope.own
  | none => scope.own

/-- Links a scope to the store that another one works on. -/
def link (heap : Heap) (scope parent : Scope) : Scope := { scope with parent := some (heap.root parent) }

def rootStore (heap : Heap) (scope : Scope) : VariableStore := heap.store (heap.root scope)

def get? (heap : Heap) (scope : Scope) (kind : VariableKind) (name : String) : Option Value :=
  ((heap.rootStore scope).table kind).get? (normalizeName name)

/-- A bind variable, null if it is not set. -/
def bindValue (heap : Heap) (scope : Scope) (name : String) : Value := (heap.get? scope .bind name).getD .null

def saveValue? (heap : Heap) (scope : Scope) (name : String) : Option Value := heap.get? scope .save name

/-- Delivers a change of a store to its subscriptions. -/
def notify (heap : Heap) (id : StoreId) (change : VariableChange) : Heap :=
  let noted := ((heap.store id).journals change.kind).foldl (fun journals name =>
    journals.insert name ((journals.get? name).getD [] ++ [change])) heap.journals
  { heap.modify id (·.raise change) with journals := noted }

/-- Sets a variable, and tells the subscriptions if its value is another one than before. -/
def set (heap : Heap) (scope : Scope) (kind : VariableKind) (name : String) (value : Value) : Heap :=
  let id := heap.root scope
  let name := normalizeName name
  let old := (((heap.store id).table kind).get? name).getD .null
  let heap := heap.modify id fun store => store.withTable kind ((store.table kind).insert name value)
  if old == value then heap else heap.notify id ⟨kind, name, old, value⟩

/-- Puts other save values in place of all, and tells the subscriptions of each that changed. -/
def replaceSaves (heap : Heap) (scope : Scope) (values : NameTable Value) : Heap :=
  let id := heap.root scope
  let changes := VariableStore.saveChanges (heap.store id).saves values
  changes.foldl (·.notify id ·) (heap.modify id ({ · with saves := values }))

def subscribe (heap : Heap) (scope : Scope) (kind : VariableKind) (listener : Listener) : Nat × Heap :=
  let id := heap.root scope
  let (subscription, store) := (heap.store id).subscribe kind listener
  (subscription, heap.modify id fun _ => store)

def unsubscribe (heap : Heap) (id : StoreId) (subscription : Nat) : Bool × Heap :=
  let (found, store) := (heap.store id).unsubscribe subscription
  (found, heap.modify id fun _ => store)

/-- The number of the next variable without a name. -/
def nextAnonymous (heap : Heap) (scope : Scope) : Nat × Heap :=
  let id := heap.root scope
  ((heap.store id).anonymous + 1, heap.modify id fun store => { store with anonymous := store.anonymous + 1 })

def listenerCount (heap : Heap) (scope : Scope) : Nat := (heap.rootStore scope).subscriptions.length

/-- Takes what a journal holds so far. -/
def takeJournal (heap : Heap) (name : String) : List VariableChange × Heap :=
  ((heap.journals.get? name).getD [], { heap with journals := heap.journals.insert name [] })

end Heap

end RecordQuery
