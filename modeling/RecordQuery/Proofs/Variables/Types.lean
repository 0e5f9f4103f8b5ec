import RecordQuery.Proofs.Variables.Scope
/-! The types of variables. Evaluating a statement can set save values that were not set, but a variable that is set
stays as it is, and so does its type. -/

namespace RecordQuery.Heap

/-- The stores are still there, with all their variables as they were. -/
structure SameTables (before after : Heap) : Prop extends Extends before after where
  same (id : StoreId) (kind : VariableKind) : (after.store id).table kind = (before.store id).table kind

instance : IsPreorder Heap SameTables where
  refl heap := ⟨refl heap, fun _ _ => rfl⟩
  trans _ _ _ first second :=
    ⟨IsTrans.trans _ _ _ first.toExtends second.toExtends,
      fun id kind => (second.same id kind).trans (first.same id kind)⟩

theorem sameTables_modify (heap : Heap) (id : StoreId) {change : VariableStore → VariableStore}
    (owned : ∀ store, (change store).holders = store.holders)
    (same : ∀ store kind, (change store).table kind = store.table kind) : heap.SameTables (heap.modify id change) := by
  refine ⟨heap.extends_modify id owned, fun asked kind => ?_⟩
  rw [store_modify]
  split
  · exact same _ kind
  · rfl

theorem sameTables_put (heap : Heap) (id : StoreId) {store : VariableStore}
    (owned : store.holders = (heap.store id).holders)
    (same : ∀ kind, store.table kind = (heap.store id).table kind) :
    heap.SameTables (heap.modify id fun _ => store) := by
  refine ⟨heap.extends_put id owned, fun asked kind => ?_⟩
  rw [store_modify]
  split
  · next here => rw [same, here.1]
  · rfl

theorem sameTables_nextAnonymous (heap : Heap) (scope : Scope) : heap.SameTables (heap.nextAnonymous scope).2 :=
  heap.sameTables_modify _ (fun _ => rfl) fun _ kind => by cases kind <;> rfl

theorem sameTables_lower (heap : Heap) (id : StoreId) (subscriptions : List Nat) :
    heap.SameTables (heap.modify id (·.lower subscriptions)) :=
  heap.sameTables_modify _ (fun _ => rfl) fun _ kind => by cases kind <;> rfl

theorem sameTables_watch (heap : Heap) (scope : Scope) (kind : VariableKind) (names : List String) :
    heap.SameTables (heap.watch scope kind names).2 := by
  unfold watch
  split
  · exact refl heap
  · exact heap.sameTables_put _ rfl fun kind => by cases kind <;> rfl

theorem sameTables_unsubscribe (heap : Heap) (id : StoreId) (subscription : Nat) :
    heap.SameTables (heap.unsubscribe id subscription).2 :=
  heap.sameTables_put _ rfl fun kind => by cases kind <;> rfl

theorem sameTables_release (heap : Heap) (subscriptions : List (StoreId × Nat)) :
    heap.SameTables (heap.release subscriptions) :=
  foldl_related (fun heap (id, subscription) => heap.sameTables_unsubscribe id subscription) _ _

/-- The stores are still there, and each variable that was set in one of them has the value that it had. -/
structure Retains (before after : Heap) : Prop extends Extends before after where
  kept {id : StoreId} {kind : VariableKind} {name : String} {value : Value}
    (set : ((before.store id).table kind).get? name = some value) :
    ((after.store id).table kind).get? name = some value

instance : IsPreorder Heap Retains where
  refl heap := ⟨refl heap, fun set => set⟩
  trans _ _ _ first second :=
    ⟨IsTrans.trans _ _ _ first.toExtends second.toExtends, fun set => second.kept (first.kept set)⟩

variable {before heap : Heap}

theorem SameTables.retains (tables : before.SameTables heap) : before.Retains heap :=
  ⟨tables.toExtends, fun set => by rwa [tables.same]⟩

/-- Setting a variable that was not set before leaves all that were. -/
theorem Retains.set (retained : before.Retains heap) {scope : Scope} {kind : VariableKind} {name : String}
    (absent : ((before.store (before.root scope)).table kind).get? (normalizeName name) = none) (value : Value) :
    before.Retains (heap.set scope kind name value) where
  toExtends := IsTrans.trans _ _ _ retained.toExtends (heap.extends_set scope kind name value)
  kept {id asked name' value'} set := by
    rw [store_set]
    split
    · next here =>
      obtain ⟨⟨rfl, -⟩, rfl⟩ := here
      rw [NameTable.get?_insert]
      split
      · next twin =>
        rw [retained.root, twin, absent] at set
        cases set
      · exact retained.kept set
    · exact retained.kept set

/-- Putting the save values back that a scope had before leaves all variables that were set then. -/
theorem Retains.restore (retained : before.Retains heap) (scope : Scope) :
    before.Retains (heap.replaceSaves scope (before.rootStore scope).saves) where
  toExtends := IsTrans.trans _ _ _ retained.toExtends (heap.extends_replaceSaves scope _)
  kept {id kind name value} set := by
    rw [store_replaceSaves]
    split
    · next here =>
      obtain ⟨⟨rfl, -⟩, rfl⟩ := here
      rw [retained.root] at set
      exact set
    · exact retained.kept set

/-- Opening a statement sets variables in a store of its own. -/
theorem table_opened (statement : Statement Meaning) (heap : Heap) {id : StoreId} (inside : id < heap.stores.length)
    (kind : VariableKind) : ((statement.newScope heap).2.store id).table kind = (heap.store id).table kind := by
  rw [store_opened statement heap inside]

theorem retains_opened (statement : Statement Meaning) (heap : Heap) :
    heap.Retains (statement.newScope heap).2 := by
  refine ⟨heap.extends_opened statement, fun {id kind name value} set => ?_⟩
  by_cases inside : id < heap.stores.length
  · rwa [table_opened statement heap inside]
  · have absent : heap.store id = .empty := by simp [store, List.getElem?_eq_none (Nat.not_lt.mp inside)]
    rw [absent] at set
    cases kind <;> cases set

/-- The type of a variable, any if it is not set. -/
def typeOf (heap : Heap) (scope : Scope) (kind : VariableKind) (name : String) : DataType :=
  ((heap.get? scope kind name).map Value.dataType).getD .any

/-- The variables that have a type in a scope of one heap have it in that scope of the other. -/
def SameTypes (before : Heap) (scope : Scope) (after : Heap) (seen : Scope) : Prop :=
  ∀ kind name, before.typeOf scope kind name ≠ .any → after.typeOf seen kind name = before.typeOf scope kind name

theorem SameTypes.retains {scope seen : Scope} {base after : Heap} (same : base.SameTypes scope heap seen)
    (retained : heap.Retains after) : base.SameTypes scope after seen := by
  intro kind name known
  have typed := same kind name known
  rw [← typed] at known ⊢
  unfold typeOf at known ⊢
  cases set : heap.get? seen kind name with
  | none => simp [set] at known
  | some value =>
    have kept : after.get? seen kind name = some value := by
      rw [Heap.get?, rootStore, retained.root]
      exact retained.kept set
    rw [kept]

end RecordQuery.Heap

namespace RecordQuery

/-- The variables of a world that were set have their values in a later one. -/
def World.Retains (before after : World) : Prop := before.heap.Retains after.heap

instance : IsPreorder World World.Retains where
  refl world := refl world.heap
  trans _ _ _ first second := IsTrans.trans (r := Heap.Retains) _ _ _ first second

end RecordQuery
