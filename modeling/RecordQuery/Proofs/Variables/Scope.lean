import Mathlib.Order.Defs.Unbundled
import RecordQuery.Meaning.Subquery
/-! Scopes and the stores they work on. Whatever evaluation does to the stores, none goes and none is given up, so a
scope works on the same store before and after. -/

namespace RecordQuery.Heap

/-- The stores are still there, and as many scopes own them as before. -/
structure Extends (before after : Heap) : Prop where
  size : before.stores.length ≤ after.stores.length
  holders : ∀ id, (after.store id).holders = (before.store id).holders

instance : IsPreorder Heap Extends where
  refl _ := ⟨Nat.le_refl _, fun _ => rfl⟩
  trans _ _ _ first second :=
    ⟨Nat.le_trans first.size second.size, fun id => (second.holders id).trans (first.holders id)⟩

variable {before after : Heap}

theorem Extends.root (extended : before.Extends after) (scope : Scope) : after.root scope = before.root scope := by
  unfold Heap.root Heap.isAlive
  cases scope.parent with
  | none => rfl
  | some id => simp only [extended.holders id]

/-- A scope whose store exists keeps it. -/
theorem Extends.present (extended : before.Extends after) {scope : Scope}
    (present : before.root scope < before.stores.length) : after.root scope < after.stores.length := by
  rw [extended.root]
  exact Nat.lt_of_lt_of_le present extended.size

theorem store_modify (heap : Heap) (id asked : StoreId) (change : VariableStore → VariableStore) :
    (heap.modify id change).store asked =
      if id = asked ∧ asked < heap.stores.length then change (heap.store asked) else heap.store asked := by
  unfold store modify
  by_cases inside : asked < heap.stores.length
  · by_cases same : id = asked
    · simp [same, inside]
    · simp [same]
  · simp [inside]

theorem extends_modify (heap : Heap) (id : StoreId) {change : VariableStore → VariableStore}
    (kept : ∀ store, (change store).holders = store.holders) : heap.Extends (heap.modify id change) where
  size := by simp [modify]
  holders asked := by
    rw [store_modify]
    split
    · exact kept _
    · rfl

theorem extends_notify (heap : Heap) (id : StoreId) (change : VariableChange) :
    heap.Extends (heap.notify id change) := by
  obtain ⟨size, holders⟩ := heap.extends_modify id fun store => (rfl : (store.raise change).holders = _)
  exact ⟨size, holders⟩

theorem extends_set (heap : Heap) (scope : Scope) (kind : VariableKind) (name : String) (value : Value) :
    heap.Extends (heap.set scope kind name value) := by
  have put := heap.extends_modify (heap.root scope) fun store =>
    (by cases kind <;> rfl : (store.withTable kind ((store.table kind).insert (normalizeName name) value)).holders = _)
  unfold Heap.set
  dsimp only
  split
  · exact put
  · exact IsTrans.trans _ _ _ put (extends_notify ..)

theorem foldl_related {α : Type} {related : Heap → Heap → Prop} [IsPreorder Heap related] {change : Heap → α → Heap}
    (step : ∀ heap item, related heap (change heap item)) (heap : Heap) (items : List α) :
    related heap (items.foldl change heap) := by
  induction items generalizing heap with
  | nil => exact refl heap
  | cons item rest ih => exact IsTrans.trans _ _ _ (step heap item) (ih (change heap item))

theorem extends_replaceSaves (heap : Heap) (scope : Scope) (values : NameTable Value) :
    heap.Extends (heap.replaceSaves scope values) := by
  have put := heap.extends_modify (heap.root scope) fun store =>
    (rfl : ({ store with saves := values } : VariableStore).holders = _)
  exact IsTrans.trans _ _ _ put (foldl_related (fun heap change => heap.extends_notify _ change) _ _)

/-- A new scope has an empty store, as if it had been there. -/
theorem store_newScope (heap : Heap) (id : StoreId) : heap.newScope.2.store id = heap.store id := by
  simp only [store, newScope]
  rcases Nat.lt_trichotomy id heap.stores.length with inside | rfl | outside
  · rw [List.getElem?_append_left inside]
  · simp
  · rw [List.getElem?_eq_none (by simp; omega), List.getElem?_eq_none (by omega)]

theorem extends_newScope (heap : Heap) : heap.Extends heap.newScope.2 where
  size := by simp [newScope]
  holders id := by rw [store_newScope]

theorem extends_nextAnonymous (heap : Heap) (scope : Scope) : heap.Extends (heap.nextAnonymous scope).2 :=
  heap.extends_modify _ fun _ => rfl

theorem extends_put (heap : Heap) (id : StoreId) {store : VariableStore}
    (kept : store.holders = (heap.store id).holders) : heap.Extends (heap.modify id fun _ => store) where
  size := by simp [modify]
  holders asked := by
    rw [store_modify]
    split
    · rename_i here
      rw [kept, here.1]
    · rfl

theorem extends_subscribe (heap : Heap) (scope : Scope) (kind : VariableKind) (listener : Listener) :
    heap.Extends (heap.subscribe scope kind listener).2 := heap.extends_put _ rfl

theorem extends_unsubscribe (heap : Heap) (id : StoreId) (subscription : Nat) :
    heap.Extends (heap.unsubscribe id subscription).2 := heap.extends_put _ rfl

theorem extends_watch (heap : Heap) (scope : Scope) (kind : VariableKind) (names : List String) :
    heap.Extends (heap.watch scope kind names).2 := by
  unfold watch
  split
  · exact refl heap
  · exact heap.extends_subscribe ..

theorem extends_release (heap : Heap) (subscriptions : List (StoreId × Nat)) :
    heap.Extends (heap.release subscriptions) :=
  foldl_related (fun heap (id, subscription) => heap.extends_unsubscribe id subscription) _ _

/-- Opening a statement adds its store, with the variables it brings along. -/
theorem extends_opened (statement : Statement Meaning) (heap : Heap) :
    heap.Extends (statement.newScope heap).2 :=
  IsTrans.trans _ _ _ heap.extends_newScope
    (foldl_related (fun heap (name, value) => heap.extends_set _ .bind name value) _ _)

/-- No store but one is another than before, and there are as many. -/
structure AltersOnly (id : StoreId) (before after : Heap) : Prop where
  size : after.stores.length = before.stores.length
  others {other : StoreId} (apart : other ≠ id) : after.store other = before.store other

instance (id : StoreId) : IsPreorder Heap (AltersOnly id) where
  refl _ := ⟨rfl, fun _ => rfl⟩
  trans _ _ _ first second :=
    ⟨second.size.trans first.size, fun apart => (second.others apart).trans (first.others apart)⟩

theorem altersOnly_modify (heap : Heap) (id : StoreId) (change : VariableStore → VariableStore) :
    AltersOnly id heap (heap.modify id change) where
  size := by simp [modify]
  others apart := by rw [store_modify, if_neg fun here => apart here.1.symm]

theorem altersOnly_notify (heap : Heap) (id : StoreId) (change : VariableChange) :
    AltersOnly id heap (heap.notify id change) := by
  obtain ⟨size, others⟩ := heap.altersOnly_modify id (·.raise change)
  exact ⟨size, others⟩

/-! What is done through a scope is done to the store that it works on. -/

theorem altersOnly_set (heap : Heap) (scope : Scope) (kind : VariableKind) (name : String) (value : Value) :
    AltersOnly (heap.root scope) heap (heap.set scope kind name value) := by
  have put := heap.altersOnly_modify (heap.root scope) fun store =>
    store.withTable kind ((store.table kind).insert (normalizeName name) value)
  unfold Heap.set
  dsimp only
  split
  · exact put
  · exact IsTrans.trans _ _ _ put (altersOnly_notify ..)

theorem altersOnly_replaceSaves (heap : Heap) (scope : Scope) (values : NameTable Value) :
    AltersOnly (heap.root scope) heap (heap.replaceSaves scope values) :=
  IsTrans.trans _ _ _ (heap.altersOnly_modify (heap.root scope) ({ · with saves := values }))
    (foldl_related (fun heap change => heap.altersOnly_notify _ change) _ _)

theorem altersOnly_subscribe (heap : Heap) (scope : Scope) (kind : VariableKind) (listener : Listener) :
    AltersOnly (heap.root scope) heap (heap.subscribe scope kind listener).2 := heap.altersOnly_modify _ _

theorem altersOnly_unsubscribe (heap : Heap) (id : StoreId) (subscription : Nat) :
    AltersOnly id heap (heap.unsubscribe id subscription).2 := heap.altersOnly_modify _ _

theorem altersOnly_nextAnonymous (heap : Heap) (scope : Scope) :
    AltersOnly (heap.root scope) heap (heap.nextAnonymous scope).2 := heap.altersOnly_modify _ _

/-- Opening a statement leaves the stores that there are. -/
theorem store_opened {ε : Type} (statement : Statement ε) (heap : Heap) {id : StoreId}
    (inside : id < heap.stores.length) : (statement.newScope heap).2.store id = heap.store id := by
  have set (after : Heap) (entry : String × Value) :
      AltersOnly heap.stores.length after (after.set ⟨heap.stores.length, none⟩ .bind entry.1 entry.2) :=
    after.altersOnly_set ⟨heap.stores.length, none⟩ .bind entry.1 entry.2
  have setAll : AltersOnly heap.stores.length heap.newScope.2 (statement.newScope heap).2 := foldl_related set _ _
  rw [setAll.others (Nat.ne_of_lt inside), store_newScope]

theorem table_notify (heap : Heap) (id asked : StoreId) (change : VariableChange) (kind : VariableKind) :
    ((heap.notify id change).store asked).table kind = (heap.store asked).table kind := by
  have raised := heap.store_modify id asked (·.raise change)
  change ((heap.modify id (·.raise change)).store asked).table kind = _
  rw [raised]
  split <;> cases kind <;> rfl

theorem table_notifyAll (heap : Heap) (id asked : StoreId) (changes : List VariableChange) (kind : VariableKind) :
    ((changes.foldl (·.notify id ·) heap).store asked).table kind = (heap.store asked).table kind := by
  induction changes generalizing heap with
  | nil => rfl
  | cons change rest ih => rw [List.foldl_cons, ih, table_notify]

theorem table_withTable (store : VariableStore) (kind asked : VariableKind) (table : NameTable Value) :
    (store.withTable kind table).table asked = if asked = kind then table else store.table asked := by
  cases kind <;> cases asked <;> rfl

/-- Setting a variable changes the variables of its kind in the store that the scope works on, and no others. -/
theorem store_set (heap : Heap) (scope : Scope) (kind : VariableKind) (name : String) (value : Value) (id : StoreId)
    (asked : VariableKind) : ((heap.set scope kind name value).store id).table asked =
      if (heap.root scope = id ∧ id < heap.stores.length) ∧ asked = kind then
        ((heap.store id).table kind).insert (normalizeName name) value
      else (heap.store id).table asked := by
  have put := heap.store_modify (heap.root scope) id fun store =>
    store.withTable kind ((store.table kind).insert (normalizeName name) value)
  have written : ((heap.modify (heap.root scope) fun store =>
      store.withTable kind ((store.table kind).insert (normalizeName name) value)).store id).table asked =
        if (heap.root scope = id ∧ id < heap.stores.length) ∧ asked = kind then
          ((heap.store id).table kind).insert (normalizeName name) value
        else (heap.store id).table asked := by
    rw [put]
    by_cases here : heap.root scope = id ∧ id < heap.stores.length
    · simp only [here, and_self, if_true, true_and, table_withTable]
    · simp only [here, if_false, false_and]
  unfold Heap.set
  dsimp only
  split
  · exact written
  · rw [table_notify]
    exact written

/-- Putting save values in place of all changes these in the store that the scope works on, and nothing else. -/
theorem store_replaceSaves (heap : Heap) (scope : Scope) (values : NameTable Value) (id : StoreId)
    (asked : VariableKind) : ((heap.replaceSaves scope values).store id).table asked =
      if (heap.root scope = id ∧ id < heap.stores.length) ∧ asked = .save then values
      else (heap.store id).table asked := by
  rw [replaceSaves, table_notifyAll, store_modify]
  by_cases here : heap.root scope = id ∧ id < heap.stores.length
  · cases asked <;> simp [here, VariableStore.table]
  · simp only [here, if_false, false_and]

/-- Numbering a variable changes no variables. -/
theorem table_nextAnonymous (heap : Heap) (scope : Scope) (asked : VariableKind) :
    ((heap.nextAnonymous scope).2.rootStore scope).table asked = (heap.rootStore scope).table asked := by
  rw [rootStore, (heap.extends_nextAnonymous scope).root, nextAnonymous, store_modify]
  split
  · cases asked <;> rfl
  · rfl

section Present

variable {heap : Heap} {scope : Scope} (present : heap.root scope < heap.stores.length)
include present

/-- Setting a variable changes the variables of its kind, and no others. -/
theorem table_set (kind asked : VariableKind) (name : String) (value : Value) :
    ((heap.set scope kind name value).rootStore scope).table asked =
      if asked = kind then ((heap.rootStore scope).table kind).insert (normalizeName name) value
      else (heap.rootStore scope).table asked := by
  rw [rootStore, (heap.extends_set scope kind name value).root, store_set]
  simp only [present, and_self, true_and]
  rfl

/-- Putting save values in place of all leaves exactly these, and changes no bind variable. -/
theorem table_replaceSaves (values : NameTable Value) (asked : VariableKind) :
    ((heap.replaceSaves scope values).rootStore scope).table asked =
      if asked = .save then values else (heap.rootStore scope).table asked := by
  rw [rootStore, (heap.extends_replaceSaves scope values).root, store_replaceSaves]
  simp only [present, and_self, true_and]
  rfl

end Present

/-- The store that a scope works on is there, and holds these bind variables. -/
structure Binds (scope : Scope) (binds : NameTable Value) (heap : Heap) : Prop where
  present : heap.root scope < heap.stores.length
  binds : (heap.rootStore scope).binds = binds

namespace Binds

variable {scope : Scope} {binds : NameTable Value} {heap : Heap} (bound : heap.Binds scope binds)
include bound

theorem save (name : String) (value : Value) : (heap.set scope .save name value).Binds scope binds where
  present := (heap.extends_set scope .save name value).present bound.present
  binds := (table_set bound.present .save .bind name value).trans bound.binds

theorem saves_save (name : String) (value : Value) : ((heap.set scope .save name value).rootStore scope).saves =
    ((heap.rootStore scope).saves).insert (normalizeName name) value :=
  table_set bound.present .save .save name value

theorem restore (saves : NameTable Value) : (heap.replaceSaves scope saves).Binds scope binds where
  present := (heap.extends_replaceSaves scope saves).present bound.present
  binds := (table_replaceSaves bound.present saves .bind).trans bound.binds

theorem numbered : (heap.nextAnonymous scope).2.Binds scope binds where
  present := (heap.extends_nextAnonymous scope).present bound.present
  binds := (heap.table_nextAnonymous scope .bind).trans bound.binds

end Binds

theorem saves_replaceSaves {heap : Heap} {scope : Scope} (present : heap.root scope < heap.stores.length)
    (values : NameTable Value) : ((heap.replaceSaves scope values).rootStore scope).saves = values :=
  table_replaceSaves present values .save

end RecordQuery.Heap

namespace RecordQuery

/-- The stores of a world are still there in a later one. -/
def World.Extends (before after : World) : Prop := before.heap.Extends after.heap

instance : IsPreorder World World.Extends where
  refl world := refl world.heap
  trans _ _ _ first second := IsTrans.trans (r := Heap.Extends) _ _ _ first second

/-- The save values of the store that a scope works on. -/
def World.saves (world : World) (scope : Scope) : NameTable Value := (world.heap.rootStore scope).saves

end RecordQuery
