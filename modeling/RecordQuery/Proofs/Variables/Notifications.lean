import Mathlib.Data.List.Induction
import Mathlib.Data.String.Basic
import RecordQuery.Proofs.Value.Equality
import RecordQuery.Proofs.Variables.Scope
/-! Notifications of changes as a log. Replayed, the changes of a kind give the variables of that kind, each change
tells of the value before it, and none tells of nothing. -/

namespace RecordQuery

/-! Tables whose names are in order. -/

namespace NameTable

variable {α : Type}

/-- The names are in ascending order, each of them once. -/
def Ordered (table : NameTable α) : Prop := (table.entries.map (·.1)).Pairwise (· < ·)

theorem ordered_empty : (empty : NameTable α).Ordered := .nil

private theorem mem_insertEntry {name other : String} {item : α} {entries : List (String × α)}
    (member : other ∈ (insertEntry name item entries).map (·.1)) : other = name ∨ other ∈ entries.map (·.1) := by
  induction entries with
  | nil => exact .inl (by simpa [insertEntry] using member)
  | cons head rest ih => grind [insertEntry]

theorem Ordered.insert {table : NameTable α} (ordered : table.Ordered) (name : String) (item : α) :
    (table.insert name item).Ordered := by
  obtain ⟨entries⟩ := table
  unfold NameTable.insert Ordered at *
  dsimp only at *
  induction entries with
  | nil => exact List.pairwise_singleton ..
  | cons head rest ih =>
    obtain ⟨first, later⟩ := List.pairwise_cons.mp ordered
    unfold insertEntry
    split
    · next same => exact List.pairwise_cons.mpr ⟨same ▸ first, later⟩
    · split
      · next before =>
        refine List.pairwise_cons.mpr ⟨fun other member => ?_, ordered⟩
        rcases List.mem_cons.mp member with rfl | member
        · exact before
        · exact before.trans (first other member)
      · next different notBefore =>
        refine List.pairwise_cons.mpr ⟨fun other member => ?_, ih later⟩
        rcases mem_insertEntry member with rfl | member
        · exact lt_of_le_of_ne (not_lt.mp notBefore) (Ne.symm different)
        · exact first other member

theorem ordered_ofList (entries : List (String × α)) : (ofList entries).Ordered := by
  have insertAll (table : NameTable α) (ordered : table.Ordered) :
      (entries.foldl (fun table entry => table.insert entry.1 entry.2) table).Ordered := by
    induction entries generalizing table with
    | nil => exact ordered
    | cons entry rest ih => exact ih _ (ordered.insert entry.1 entry.2)
  exact insertAll empty ordered_empty

theorem Ordered.nodup {table : NameTable α} (ordered : table.Ordered) : (table.entries.map (·.1)).Nodup :=
  ordered.imp fun before => ne_of_lt before

theorem mem_of_get? {table : NameTable α} {name : String} {item : α} (found : table.get? name = some item) :
    (name, item) ∈ table.entries := by
  obtain ⟨entries⟩ := table
  change entries.lookup name = some item at found
  induction entries with
  | nil => cases found
  | cons head rest ih => grind

theorem Ordered.get?_of_mem {table : NameTable α} (ordered : table.Ordered) {name : String} {item : α}
    (member : (name, item) ∈ table.entries) : table.get? name = some item := by
  have apart := ordered.nodup
  obtain ⟨entries⟩ := table
  change entries.lookup name = some item
  dsimp only at *
  induction entries with
  | nil => cases member
  | cons head rest ih =>
    obtain ⟨fresh, apart⟩ := List.nodup_cons.mp apart
    rcases List.mem_cons.mp member with rfl | later
    · simp
    · have different : name ≠ head.1 := fun same =>
        fresh (List.mem_map.mpr ⟨(name, item), later, same⟩)
      rw [List.lookup_cons, beq_false_of_ne different]
      exact ih (List.pairwise_cons.mp ordered).2 later apart

/-- What a name stands for, null if it is not set. -/
def value (table : NameTable Value) (name : String) : Value := (table.get? name).getD .null

/-- No value holds a record. -/
def Plain (table : NameTable Value) : Prop := ∀ name, (table.value name).records = []

end NameTable

/-! Changes, and what they come to. -/

/-- What a name stands for after some changes, null if none tells of it. -/
def replay (changes : List VariableChange) (name : String) : Value :=
  changes.foldl (fun value change => if change.name = name then change.new else value) .null

section Replay

variable (changes later : List VariableChange) (name : String)

theorem replay_concat (change : VariableChange) :
    replay (changes ++ [change]) name = if change.name = name then change.new else replay changes name := by
  simp [replay]

/-- Changes of other names leave a name as it was. -/
theorem replay_append_of_other (others : ∀ change ∈ later, change.name ≠ name) :
    replay (changes ++ later) name = replay changes name := by
  induction later using List.reverseRecOn with
  | nil => rw [List.append_nil]
  | append_singleton later change ih =>
    obtain ⟨earlier, last⟩ := List.forall_mem_append.mp others
    rw [← List.append_assoc, replay_concat, if_neg (last change (List.mem_singleton_self change)), ih earlier]

/-- Of changes of different names, the one of a name tells what it stands for. -/
theorem replay_append_of_mem {change : VariableChange} (member : change ∈ later)
    (apart : (later.map (·.name)).Nodup) : replay (changes ++ later) change.name = change.new := by
  obtain ⟨before, after, rfl⟩ := List.append_of_mem member
  rw [List.map_append, List.map_cons] at apart
  have fresh := (List.nodup_cons.mp (List.nodup_append.mp apart).2.1).1
  have joined : changes ++ (before ++ change :: after) = (changes ++ before ++ [change]) ++ after := by simp
  rw [joined, replay_append_of_other, replay_concat, if_pos rfl]
  exact fun other inside same => fresh (List.mem_map.mpr ⟨other, inside, same⟩)

end Replay

/-- The changes of a kind are a faithful log of a table: none is from a value to an equal one, each is from the value
that the changes before it come to, and all of them come to what the table holds. -/
structure Faithful (kind : VariableKind) (changes : List VariableChange) (table : NameTable Value) : Prop where
  ofKind : ∀ change ∈ changes, change.kind = kind
  differs : ∀ change ∈ changes, change.old.equal change.new = false
  fromReplayed : ∀ earlier change later, changes = earlier ++ change :: later →
    change.old.equal (replay earlier change.name) = true
  stored : ∀ name, (replay changes name).equal (table.value name) = true

/-- Changes from one table to another, of different names each. -/
structure Batch (kind : VariableKind) (changes : List VariableChange) (before after : NameTable Value) : Prop where
  ofKind : ∀ change ∈ changes, change.kind = kind
  apart : (changes.map (·.name)).Nodup
  differs : ∀ change ∈ changes, change.old.equal change.new = false
  old : ∀ change ∈ changes, change.old = before.value change.name
  new : ∀ change ∈ changes, change.new = after.value change.name
  others : ∀ name, (∀ change ∈ changes, change.name ≠ name) → (before.value name).equal (after.value name) = true

section Append

variable {kind : VariableKind} {changes more : List VariableChange} {before after : NameTable Value}

/-- The values that changes come to hold no records if those that they tell of hold none. -/
theorem replay_plain (plain : ∀ change ∈ changes, change.new.records = []) (name : String) :
    (replay changes name).records = [] := by
  induction changes using List.reverseRecOn with
  | nil => rfl
  | append_singleton changes change ih =>
    obtain ⟨earlier, last⟩ := List.forall_mem_append.mp plain
    rw [replay_concat]
    split
    · exact last change (List.mem_singleton_self change)
    · exact ih earlier

/-- A faithful log of values without records. -/
structure PlainLog (kind : VariableKind) (changes : List VariableChange) (table : NameTable Value) : Prop
    extends Faithful kind changes table where
  told : ∀ change ∈ changes, change.new.records = []
  plain : table.Plain
  ordered : table.Ordered

theorem plainLog_start (kind : VariableKind) : PlainLog kind [] .empty where
  ofKind := nofun
  differs := nofun
  fromReplayed earlier _ _ split := by cases earlier <;> cases split
  stored _ := rfl
  told := nofun
  plain _ := rfl
  ordered := NameTable.ordered_empty

/-- A log stays faithful when a batch of changes goes behind it. -/
theorem Faithful.append (faithful : Faithful kind changes before) (batch : Batch kind more before after)
    (told : ∀ change ∈ changes, change.new.records = []) (plain : before.Plain) (plain' : after.Plain) :
    Faithful kind (changes ++ more) after where
  ofKind := List.forall_mem_append.mpr ⟨faithful.ofKind, batch.ofKind⟩
  differs := List.forall_mem_append.mpr ⟨faithful.differs, batch.differs⟩
  fromReplayed := by
    -- In the batch no change before one has its name.
    have ofBatch (part later : List VariableChange) (change : VariableChange) (split : more = part ++ change :: later) :
        change.old.equal (replay (changes ++ part) change.name) = true := by
      have member : change ∈ more := split ▸ List.mem_append_right _ List.mem_cons_self
      have apart := batch.apart
      rw [split, List.map_append, List.map_cons] at apart
      have fresh := (List.nodup_append.mp apart).2.2
      rw [replay_append_of_other, batch.old change member]
      · exact Value.equal_comm (replay_plain told _) (plain _) ▸ faithful.stored change.name
      · exact fun other inside => fresh _ (List.mem_map_of_mem inside) _ List.mem_cons_self
    intro earlier change later split
    rcases List.append_eq_append_iff.mp split with ⟨part, rfl, rest⟩ | ⟨part, own, rest⟩
    · exact ofBatch part later change rest
    · cases part with
      | nil =>
        rw [List.append_nil] at own
        have first := ofBatch [] later change rest.symm
        rwa [List.append_nil, own] at first
      | cons first part =>
        cases rest
        exact faithful.fromReplayed earlier change part own
  stored := by
    intro name
    by_cases renewed : ∃ change ∈ more, change.name = name
    · obtain ⟨change, member, rfl⟩ := renewed
      rw [replay_append_of_mem changes more member batch.apart, batch.new change member]
      exact Value.equal_refl (plain' change.name)
    · have others : ∀ change ∈ more, change.name ≠ name := fun change member same => renewed ⟨change, member, same⟩
      rw [replay_append_of_other changes more name others]
      exact Value.equal_trans (replay_plain told name) (plain name) (plain' name) (faithful.stored name)
        (batch.others name others)

theorem PlainLog.append (log : PlainLog kind changes before) (batch : Batch kind more before after)
    (ordered : after.Ordered) (plain : after.Plain) : PlainLog kind (changes ++ more) after where
  toFaithful := log.toFaithful.append batch log.told log.plain plain
  told := List.forall_mem_append.mpr ⟨log.told, fun change member => batch.new change member ▸ plain change.name⟩
  plain := plain
  ordered := ordered

end Append

/-! What a store tells when it is written. -/

theorem Value.equal_null (value : Value) : Value.null.equal value = value.isNull := by
  cases value <;> rfl

theorem NameTable.plain_of_entries {table : NameTable Value} (plain : ∀ entry ∈ table.entries, entry.2.records = []) :
    table.Plain := by
  intro name
  unfold NameTable.value
  cases found : table.get? name with
  | none => rfl
  | some item => exact plain _ (mem_of_get? found)

theorem NameTable.value_insert (table : NameTable Value) (name asked : String) (item : Value) :
    (table.insert name item).value asked = if asked = name then item else table.value asked := by
  unfold NameTable.value
  rw [get?_insert]
  split <;> rfl

theorem NameTable.Plain.insert {table : NameTable Value} (plain : table.Plain) {item : Value} (own : item.records = [])
    (name : String) : (table.insert name item).Plain := by
  intro asked
  rw [value_insert]
  split
  · exact own
  · exact plain asked

/-- The change of a name to a value, if the name had another one. -/
def changeTo (kind : VariableKind) (table : NameTable Value) (name : String) (value : Value) : List VariableChange :=
  if (table.value name).equal value then [] else [⟨kind, name, table.value name, value⟩]

theorem batch_insert (kind : VariableKind) {table : NameTable Value} (plain : table.Plain) (name : String)
    (value : Value) : Batch kind (changeTo kind table name value) table (table.insert name value) := by
  have others (asked : String) (other : asked ≠ name) :
      (table.value asked).equal ((table.insert name value).value asked) = true := by
    rw [NameTable.value_insert, if_neg other]
    exact Value.equal_refl (plain asked)
  unfold changeTo
  split
  · next same =>
    refine ⟨nofun, .nil, nofun, nofun, nofun, fun asked _ => ?_⟩
    by_cases own : asked = name
    · rw [NameTable.value_insert, if_pos own, own]
      exact same
    · exact others asked own
  · next different =>
    rw [Bool.not_eq_true] at different
    refine ⟨?_, List.pairwise_singleton .., ?_, ?_, ?_, fun asked untold => ?_⟩
    · simp
    · simpa using different
    · simp
    · simp [NameTable.value_insert]
    · exact others asked fun own => untold _ (List.mem_singleton_self _) own.symm

section Replaced

variable {previous next : NameTable Value}

theorem mem_saveChanges {change : VariableChange} :
    change ∈ VariableStore.saveChanges previous next ↔
      (∃ name old, (name, old) ∈ previous.entries ∧ old.equal (next.value name) = false ∧
        change = ⟨.save, name, old, next.value name⟩) ∨
      ∃ name new, (name, new) ∈ next.entries ∧ previous.contains name = false ∧ new.isNull = false ∧
        change = ⟨.save, name, .null, new⟩ := by
  have told (old new : Value) : (old == new) = old.equal new := rfl
  simp only [VariableStore.saveChanges, List.mem_append, List.mem_filterMap, Prod.exists, told, NameTable.value]
  refine or_congr (exists_congr fun name => exists_congr fun old => and_congr_right fun _ => ?_)
    (exists_congr fun name => exists_congr fun new => and_congr_right fun _ => ?_)
  · cases Value.equal old ((next.get? name).getD .null) <;> simp [eq_comm]
  · cases previous.contains name <;> cases new.isNull <;> simp [eq_comm]

/-- Each change between two states of the save values tells of another name. -/
theorem saveChanges_apart (ordered : previous.Ordered) (ordered' : next.Ordered) :
    ((VariableStore.saveChanges previous next).map (·.name)).Nodup := by
  have named {entries : List (String × Value)} (apart : (entries.map (·.1)).Nodup)
      {told : String × Value → Option VariableChange} (own : ∀ entry change, told entry = some change →
        change.name = entry.1) : ((entries.filterMap told).map (·.name)).Nodup := by
    refine List.pairwise_map.mpr (List.pairwise_filterMap.mpr ((List.pairwise_map.mp apart).imp ?_))
    intro entry entry' different change found change' found'
    rw [own entry change found, own entry' change' found']
    exact different
  rw [VariableStore.saveChanges, List.map_append]
  refine List.nodup_append.mpr ⟨named ordered.nodup ?_, named ordered'.nodup ?_, ?_⟩
  · rintro ⟨name, old⟩ change found
    dsimp only at found
    split at found <;> cases found
    rfl
  · rintro ⟨name, new⟩ change found
    dsimp only at found
    split at found <;> cases found
    rfl
  · -- What was set before is told of in the first part alone.
    intro name first name' second
    obtain ⟨change, changed, rfl⟩ := List.mem_map.mp first
    obtain ⟨change', added, rfl⟩ := List.mem_map.mp second
    obtain ⟨⟨name, old⟩, entry, found⟩ := List.mem_filterMap.mp changed
    obtain ⟨⟨name', new⟩, -, found'⟩ := List.mem_filterMap.mp added
    dsimp only at found found'
    split at found <;> cases found
    split at found' <;> cases found'
    next absent =>
      rintro rfl
      simp [NameTable.contains, ordered.get?_of_mem entry] at absent

theorem batch_saveChanges (ordered : previous.Ordered) (ordered' : next.Ordered) :
    Batch .save (VariableStore.saveChanges previous next) previous next where
  ofKind change member := by
    rcases mem_saveChanges.mp member with ⟨_, _, _, _, rfl⟩ | ⟨_, _, _, _, _, rfl⟩ <;> rfl
  apart := saveChanges_apart ordered ordered'
  differs change member := by
    rcases mem_saveChanges.mp member with ⟨_, _, _, different, rfl⟩ | ⟨_, _, _, _, present, rfl⟩
    · exact different
    · exact (Value.equal_null _).trans present
  old change member := by
    rcases mem_saveChanges.mp member with ⟨name, old, entry, _, rfl⟩ | ⟨name, _, _, absent, _, rfl⟩
    · simp [NameTable.value, ordered.get?_of_mem entry]
    · have unset : previous.get? name = none := by simpa [NameTable.contains] using absent
      simp [NameTable.value, unset]
  new change member := by
    rcases mem_saveChanges.mp member with ⟨_, _, _, _, rfl⟩ | ⟨name, new, entry, _, _, rfl⟩
    · rfl
    · simp [NameTable.value, ordered'.get?_of_mem entry]
  others name untold := by
    by_contra different
    rw [Bool.not_eq_true] at different
    cases found : previous.get? name with
    | some old =>
      have own : previous.value name = old := by rw [NameTable.value, found, Option.getD_some]
      exact untold ⟨.save, name, old, next.value name⟩ (mem_saveChanges.mpr
        (.inl ⟨name, old, NameTable.mem_of_get? found, own ▸ different, rfl⟩)) rfl
    | none =>
      have own : previous.value name = .null := by rw [NameTable.value, found, Option.getD_none]
      rw [own, Value.equal_null] at different
      cases found' : next.get? name with
      | none => simp [NameTable.value, found', Value.isNull] at different
      | some new =>
        have own' : next.value name = new := by rw [NameTable.value, found', Option.getD_some]
        refine untold ⟨.save, name, .null, new⟩ (mem_saveChanges.mpr
          (.inr ⟨name, new, NameTable.mem_of_get? found', ?_, own' ▸ different, rfl⟩)) rfl
        simp [NameTable.contains, found]

end Replaced

namespace Heap

/-- What a journal holds. -/
def journal (heap : Heap) (name : String) : List VariableChange := (heap.journals.get? name).getD []

/-- Changes a table of a store, and delivers changes to its subscriptions. -/
def write (heap : Heap) (id : StoreId) (kind : VariableKind) (change : NameTable Value → NameTable Value)
    (changes : List VariableChange) : Heap :=
  changes.foldl (·.notify id ·) (heap.modify id fun store => store.withTable kind (change (store.table kind)))

variable (heap : Heap) (scope : Scope)

theorem set_eq_write (kind : VariableKind) (name : String) (value : Value) :
    heap.set scope kind name value = heap.write (heap.root scope) kind (·.insert (normalizeName name) value)
      (changeTo kind ((heap.rootStore scope).table kind) (normalizeName name) value) := by
  have compared : ((((heap.rootStore scope).table kind).get? (normalizeName name)).getD .null == value) =
      (((heap.rootStore scope).table kind).value (normalizeName name)).equal value := rfl
  unfold rootStore at compared
  unfold Heap.set write changeTo rootStore
  dsimp only
  rw [compared]
  split <;> rfl

theorem replaceSaves_eq_write (values : NameTable Value) :
    heap.replaceSaves scope values = heap.write (heap.root scope) .save (fun _ => values)
      (VariableStore.saveChanges (heap.rootStore scope).saves values) :=
  rfl

theorem journal_notify (id : StoreId) (change : VariableChange) (name : String) :
    (heap.notify id change).journal name =
      heap.journal name ++ List.replicate (((heap.store id).journals change.kind).count name) change := by
  unfold journal notify
  dsimp only
  generalize heap.journals = journals
  induction (heap.store id).journals change.kind generalizing journals with
  | nil => simp
  | cons first rest ih =>
    rw [List.foldl_cons, ih, NameTable.get?_insert, List.count_cons]
    by_cases own : name = first
    · subst own
      simp [List.replicate_succ]
    · simp [own, Ne.symm own]

theorem journals_notify (id asked : StoreId) (change : VariableChange) (kind : VariableKind) :
    ((heap.notify id change).store asked).journals kind = (heap.store asked).journals kind := by
  change ((heap.modify id (·.raise change)).store asked).journals kind = _
  rw [store_modify]
  split <;> rfl

/-- The journals `log` are written by one subscription each, to the changes of its kind. -/
structure Subscribed (id : StoreId) (log : VariableKind → String) (heap : Heap) : Prop where
  present : id < heap.stores.length
  once : ∀ kind asked, ((heap.store id).journals kind).count (log asked) = if asked = kind then 1 else 0

section Subscribed

variable {heap} {id : StoreId} {log : VariableKind → String} (subscribed : heap.Subscribed id log)
include subscribed

theorem Subscribed.notify (change : VariableChange) : (heap.notify id change).Subscribed id log where
  present := Nat.lt_of_lt_of_le subscribed.present (heap.extends_notify id change).size
  once kind asked := by rw [journals_notify, subscribed.once]

/-- Changes of a kind are written into the journal of that kind, and into no other. -/
theorem Subscribed.notifyAll {kind : VariableKind} {changes : List VariableChange}
    (ofKind : ∀ change ∈ changes, change.kind = kind) :
    (changes.foldl (·.notify id ·) heap).Subscribed id log ∧
      ∀ asked, (changes.foldl (·.notify id ·) heap).journal (log asked) =
        heap.journal (log asked) ++ if asked = kind then changes else [] := by
  induction changes generalizing heap with
  | nil => exact ⟨subscribed, fun asked => by simp⟩
  | cons change rest ih =>
    obtain ⟨own, others⟩ := List.forall_mem_cons.mp ofKind
    obtain ⟨kept, journals⟩ := ih (subscribed.notify change) others
    refine ⟨kept, fun asked => ?_⟩
    rw [List.foldl_cons, journals, journal_notify, own, subscribed.once]
    split <;> simp

theorem Subscribed.write {kind : VariableKind} (change : NameTable Value → NameTable Value)
    {changes : List VariableChange} (ofKind : ∀ change ∈ changes, change.kind = kind) :
    (heap.write id kind change changes).Subscribed id log ∧
      ∀ asked, (heap.write id kind change changes).journal (log asked) =
        heap.journal (log asked) ++ if asked = kind then changes else [] := by
  have put : (heap.modify id fun store => store.withTable kind (change (store.table kind))).Subscribed id log := by
    refine ⟨by simpa [modify] using subscribed.present, fun told asked => ?_⟩
    rw [store_modify, if_pos ⟨rfl, subscribed.present⟩, ← subscribed.once told asked]
    cases kind <;> rfl
  exact put.notifyAll ofKind

theorem Subscribed.table_write (kind asked : VariableKind) (change : NameTable Value → NameTable Value)
    (changes : List VariableChange) : ((heap.write id kind change changes).store id).table asked =
      if asked = kind then change ((heap.store id).table kind) else (heap.store id).table asked := by
  rw [Heap.write, table_notifyAll, store_modify, if_pos ⟨rfl, subscribed.present⟩, table_withTable]

end Subscribed

/-- The journals are logs of the tables of a store. -/
structure Logged (id : StoreId) (log : VariableKind → String) (heap : Heap) : Prop extends Subscribed id log heap where
  logs : ∀ kind, PlainLog kind (heap.journal (log kind)) ((heap.store id).table kind)

/-- Writing a table and telling of what changes in it keeps the journals logs. -/
theorem Logged.write {heap : Heap} {id : StoreId} {log : VariableKind → String} (logged : heap.Logged id log)
    {kind : VariableKind} {change : NameTable Value → NameTable Value} {changes : List VariableChange}
    (ordered : (change ((heap.store id).table kind)).Ordered) (plain : (change ((heap.store id).table kind)).Plain)
    (batch : Batch kind changes ((heap.store id).table kind) (change ((heap.store id).table kind))) :
    (heap.write id kind change changes).Logged id log := by
  obtain ⟨subscribed, journals⟩ := logged.toSubscribed.write change batch.ofKind
  refine ⟨subscribed, fun asked => ?_⟩
  rw [journals, logged.toSubscribed.table_write]
  by_cases own : asked = kind
  · subst own
    simp only [if_true]
    exact (logged.logs asked).append batch ordered plain
  · simp only [if_neg own, List.append_nil]
    exact logged.logs asked

end Heap

/-- A call that sets variables of a store, through one of the scopes that work on it. -/
inductive StoreCall where
  | set (scope : Scope) (kind : VariableKind) (name : String) (value : Value)
  | replaceSaves (scope : Scope) (values : NameTable Value)

namespace StoreCall

def scope : StoreCall → Scope
  | set scope .. => scope
  | replaceSaves scope _ => scope

def run (heap : Heap) : StoreCall → Heap
  | set scope kind name value => heap.set scope kind name value
  | replaceSaves scope values => heap.replaceSaves scope values

/-- The values given hold no records, and a table given has its names in order. -/
def Plain : StoreCall → Prop
  | set _ _ _ value => value.records = []
  | replaceSaves _ values => values.Ordered ∧ ∀ entry ∈ values.entries, entry.2.records = []

theorem extends_run (heap : Heap) (call : StoreCall) : heap.Extends (call.run heap) := by
  cases call with
  | set scope kind name value => exact heap.extends_set scope kind name value
  | replaceSaves scope values => exact heap.extends_replaceSaves scope values

/-- One call keeps the journals logs. -/
theorem logged_run {heap : Heap} {id : StoreId} {log : VariableKind → String} (logged : heap.Logged id log)
    {call : StoreCall} (own : heap.root call.scope = id) (plain : call.Plain) : (call.run heap).Logged id log := by
  cases call with
  | set scope kind name value =>
    cases own
    have before := logged.logs kind
    rw [run, Heap.set_eq_write]
    exact logged.write (before.ordered.insert _ _) (before.plain.insert plain _) (batch_insert kind before.plain _ _)
  | replaceSaves scope values =>
    cases own
    rw [run, Heap.replaceSaves_eq_write]
    exact logged.write plain.1 (NameTable.plain_of_entries plain.2) (batch_saveChanges (logged.logs .save).ordered plain.1)

theorem logged_runAll {heap : Heap} {id : StoreId} {log : VariableKind → String} (logged : heap.Logged id log)
    {calls : List StoreCall} (own : ∀ call ∈ calls, heap.root call.scope = id) (plain : ∀ call ∈ calls, call.Plain) :
    (calls.foldl run heap).Logged id log := by
  induction calls generalizing heap with
  | nil => exact logged
  | cons call rest ih =>
    obtain ⟨first, others⟩ := List.forall_mem_cons.mp own
    obtain ⟨firstPlain, othersPlain⟩ := List.forall_mem_cons.mp plain
    refine ih (logged_run logged first firstPlain) (fun other member => ?_) othersPlain
    rw [(call.extends_run heap).root, others other member]

end StoreCall

/-- Where subscriptions to both kinds of changes write journals of their own from the start, whatever is set in the
store, however often, through whatever scopes, leaves each journal a faithful log of the variables of its kind. -/
theorem notifications_faithful {heap : Heap} {id : StoreId} {log : VariableKind → String}
    (subscribed : heap.Subscribed id log) (fresh : ∀ kind, ((heap.store id).table kind).entries = [])
    (started : ∀ kind, heap.journal (log kind) = []) {calls : List StoreCall}
    (own : ∀ call ∈ calls, heap.root call.scope = id) (plain : ∀ call ∈ calls, call.Plain) (kind : VariableKind) :
    Faithful kind ((calls.foldl StoreCall.run heap).journal (log kind))
      (((calls.foldl StoreCall.run heap).store id).table kind) := by
  have logged : heap.Logged id log := by
    refine ⟨subscribed, fun kind => ?_⟩
    have empty : (heap.store id).table kind = .empty := congrArg NameTable.mk (fresh kind)
    rw [started kind, empty]
    exact plainLog_start kind
  exact ((StoreCall.logged_runAll logged own plain).logs kind).toFaithful

namespace Watched

/-- A journal for each kind. -/
def log : VariableKind → String
  | .bind => "binds"
  | .save => "saves"

def scope : Scope := ⟨0, none⟩

/-- A fresh store with a subscription to each kind. -/
def heap : Heap :=
  ((Heap.empty.newScope.2.subscribe scope .bind (.journal "binds")).2.subscribe scope .save (.journal "saves")).2

def others : NameTable Value := .ofList [("m", .string "a"), ("l", .null)]

/-- A bind variable takes an equal value of another width; a save value goes when others are put in place of all. -/
def calls : List StoreCall :=
  [.set scope .bind "x" (.int32 1), .set scope .bind "X" (.int64 1), .set scope .save "n" (.int32 1),
    .replaceSaves scope others, .set scope .save "m" (.string "a")]

end Watched

theorem notifications_faithful_watched :
    Watched.heap.Subscribed 0 Watched.log ∧ (∀ kind, ((Watched.heap.store 0).table kind).entries = []) ∧
      (∀ kind, Watched.heap.journal (Watched.log kind) = []) ∧
      (∀ call ∈ Watched.calls, Watched.heap.root call.scope = 0) ∧ (∀ call ∈ Watched.calls, call.Plain) ∧
      ((Watched.calls.foldl StoreCall.run Watched.heap).journal "saves").map (·.name) = ["n", "n", "m"] ∧
      ∀ kind, Faithful kind ((Watched.calls.foldl StoreCall.run Watched.heap).journal (Watched.log kind))
        (((Watched.calls.foldl StoreCall.run Watched.heap).store 0).table kind) := by
  have subscribed : Watched.heap.Subscribed 0 Watched.log := by
    refine ⟨by decide, fun kind asked => ?_⟩
    cases kind <;> cases asked <;> decide
  have fresh (kind : VariableKind) : ((Watched.heap.store 0).table kind).entries = [] := by cases kind <;> rfl
  have started (kind : VariableKind) : Watched.heap.journal (Watched.log kind) = [] := by cases kind <;> rfl
  have own : ∀ call ∈ Watched.calls, Watched.heap.root call.scope = 0 := by decide
  have entries : Watched.others.entries.all (fun entry => entry.2.records.isEmpty) = true := by decide +kernel
  have others : (StoreCall.replaceSaves Watched.scope Watched.others).Plain :=
    ⟨NameTable.ordered_ofList _, by simpa using entries⟩
  have plain : ∀ call ∈ Watched.calls, call.Plain := by
    simp only [Watched.calls, List.forall_mem_cons]
    exact ⟨rfl, rfl, rfl, others, rfl, nofun⟩
  exact ⟨subscribed, fresh, started, own, plain, by decide +kernel,
    notifications_faithful subscribed fresh started own plain⟩

end RecordQuery
