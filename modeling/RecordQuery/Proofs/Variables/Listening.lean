import Mathlib.Data.List.Nodup
import RecordQuery.Proofs.Variables.Scope
/-! Who listens to a store. Subscriptions are numbered as they are taken and no number is used twice, so giving some up
leaves exactly the others, and taking one leaves exactly one more. -/

namespace RecordQuery.Heap

/-! Changes that are no one's who listens. -/

/-- The stores are still there, and have the subscriptions of before. -/
structure Quiet (before after : Heap) : Prop where
  extended : before.Extends after
  subscriptions (id : StoreId) : (after.store id).subscriptions = (before.store id).subscriptions
  last (id : StoreId) : (after.store id).lastSubscription = (before.store id).lastSubscription

instance : IsPreorder Heap Quiet where
  refl heap := ⟨refl heap, fun _ => rfl, fun _ => rfl⟩
  trans _ _ _ first second := ⟨IsTrans.trans _ _ _ first.extended second.extended,
    fun id => (second.subscriptions id).trans (first.subscriptions id),
    fun id => (second.last id).trans (first.last id)⟩

/-- One store lives if it did, and has the subscriptions of before. -/
structure QuietAt (id : StoreId) (before after : Heap) : Prop where
  size : before.stores.length ≤ after.stores.length
  alive : after.isAlive id = before.isAlive id
  subscriptions : (after.store id).subscriptions = (before.store id).subscriptions
  last : (after.store id).lastSubscription = (before.store id).lastSubscription

theorem Quiet.quietAt {before after : Heap} (quiet : before.Quiet after) (id : StoreId) : QuietAt id before after where
  size := quiet.extended.size
  alive := by rw [isAlive, isAlive, quiet.extended.holders]
  subscriptions := quiet.subscriptions id
  last := quiet.last id

theorem quiet_modify (heap : Heap) (id : StoreId) {change : VariableStore → VariableStore}
    (holders : ∀ store, (change store).holders = store.holders)
    (subscriptions : ∀ store, (change store).subscriptions = store.subscriptions)
    (last : ∀ store, (change store).lastSubscription = store.lastSubscription) :
    heap.Quiet (heap.modify id change) where
  extended := heap.extends_modify id holders
  subscriptions asked := by
    rw [store_modify]
    split
    · exact subscriptions _
    · rfl
  last asked := by
    rw [store_modify]
    split
    · exact last _
    · rfl

theorem quiet_notify (heap : Heap) (id : StoreId) (change : VariableChange) : heap.Quiet (heap.notify id change) := by
  have raised : heap.Quiet (heap.modify id (·.raise change)) :=
    heap.quiet_modify id (fun _ => rfl) (fun _ => rfl) fun _ => rfl
  obtain ⟨extended, subscriptions, last⟩ := raised
  exact ⟨⟨extended.size, extended.holders⟩, subscriptions, last⟩

theorem quiet_set (heap : Heap) (scope : Scope) (kind : VariableKind) (name : String) (value : Value) :
    heap.Quiet (heap.set scope kind name value) := by
  have put : heap.Quiet (heap.modify (heap.root scope) fun store =>
      store.withTable kind ((store.table kind).insert (normalizeName name) value)) := by
    cases kind <;> exact heap.quiet_modify _ (fun _ => rfl) (fun _ => rfl) fun _ => rfl
  unfold Heap.set
  dsimp only
  split
  · exact put
  · exact IsTrans.trans _ _ _ put (quiet_notify ..)

theorem quiet_replaceSaves (heap : Heap) (scope : Scope) (values : NameTable Value) :
    heap.Quiet (heap.replaceSaves scope values) := by
  have put : heap.Quiet (heap.modify (heap.root scope) ({ · with saves := values })) :=
    heap.quiet_modify _ (fun _ => rfl) (fun _ => rfl) fun _ => rfl
  exact IsTrans.trans _ _ _ put (foldl_related (fun heap change => heap.quiet_notify _ change) _ _)

theorem quiet_nextAnonymous (heap : Heap) (scope : Scope) : heap.Quiet (heap.nextAnonymous scope).2 :=
  heap.quiet_modify _ (fun _ => rfl) (fun _ => rfl) fun _ => rfl

theorem quiet_lower (heap : Heap) (id : StoreId) (subscriptions : List Nat) :
    heap.Quiet (heap.modify id (·.lower subscriptions)) :=
  heap.quiet_modify _ (fun _ => rfl) (fun _ => rfl) fun _ => rfl

/-- No one listens to a new store. -/
theorem quiet_newScope (heap : Heap) : heap.Quiet heap.newScope.2 :=
  ⟨heap.extends_newScope, fun id => by rw [store_newScope], fun id => by rw [store_newScope]⟩

theorem quiet_opened {ε : Type} (statement : Statement ε) (heap : Heap) : heap.Quiet (statement.newScope heap).2 :=
  IsTrans.trans _ _ _ heap.quiet_newScope
    (foldl_related (fun heap (name, value) => heap.quiet_set _ .bind name value) _ _)

/-! The subscriptions of one store. -/

/-- A store is there and has these subscriptions, in whatever order; they are told apart, and numbered up to the last
one taken. -/
structure Lists (heap : Heap) (root : StoreId) (ids : List Nat) : Prop where
  inside : root < heap.stores.length
  listed : ((heap.store root).subscriptions.map (·.id)).Perm ids
  apart : ids.Nodup
  numbered : ∀ id ∈ ids, id ≤ (heap.store root).lastSubscription

/-- Each subscription that a store has gained is numbered after those taken before. -/
structure Continues (root : StoreId) (before after : Heap) : Prop where
  last : (before.store root).lastSubscription ≤ (after.store root).lastSubscription
  gained : ∀ subscription ∈ (after.store root).subscriptions,
    subscription ∈ (before.store root).subscriptions ∨ (before.store root).lastSubscription < subscription.id

/-- Of these subscriptions a store has one of each kind at most. -/
def OnePerKind (heap : Heap) (root : StoreId) (ids : List Nat) : Prop :=
  ∀ first ∈ (heap.store root).subscriptions, ∀ second ∈ (heap.store root).subscriptions,
    first.id ∈ ids → second.id ∈ ids → first.kind = second.kind → first = second

instance (root : StoreId) : IsPreorder Heap (Continues root) where
  refl _ := ⟨Nat.le_refl _, fun _ member => .inl member⟩
  trans first second third early late := by
    refine ⟨Nat.le_trans early.last late.last, fun subscription member => ?_⟩
    rcases late.gained subscription member with before | new
    · exact early.gained subscription before
    · exact .inr (Nat.lt_of_le_of_lt early.last new)

variable {heap after : Heap} {root : StoreId} {ids : List Nat} {scope : Scope}

theorem QuietAt.continues (quiet : QuietAt root heap after) : Continues root heap after :=
  ⟨Nat.le_of_eq quiet.last.symm, fun _ member => .inl (quiet.subscriptions ▸ member)⟩

theorem QuietAt.lists (quiet : QuietAt root heap after) (lists : heap.Lists root ids) : after.Lists root ids where
  inside := Nat.lt_of_lt_of_le lists.inside quiet.size
  listed := by
    rw [quiet.subscriptions]
    exact lists.listed
  apart := lists.apart
  numbered := by
    rw [quiet.last]
    exact lists.numbered

theorem Lists.perm (lists : heap.Lists root ids) {others : List Nat} (same : ids.Perm others) :
    heap.Lists root others where
  inside := lists.inside
  listed := lists.listed.trans same
  apart := same.nodup_iff.mp lists.apart
  numbered id member := lists.numbered id (same.mem_iff.mpr member)

theorem Lists.mem_iff (lists : heap.Lists root ids) {id : Nat} :
    (∃ subscription ∈ (heap.store root).subscriptions, subscription.id = id) ↔ id ∈ ids := by
  rw [← lists.listed.mem_iff, List.mem_map]

/-- What is gained later is none of the subscriptions known before. -/
theorem OnePerKind.continued (once : heap.OnePerKind root ids) (continued : Continues root heap after)
    (numbered : ∀ id ∈ ids, id ≤ (heap.store root).lastSubscription) : after.OnePerKind root ids := by
  have known {subscription : Subscription} (member : subscription ∈ (after.store root).subscriptions)
      (listed : subscription.id ∈ ids) : subscription ∈ (heap.store root).subscriptions :=
    (continued.gained subscription member).resolve_right (Nat.not_lt_of_le (numbered _ listed))
  exact fun first member second member' listed listed' kinds =>
    once first (known member listed) second (known member' listed') listed listed' kinds

/-- Then the store has one subscription of a kind among them at most, counted as often as it stands there. -/
theorem Lists.length_le_one (lists : heap.Lists root ids) {chosen : List Nat} (once : heap.OnePerKind root chosen)
    (kind : VariableKind) : ((heap.store root).subscriptions.filter fun subscription =>
      chosen.contains subscription.id && subscription.kind == kind).length ≤ 1 := by
  have apart : ((heap.store root).subscriptions.map (·.id)).Nodup := lists.listed.nodup_iff.mpr lists.apart
  have unlike := apart.of_map.filter fun subscription =>
    chosen.contains subscription.id && subscription.kind == kind
  have own (subscription : Subscription) (member : subscription ∈ (heap.store root).subscriptions.filter
      fun subscription => chosen.contains subscription.id && subscription.kind == kind) :
      subscription ∈ (heap.store root).subscriptions ∧ subscription.id ∈ chosen ∧ subscription.kind = kind := by
    simpa using member
  generalize (heap.store root).subscriptions.filter (fun subscription =>
    chosen.contains subscription.id && subscription.kind == kind) = found at unlike own
  match found with
  | [] | [_] => simp
  | first :: second :: rest =>
    obtain ⟨present, listed, kinds⟩ := own first (List.mem_cons_self ..)
    obtain ⟨present', listed', kinds'⟩ := own second (List.mem_cons_of_mem _ (List.mem_cons_self ..))
    have same := once first present second present' listed listed' (kinds.trans kinds'.symm)
    exact absurd (same ▸ List.mem_cons_self ..) (List.nodup_cons.mp unlike).1

/-! Giving subscriptions up. -/

theorem subscriptions_unsubscribe (heap : Heap) (root : StoreId) (id : Nat) :
    ((heap.unsubscribe root id).2.store root).subscriptions =
      (heap.store root).subscriptions.filter (·.id != id) := by
  rw [unsubscribe, store_modify]
  split
  · rfl
  · next outside =>
    have none : heap.store root = .empty := by
      rw [store, List.getElem?_eq_none (by simpa using outside)]
      rfl
    rw [none]
    rfl

theorem last_unsubscribe (heap : Heap) (root : StoreId) (id : Nat) :
    ((heap.unsubscribe root id).2.store root).lastSubscription = (heap.store root).lastSubscription := by
  rw [unsubscribe, store_modify]
  split <;> rfl

theorem continues_unsubscribe (heap : Heap) (root : StoreId) (id : Nat) :
    Continues root heap (heap.unsubscribe root id).2 := by
  refine ⟨Nat.le_of_eq (last_unsubscribe heap root id).symm, fun subscription member => .inl ?_⟩
  rw [subscriptions_unsubscribe] at member
  exact (List.mem_filter.mp member).1

theorem Lists.unsubscribe {id : Nat} (lists : heap.Lists root (id :: ids)) :
    (heap.unsubscribe root id).2.Lists root ids where
  inside := Nat.lt_of_lt_of_le lists.inside (heap.extends_unsubscribe root id).size
  listed := by
    have kept : (id :: ids).filter (· != id) = ids := by
      rw [List.filter_cons_of_neg (by simp), List.filter_eq_self]
      intro other member
      exact bne_iff_ne.mpr fun same => (List.nodup_cons.mp lists.apart).1 (same ▸ member)
    have remaining := lists.listed.filter (· != id)
    rw [kept, List.filter_map] at remaining
    rw [subscriptions_unsubscribe]
    exact remaining
  apart := (List.nodup_cons.mp lists.apart).2
  numbered other member := by
    rw [last_unsubscribe]
    exact lists.numbered other (List.mem_cons_of_mem _ member)

/-- Giving some subscriptions of a store up leaves the others. -/
theorem Lists.release {gone : List Nat} (lists : heap.Lists root (gone ++ ids)) :
    (heap.release (gone.map (root, ·))).Lists root ids ∧ Continues root heap (heap.release (gone.map (root, ·))) := by
  induction gone generalizing heap with
  | nil => exact ⟨lists, refl heap⟩
  | cons id rest ih =>
    obtain ⟨listed, continued⟩ := ih lists.unsubscribe
    exact ⟨listed, IsTrans.trans _ _ _ (heap.continues_unsubscribe root id) continued⟩

/-! Taking subscriptions. -/

section Taking

variable (inside : root < heap.stores.length) (here : heap.root scope = root)
include inside here

theorem store_subscribe (kind : VariableKind) (listener : Listener) :
    (heap.subscribe scope kind listener).2.store root = ((heap.store root).subscribe kind listener).2 := by
  subst here
  rw [subscribe, store_modify, if_pos ⟨rfl, inside⟩]

theorem continues_subscribe (kind : VariableKind) (listener : Listener) :
    Continues root heap (heap.subscribe scope kind listener).2 := by
  have store := store_subscribe inside here kind listener
  refine ⟨?_, fun subscription member => ?_⟩
  · rw [store]
    exact Nat.le_succ _
  · rw [store] at member
    rcases List.mem_append.mp member with before | new
    · exact .inl before
    · obtain rfl := List.mem_singleton.mp new
      exact .inr (Nat.lt_succ_self _)

omit inside in
theorem Lists.subscribe (lists : heap.Lists root ids) (kind : VariableKind) (listener : Listener) :
    (heap.subscribe scope kind listener).2.Lists root ((heap.subscribe scope kind listener).1 :: ids) := by
  have store := store_subscribe lists.inside here kind listener
  have id : (heap.subscribe scope kind listener).1 = (heap.store root).lastSubscription + 1 := here ▸ rfl
  refine ⟨Nat.lt_of_lt_of_le lists.inside (heap.extends_subscribe scope kind listener).size, ?_, ?_, ?_⟩
  · rw [store, id]
    change ((_ ++ [_] : List Subscription).map _).Perm _
    rw [List.map_append]
    exact (lists.listed.append_right _).trans (List.perm_append_singleton ..)
  · refine List.nodup_cons.mpr ⟨fun member => ?_, lists.apart⟩
    have numbered := lists.numbered _ member
    omega
  · rw [store, id]
    refine List.forall_mem_cons.mpr ⟨Nat.le_refl _, fun other member => ?_⟩
    exact Nat.le_succ_of_le (lists.numbered other member)

/-- Watching some names of a kind takes one subscription, and watching none takes none. -/
theorem store_watch (kind : VariableKind) (names : List String) :
    ((heap.watch scope kind names).2.store root).subscriptions = (heap.store root).subscriptions ++
      (heap.watch scope kind names).1.map (⟨·, kind, .watch names⟩) ∧
    (heap.watch scope kind names).1 = if names.isEmpty then [] else [(heap.store root).lastSubscription + 1] := by
  unfold watch
  split
  · simp
  · refine ⟨?_, here ▸ rfl⟩
    change ((heap.subscribe scope kind (.watch names)).2.store root).subscriptions = _
    rw [store_subscribe inside here]
    subst here
    rfl

omit inside in
theorem Lists.watch (lists : heap.Lists root ids) (kind : VariableKind) (names : List String) :
    (heap.watch scope kind names).2.Lists root ((heap.watch scope kind names).1 ++ ids) ∧
      Continues root heap (heap.watch scope kind names).2 := by
  unfold Heap.watch
  split
  · exact ⟨lists, refl heap⟩
  · exact ⟨lists.subscribe here kind _, continues_subscribe lists.inside here kind _⟩

/-- Watching takes one subscription at most. -/
theorem eq_of_watched {kind : VariableKind} {names : List String} {one other : Subscription}
    (member : one ∈ (heap.watch scope kind names).1.map (⟨·, kind, .watch names⟩))
    (member' : other ∈ (heap.watch scope kind names).1.map (⟨·, kind, .watch names⟩)) : one = other := by
  rw [(store_watch inside here kind names).2] at member member'
  split at member
  · cases member
  · next nonempty =>
    rw [if_neg nonempty] at member'
    exact (List.mem_singleton.mp member).trans (List.mem_singleton.mp member').symm

omit inside here in
theorem kind_of_watched {taken : List Nat} {kind : VariableKind} {listener : Listener} {one : Subscription}
    (member : one ∈ taken.map (⟨·, kind, listener⟩)) : one.kind = kind := by
  obtain ⟨_, -, rfl⟩ := List.mem_map.mp member
  rfl

end Taking

/-- Watching bind variables and then save values takes one subscription of each kind at most. -/
theorem Lists.watched (lists : heap.Lists root ids) (here : heap.root scope = root) (binds saves : List String) :
    let bound := heap.watch scope .bind binds
    let saved := bound.2.watch scope .save saves
    saved.2.Lists root (bound.1 ++ saved.1 ++ ids) ∧ Continues root heap saved.2 ∧
      saved.2.OnePerKind root (bound.1 ++ saved.1) := by
  intro bound saved
  obtain ⟨lists', continued⟩ := lists.watch here .bind binds
  have here' : bound.2.root scope = root := ((heap.extends_watch scope .bind binds).root scope).trans here
  obtain ⟨lists'', continued'⟩ := lists'.watch here' .save saves
  have stored := (store_watch lists.inside here .bind binds).1
  have stored' := (store_watch lists'.inside here' .save saves).1
  have apart : (bound.1 ++ saved.1 ++ ids).Nodup := by
    refine (List.Perm.nodup_iff ?_).mp lists''.apart
    rw [← List.append_assoc]
    exact List.perm_append_comm.append_right ids
  refine ⟨lists''.perm ?_, IsTrans.trans _ _ _ continued continued', ?_⟩
  · rw [← List.append_assoc]
    exact List.perm_append_comm.append_right ids
  · have own {subscription : Subscription} (member : subscription ∈ (saved.2.store root).subscriptions)
        (listed : subscription.id ∈ bound.1 ++ saved.1) :
        subscription ∈ bound.1.map (⟨·, .bind, .watch binds⟩) ∨
          subscription ∈ saved.1.map (⟨·, .save, .watch saves⟩) := by
      rw [stored', List.mem_append, stored, List.mem_append] at member
      rcases member with (old | new) | new
      · have known := lists.mem_iff.mp ⟨subscription, old, rfl⟩
        exact absurd known (List.disjoint_of_nodup_append apart listed)
      · exact .inl new
      · exact .inr new
    intro one member other member' listed listed' same
    rcases own member listed with bind | save <;> rcases own member' listed' with bind' | save'
    · exact eq_of_watched lists.inside here bind bind'
    · exact absurd ((kind_of_watched bind).symm.trans (same.trans (kind_of_watched save'))) (by decide)
    · exact absurd ((kind_of_watched save).symm.trans (same.trans (kind_of_watched bind'))) (by decide)
    · exact eq_of_watched lists'.inside here' save save'

end RecordQuery.Heap
