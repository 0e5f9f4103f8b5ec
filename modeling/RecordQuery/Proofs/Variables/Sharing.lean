import Mathlib.Logic.Relation
import RecordQuery.Proofs.Variables.Scope
/-! Scopes that are linked to one another. While each is linked at most once, and before any other is linked to it, they
stand in trees, and as long as the scope at the top of a tree is there, all of the tree work on its store, and no scope
of another tree does: a link leads to the store of the top at once, whatever becomes of the scopes between. -/

namespace RecordQuery

/-- What can be done to a store through a scope. -/
inductive StoreOperation where
  | get (kind : VariableKind) (name : String)
  | all (kind : VariableKind)
  | listeners
  | set (kind : VariableKind) (name : String) (value : Value)
  | replaceSaves (values : NameTable Value)
  | subscribe (kind : VariableKind) (listener : Listener)
  | unsubscribe (subscription : Nat)
  | nextAnonymous

/-- What an operation tells. -/
inductive StoreAnswer where
  | done
  | value (value : Option Value)
  | table (values : NameTable Value)
  | number (number : Nat)
  | found (found : Bool)

namespace StoreOperation

/-- Does an operation through a scope. -/
def run (heap : Heap) (scope : Scope) : StoreOperation → StoreAnswer × Heap
  | get kind name => (.value (heap.get? scope kind name), heap)
  | all kind => (.table ((heap.rootStore scope).table kind), heap)
  | listeners => (.number (heap.listenerCount scope), heap)
  | set kind name value => (.done, heap.set scope kind name value)
  | replaceSaves values => (.done, heap.replaceSaves scope values)
  | subscribe kind listener => ((heap.subscribe scope kind listener).map .number id)
  | unsubscribe subscription => ((heap.unsubscribe (heap.root scope) subscription).map .found id)
  | nextAnonymous => ((heap.nextAnonymous scope).map .number id)

/-- What an operation tells of the store that it is done to. -/
def answer (store : VariableStore) : StoreOperation → StoreAnswer
  | get kind name => .value ((store.table kind).get? (normalizeName name))
  | all kind => .table (store.table kind)
  | listeners => .number store.subscriptions.length
  | set .. | replaceSaves _ => .done
  | subscribe kind listener => .number (store.subscribe kind listener).1
  | unsubscribe subscription => .found (store.unsubscribe subscription).1
  | nextAnonymous => .number (store.anonymous + 1)

variable {heap : Heap} {scope : Scope}

/-- An operation tells of the store that the scope works on. -/
theorem answer_run (operation : StoreOperation) :
    (operation.run heap scope).1 = operation.answer (heap.store (heap.root scope)) := by
  cases operation <;> rfl

/-- An operation alters the store that the scope works on. -/
theorem altersOnly_run (operation : StoreOperation) :
    Heap.AltersOnly (heap.root scope) heap (operation.run heap scope).2 := by
  cases operation with
  | get | all | listeners => exact refl heap
  | set kind name value => exact heap.altersOnly_set scope kind name value
  | replaceSaves values => exact heap.altersOnly_replaceSaves scope values
  | subscribe kind listener => exact heap.altersOnly_subscribe scope kind listener
  | unsubscribe subscription => exact heap.altersOnly_unsubscribe _ subscription
  | nextAnonymous => exact heap.altersOnly_nextAnonymous scope

theorem extends_run (operation : StoreOperation) : heap.Extends (operation.run heap scope).2 := by
  cases operation with
  | get | all | listeners => exact refl heap
  | set kind name value => exact heap.extends_set scope kind name value
  | replaceSaves values => exact heap.extends_replaceSaves scope values
  | subscribe kind listener => exact heap.extends_subscribe scope kind listener
  | unsubscribe subscription => exact heap.extends_unsubscribe _ subscription
  | nextAnonymous => exact heap.extends_nextAnonymous scope

/-- Scopes that work on one store do the same to it. -/
theorem run_congr {other : Scope} (same : heap.root scope = heap.root other) (operation : StoreOperation) :
    operation.run heap scope = operation.run heap other := by
  cases operation with
  | get | all | listeners => simp only [run, Heap.get?, Heap.listenerCount, Heap.rootStore, same]
  | set => simp only [run, Heap.set, same]
  | replaceSaves => simp only [run, Heap.replaceSaves, same]
  | subscribe => simp only [run, Heap.subscribe, same]
  | unsubscribe => simp only [run, same]
  | nextAnonymous => simp only [run, Heap.nextAnonymous, same]

end StoreOperation

/-- A scope among others. -/
structure ScopeEntry where
  scope : Scope
  /-- The place of the scope that it has been linked to. -/
  above : Option Nat

/-- The stores, and all scopes that there have been, in the order in which they were made. -/
structure Forest where
  heap : Heap
  entries : List ScopeEntry

namespace Forest

/-- The place of the scope that the one at a place has been linked to. -/
def above (entries : List ScopeEntry) (place : Nat) : Option Nat := entries[place]?.bind (·.above)

/-- A place is another one, or linked to one that is under it. -/
def Under (entries : List ScopeEntry) : Nat → Nat → Prop :=
  Relation.ReflTransGen fun low high => above entries low = some high

/-- The scope at the top of the tree that a scope stands in. -/
structure Top (entries : List ScopeEntry) (place top : Nat) (highest : ScopeEntry) : Prop where
  under : Under entries place top
  present : entries[top]? = some highest
  unlinked : highest.above = none

/-- A scope that there has been, and that has not been given up. -/
structure Lives (forest : Forest) (place : Nat) (entry : ScopeEntry) : Prop where
  present : forest.entries[place]? = some entry
  alive : forest.heap.isAlive entry.scope.own = true

/-- Scopes are made, given up, and linked to others, each at most once, and before any is linked to it. -/
inductive Rearranges : Forest → Forest → Prop
  | created (forest : Forest) :
    Rearranges forest ⟨forest.heap.newScope.2, forest.entries ++ [⟨forest.heap.newScope.1, none⟩]⟩
  | linked {forest : Forest} {place up : Nat} {entry parent : ScopeEntry} (lives : forest.Lives place entry)
    (parental : forest.Lives up parent) (apart : up ≠ place) (unlinked : entry.above = none)
    (lowest : ∀ other, above forest.entries other ≠ some place) :
    Rearranges forest { forest with
      entries := forest.entries.set place ⟨forest.heap.link entry.scope parent.scope, some up⟩ }
  | dropped {forest : Forest} {place : Nat} {entry : ScopeEntry} (lives : forest.Lives place entry) :
    Rearranges forest { forest with heap := forest.heap.dropScope entry.scope }

/-- One thing is done with a scope: it is made, linked or given up, or something is done to a store through it. -/
inductive Grows : Forest → Forest → Prop
  | rearranged {forest next : Forest} (rearranges : Rearranges forest next) : Grows forest next
  | operated {forest : Forest} {place : Nat} {entry : ScopeEntry} (lives : forest.Lives place entry)
    (operation : StoreOperation) : Grows forest { forest with heap := (operation.run forest.heap entry.scope).2 }

/-- What can have become of stores by making scopes, and by what is done with those. -/
def Grown (start : Heap) : Forest → Prop := Relation.ReflTransGen Grows ⟨start, []⟩

/-! Trees of scopes. -/

section Trees

variable {entries : List ScopeEntry} {place top : Nat} {highest : ScopeEntry}

theorem above_of_present {entry : ScopeEntry} (present : entries[place]? = some entry) :
    above entries place = entry.above := by
  rw [above, present, Option.bind_some]

/-- Nothing is above a scope that is not linked. -/
theorem eq_of_under {high : Nat} (under : Under entries place high) (unlinked : above entries place = none) :
    high = place := by
  rcases Relation.ReflTransGen.cases_head under with same | ⟨next, up, -⟩
  · exact same.symm
  · rw [unlinked] at up
    cases up

/-- Of two scopes above a third, one is above the other. -/
theorem under_or_under {high high' : Nat} (first : Under entries place high) (second : Under entries place high') :
    Under entries high high' ∨ Under entries high' high :=
  Relation.ReflTransGen.total_of_right_unique (fun _ _ _ up up' => Option.some.inj (up.symm.trans up')) first second

/-- A scope stands in one tree only. -/
theorem Top.unique (first : Top entries place top highest) {other : Nat} {another : ScopeEntry}
    (second : Top entries place other another) : other = top := by
  rcases under_or_under first.under second.under with under | under
  · exact eq_of_under under ((above_of_present first.present).trans first.unlinked)
  · exact (eq_of_under under ((above_of_present second.present).trans second.unlinked)).symm

theorem top_of_unlinked {entry : ScopeEntry} (present : entries[place]? = some entry) (unlinked : entry.above = none) :
    Top entries place place entry := ⟨.refl, present, unlinked⟩

/-- A scope that is linked stands in the tree of the one that it is linked to. -/
theorem Top.of_above {up : Nat} (standing : Top entries up top highest) (linked : above entries place = some up) :
    Top entries place top highest := ⟨.head linked standing.under, standing.present, standing.unlinked⟩

theorem Top.above (standing : Top entries place top highest) {up : Nat} (linked : above entries place = some up) :
    Top entries up top highest := by
  refine ⟨?_, standing.present, standing.unlinked⟩
  rcases Relation.ReflTransGen.cases_head standing.under with rfl | ⟨next, found, under⟩
  · rw [above_of_present standing.present, standing.unlinked] at linked
    cases linked
  · cases linked.symm.trans found
    exact under

/-- A place that nothing is linked to is above itself only. -/
theorem Under.ne_of_lowest {low high : Nat} (under : Under entries low high)
    (lowest : ∀ other, Forest.above entries other ≠ some place) (other : low ≠ place) : high ≠ place := by
  rcases Relation.ReflTransGen.cases_tail under with same | ⟨next, -, up⟩
  · exact same ▸ other
  · exact fun same => lowest next (same ▸ up)

/-- What is above a scope stays above it where all but one place are linked as before, and nothing is linked to that. -/
theorem Under.elsewhere {after : List ScopeEntry} {low high : Nat} (under : Under entries low high)
    (agrees : ∀ asked, asked ≠ place → Forest.above after asked = Forest.above entries asked)
    (lowest : ∀ other, Forest.above entries other ≠ some place) (other : low ≠ place) : Under after low high := by
  induction under using Relation.ReflTransGen.head_induction_on with
  | refl => exact .refl
  | @head low next up _ ih => exact .head ((agrees low other).trans up) (ih fun same => lowest low (same ▸ up))

end Trees

section Added

variable {entries : List ScopeEntry} {fresh : ScopeEntry}

theorem present_append {place : Nat} {entry : ScopeEntry} (present : entries[place]? = some entry) :
    (entries ++ [fresh])[place]? = some entry :=
  (List.getElem?_append_left (List.getElem?_eq_some_iff.mp present).1).trans present

theorem present_of_append {place : Nat} {entry : ScopeEntry} (present : (entries ++ [fresh])[place]? = some entry) :
    entries[place]? = some entry ∨ (place = entries.length ∧ entry = fresh) := by
  grind

/-- A scope that is not linked alters nothing of what is above the others. -/
theorem above_append (unlinked : fresh.above = none) (place : Nat) :
    above (entries ++ [fresh]) place = above entries place := by
  rcases Nat.lt_trichotomy place entries.length with older | rfl | later
  · rw [above, List.getElem?_append_left older, above]
  · simp [above, unlinked]
  · have absent : (entries ++ [fresh])[place]? = none := by
      rw [List.getElem?_eq_none_iff, List.length_append]
      exact later
    rw [above, above, absent, List.getElem?_eq_none (Nat.le_of_lt later)]

theorem under_append (unlinked : fresh.above = none) : Under (entries ++ [fresh]) = Under entries := by
  simp only [Under, above_append unlinked]

end Added

section Relinked

variable {entries : List ScopeEntry} {place up : Nat} {bound : ScopeEntry}

theorem present_set {asked : Nat} (other : asked ≠ place) : (entries.set place bound)[asked]? = entries[asked]? :=
  List.getElem?_set_ne other.symm

theorem present_of_set {asked : Nat} {found : ScopeEntry} (present : (entries.set place bound)[asked]? = some found) :
    (asked = place ∧ found = bound) ∨ (asked ≠ place ∧ entries[asked]? = some found) := by
  grind

theorem above_set {asked : Nat} (other : asked ≠ place) :
    above (entries.set place bound) asked = above entries asked := by
  rw [above, present_set other, above]

variable (linked : above (entries.set place bound) place = some up) (apart : up ≠ place)
  (lowest : ∀ other, above entries other ≠ some place)
include linked apart lowest

/-- Nothing is linked to a place that is linked itself now, as nothing was. -/
theorem above_set_ne (other : Nat) : above (entries.set place bound) other ≠ some place := by
  by_cases same : other = place
  · rw [same, linked]
    exact fun found => apart (Option.some.inj found)
  · rw [above_set same]
    exact lowest other

theorem under_set_iff {low high : Nat} (other : low ≠ place) :
    Under (entries.set place bound) low high ↔ Under entries low high :=
  ⟨fun under => under.elsewhere (fun _ other => (above_set other).symm) (above_set_ne linked apart lowest) other,
    fun under => under.elsewhere (fun _ => above_set) lowest other⟩

theorem top_set_iff {low top : Nat} {highest : ScopeEntry} (other : low ≠ place) :
    Top (entries.set place bound) low top highest ↔ Top entries low top highest := by
  refine ⟨fun standing => ?_, fun standing => ?_⟩
  · have under := (under_set_iff linked apart lowest other).mp standing.under
    exact ⟨under, (present_set (under.ne_of_lowest lowest other)).symm.trans standing.present, standing.unlinked⟩
  · exact ⟨(under_set_iff linked apart lowest other).mpr standing.under,
      (present_set (standing.under.ne_of_lowest lowest other)).trans standing.present, standing.unlinked⟩

end Relinked

/-- Each scope has a store of its own and stands in a tree. A link leads to the store of a scope that is above, and to
that of the top as long as that is there. -/
structure Sound (forest : Forest) : Prop where
  inside {place : Nat} {entry : ScopeEntry} (present : forest.entries[place]? = some entry) :
    entry.scope.own < forest.heap.stores.length
  apart {place other : Nat} {entry another : ScopeEntry} (present : forest.entries[place]? = some entry)
    (present' : forest.entries[other]? = some another) (same : entry.scope.own = another.scope.own) : place = other
  free {place : Nat} {entry : ScopeEntry} (present : forest.entries[place]? = some entry)
    (unlinked : entry.above = none) : entry.scope.parent = none
  bound {place up : Nat} {entry : ScopeEntry} (present : forest.entries[place]? = some entry)
    (linked : entry.above = some up) : ∃ higher ancestor, Under forest.entries up higher ∧
      forest.entries[higher]? = some ancestor ∧ entry.scope.parent = some ancestor.scope.own ∧
      ∀ top highest, Top forest.entries up top highest → forest.heap.isAlive highest.scope.own = true → higher = top
  tops {place : Nat} {entry : ScopeEntry} (present : forest.entries[place]? = some entry) :
    ∃ top highest, Top forest.entries place top highest

section Sound

variable {forest : Forest} (sound : forest.Sound) {place top : Nat} {entry highest : ScopeEntry}

include sound

/-- A scope is only linked to one that there is. -/
theorem Sound.present_of_under (present : forest.entries[place]? = some entry) {high : Nat}
    (under : Under forest.entries place high) : ∃ found, forest.entries[high]? = some found := by
  obtain ⟨top, highest, standing⟩ := sound.tops present
  rcases under_or_under standing.under under with under | under
  · have same := eq_of_under under ((above_of_present standing.present).trans standing.unlinked)
    exact ⟨highest, same ▸ standing.present⟩
  · cases found : forest.entries[high]? with
    | some other => exact ⟨other, rfl⟩
    | none =>
      have same := eq_of_under under (by rw [above, found]; rfl)
      rw [← same, standing.present] at found
      cases found

/-- A scope works on the store of the scope at the top of its tree, as long as that is there. -/
theorem Sound.root_eq (present : forest.entries[place]? = some entry) (standing : Top forest.entries place top highest)
    (alive : forest.heap.isAlive highest.scope.own = true) : forest.heap.root entry.scope = highest.scope.own := by
  cases linked : entry.above with
  | none =>
    cases standing.unique (top_of_unlinked present linked)
    cases present.symm.trans standing.present
    rw [Heap.root, sound.free present linked]
  | some up =>
    obtain ⟨higher, ancestor, -, found, bound, highest_eq⟩ := sound.bound present linked
    cases highest_eq top highest (standing.above ((above_of_present present).trans linked)) alive
    cases found.symm.trans standing.present
    rw [Heap.root, bound]
    exact if_pos alive

/-- The store that a scope works on is that of a scope it is under. -/
theorem Sound.exists_root (present : forest.entries[place]? = some entry) :
    ∃ higher ancestor, Under forest.entries place higher ∧ forest.entries[higher]? = some ancestor ∧
      forest.heap.root entry.scope = ancestor.scope.own := by
  cases linked : entry.above with
  | none => exact ⟨place, entry, .refl, present, by rw [Heap.root, sound.free present linked]⟩
  | some up =>
    obtain ⟨higher, ancestor, under, found, bound, -⟩ := sound.bound present linked
    rw [Heap.root, bound]
    by_cases alive : forest.heap.isAlive ancestor.scope.own = true
    · exact ⟨higher, ancestor, .head ((above_of_present present).trans linked) under, found, if_pos alive⟩
    · exact ⟨place, entry, .refl, present, if_neg alive⟩

/-- Only the scopes of its tree work on the store of a scope at the top. -/
theorem Sound.top_of_root (present : forest.entries[place]? = some entry)
    (unlinked : Top forest.entries top top highest) (same : forest.heap.root entry.scope = highest.scope.own) :
    Top forest.entries place top highest := by
  obtain ⟨higher, ancestor, under, found, root⟩ := sound.exists_root present
  cases sound.apart found unlinked.present (root.symm.trans same)
  exact ⟨under, unlinked.present, unlinked.unlinked⟩

/-! What is done with scopes leaves them so. -/

/-- Stores may change, and scopes be given up. -/
theorem Sound.fades {heap : Heap} (size : forest.heap.stores.length ≤ heap.stores.length)
    (alive : ∀ id, heap.isAlive id = true → forest.heap.isAlive id = true) : Sound { forest with heap } where
  inside present := Nat.lt_of_lt_of_le (sound.inside present) size
  apart := sound.apart
  free := sound.free
  bound present linked := by
    obtain ⟨higher, ancestor, under, found, bound, highest_eq⟩ := sound.bound present linked
    exact ⟨higher, ancestor, under, found, bound, fun top highest standing there =>
      highest_eq top highest standing (alive _ there)⟩
  tops := sound.tops

theorem Sound.dropped (scope : Scope) : Sound { forest with heap := forest.heap.dropScope scope } := by
  refine sound.fades (by simp [Heap.dropScope, Heap.modify]) fun id alive => ?_
  rw [Heap.isAlive, Heap.dropScope, Heap.store_modify] at alive
  split at alive
  · exact decide_eq_true (Nat.lt_of_lt_of_le (of_decide_eq_true alive) (Nat.sub_le ..))
  · exact alive

theorem Sound.operated (scope : Scope) (operation : StoreOperation) :
    Sound { forest with heap := (operation.run forest.heap scope).2 } := by
  have extended : forest.heap.Extends (operation.run forest.heap scope).2 := operation.extends_run
  refine sound.fades extended.size fun id alive => ?_
  rwa [Heap.isAlive, extended.holders] at alive

/-- A new scope stands in a tree of its own. -/
theorem Sound.created :
    Sound ⟨forest.heap.newScope.2, forest.entries ++ [⟨forest.heap.newScope.1, none⟩]⟩ := by
  have extended := forest.heap.extends_newScope
  have own : forest.heap.newScope.1.own = forest.heap.stores.length := rfl
  have under_eq : Under (forest.entries ++ [⟨forest.heap.newScope.1, none⟩]) = Under forest.entries := under_append rfl
  refine ⟨fun present => ?_, fun present present' same => ?_, fun present unlinked => ?_,
    fun {place up entry} present linked => ?_, fun {place entry} present => ?_⟩
  · rcases present_of_append present with old | ⟨-, rfl⟩
    · exact Nat.lt_of_lt_of_le (sound.inside old) extended.size
    · simp [Heap.newScope]
  · rcases present_of_append present with old | ⟨rfl, rfl⟩ <;>
      rcases present_of_append present' with old' | ⟨rfl, rfl⟩
    · exact sound.apart old old' same
    · exact absurd (same.trans own) (Nat.ne_of_lt (sound.inside old))
    · exact absurd (same.symm.trans own) (Nat.ne_of_lt (sound.inside old'))
    · rfl
  · rcases present_of_append present with old | ⟨-, rfl⟩
    · exact sound.free old unlinked
    · rfl
  · rcases present_of_append present with old | ⟨-, rfl⟩
    · obtain ⟨higher, ancestor, under, found, bound, highest_eq⟩ := sound.bound old linked
      refine ⟨higher, ancestor, under_eq ▸ under, present_append found, bound,
        fun top highest standing alive => ?_⟩
      have under' : Under forest.entries up top := under_eq ▸ standing.under
      -- The new scope is above none of those there were.
      rcases present_of_append standing.present with old' | ⟨rfl, -⟩
      · exact highest_eq top highest ⟨under', old', standing.unlinked⟩
          (by rwa [Heap.isAlive, extended.holders] at alive)
      · obtain ⟨_, found⟩ := sound.present_of_under old (.head ((above_of_present old).trans linked) under')
        simp at found
    · cases linked
  · rcases present_of_append present with old | ⟨-, rfl⟩
    · obtain ⟨top, highest, standing⟩ := sound.tops old
      exact ⟨top, highest, under_eq ▸ standing.under, present_append standing.present, standing.unlinked⟩
    · exact ⟨place, _, .refl, present, rfl⟩

/-- A scope that nothing is linked to becomes part of the tree of the one that it is linked to; the others stay in their
trees. -/
theorem Sound.linked {up : Nat} {parent : ScopeEntry} (present : forest.entries[place]? = some entry)
    (parental : forest.entries[up]? = some parent) (apart : up ≠ place)
    (lowest : ∀ other, above forest.entries other ≠ some place) :
    Sound { forest with
      entries := forest.entries.set place ⟨forest.heap.link entry.scope parent.scope, some up⟩ } := by
  have above_here : above (forest.entries.set place ⟨forest.heap.link entry.scope parent.scope, some up⟩) place =
      some up := above_of_present (List.getElem?_set_self (List.getElem?_eq_some_iff.mp present).1)
  refine ⟨fun present' => ?_, fun present' present'' same => ?_, fun present' unlinked' => ?_,
    fun {asked higher found} present' linked => ?_, fun {asked found} present' => ?_⟩
  · rcases present_of_set present' with ⟨-, rfl⟩ | ⟨-, old⟩
    · exact (sound.inside present : entry.scope.own < _)
    · exact sound.inside old
  · rcases present_of_set present' with ⟨rfl, rfl⟩ | ⟨-, old⟩ <;>
      rcases present_of_set present'' with ⟨rfl, rfl⟩ | ⟨-, old'⟩
    · rfl
    · exact sound.apart present old' same
    · exact sound.apart old present same
    · exact sound.apart old old' same
  · rcases present_of_set present' with ⟨-, rfl⟩ | ⟨-, old⟩
    · cases unlinked'
    · exact sound.free old unlinked'
  · rcases present_of_set present' with ⟨rfl, rfl⟩ | ⟨other, old⟩
    · cases linked
      obtain ⟨higher, ancestor, under, found, root⟩ := sound.exists_root parental
      refine ⟨higher, ancestor, (under_set_iff above_here apart lowest apart).mpr under,
        (present_set (under.ne_of_lowest lowest apart)).trans found, congrArg some root,
        fun top highest standing alive => ?_⟩
      have standing := (top_set_iff above_here apart lowest apart).mp standing
      exact sound.apart found standing.present (root.symm.trans (sound.root_eq parental standing alive))
    · have other' : higher ≠ place := by
        rintro rfl
        exact lowest asked ((above_of_present old).trans linked)
      obtain ⟨highest, ancestor, under, found, bound, highest_eq⟩ := sound.bound old linked
      exact ⟨highest, ancestor, (under_set_iff above_here apart lowest other').mpr under,
        (present_set (under.ne_of_lowest lowest other')).trans found, bound,
        fun top entry standing => highest_eq top entry ((top_set_iff above_here apart lowest other').mp standing)⟩
  · rcases present_of_set present' with ⟨rfl, rfl⟩ | ⟨other, old⟩
    · obtain ⟨top, highest, standing⟩ := sound.tops parental
      exact ⟨top, highest, ((top_set_iff above_here apart lowest apart).mpr standing).of_above above_here⟩
    · obtain ⟨top, highest, standing⟩ := sound.tops old
      exact ⟨top, highest, (top_set_iff above_here apart lowest other).mpr standing⟩

theorem Sound.rearranges {next : Forest} (rearranges : Rearranges forest next) : next.Sound := by
  cases rearranges with
  | created => exact sound.created
  | linked lives parental apart _ lowest => exact sound.linked lives.present parental.present apart lowest
  | dropped _ => exact sound.dropped _

end Sound

theorem sound_of_rearranged {forest later : Forest} (sound : forest.Sound)
    (rearranged : Relation.ReflTransGen Rearranges forest later) : later.Sound := by
  induction rearranged with
  | refl => exact sound
  | tail _ rearranges ih => exact ih.rearranges rearranges

theorem sound_of_grown {start : Heap} {forest : Forest} (grown : Grown start forest) : forest.Sound := by
  induction grown with
  | refl => constructor <;> intros <;> simp at *
  | tail _ grows sound =>
    cases grows with
    | rearranged rearranges => exact sound.rearranges rearranges
    | operated _ operation => exact sound.operated _ operation

/-! What is set stays, however scopes are rearranged. -/

/-- The variables of the stores there are stay, and so does the store of each scope. -/
structure Holds (before after : Forest) : Prop where
  size : before.heap.stores.length ≤ after.heap.stores.length
  tables {id : StoreId} (inside : id < before.heap.stores.length) (kind : VariableKind) :
    (after.heap.store id).table kind = (before.heap.store id).table kind
  owns {place : Nat} {entry : ScopeEntry} (present : before.entries[place]? = some entry) :
    ∃ later, after.entries[place]? = some later ∧ later.scope.own = entry.scope.own

theorem Holds.trans {first second third : Forest} (early : Holds first second) (late : Holds second third) :
    Holds first third where
  size := Nat.le_trans early.size late.size
  tables inside kind :=
    (late.tables (Nat.lt_of_lt_of_le inside early.size) kind).trans (early.tables inside kind)
  owns present := by
    obtain ⟨later, present, own⟩ := early.owns present
    obtain ⟨last, present, own'⟩ := late.owns present
    exact ⟨last, present, own'.trans own⟩

theorem Rearranges.holds {forest next : Forest} (rearranges : Rearranges forest next) : Holds forest next := by
  cases rearranges with
  | created =>
    refine ⟨forest.heap.extends_newScope.size, fun _ kind => ?_, fun present => ⟨_, present_append present, rfl⟩⟩
    rw [Heap.store_newScope]
  | @linked place up entry parent lives parental apart unlinked lowest =>
    refine ⟨Nat.le_refl _, fun _ _ => rfl, fun {asked found} present => ?_⟩
    by_cases same : place = asked
    · subst same
      cases present.symm.trans lives.present
      exact ⟨_, List.getElem?_set_self (List.getElem?_eq_some_iff.mp present).1, rfl⟩
    · exact ⟨found, (present_set (Ne.symm same)).trans present, rfl⟩
  | @dropped place entry lives =>
    refine ⟨by simp [Heap.dropScope, Heap.modify], fun inside kind => ?_, fun present => ⟨_, present, rfl⟩⟩
    rw [Heap.dropScope, Heap.store_modify]
    split
    · cases kind <;> rfl
    · rfl

theorem holds_of_rearranged {forest later : Forest} (rearranged : Relation.ReflTransGen Rearranges forest later) :
    Holds forest later := by
  induction rearranged with
  | refl => exact ⟨Nat.le_refl _, fun _ _ => rfl, fun present => ⟨_, present, rfl⟩⟩
  | tail _ rearranges ih => exact ih.trans rearranges.holds

/-- Whatever scopes have been made, linked, used and given up: each stands in one tree, and as long as the scope at the
top of that is there, it and no scope of another tree works on the store of that one. Each operation through it is the
operation through the one at the top: it tells of that store, and alters no other. What is set through it is found
through each scope of the tree, also after scopes have been made, linked and given up, and through no other. -/
theorem grown_shares {start : Heap} {forest : Forest} (grown : Grown start forest) {place : Nat} {entry : ScopeEntry}
    (lives : forest.Lives place entry) : ∃ top highest, Top forest.entries place top highest ∧
      (∀ other another, Top forest.entries place other another → other = top) ∧
      (forest.heap.isAlive highest.scope.own = true →
        (∀ operation : StoreOperation, operation.run forest.heap entry.scope = operation.run forest.heap highest.scope ∧
          (operation.run forest.heap entry.scope).1 = operation.answer (forest.heap.store highest.scope.own) ∧
          Heap.AltersOnly highest.scope.own forest.heap (operation.run forest.heap entry.scope).2) ∧
        (∀ other another, forest.entries[other]? = some another →
          (forest.heap.root another.scope = highest.scope.own ↔ Top forest.entries other top highest)) ∧
        ∀ kind name value,
          let written : Forest := { forest with heap := forest.heap.set entry.scope kind name value }
          (∀ other another, forest.entries[other]? = some another → ¬Top forest.entries other top highest →
            ∀ kind name, written.heap.get? another.scope kind name = forest.heap.get? another.scope kind name) ∧
          ∀ later, Relation.ReflTransGen Rearranges written later → ∀ other another highest',
            later.entries[other]? = some another → Top later.entries other top highest' →
            later.heap.isAlive highest'.scope.own = true → later.heap.get? another.scope kind name = some value) := by
  have sound := sound_of_grown grown
  obtain ⟨top, highest, standing⟩ := sound.tops lives.present
  have topmost := top_of_unlinked standing.present standing.unlinked
  refine ⟨top, highest, standing, fun _ _ => standing.unique, fun alive => ?_⟩
  have root : forest.heap.root entry.scope = highest.scope.own := sound.root_eq lives.present standing alive
  have root_top : forest.heap.root highest.scope = highest.scope.own := sound.root_eq standing.present topmost alive
  refine ⟨fun operation => ⟨operation.run_congr (root.trans root_top.symm), ?_, ?_⟩,
    fun other another present => ⟨sound.top_of_root present topmost,
      fun standing' => sound.root_eq present standing' alive⟩, fun kind name value => ⟨?_, ?_⟩⟩
  · rw [operation.answer_run, root]
  · rw [← root]
    exact operation.altersOnly_run
  · intro other another present apart asked name'
    have elsewhere : forest.heap.root another.scope ≠ highest.scope.own := fun same =>
      apart (sound.top_of_root present topmost same)
    rw [Heap.get?, Heap.rootStore, (forest.heap.extends_set entry.scope kind name value).root,
      (forest.heap.altersOnly_set entry.scope kind name value).others (root.symm ▸ elsewhere)]
    rfl
  · intro later rearranged other another highest' present standing' alive'
    have held := holds_of_rearranged rearranged
    have sound' : later.Sound := sound_of_rearranged (sound.operated entry.scope (.set kind name value)) rearranged
    obtain ⟨_, found, own⟩ := held.owns standing.present
    cases found.symm.trans standing'.present
    have inside := sound.inside standing.present
    have within : highest.scope.own < (forest.heap.set entry.scope kind name value).stores.length :=
      Nat.lt_of_lt_of_le inside (forest.heap.extends_set entry.scope kind name value).size
    rw [Heap.get?, Heap.rootStore, sound'.root_eq present standing' alive', own, held.tables within,
      Heap.store_set, if_pos ⟨⟨root, inside⟩, rfl⟩, NameTable.get?_insert, if_pos rfl]

/-- Of three scopes, each linked to the one before it, the one in the middle has been given up. -/
def nested : Forest where
  heap := Heap.empty.newScope.2.newScope.2.newScope.2.dropScope ⟨1, some 0⟩
  entries := [⟨⟨0, none⟩, none⟩, ⟨⟨1, some 0⟩, some 0⟩, ⟨⟨2, some 0⟩, some 1⟩]

theorem grown_nested : Grown .empty nested := by
  let made : Forest :=
    ⟨Heap.empty.newScope.2.newScope.2.newScope.2, [⟨⟨0, none⟩, none⟩, ⟨⟨1, none⟩, none⟩, ⟨⟨2, none⟩, none⟩]⟩
  let middle : Forest := { made with entries := [⟨⟨0, none⟩, none⟩, ⟨⟨1, some 0⟩, some 0⟩, ⟨⟨2, none⟩, none⟩] }
  let lowest : Forest := { made with entries := nested.entries }
  have grown : Grown .empty made :=
    ((Relation.ReflTransGen.single (.rearranged (.created _))).tail (.rearranged (.created _))).tail
      (.rearranged (.created _))
  have first : made.Lives 1 ⟨⟨1, none⟩, none⟩ := ⟨rfl, rfl⟩
  have second : middle.Lives 2 ⟨⟨2, none⟩, none⟩ := ⟨rfl, rfl⟩
  have third : lowest.Lives 1 ⟨⟨1, some 0⟩, some 0⟩ := ⟨rfl, rfl⟩
  have parental : made.Lives 0 ⟨⟨0, none⟩, none⟩ := ⟨rfl, rfl⟩
  have parental' : middle.Lives 1 ⟨⟨1, some 0⟩, some 0⟩ := ⟨rfl, rfl⟩
  have free (other : Nat) : above made.entries other ≠ some 1 :=
    match other with
    | 0 | 1 | 2 | _ + 3 => nofun
  have free' (other : Nat) : above middle.entries other ≠ some 2 :=
    match other with
    | 0 | 1 | 2 | _ + 3 => by simp [middle, above]
  have linked : Rearranges made middle := .linked first parental (by decide) rfl free
  have linked' : Rearranges middle lowest := .linked second parental' (by decide) rfl free'
  exact ((grown.tail (.rearranged linked)).tail (.rearranged linked')).tail (.rearranged (.dropped third))

theorem grown_shares_of_nested : Grown .empty nested ∧ nested.Lives 2 ⟨⟨2, some 0⟩, some 1⟩ ∧
    (nested.heap.set ⟨2, some 0⟩ .save "depth" (.int32 3)).get? ⟨0, none⟩ .save "depth" = some (.int32 3) := by
  have lives : nested.Lives 2 ⟨⟨2, some 0⟩, some 1⟩ := ⟨rfl, rfl⟩
  have standing : Top nested.entries 2 0 ⟨⟨0, none⟩, none⟩ :=
    ⟨.head (rfl : above nested.entries 2 = some 1) (.single rfl), rfl, rfl⟩
  have written := nested.heap.extends_set ⟨2, some 0⟩ .save "depth" (.int32 3)
  obtain ⟨top, highest, standing', unique, shares⟩ := grown_shares grown_nested lives
  obtain rfl : 0 = top := unique 0 _ standing
  cases standing.present.symm.trans standing'.present
  refine ⟨grown_nested, lives, ((shares rfl).2.2 .save "depth" (.int32 3)).2 _ .refl 0 _ _ rfl
    (top_of_unlinked rfl rfl) ?_⟩
  rw [Heap.isAlive, written.holders]
  rfl

end Forest

end RecordQuery
