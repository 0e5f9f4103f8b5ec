import Mathlib.Data.List.Induction
import RecordQuery.Meaning.Operand
import RecordQuery.Proofs.Evaluation.Outcome
import RecordQuery.Proofs.Value.Equality
import RecordQuery.Statement.Grouping
/-! Grouping partitions its rows: one group for each key up to equality, with the rows of that key in their order. -/

namespace RecordQuery

/-- Values that are worked out one after another, each in the world that the one before it left. -/
inductive EvalM.InTurn {α β : Type} (step : α → EvalM β) : List α → World → List β → World → Prop where
  | nil (world : World) : InTurn step [] world [] world
  | cons {item : α} {items : List α} {value : β} {values : List β} {world next after : World}
      (own : step item world = .ok value next) (others : InTurn step items next values after) :
      InTurn step (item :: items) world (value :: values) after

theorem EvalM.InTurn.mapM_of_ok {α β : Type} {step : α → EvalM β} {items : List α} {values : List β}
    {world after : World} (worked : InTurn step items world values after) :
    items.mapM step world = .ok values after := by
  induction worked with
  | nil world => rfl
  | cons own others ih =>
    rw [List.mapM_cons, EvalM.bind_of_ok own, EvalM.bind_of_ok ih]
    rfl

theorem EvalM.InTurn.inside {α β : Type} {step : α → EvalM β} {items : List α} {values : List β}
    {world after : World} (place : α → String) (worked : InTurn step items world values after) :
    InTurn (fun item => (step item).inside (place item)) items world values after := by
  induction worked with
  | nil world => exact .nil world
  | cons own others ih => exact .cons (EvalM.inside_of_ok _ own) ih

/-- The grouping expressions evaluate on each row in turn, without an error, and make up its key. -/
inductive Keyed (expressions : List Meaning) (environment : Environment) (frame : Frame) :
    List Value → World → List (List Value) → World → Prop where
  | nil (world : World) : Keyed expressions environment frame [] world [] world
  | cons {row : Value} {rows : List Value} {key : List Value} {keys : List (List Value)} {world next after : World}
      (own : EvalM.InTurn (fun expression => expression.evaluate environment (frame.onRow row)) expressions world key
        next)
      (others : Keyed expressions environment frame rows next keys after) :
      Keyed expressions environment frame (row :: rows) world (key :: keys) after

theorem Keyed.withKeys {expressions : List Meaning} {environment : Environment} {frame : Frame} {rows : List Value}
    {keys : List (List Value)} {world after : World}
    (keyed : Keyed expressions environment frame rows world keys after) :
    withKeys expressions environment frame rows world = .ok (keys.zip rows) after := by
  induction keyed with
  | nil world => rfl
  | @cons row _ key _ world next _ own others ih =>
    have evaluated : groupKey expressions environment frame row world = .ok key next :=
      (own.inside fun expression : Meaning => "group by " ++ expression.text).mapM_of_ok
    rw [RecordQuery.withKeys, EvalM.bind_of_ok evaluated, EvalM.bind_of_ok ih]
    rfl

theorem Keyed.length_eq {expressions : List Meaning} {environment : Environment} {frame : Frame} {rows : List Value}
    {keys : List (List Value)} {world after : World}
    (keyed : Keyed expressions environment frame rows world keys after) : keys.length = rows.length := by
  induction keyed with
  | nil world => rfl
  | cons own others ih => simp [ih]

section Firsts

variable {α : Type} (same : α → α → Bool)

private theorem loop_concat (items kept : List α) (item : α) :
    List.eraseDupsBy.loop same (items ++ [item]) kept =
      let firsts := List.eraseDupsBy.loop same items kept
      if firsts.any (same item) then firsts else firsts ++ [item] := by
  induction items generalizing kept with
  | nil =>
    cases found : kept.any (same item) <;> simp [List.eraseDupsBy.loop, found]
  | cons first rest ih =>
    rw [List.cons_append, List.eraseDupsBy.loop, List.eraseDupsBy.loop]
    split
    · exact ih kept
    · exact ih (first :: kept)

/-- One more item is a first occurrence if it is the same as none of those found. -/
theorem eraseDupsBy_concat (items : List α) (item : α) :
    (items ++ [item]).eraseDupsBy same =
      if (items.eraseDupsBy same).any (same item) then items.eraseDupsBy same
      else items.eraseDupsBy same ++ [item] :=
  loop_concat same items [] item

theorem eraseDupsBy_subset (items : List α) : items.eraseDupsBy same ⊆ items := by
  induction items using List.reverseRecOn with
  | nil => exact List.nil_subset _
  | append_singleton items item ih =>
    rw [eraseDupsBy_concat]
    split
    · exact List.subset_append_of_subset_left _ ih
    · exact List.append_subset.mpr ⟨List.subset_append_of_subset_left _ ih, List.subset_append_right _ _⟩

/-- First occurrences are apart from those before them. -/
theorem eraseDupsBy_pairwise (items : List α) : (items.eraseDupsBy same).Pairwise fun a b => same b a = false := by
  induction items using List.reverseRecOn with
  | nil => exact .nil
  | append_singleton items item ih =>
    rw [eraseDupsBy_concat]
    split
    · exact ih
    · next fresh =>
      refine List.pairwise_append.mpr ⟨ih, List.pairwise_singleton .., fun first member last new => ?_⟩
      cases List.mem_singleton.mp new
      rw [← Bool.not_eq_true]
      exact fun found => fresh (List.any_eq_true.mpr ⟨first, member, found⟩)

theorem eraseDupsBy_of_pairwise {items : List α} (apart : items.Pairwise fun a b => same b a = false) :
    items.eraseDupsBy same = items := by
  induction items using List.reverseRecOn with
  | nil => rfl
  | append_singleton items item ih =>
    obtain ⟨earlier, -, last⟩ := List.pairwise_append.mp apart
    rw [eraseDupsBy_concat, ih earlier, if_neg]
    simpa using fun first member => last first member item (List.mem_singleton_self item)

/-- Items are all first occurrences exactly if each is apart from those before it. -/
theorem eraseDupsBy_eq_self_iff (items : List α) :
    items.eraseDupsBy same = items ↔ items.Pairwise fun a b => same b a = false :=
  ⟨fun firsts => firsts ▸ eraseDupsBy_pairwise same items, eraseDupsBy_of_pairwise same⟩

end Firsts

/-- Among keys, to be equal is an equivalence. -/
structure EqualityOn (among : List Value → Prop) : Prop where
  refl {a : List Value} (inside : among a) : equalItems a a = true
  comm {a b : List Value} (inside : among a) (inside' : among b) : equalItems a b = equalItems b a
  trans {a b c : List Value} (inside : among a) (inside' : among b) (inside'' : among c)
    (first : equalItems a b = true) (second : equalItems b c = true) : equalItems a c = true

theorem equality_of_plain : EqualityOn fun key => recordsOfItems key = [] where
  refl := equalItems_refl
  comm := equalItems_comm
  trans := equalItems_trans

namespace Grouped

/-- Groups that partition rows by their keys. -/
structure Partitions (groups : Grouped (List Value)) (pairs : List (List Value × Value)) : Prop where
  /-- The keys are the first occurrences among the keys of the rows, in order. -/
  keys : groups.map (·.1) = (pairs.map (·.1)).eraseDupsBy equalItems
  apart : (groups.map (·.1)).Pairwise fun a b => equalItems a b = false ∧ equalItems b a = false
  placed : ∀ pair ∈ pairs, ∃ key ∈ groups.map (·.1), equalItems pair.1 key = true
  /-- All rows are in the groups, each as often as it came. -/
  rows : (groups.flatMap (·.2)).Perm (pairs.map (·.2))
  /-- The members of a group are the rows whose key equals its own, in the order they came in. -/
  members : ∀ group ∈ groups, group.2 = (pairs.filter fun pair => equalItems pair.1 group.1).map (·.2)

theorem partitions_nil : Partitions [] [] where
  keys := rfl
  apart := .nil
  placed := nofun
  rows := .rfl
  members := nofun

/-- No key equals one before it. -/
def Apart {α : Type} (groups : Grouped α) : Prop :=
  (groups.map (·.1)).Pairwise fun earlier later => equalItems later earlier = false

/-- What is found of some items is under the keys of some of them, in their order. -/
theorem keys_filterMap_sublist {α β γ : Type} (key : α → List Value) (found : α → Option β) (shown : α → β → γ)
    (items : List α) :
    ((items.filterMap fun item => (found item).map fun value => (key item, shown item value)).map (·.1)).Sublist
      (items.map key) := by
  induction items with
  | nil => exact .refl _
  | cons item rest ih =>
    cases present : found item with
    | none => simpa [present] using ih.cons (key item)
    | some value => simpa [present] using ih

section Keys

variable {α : Type} (groups : Grouped α) (key : List Value)

theorem keys_put (own : α) (change : α → α) : (groups.put key own change).map (·.1) =
    if (groups.map (·.1)).any (equalItems key) then groups.map (·.1) else groups.map (·.1) ++ [key] := by
  induction groups with
  | nil => rfl
  | cons group rest ih =>
    rw [put, List.map_cons, List.any_cons]
    cases found : equalItems key group.1 with
    | true => simp
    | false =>
      simp only [Bool.false_eq_true, if_false, List.map_cons, ih, Bool.false_or]
      split <;> rfl

variable {key}

/-- A key that equals none goes behind the others. -/
theorem put_of_fresh (fresh : ∀ group ∈ groups, equalItems key group.1 = false) (own : α) (change : α → α) :
    groups.put key own change = groups ++ [(key, own)] := by
  have absent : groups.findIdx? (fun group => equalItems key group.1) = none := by
    simpa [List.findIdx?_eq_none_iff] using fresh
  rw [put_eq, absent]

/-- However entries change what belongs to their keys, the keys are the first ones. -/
theorem keys_foldl_put {β : Type} (own : β → α) (change : β → α → α) (entries : Grouped β) :
    (entries.foldl (fun (groups : Grouped α) entry => groups.put entry.1 (own entry.2) (change entry.2)) []).map (·.1) =
      (entries.map (·.1)).eraseDupsBy equalItems := by
  induction entries using List.reverseRecOn with
  | nil => rfl
  | append_singleton entries entry ih =>
    rw [List.foldl_append, List.foldl_cons, List.foldl_nil, keys_put, ih, List.map_append, List.map_singleton,
      eraseDupsBy_concat]

theorem keys_ofPairs (pairs : List (List Value × Value)) :
    (ofPairs pairs).map (·.1) = (pairs.map (·.1)).eraseDupsBy equalItems := by
  rw [ofPairs_eq]
  exact keys_foldl_put (fun row => [row]) (fun row rows => rows ++ [row]) pairs

theorem ofPairs_apart (pairs : List (List Value × Value)) : (ofPairs pairs).Apart := by
  rw [Apart, keys_ofPairs]
  exact eraseDupsBy_pairwise ..

theorem keys_insertAll : (insertAll groups).map (·.1) = (groups.map (·.1)).eraseDupsBy equalItems := by
  rw [insertAll_eq]
  exact keys_foldl_put id (fun value _ => value) groups

/-- Keys that are apart are entered as they are. -/
theorem foldl_insert_of_apart {groups : Grouped α} (apart : groups.Apart) :
    groups.foldl (fun (entered : Grouped α) group => entered.insert group.1 group.2) [] = groups := by
  induction groups using List.reverseRecOn with
  | nil => rfl
  | append_singleton groups group ih =>
    obtain ⟨earlier, -, last⟩ := List.pairwise_append.mp (List.pairwise_map.mp apart)
    rw [List.foldl_append, ih (List.pairwise_map.mpr earlier), List.foldl_cons, List.foldl_nil, insert, put_of_fresh]
    exact fun other member => last other member group (List.mem_singleton_self group)

/-- Entering keys neither drops one nor replaces what belongs to one exactly if they are apart. -/
theorem insertAll_eq_self_iff : insertAll groups = groups ↔ groups.Apart := by
  refine ⟨fun same => ?_, fun apart => (insertAll_eq groups).trans (foldl_insert_of_apart apart)⟩
  have keys : (groups.map (·.1)).eraseDupsBy equalItems = groups.map (·.1) := by rw [← keys_insertAll, same]
  exact (eraseDupsBy_eq_self_iff ..).mp keys

/-- What belongs to a key that equals itself is found under it, where keys are apart. -/
theorem find?_of_apart {groups : Grouped α} (apart : groups.Apart) {value : α} (member : (key, value) ∈ groups)
    (own : equalItems key key = true) : groups.find? key = some value := by
  induction groups with
  | nil => cases member
  | cons group rest ih =>
    obtain ⟨first, others⟩ := List.pairwise_cons.mp apart
    rcases List.mem_cons.mp member with rfl | later
    · simp [find?, own]
    · have differs := first key (List.mem_map_of_mem later)
      have found := ih others later
      simpa [find?, List.find?_cons, differs] using found

end Keys

section Step

variable (groups : Grouped (List Value)) (key : List Value) (row : Value)

theorem add_cons (group : List Value × List Value) : Grouped.add (group :: groups) key row =
    if equalItems key group.1 then (group.1, group.2 ++ [row]) :: groups else group :: groups.add key row :=
  rfl

theorem keys_add : (groups.add key row).map (·.1) =
    if (groups.map (·.1)).any (equalItems key) then groups.map (·.1) else groups.map (·.1) ++ [key] :=
  groups.keys_put key [row] (· ++ [row])

theorem rows_add : ((groups.add key row).flatMap (·.2)).Perm (groups.flatMap (·.2) ++ [row]) := by
  induction groups with
  | nil => exact .rfl
  | cons group rest ih =>
    rw [add_cons]
    split
    · simp only [List.flatMap_cons, List.append_assoc]
      exact List.perm_append_comm.append_left _
    · simp only [List.flatMap_cons, List.append_assoc]
      exact ih.append_left _

/-- Where one group at most has the key, adding a row changes that group alone, or opens one. -/
theorem mem_add {group : List Value × List Value} {groups : Grouped (List Value)} {key : List Value} {row : Value}
    (once : groups.Pairwise fun a b => equalItems key a.1 = true → equalItems key b.1 = false)
    (member : group ∈ groups.add key row) :
    (∃ old ∈ groups, equalItems key old.1 = true ∧ group = (old.1, old.2 ++ [row])) ∨
      (group ∈ groups ∧ equalItems key group.1 = false) ∨
      (group = (key, [row]) ∧ ∀ old ∈ groups, equalItems key old.1 = false) := by
  induction groups with
  | nil => exact .inr (.inr ⟨List.mem_singleton.mp member, nofun⟩)
  | cons first rest ih =>
    obtain ⟨others, once⟩ := List.pairwise_cons.mp once
    rw [add_cons] at member
    split at member
    · next found =>
      rcases List.mem_cons.mp member with rfl | later
      · exact .inl ⟨first, List.mem_cons_self, found, rfl⟩
      · exact .inr (.inl ⟨List.mem_cons_of_mem _ later, others group later found⟩)
    · next other =>
      rw [Bool.not_eq_true] at other
      rcases List.mem_cons.mp member with rfl | later
      · exact .inr (.inl ⟨List.mem_cons_self, other⟩)
      · rcases ih once later with ⟨old, present, found, rfl⟩ | ⟨present, differs⟩ | ⟨rfl, fresh⟩
        · exact .inl ⟨old, List.mem_cons_of_mem _ present, found, rfl⟩
        · exact .inr (.inl ⟨List.mem_cons_of_mem _ present, differs⟩)
        · exact .inr (.inr ⟨rfl, List.forall_mem_cons.mpr ⟨other, fresh⟩⟩)

/-- Rows whose keys all equal that of the first of them make one group. -/
theorem ofPairs_of_equal {pairs : List (List Value × Value)} {key : List Value} (row : Value)
    (equal : ∀ pair ∈ pairs, equalItems pair.1 key = true) :
    ofPairs ((key, row) :: pairs) = [(key, row :: pairs.map (·.2))] := by
  have grown (rows : List Value) : pairs.foldl (fun (groups : Grouped (List Value)) pair => groups.add pair.1 pair.2)
      [(key, rows)] = [(key, rows ++ pairs.map (·.2))] := by
    induction pairs generalizing rows with
    | nil => simp
    | cons pair rest ih =>
      obtain ⟨own, others⟩ := List.forall_mem_cons.mp equal
      rw [List.foldl_cons, add_cons, if_pos own, ih others]
      simp
  rw [ofPairs_eq, List.foldl_cons]
  exact grown [row]

end Step

section Run

variable {groups : Grouped (List Value)} {pairs : List (List Value × Value)} {key : List Value} {row : Value}

variable {among : List Value → Prop} (equality : EqualityOn among)

theorem Partitions.allKeys (partitions : groups.Partitions pairs) (keys : ∀ pair ∈ pairs, among pair.1)
    {found : List Value} (member : found ∈ groups.map (·.1)) : among found := by
  rw [partitions.keys] at member
  obtain ⟨pair, present, rfl⟩ := List.mem_map.mp (eraseDupsBy_subset _ _ member)
  exact keys pair present

include equality

/-- One group at most has a key. -/
theorem Partitions.once (partitions : groups.Partitions pairs) (keys : ∀ pair ∈ pairs, among pair.1)
    (own : among key) : groups.Pairwise fun a b => equalItems key a.1 = true → equalItems key b.1 = false := by
  refine (List.pairwise_map.mp partitions.apart).imp_of_mem fun {a b} inside inside' apart found => ?_
  have first := partitions.allKeys keys (List.mem_map_of_mem inside)
  have second := partitions.allKeys keys (List.mem_map_of_mem inside')
  rw [← Bool.not_eq_true]
  intro found'
  rw [equality.comm own first] at found
  simp [equality.trans first own second found found'] at apart

/-- A row with one more key keeps the groups a partition. -/
theorem Partitions.add (partitions : groups.Partitions pairs) (keys : ∀ pair ∈ pairs, among pair.1)
    (own : among key) (row : Value) : (groups.add key row).Partitions (pairs ++ [(key, row)]) where
  keys := by
    rw [keys_add, List.map_append, List.map_singleton, eraseDupsBy_concat, partitions.keys]
  apart := by
    rw [keys_add]
    split
    · exact partitions.apart
    · next fresh =>
      refine List.pairwise_append.mpr ⟨partitions.apart, List.pairwise_singleton .., fun other member new last => ?_⟩
      cases List.mem_singleton.mp last
      have differs : equalItems key other = false := by
        rw [← Bool.not_eq_true]
        exact fun found => fresh (List.any_eq_true.mpr ⟨other, member, found⟩)
      exact ⟨(equality.comm (partitions.allKeys keys member) own).trans differs, differs⟩
  placed := by
    rw [keys_add]
    intro pair member
    rcases List.mem_append.mp member with old | new
    · obtain ⟨found, present, equal⟩ := partitions.placed pair old
      split
      · exact ⟨found, present, equal⟩
      · exact ⟨found, List.mem_append_left _ present, equal⟩
    · cases List.mem_singleton.mp new
      split
      · next found => exact List.any_eq_true.mp found
      · exact ⟨key, List.mem_append_right _ (List.mem_singleton_self key), equality.refl own⟩
  rows := by
    rw [List.map_append]
    exact (rows_add groups key row).trans (partitions.rows.append_right _)
  members := by
    intro group member
    rw [List.filter_append, List.map_append]
    rcases mem_add (partitions.once equality keys own) member with
      ⟨old, present, found, rfl⟩ | ⟨present, differs⟩ | ⟨rfl, fresh⟩
    · rw [partitions.members old present]
      simp [found]
    · rw [partitions.members group present]
      simp [differs]
    · -- No earlier row has the key, as its group would have it too.
      have none : pairs.filter (fun pair => equalItems pair.1 key) = [] := by
        refine List.filter_eq_nil_iff.mpr fun pair inside equal => ?_
        obtain ⟨found, present, equal'⟩ := partitions.placed pair inside
        obtain ⟨old, inGroups, rfl⟩ := List.mem_map.mp present
        have first := keys pair inside
        have second := partitions.allKeys keys present
        rw [equality.comm first own] at equal
        have reached := equality.trans own first second equal equal'
        simp [fresh old inGroups] at reached
      simp [none, equality.refl own]

theorem ofPairs_partitions (keys : ∀ pair ∈ pairs, among pair.1) : (ofPairs pairs).Partitions pairs := by
  rw [ofPairs_eq]
  induction pairs using List.reverseRecOn with
  | nil => exact partitions_nil
  | append_singleton pairs pair ih =>
    rw [List.foldl_append]
    obtain ⟨earlier, own⟩ := List.forall_mem_append.mp keys
    exact (ih earlier).add equality earlier (own pair (List.mem_singleton_self pair)) pair.2

end Run

end Grouped

/-- Grouped rows are under keys that equal none before them. -/
theorem groupRows_apart {expressions : List Meaning} {environment : Environment} {frame : Frame} {rows : List Value}
    {groups : Grouped (List Value)} {world begun : World}
    (ran : groupRows expressions environment frame rows world = .ok groups begun) : groups.Apart := by
  rw [groupRows, map_eq_pure_bind] at ran
  obtain ⟨pairs, _, -, ran⟩ := EvalM.ok_of_bind ran
  cases ran
  exact Grouped.ofPairs_apart pairs

/-- Grouping rows whose keys evaluate to values without records succeeds and partitions the rows by their keys. -/
theorem groupRows_partitions {expressions : List Meaning} {environment : Environment} {frame : Frame}
    {rows : List Value} {keys : List (List Value)} {world after : World}
    (keyed : Keyed expressions environment frame rows world keys after)
    (plain : ∀ key ∈ keys, recordsOfItems key = []) :
    ∃ groups, groupRows expressions environment frame rows world = .ok groups after ∧
      groups.Partitions (keys.zip rows) ∧ (keys.zip rows).map (·.1) = keys ∧ (keys.zip rows).map (·.2) = rows := by
  have length := keyed.length_eq
  refine ⟨Grouped.ofPairs (keys.zip rows), ?_, ?_, List.map_fst_zip (Nat.le_of_eq length),
    List.map_snd_zip (Nat.le_of_eq length.symm)⟩
  · rw [groupRows, map_eq_pure_bind, EvalM.bind_of_ok keyed.withKeys]
    rfl
  · exact Grouped.ofPairs_partitions equality_of_plain fun pair member => plain pair.1 (List.of_mem_zip member).1

/-- The row itself is the only key. -/
def byRow : List Meaning := [.bind (some "_currobj") none]

theorem byRow_keyed (environment : Environment) (frame : Frame) (rows : List Value) :
    Keyed byRow environment frame rows .start (rows.map fun row => [row]) .start := by
  induction rows with
  | nil => exact .nil _
  | cons row rest ih => exact .cons (.cons rfl (.nil _)) ih

/-- One in three widths, in one group, and two. -/
theorem groupRows_partitions_by_row :
    let environment : Environment := ⟨.empty, .default⟩
    let frame : Frame := ⟨none, [], none, none, ⟨0, none⟩, ""⟩
    let rows : List Value := [.int32 1, .float64 .one, .int64 2, .int64 1]
    let keys := rows.map fun row => [row]
    Keyed byRow environment frame rows .start keys .start ∧ (∀ key ∈ keys, recordsOfItems key = []) ∧
      ∃ groups, groupRows byRow environment frame rows .start = .ok groups .start ∧
        groups.Partitions (keys.zip rows) ∧ (keys.zip rows).map (·.1) = keys ∧ (keys.zip rows).map (·.2) = rows := by
  intro environment frame rows keys
  have keyed : Keyed byRow environment frame rows .start keys .start := byRow_keyed environment frame rows
  have plain : ∀ key ∈ keys, recordsOfItems key = [] := by simp [keys, rows, recordsOfItems, Value.records]
  exact ⟨keyed, plain, groupRows_partitions keyed plain⟩

end RecordQuery
