import RecordQuery.Proofs.Meaning.Caching
import RecordQuery.Proofs.Meaning.FixedValues
import RecordQuery.Proofs.Statement.Grouping
/-! A membership test means its quantifier over the candidates that its items offer: it is for one of them to match, for
all of them, or for none. The patterns that it keeps are those of the values that its fixed items have. -/

namespace RecordQuery

open EvalM

/-- What an item offers for a match: a list its elements, a map its keys, and any other value itself. -/
inductive IsCandidate : Value → Value → Prop where
  | element {elements : List Value} {candidate : Value} (inside : candidate ∈ elements) :
    IsCandidate (.list elements) candidate
  | key {entries : List (Value × Value)} {entry : Value × Value} (inside : entry ∈ entries) :
    IsCandidate (.map entries) entry.1
  | whole {value : Value} (notList : ∀ elements, value ≠ .list elements) (notMap : ∀ entries, value ≠ .map entries) :
    IsCandidate value value

/-- How a subject matches a candidate: as its equal, or by text as what the candidate's text stands for as a pattern,
unless one of them is null. -/
def Matches (ignoreCase like : Bool) (subject candidate : Value) : Prop :=
  if like then subject.isNull = false ∧ candidate.isNull = false ∧
    (LikePattern.compile candidate.text ignoreCase).accepts subject.text = true
  else CompareOp.eq.test (compareValues ignoreCase subject candidate) = true

namespace Meaning

theorem mem_alternatives_iff {value candidate : Value} :
    candidate ∈ alternatives value ↔ IsCandidate value candidate := by
  constructor
  · intro member
    cases value with
    | list elements => exact .element member
    | map entries =>
      obtain ⟨entry, inside, rfl⟩ := List.mem_map.mp member
      exact .key inside
    | _ =>
      cases List.mem_singleton.mp member
      exact .whole (fun _ => by simp) (fun _ => by simp)
  · intro offers
    cases offers with
    | element inside => exact inside
    | key inside => exact List.mem_map_of_mem inside
    | whole notList notMap =>
      cases value with
      | list elements => exact absurd rfl (notList elements)
      | map entries => exact absurd rfl (notMap entries)
      | _ => exact List.mem_singleton_self _

namespace Membership

/-- Whether the subject matches an alternative. -/
def meets (membership : Membership) (subject alternative : Value) : Bool :=
  if membership.like then !subject.isNull && !alternative.isNull &&
    (LikePattern.compile alternative.text membership.ignoreCase).accepts subject.text
  else CompareOp.eq.test (compareValues membership.ignoreCase subject alternative)

theorem meets_iff (membership : Membership) (subject alternative : Value) :
    membership.meets subject alternative = true ↔
      Matches membership.ignoreCase membership.like subject alternative := by
  unfold meets Matches
  cases membership.like <;> simp [and_assoc]

/-- What alternatives decide: a miss where all have to match, a hit otherwise. -/
def verdict (membership : Membership) (subject : Value) (alternatives : List Value) : Option Bool :=
  if membership.all && !membership.negated then
    if alternatives.all (membership.meets subject) then none else some false
  else if alternatives.any (membership.meets subject) then some true else none

theorem verdict_nil (membership : Membership) (subject : Value) : membership.verdict subject [] = none := by
  unfold verdict
  cases membership.all && !membership.negated <;> rfl

theorem verdict_cons (membership : Membership) (subject alternative : Value) (rest : List Value) :
    membership.verdict subject (alternative :: rest) =
      if (membership.all && !membership.negated) && !membership.meets subject alternative then some false
      else if !(membership.all && !membership.negated) && membership.meets subject alternative then some true
      else membership.verdict subject rest := by
  unfold verdict
  rw [List.all_cons, List.any_cons]
  cases membership.all && !membership.negated <;> cases membership.meets subject alternative <;> rfl

/-- What is decided by all alternatives together. -/
def outcome (membership : Membership) (subject : Value) (alternatives : List Value) : Bool :=
  if membership.all && !membership.negated then alternatives.all (membership.meets subject)
  else alternatives.any (membership.meets subject)

theorem outcome_nil (membership : Membership) (subject : Value) :
    membership.outcome subject [] = (membership.all && !membership.negated) := by
  unfold outcome
  cases membership.all && !membership.negated <;> rfl

/-- A test means its quantifier: that no candidate matches, that all do, or that one does. -/
theorem outcome_iff (membership : Membership) (subject : Value) (values : List Value) :
    ((membership.outcome subject (values.flatMap alternatives) != membership.negated) = true) ↔
      if membership.negated then
        ∀ value ∈ values, ∀ candidate, IsCandidate value candidate →
          ¬ Matches membership.ignoreCase membership.like subject candidate
      else if membership.all then
        ∀ value ∈ values, ∀ candidate, IsCandidate value candidate →
          Matches membership.ignoreCase membership.like subject candidate
      else ∃ value ∈ values, ∃ candidate, IsCandidate value candidate ∧
        Matches membership.ignoreCase membership.like subject candidate := by
  unfold outcome
  cases membership.negated with
  | true => simp [← Bool.not_eq_true, meets_iff, mem_alternatives_iff]
  | false => cases membership.all <;> simp [meets_iff, mem_alternatives_iff]

/-- Later alternatives matter as long as the ones before them decide nothing. -/
theorem outcome_append (membership : Membership) (subject : Value) (alternatives rest : List Value) :
    membership.outcome subject (alternatives ++ rest) =
      (membership.verdict subject alternatives).getD (membership.outcome subject rest) := by
  unfold outcome verdict
  split
  · rw [List.all_append]
    cases alternatives.all (membership.meets subject) <;> simp
  · rw [List.any_append]
    cases alternatives.any (membership.meets subject) <;> simp

end Membership

/-! The patterns that are kept. -/

variable {environment : Environment} {sides : List (Branch × Meaning)} {items : List Meaning} {ignoreCase : Bool}

/-- Each pattern that is kept is that of the value which the item at its place recalls. -/
def KeepsRecalled (environment : Environment) (items : List Meaning) (ignoreCase : Bool) (memory : Memory) : Prop :=
  ∀ place pattern, memory.state.pattern? place = some pattern → ∃ item value, items[place]? = some item ∧
    item.Recalls environment value memory ∧ pattern = LikePattern.compile value.text ignoreCase

theorem KeepsRecalled.persists {memory memory' : Memory} (keeps : KeepsRecalled environment items ignoreCase memory)
    (members : ∀ item ∈ items, item ∈ branched sides) (persists : Persists environment Eq sides memory memory') :
    KeepsRecalled environment items ignoreCase memory' := by
  intro place pattern found
  rw [← persists.node] at found
  obtain ⟨item, value, present, recalls, same⟩ := keeps place pattern found
  exact ⟨item, value, present, persists.recalls item (members item (List.mem_of_getElem? present)) value recalls, same⟩

theorem KeepsRecalled.keepPattern {memory : Memory} (keeps : KeepsRecalled environment items ignoreCase memory)
    (members : ∀ item ∈ items, item ∈ branched sides) {place : Nat} {item : Meaning} {value : Value}
    (present : items[place]? = some item) (recalls : item.Recalls environment value memory) :
    KeepsRecalled environment items ignoreCase
      (memory.withState (memory.state.keepPattern place (LikePattern.compile value.text ignoreCase))) := by
  intro asked pattern found
  have persists (state : NodeState) : Persists environment AnyState sides memory (memory.withState state) :=
    .withState trivial
  have stays {item : Meaning} {place : Nat} (present : items[place]? = some item) (value : Value)
      (recalls : item.Recalls environment value memory) (state : NodeState) :
      item.Recalls environment value (memory.withState state) :=
    (persists state).recalls item (members item (List.mem_of_getElem? present)) value recalls
  rw [Memory.state_withState, pattern?_keepPattern] at found
  by_cases same : asked = place
  · rw [if_pos same] at found
    cases found
    exact ⟨item, value, same ▸ present, stays present value recalls _, rfl⟩
  · rw [if_neg same] at found
    obtain ⟨item, value, present, recalls, same⟩ := keeps asked pattern found
    exact ⟨item, value, present, stays present value recalls _, same⟩

end Meaning

/-- The world with another state at the node at hand. -/
def World.withState (world : World) (state : NodeState) : World :=
  { world with memory := world.memory.withState state }

theorem World.withState_self (world : World) : world.withState world.memory.state = world := by
  obtain ⟨heap, ⟨state, branches⟩, counters, readings, accessors⟩ := world
  rfl

namespace Meaning

variable {environment : Environment} {sides : List (Branch × Meaning)} {items : List Meaning} {membership : Membership}
  {world : World}

/-- A computation gives a value and changes nothing but the state of the node, which goes on keeping patterns of
recalled values only. -/
def Gets (environment : Environment) (items : List Meaning) (ignoreCase : Bool) {α : Type} (action : EvalM α)
    (world : World) (value : α) : Prop :=
  ∃ state, action world = .ok value (world.withState state) ∧
    KeepsRecalled environment items ignoreCase (world.withState state).memory

section Gets

variable {α β : Type} {ignoreCase : Bool}

theorem gets_of_ok {action : EvalM α} {value : α} (keeps : KeepsRecalled environment items ignoreCase world.memory)
    (ran : action world = .ok value world) : Gets environment items ignoreCase action world value := by
  refine ⟨world.memory.state, ?_, ?_⟩
  · rwa [World.withState_self]
  · rwa [World.withState_self]

theorem gets_pure (keeps : KeepsRecalled environment items ignoreCase world.memory) (value : α) :
    Gets environment items ignoreCase (pure value) world value :=
  gets_of_ok keeps rfl

theorem Gets.bind {first : EvalM α} {next : α → EvalM β} {value : α} {result : β}
    (head : Gets environment items ignoreCase first world value)
    (rest : ∀ state, KeepsRecalled environment items ignoreCase (world.withState state).memory →
      Gets environment items ignoreCase (next value) (world.withState state) result) :
    Gets environment items ignoreCase (first >>= next) world result := by
  obtain ⟨state, ran, keeps⟩ := head
  obtain ⟨state', ran', keeps'⟩ := rest state keeps
  exact ⟨state', (bind_of_ok ran).trans ran', keeps'⟩

/-- The pattern at the place of an item that recalls a value is that of the value, kept or not. -/
theorem keptPattern_gets (keeps : KeepsRecalled environment items ignoreCase world.memory)
    (members : ∀ item ∈ items, item ∈ branched sides) {place : Nat} {item : Meaning} {value : Value}
    (present : items[place]? = some item) (recalls : item.Recalls environment value world.memory) :
    Gets environment items ignoreCase (keptPattern place ignoreCase value.text) world
      (LikePattern.compile value.text ignoreCase) := by
  rw [keptPattern_eq]
  cases found : world.memory.state.pattern? place with
  | some pattern =>
    obtain ⟨item', value', present', recalls', rfl⟩ := keeps place pattern found
    cases present.symm.trans present'
    cases recalls.unique recalls'
    exact gets_of_ok keeps (keptOr_of_kept found _)
  | none =>
    exact ⟨_, keptOr_of_none found _, keeps.keepPattern members present recalls⟩

end Gets

/-- If the pattern of an alternative is to be kept, it is that of an item which recalls the alternative. -/
def Placed (environment : Environment) (items : List Meaning) (place : Option Nat) (alternative : Value)
    (memory : Memory) : Prop :=
  ∀ index ∈ place, ∃ item, items[index]? = some item ∧ item.Recalls environment alternative memory

variable {place : Option Nat} (subject : Value)

theorem hits_gets (keeps : KeepsRecalled environment items membership.ignoreCase world.memory)
    (members : ∀ item ∈ items, item ∈ branched sides) {alternative : Value}
    (placed : Placed environment items place alternative world.memory) :
    Gets environment items membership.ignoreCase (membership.hits subject alternative place) world
      (membership.meets subject alternative) := by
  unfold Membership.hits Membership.meets
  by_cases like : membership.like = true
  · simp only [like, Bool.not_true, Bool.false_eq_true, if_false, if_true]
    by_cases absent : (subject.isNull || alternative.isNull) = true
    · rw [if_pos absent, ← Bool.not_or, absent]
      exact gets_pure keeps false
    · rw [if_neg absent, ← Bool.not_or, Bool.not_eq_true _ |>.mp absent]
      cases place with
      | none => exact gets_pure keeps _
      | some place =>
        obtain ⟨item, present, recalls⟩ := placed place rfl
        exact (keptPattern_gets keeps members present recalls).bind fun _ keeps' => gets_pure keeps' _
  · simp only [like]
    exact gets_pure keeps _

theorem decideAmong_gets (keeps : KeepsRecalled environment items membership.ignoreCase world.memory)
    (members : ∀ item ∈ items, item ∈ branched sides) {alternatives : List Value}
    (placed : ∀ alternative ∈ alternatives, Placed environment items place alternative world.memory) :
    Gets environment items membership.ignoreCase (membership.decideAmong subject place alternatives) world
      (membership.verdict subject alternatives) := by
  induction alternatives generalizing world with
  | nil =>
    rw [Membership.verdict_nil]
    exact gets_pure keeps none
  | cons alternative rest ih =>
    obtain ⟨own, others⟩ := List.forall_mem_cons.mp placed
    rw [Membership.verdict_cons]
    refine (hits_gets subject keeps members own).bind fun state keeps' => ?_
    dsimp only
    by_cases missed : ((membership.all && !membership.negated) && !membership.meets subject alternative) = true
    · rw [if_pos missed, if_pos missed]
      exact gets_pure keeps' _
    rw [if_neg missed, if_neg missed]
    by_cases hit : (!(membership.all && !membership.negated) && membership.meets subject alternative) = true
    · rw [if_pos hit, if_pos hit]
      exact gets_pure keeps' _
    rw [if_neg hit, if_neg hit]
    have persists : Persists environment AnyState sides world.memory (world.withState state).memory :=
      .withState trivial
    refine ih keeps' fun other member index here => ?_
    obtain ⟨item, present, recalls⟩ := others other member index here
    exact ⟨item, present, persists.recalls item (members item (List.mem_of_getElem? present)) other recalls⟩

theorem placed_alternatives {memory : Memory} {index : Nat} {item : Meaning} (present : items[index]? = some item)
    {value : Value} (recalls : item.isFixed memory = true → item.Recalls environment value memory) :
    ∀ alternative ∈ alternatives value,
      Placed environment items (keptPlace index (item.isFixed memory) value) alternative memory := by
  intro alternative member place here
  cases value with
  | list _ | map _ => cases here
  | _ =>
    cases List.mem_singleton.mp member
    change place ∈ (if item.isFixed memory then some index else none) at here
    by_cases fixed : item.isFixed memory = true
    · rw [if_pos fixed] at here
      cases here
      exact ⟨item, present, recalls fixed⟩
    · rw [if_neg fixed] at here
      cases here

/-- Once an item has a value, its alternatives decide, or else the other items do. -/
theorem decide_of_value (endure : PartsEndure environment sides) (members : ∀ item ∈ items, item ∈ branched sides)
    {index : Nat} {item : Meaning} (present : items[index]? = some item) {frame : Frame} {value : Value} {left : World}
    (keeps : KeepsRecalled environment items membership.ignoreCase world.memory)
    (ran : item.evaluate environment frame world = .ok value left) :
    ∃ state, KeepsRecalled environment items membership.ignoreCase (left.withState state).memory ∧
      ∀ rest, membership.decide subject environment frame ((index, item) :: rest) world =
        match membership.verdict subject (alternatives value) with
        | some decision => .ok decision (left.withState state)
        | none => membership.decide subject environment frame rest (left.withState state) := by
  have member : item ∈ branched sides := members item (List.mem_of_getElem? present)
  have evaluated : KeepsRecalled environment items membership.ignoreCase left.memory :=
    keeps.persists members (after_of_ok ran ▸ endure.persists Eq item member frame world)
  have placed := placed_alternatives present ((endure.part item member).recalls ran)
  obtain ⟨state, decided, keeps'⟩ := decideAmong_gets subject evaluated members placed
  refine ⟨state, keeps', fun rest => ?_⟩
  rw [decide_cons, bind_of_ok ran, get_bind, decideOn, bind_of_ok decided]
  cases membership.verdict subject (alternatives value) <;> rfl

variable (membership)

theorem getElem?_of_mem_mapIdx {entry : Nat × Meaning}
    (member : entry ∈ items.mapIdx fun place item => (place, item)) : items[entry.1]? = some entry.2 := by
  obtain ⟨place, inside, rfl⟩ := List.mem_mapIdx.mp member
  exact List.getElem?_eq_getElem inside

/-- Whether it fails or not, a membership test keeps patterns of recalled values only. -/
theorem decide_keepsRecalled (endure : PartsEndure environment sides) (members : ∀ item ∈ items, item ∈ branched sides)
    {listed : List (Nat × Meaning)} (places : ∀ entry ∈ listed, items[entry.1]? = some entry.2) (frame : Frame) :
    EvalM.Keeps (World.Stays (KeepsRecalled environment items membership.ignoreCase))
      (membership.decide subject environment frame listed) := by
  induction listed with
  | nil => exact keeps_pure _
  | cons entry rest ih =>
    obtain ⟨index, item⟩ := entry
    obtain ⟨present, others⟩ := List.forall_mem_cons.mp places
    have member : item ∈ branched sides := members item (List.mem_of_getElem? present)
    intro world keeps
    cases began : item.evaluate environment frame world with
    | error error left =>
      have evaluated := endure.persists Eq item member frame world
      rw [after_of_error began] at evaluated
      rw [decide_cons, after_of_error (bind_of_error began)]
      exact keeps.persists members evaluated
    | ok value left =>
      obtain ⟨state, keeps', onward⟩ := decide_of_value subject endure members present keeps began
      have later := ih others (left.withState state) keeps'
      unfold after at later ⊢
      rw [onward]
      cases membership.verdict subject (alternatives value) with
      | some decision => exact keeps'
      | none => exact later

/-- A part does not see the state of the node. -/
theorem evaluate_withState {part : Meaning} (member : part ∈ branched sides) {frame : Frame} {value : Value}
    {left : World} (ran : part.evaluate environment frame world = .ok value left) (state : NodeState) :
    part.evaluate environment frame (world.withState state) = .ok value (left.withState state) := by
  obtain ⟨side, -, rfl⟩ := List.mem_map.mp member
  obtain ⟨below, began, rfl⟩ := on_ok ran
  change (side.2.evaluate environment frame).on side.1 (world.withState state) = _
  have same : side.2.evaluate environment frame ((world.withState state).down side.1) = .ok value below := began
  rw [EvalM.on, same]
  rfl

/-- The values that items have one after another decide, whatever patterns of them are kept on the way. -/
theorem decide_of_inTurn (endure : PartsEndure environment sides) (members : ∀ item ∈ items, item ∈ branched sides)
    {listed : List (Nat × Meaning)} (places : ∀ entry ∈ listed, items[entry.1]? = some entry.2) {frame : Frame}
    {values : List Value} {left : World} {state : NodeState}
    (keeps : KeepsRecalled environment items membership.ignoreCase (world.withState state).memory)
    (works : InTurn (fun item => item.evaluate environment frame) (listed.map (·.2)) world values left) :
    ∃ after, membership.decide subject environment frame listed (world.withState state) =
      .ok (membership.outcome subject (values.flatMap alternatives)) after := by
  -- Item by item, what is decided and what the items come to by themselves differ in the patterns at the node alone.
  induction listed generalizing world values state with
  | nil =>
    cases works
    rw [List.flatMap_nil, Membership.outcome_nil]
    exact ⟨_, rfl⟩
  | cons entry rest ih =>
    obtain ⟨index, item⟩ := entry
    obtain ⟨present, others⟩ := List.forall_mem_cons.mp places
    cases works with
    | @cons _ _ value values _ next _ own later =>
      have ran := evaluate_withState (members item (List.mem_of_getElem? present)) own state
      obtain ⟨state', keeps', onward⟩ := decide_of_value subject endure members present keeps ran
      rw [onward, List.flatMap_cons, Membership.outcome_append]
      cases membership.verdict subject (alternatives value) with
      | some decision => exact ⟨_, rfl⟩
      | none =>
        have again : KeepsRecalled environment items membership.ignoreCase (next.withState state').memory := keeps'
        have decided := ih others again later
        exact decided

end Meaning

open Meaning

section Among

variable {negated ignoreCase like all : Bool} {subject : Expr} {items : List Expr} {setting : Setting}

theorem among_keepsRecalled (around : ∀ handler ∈ setting.environment.functions.handlers, handler.RemembersNothing)
    {memory : Memory}
    (history : (Expr.among negated ignoreCase like all subject items).meaning.History setting memory) :
    KeepsRecalled setting.environment (each (meanings items) .item) ignoreCase memory := by
  have endure := (Expr.among negated ignoreCase like all subject items).parts_endure around
  obtain ⟨first, others⟩ := Expr.mem_partMeanings_among negated ignoreCase like all subject items
  induction history with
  | prepared ran =>
    -- A test that has just been prepared keeps no pattern.
    obtain ⟨_, next, -, written⟩ := ok_of_bind ran
    cases written
    intro place pattern found
    cases found
  | @evaluated world before frame keeps =>
    have read : EvalM.Keeps (World.Stays (KeepsRecalled setting.environment (each (meanings items) .item) ignoreCase))
        ((subject.meaning.down .subject).evaluate setting.environment frame) :=
      fun world keeps => keeps.persists others (endure.persists Eq _ first frame world)
    have decides (value : Value) :
        EvalM.Keeps (World.Stays (KeepsRecalled setting.environment (each (meanings items) .item) ignoreCase))
          (Membership.decide ⟨negated, ignoreCase, like, all⟩ value setting.environment frame
            ((each (meanings items) .item).mapIdx fun place item => (place, item))) :=
      decide_keepsRecalled ⟨negated, ignoreCase, like, all⟩ value endure others (fun _ => getElem?_of_mem_mapIdx) frame
    exact (read.bind fun value => (decides value).bind fun _ => keeps_pure _).map _ world keeps

/-- A membership test whose subject and items have values is true exactly if, negated, none of the candidates that
these offer matches; if all of them are asked for, all match; and if not, one of them matches. -/
theorem among_quantifies {world begun left : World} {value : Value} {values : List Value}
    (own : ∀ handler ∈ setting.environment.functions.own, handler.RemembersNothing)
    (standard : setting.environment.functions.standard = FunctionRegistry.default.standard)
    (history : (Expr.among negated ignoreCase like all subject items).meaning.History setting world.memory)
    (frame : Frame)
    (reads : (subject.meaning.down .subject).evaluate setting.environment frame world = .ok value begun)
    (works : InTurn (fun item => item.evaluate setting.environment frame) (each (meanings items) .item) begun values
      left) :
    ∃ truth after, (Expr.among negated ignoreCase like all subject items).meaning.evaluate setting.environment frame
        world = .ok (.boolean truth) after ∧
      (truth = true ↔
        if negated then
          ∀ item ∈ values, ∀ candidate, IsCandidate item candidate → ¬ Matches ignoreCase like value candidate
        else if all then
          ∀ item ∈ values, ∀ candidate, IsCandidate item candidate → Matches ignoreCase like value candidate
        else ∃ item ∈ values, ∃ candidate, IsCandidate item candidate ∧ Matches ignoreCase like value candidate) := by
  have around := Environment.rememberNothing_of_own own standard
  let membership : Membership := ⟨negated, ignoreCase, like, all⟩
  have endure := (Expr.among negated ignoreCase like all subject items).parts_endure around
  obtain ⟨first, others⟩ := Expr.mem_partMeanings_among negated ignoreCase like all subject items
  have keeps : KeepsRecalled setting.environment (each (meanings items) .item) ignoreCase begun.memory :=
    (among_keepsRecalled around history).persists others (after_of_ok reads ▸ endure.persists Eq _ first frame world)
  have same : ((each (meanings items) .item).mapIdx fun place item => (place, item)).map (·.2) =
      each (meanings items) .item := List.ext_getElem (by simp) fun index _ _ => by simp
  rw [← same] at works
  rw [← begun.withState_self] at keeps
  obtain ⟨after, decided⟩ :=
    decide_of_inTurn membership value endure others (fun _ => getElem?_of_mem_mapIdx) keeps works
  rw [begun.withState_self] at decided
  have evaluated : (Expr.among negated ignoreCase like all subject items).meaning.evaluate setting.environment frame
      world = .ok (.boolean (membership.outcome value (values.flatMap alternatives) != negated)) after :=
    map_of_ok _ ((bind_of_ok reads).trans (bind_of_ok decided))
  exact ⟨_, after, evaluated, membership.outcome_iff value values⟩

end Among

theorem echo_remembersNothing : echo.RemembersNothing :=
  fun _ _ _ arguments _ _ => keeps_pure (Argument.valueAt arguments 0)

/-- Whether a value is this text. -/
def isText (text : String) : Value → Bool
  | .string own => own == text
  | _ => false

theorem eq_of_isText {text : String} {value : Value} (checked : isText text value = true) : value = .string text := by
  cases value with
  | string own => rw [eq_of_beq checked]
  | _ => cases checked

/-- A test that has been evaluated once, and has kept the pattern of a call. -/
theorem among_quantifies_of_echo :
    let items : List Expr := [.call "echo" [.constant (.string "b%")], .constant (.list [.string "c%", .string "a%"])]
    let expression : Expr := .among false false true false (.constant (.string "apple")) items
    let setting : Setting := ⟨.any, ⟨.empty, FunctionRegistry.default.register echo⟩, ⟨0, none⟩⟩
    let frame : Frame := ⟨none, [], none, none, ⟨0, none⟩, ""⟩
    let world := (expression.meaning.evaluate setting.environment frame).after
      ((expression.meaning.prepare setting).after .start)
    let subject := (Expr.constant (.string "apple")).meaning.down .subject
    let values : List Value := [.string "b%", .list [.string "c%", .string "a%"]]
    (∀ handler ∈ setting.environment.functions.own, handler.RemembersNothing) ∧
      setting.environment.functions.standard = FunctionRegistry.default.standard ∧
      expression.meaning.History setting world.memory ∧ (world.memory.state.pattern? 0).isSome = true ∧
      ∃ begun left truth after,
        subject.evaluate setting.environment frame world = .ok (.string "apple") begun ∧
        InTurn (fun item => item.evaluate setting.environment frame) (each (meanings items) .item) begun values left ∧
        expression.meaning.evaluate setting.environment frame world = .ok (.boolean truth) after ∧
        (truth = true ↔ ∃ item ∈ values, ∃ candidate, IsCandidate item candidate ∧
          Matches false true (.string "apple") candidate) := by
  intro items expression setting frame world subject values
  have own : ∀ handler ∈ setting.environment.functions.own, handler.RemembersNothing :=
    List.forall_mem_singleton.mpr echo_remembersNothing
  obtain ⟨_, ran⟩ := exists_ok (expression.meaning.prepare setting) .start (by decide +kernel)
  have history : expression.meaning.History setting world.memory := .evaluated (.prepared ran) frame
  have reads : subject.evaluate setting.environment frame world = .ok (.string "apple")
      ((subject.evaluate setting.environment frame).after world) := rfl
  obtain ⟨value, next, calls, checked⟩ := exists_ok_of (isText "b%")
    (((Expr.call "echo" [.constant (.string "b%")]).meaning.down (.item 0)).evaluate setting.environment frame)
    ((subject.evaluate setting.environment frame).after world) (by decide +kernel)
  cases eq_of_isText checked
  obtain ⟨left, works⟩ : ∃ left, InTurn (fun item => item.evaluate setting.environment frame)
      (each (meanings items) .item) ((subject.evaluate setting.environment frame).after world) values left :=
    ⟨_, .cons calls (.cons rfl (.nil _))⟩
  obtain ⟨truth, after, evaluated, means⟩ := among_quantifies own rfl history frame reads works
  exact ⟨own, rfl, history, by decide +kernel, _, left, truth, after, reads, works, evaluated, means⟩

end RecordQuery
