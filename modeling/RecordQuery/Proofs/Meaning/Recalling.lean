import RecordQuery.Proofs.Function.Keeps
import RecordQuery.Proofs.Meaning.Dependable
import RecordQuery.Proofs.Meaning.Parts
/-! Evaluating a fixed expression again. Once it has had a value it has that value about whatever frame, and evaluating
it changes nothing. -/

namespace RecordQuery

open EvalM

namespace Memory

variable {memory : Memory} {branch : Branch}

/-- Something has been remembered down a branch. -/
def HasBranch (memory : Memory) (branch : Branch) : Prop := (memory.branches.lookup branch).isSome = true

theorem setEntry_of_lookup {part : Memory} {entries : List (Branch × Memory)}
    (found : entries.lookup branch = some part) : setEntry branch part entries = entries := by
  induction entries with
  | nil => cases found
  | cons head rest ih =>
    obtain ⟨other, old⟩ := head
    by_cases same : other = branch
    · subst same
      simp_all [setEntry]
    · rw [List.lookup_cons, beq_false_of_ne (Ne.symm same)] at found
      rw [setEntry, if_neg same, ih found]

/-- Putting back what is there changes nothing. -/
theorem setChild_child (present : memory.HasBranch branch) : memory.setChild branch (memory.child branch) = memory := by
  obtain ⟨part, found⟩ := Option.isSome_iff_exists.mp present
  have same : memory.child branch = part := by rw [child, found, Option.getD_some]
  rw [setChild, same, setEntry_of_lookup found]
  cases memory
  rfl

theorem hasBranch_setChild (memory : Memory) (branch asked : Branch) (part : Memory) :
    (memory.setChild branch part).HasBranch asked ↔ asked = branch ∨ memory.HasBranch asked := by
  simp only [HasBranch, setChild, branches, lookup_setEntry]
  by_cases same : asked = branch <;> simp [same]

end Memory

namespace World

variable {related : Memory → Memory → Prop}

/-- What is remembered before and after is so related. -/
def Remembers (related : Memory → Memory → Prop) (before after : World) : Prop := related before.memory after.memory

instance [IsPreorder Memory related] : IsPreorder World (Remembers related) where
  refl world := refl (r := related) world.memory
  trans _ _ _ first second := IsTrans.trans (r := related) _ _ _ first second

instance [IsPreorder Memory related] : AllowsFunctions (Remembers related) where
  saved later _ _ _ _ := later
  accessed world _ := refl (r := related) world.memory

end World

instance : Inhabited Frame := ⟨⟨none, [], none, none, ⟨0, none⟩, ""⟩⟩

/-- A handler remembers nothing in the place of its callers, beyond what evaluating its arguments does. -/
def Handler.RemembersNothing (handler : Handler) : Prop :=
  ∀ (related : Memory → Memory → Prop) [IsPreorder Memory related], handler.Keeps (World.Remembers related)

theorem standard_rememberNothing : ∀ handler ∈ FunctionRegistry.default.handlers, handler.RemembersNothing :=
  fun handler member _ _ => standard_keep handler member

theorem Environment.rememberNothing_of_own {environment : Environment}
    (own : ∀ handler ∈ environment.functions.own, handler.RemembersNothing)
    (standard : environment.functions.standard = FunctionRegistry.default.standard) :
    ∀ handler ∈ environment.functions.handlers, handler.RemembersNothing := by
  intro handler member
  rcases List.mem_append.mp member with brought | given
  · exact own handler brought
  · rw [standard] at given
    exact standard_rememberNothing handler given

namespace Meaning

variable {environment : Environment} {meaning : Meaning} {value : Value} {memory : Memory} {branch : Branch}

/-- The expression is fixed, and evaluating it, whatever it is about, gives this value and changes nothing. -/
structure Recalls (environment : Environment) (meaning : Meaning) (value : Value) (memory : Memory) : Prop where
  fixed : meaning.isFixed memory = true
  evaluate (frame : Frame) (world : World) (same : world.memory = memory) :
    meaning.evaluate environment frame world = .ok value world

theorem Recalls.unique {other : Value} (recalls : meaning.Recalls environment value memory)
    (recalls' : meaning.Recalls environment other memory) : value = other := by
  have same := (recalls.evaluate default { World.start with memory } rfl).symm.trans
    (recalls'.evaluate default { World.start with memory } rfl)
  cases same
  rfl

theorem Recalls.down (recalls : meaning.Recalls environment value (memory.child branch))
    (present : memory.HasBranch branch) : (meaning.down branch).Recalls environment value memory where
  fixed := recalls.fixed
  evaluate frame world same := by
    subst same
    change (meaning.evaluate environment frame).on branch world = _
    rw [EvalM.on, recalls.evaluate frame _ rfl]
    exact congrArg (fun memory => EStateM.Result.ok value { world with memory }) (Memory.setChild_child present)

theorem Recalls.of_down (recalls : (meaning.down branch).Recalls environment value memory) :
    memory.HasBranch branch ∧ meaning.Recalls environment value (memory.child branch) := by
  -- One evaluation at the node is one evaluation below it, put back where it was.
  have below (frame : Frame) (world : World) (same : world.memory = memory.child branch) :
      ∃ left, meaning.evaluate environment frame world = .ok value left ∧
        { world with memory } = { left with memory := memory.setChild branch left.memory } := by
    have ran := recalls.evaluate frame { world with memory } rfl
    obtain ⟨left, ran, same'⟩ := on_ok ran
    rw [World.down, ← same] at ran
    exact ⟨left, ran, same'⟩
  refine ⟨?_, recalls.fixed, fun frame world same => ?_⟩
  · obtain ⟨left, -, same⟩ := below default { World.start with memory := memory.child branch } rfl
    have restored : memory = memory.setChild branch left.memory := congrArg World.memory same
    rw [restored]
    exact (Memory.hasBranch_setChild ..).mpr (.inl rfl)
  · obtain ⟨left, ran, same'⟩ := below frame world same
    have restored : memory = memory.setChild branch left.memory := congrArg World.memory same'
    have kept : world.memory = left.memory := by
      rw [same, restored, Memory.child_setChild, if_pos rfl]
    have unchanged : left = world := by
      calc left = { left with memory := world.memory } := by rw [kept]
        _ = world := (congrArg (fun ended : World => { ended with memory := world.memory }) same').symm
    rwa [unchanged] at ran

/-- What is recalled down a branch is recalled as long as nothing changes there. -/
theorem Recalls.congr (recalls : (meaning.down branch).Recalls environment value memory) {memory' : Memory}
    (same : memory'.child branch = memory.child branch)
    (present : memory.HasBranch branch → memory'.HasBranch branch) :
    (meaning.down branch).Recalls environment value memory' := by
  obtain ⟨present', below⟩ := recalls.of_down
  rw [← same] at below
  exact below.down (present present')

/-- Evaluating the expression does not change whether it is fixed; if it is, it recalls the value that it has had. -/
structure Endures (environment : Environment) (meaning : Meaning) : Prop where
  keeps : meaning.KeepsIn (World.Remembers fun before after => meaning.isFixed after = meaning.isFixed before)
    environment
  recalls {frame : Frame} {world left : World} {value : Value}
    (ran : meaning.evaluate environment frame world = .ok value left) (fixed : meaning.isFixed left.memory = true) :
    meaning.Recalls environment value left.memory

theorem Endures.down (endures : meaning.Endures environment) (branch : Branch) :
    (meaning.down branch).Endures environment where
  keeps frame world := by
    change meaning.isFixed ((((meaning.evaluate environment frame).on branch).after world).memory.child branch) = _
    rw [memory_after_on, Memory.child_setChild, if_pos rfl]
    exact endures.keeps frame (world.down branch)
  recalls := by
    intro frame world left value ran fixed
    obtain ⟨below, began, rfl⟩ := on_ok ran
    have same : (world.memory.setChild branch below.memory).child branch = below.memory := by
      rw [Memory.child_setChild, if_pos rfl]
    refine Recalls.down ?_ ((Memory.hasBranch_setChild ..).mpr (.inl rfl))
    change meaning.isFixed ((world.memory.setChild branch below.memory).child branch) = true at fixed
    rw [same] at fixed ⊢
    exact endures.recalls began fixed

/-! Parts on their branches. -/

variable {sides : List (Branch × Meaning)} {grows : NodeState → NodeState → Prop}

/-- What evaluating parts does to what is remembered: the state of the node grows, the same parts are fixed, and those
that recall a value go on recalling it. -/
structure Persists (environment : Environment) (grows : NodeState → NodeState → Prop) (sides : List (Branch × Meaning))
    (before after : Memory) : Prop where
  node : grows before.state after.state
  fixed : ∀ part ∈ branched sides, part.isFixed after = part.isFixed before
  recalls : ∀ part ∈ branched sides, ∀ value, part.Recalls environment value before →
    part.Recalls environment value after

instance [IsPreorder NodeState grows] : IsPreorder Memory (Persists environment grows sides) where
  refl _ := ⟨refl _, fun _ _ => rfl, fun _ _ _ recalls => recalls⟩
  trans _ _ _ first second :=
    ⟨IsTrans.trans _ _ _ first.node second.node,
      fun part inside => (second.fixed part inside).trans (first.fixed part inside),
      fun part inside value recalls => second.recalls part inside value (first.recalls part inside value recalls)⟩

theorem Persists.all_isFixed {memory' : Memory} {parts : List Meaning}
    (persists : Persists environment grows sides memory memory') (members : ∀ part ∈ parts, part ∈ branched sides) :
    parts.all (·.isFixed memory') = parts.all (·.isFixed memory) := by
  rw [Bool.eq_iff_iff, List.all_eq_true, List.all_eq_true]
  exact forall₂_congr fun part member => by rw [persists.fixed part (members part member)]

theorem Persists.withState {state : NodeState} (grown : grows memory.state state) :
    Persists environment grows sides memory (memory.withState state) where
  node := grown
  fixed part inside := by
    obtain ⟨side, -, rfl⟩ := List.mem_map.mp inside
    rfl
  recalls part inside value recalls := by
    obtain ⟨side, -, rfl⟩ := List.mem_map.mp inside
    exact recalls.congr rfl id

/-- Parts on branches that are told apart, each of which endures. -/
structure PartsEndure (environment : Environment) (sides : List (Branch × Meaning)) : Prop where
  apart : (sides.map (·.1)).Nodup
  endures : ∀ side ∈ sides, side.2.Endures environment

theorem PartsEndure.part (endure : PartsEndure environment sides) :
    ∀ part ∈ branched sides, part.Endures environment := by
  intro _ member
  obtain ⟨side, inside, rfl⟩ := List.mem_map.mp member
  exact (endure.endures side inside).down side.1

/-- Evaluating one part leaves what the others remember alone. -/
theorem PartsEndure.persists (grows : NodeState → NodeState → Prop) [IsPreorder NodeState grows]
    (endure : PartsEndure environment sides) :
    ∀ part ∈ branched sides, part.KeepsIn (World.Remembers (Persists environment grows sides)) environment := by
  intro _ member frame world
  obtain ⟨side, inside, rfl⟩ := List.mem_map.mp member
  have left := memory_after_on (side.2.evaluate environment frame) side.1 world
  have elsewhere {other : Branch} (apart : other ≠ side.1) :
      (((side.2.evaluate environment frame).on side.1).after world).memory.child other = world.memory.child other := by
    rw [left, Memory.child_setChild, if_neg apart]
  refine ⟨?_, ?_, ?_⟩
  · change grows _ (((side.2.evaluate environment frame).on side.1).after world).memory.state
    rw [left]
    exact refl _
  · intro _ found
    obtain ⟨other, present, rfl⟩ := List.mem_map.mp found
    by_cases same : other.1 = side.1
    · cases List.inj_on_of_nodup_map endure.apart present inside same
      exact ((endure.endures side inside).down side.1).keeps frame world
    · exact congrArg other.2.isFixed (elsewhere same)
  · intro _ found value recalls
    obtain ⟨other, present, rfl⟩ := List.mem_map.mp found
    by_cases same : other.1 = side.1
    · cases List.inj_on_of_nodup_map endure.apart present inside same
      rw [after_of_ok (recalls.evaluate frame world rfl)]
      exact recalls
    · refine recalls.congr (elsewhere same) fun remembered => ?_
      change (((side.2.evaluate environment frame).on side.1).after world).memory.HasBranch other.1
      rw [left]
      exact (Memory.hasBranch_setChild ..).mpr (.inr remembered)

/-- A computation of the parts that, once it has succeeded, gives the same again and changes nothing, as long as all
parts are fixed. -/
structure Replays (environment : Environment) (grows : NodeState → NodeState → Prop) (sides : List (Branch × Meaning))
    {α : Type} (run : Frame → EvalM α) : Prop where
  persists (frame : Frame) : EvalM.Keeps (World.Remembers (Persists environment grows sides)) (run frame)
  again {frame : Frame} {world left : World} {value : α} (ran : run frame world = .ok value left) {later : World}
    (persists : Persists environment grows sides left.memory later.memory)
    (fixed : ∀ part ∈ branched sides, part.isFixed later.memory = true) (frame' : Frame) :
    run frame' later = .ok value later

namespace Replays

variable {α β : Type} [IsPreorder NodeState grows]

theorem pure (value : α) : Replays environment grows sides fun _ => (pure value : EvalM α) where
  persists _ := keeps_pure value
  again ran _ _ _ _ := by
    cases ran
    rfl

theorem ofExcept (outcome : Except Error α) : Replays environment grows sides fun _ => EvalM.ofExcept outcome where
  persists _ := keeps_ofExcept outcome
  again ran _ _ _ _ := by
    cases outcome <;> cases ran
    rfl

variable {run : Frame → EvalM α}

theorem bind {next : α → Frame → EvalM β} (head : Replays environment grows sides run)
    (rest : ∀ value, Replays environment grows sides (next value)) :
    Replays environment grows sides fun frame => run frame >>= fun value => next value frame where
  persists frame := (head.persists frame).bind fun value => (rest value).persists frame
  again := by
    intro frame world left value ran later persists fixed frame'
    obtain ⟨middle, between, began, ended⟩ := ok_of_bind ran
    have onward : Persists environment grows sides between.memory left.memory :=
      after_of_ok ended ▸ (rest middle).persists frame between
    rw [bind_of_ok (head.again began (IsTrans.trans _ _ _ onward persists) fixed frame')]
    exact (rest middle).again ended persists fixed frame'

theorem map (part : Replays environment grows sides run) (f : α → β) :
    Replays environment grows sides fun frame => f <$> run frame := by
  simp only [map_eq_pure_bind]
  exact part.bind fun value => pure (f value)

omit [IsPreorder NodeState grows] in
theorem inside (part : Replays environment grows sides run) (place : String) :
    Replays environment grows sides fun frame => (run frame).inside place where
  persists frame := (part.persists frame).inside place
  again ran _ persists fixed frame' := inside_of_ok place (part.again (ok_of_inside ran) persists fixed frame')

/-- Asking whether a part is fixed. -/
theorem ask {part : Meaning} (member : part ∈ branched sides) {next : Bool → Frame → EvalM β}
    (rest : ∀ fixed, Replays environment grows sides (next fixed)) :
    Replays environment grows sides fun frame => get >>= fun world => next (part.isFixed world.memory) frame where
  persists frame := keeps_get.bind fun _ => (rest _).persists frame
  again := by
    intro frame world left value ran later persists fixed frame'
    have through : Persists environment grows sides world.memory left.memory :=
      after_of_ok (ran : next _ frame world = _) ▸ (rest _).persists frame world
    have same : part.isFixed later.memory = part.isFixed world.memory :=
      (persists.fixed part member).trans (through.fixed part member)
    rw [get_bind, same]
    exact (rest _).again ran persists fixed frame'

end Replays

/-- The value of a part is recalled from then on. -/
theorem PartsEndure.replays [IsPreorder NodeState grows] (endure : PartsEndure environment sides) :
    ∀ part ∈ branched sides, Replays environment grows sides (part.evaluate environment) := by
  intro part member
  refine ⟨endure.persists grows part member, ?_⟩
  intro frame world left value ran later persists fixed frame'
  have before : part.isFixed left.memory = true := (persists.fixed part member) ▸ fixed part member
  have recalls : part.Recalls environment value left.memory := (endure.part part member).recalls ran before
  exact (persists.recalls part member value recalls).evaluate frame' later rfl

/-- An expression that replays what its parts do endures if it is fixed exactly if they are. -/
theorem endures_of_replays [IsPreorder NodeState grows]
    (fixed : ∀ memory, meaning.isFixed memory = (branched sides).all (·.isFixed memory))
    (replays : Replays environment grows sides (meaning.evaluate environment)) : meaning.Endures environment where
  keeps frame world := by
    have persists := replays.persists frame world
    change meaning.isFixed _ = meaning.isFixed _
    rw [fixed, fixed]
    exact persists.all_isFixed fun _ member => member
  recalls := by
    intro frame world left value ran all
    refine ⟨all, fun frame' later same => ?_⟩
    rw [fixed, List.all_eq_true] at all
    refine replays.again ran ?_ ?_ frame'
    · rw [same]
      exact refl _
    · rwa [same]

end Meaning

end RecordQuery
