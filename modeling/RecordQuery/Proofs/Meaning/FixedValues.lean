import RecordQuery.Proofs.Meaning.Recalling
/-! Every fixed expression endures: after it has had a value, evaluating it gives that value again. -/

namespace RecordQuery

open EvalM

theorem EvalM.map_of_ok {α β : Type} {action : EvalM α} {world left : World} {value : α} (f : α → β)
    (ran : action world = .ok value left) : (f <$> action) world = .ok (f value) left := by
  rw [map_eq_pure_bind, bind_of_ok ran]
  rfl

theorem EvalM.ok_of_map {α β : Type} {action : EvalM α} {world left : World} {result : β} {f : α → β}
    (ran : (f <$> action) world = .ok result left) : ∃ value, action world = .ok value left ∧ result = f value := by
  rw [map_eq_pure_bind] at ran
  obtain ⟨value, between, ran, ended⟩ := ok_of_bind ran
  cases ended
  exact ⟨value, ran, rfl⟩

namespace Meaning

variable {environment : Environment} {sides : List (Branch × Meaning)} {grows : NodeState → NodeState → Prop}
  {left right operand : Meaning}

/-! Operators remember nothing by themselves. -/

section Operators

variable [IsPreorder NodeState grows]

theorem test_replays (part : Replays environment grows sides (operand.evaluate environment)) :
    Replays environment grows sides (operand.test environment) :=
  part.bind fun value => .pure value.isTruthy

theorem arithmetic_replays (op : ArithmeticOp) (first : Replays environment grows sides (left.evaluate environment))
    (second : Replays environment grows sides (right.evaluate environment)) :
    Replays environment grows sides ((arithmetic op left right).evaluate environment) :=
  first.bind fun _ => second.bind fun _ => (Replays.ofExcept _).inside _

theorem compare_replays (op : CompareOp) (ignoreCase : Bool)
    (first : Replays environment grows sides (left.evaluate environment))
    (second : Replays environment grows sides (right.evaluate environment)) :
    Replays environment grows sides ((compare op ignoreCase left right).evaluate environment) :=
  (first.bind fun _ => second.bind fun _ => .pure _).map _

theorem negate_replays (part : Replays environment grows sides (operand.evaluate environment)) :
    Replays environment grows sides ((negate operand).evaluate environment) :=
  part.bind fun _ => (Replays.ofExcept _).inside _

theorem not_replays (part : Replays environment grows sides (operand.evaluate environment)) :
    Replays environment grows sides ((not operand).evaluate environment) :=
  ((test_replays part).bind fun _ => .pure _).map _

theorem logical_replays (op : LogicalOp) (first : Replays environment grows sides (left.evaluate environment))
    (second : Replays environment grows sides (right.evaluate environment)) :
    Replays environment grows sides ((logical op left right).evaluate environment) := by
  refine ((test_replays first).bind fun decided => ?_).map _
  cases op <;> cases decided
  · exact .pure false
  · exact test_replays second
  · exact test_replays second
  · exact .pure true

theorem isNull_replays (negated : Bool) (part : Replays environment grows sides (operand.evaluate environment)) :
    Replays environment grows sides ((isNull negated operand).evaluate environment) :=
  (part.bind fun _ => .pure _).map _

end Operators

/-! Predicates that remember what is fixed. -/

/-- What is read of the state before is read of the state after. -/
def RetainsRead {κ : Type} (read : NodeState → Option κ) (before after : NodeState) : Prop :=
  ∀ kept, read before = some kept → read after = some kept

instance {κ : Type} (read : NodeState → Option κ) : IsPreorder NodeState (RetainsRead read) where
  refl _ _ same := same
  trans _ _ _ first second kept same := second kept (first kept same)

/-- What is kept at the node, or what is worked out while nothing is. -/
def keptOr {κ : Type} (read : NodeState → Option κ) (anew : EvalM κ) : EvalM κ := do
  match read (← node) with
  | some kept => return kept
  | none => anew

theorem keptOr_of_kept {κ : Type} {read : NodeState → Option κ} {world : World} {kept : κ}
    (found : read world.memory.state = some kept) (anew : EvalM κ) : keptOr read anew world = .ok kept world := by
  rw [keptOr, node_bind, found]
  rfl

theorem keptOr_of_none {κ : Type} {read : NodeState → Option κ} {world : World}
    (nothing : read world.memory.state = none) (anew : EvalM κ) : keptOr read anew world = anew world := by
  rw [keptOr, node_bind, nothing]

/-- What is worked out, kept, and stays so replays. -/
theorem keptOr_replays [IsPreorder NodeState grows] {κ : Type} {read : NodeState → Option κ} {anew : Frame → EvalM κ}
    (retains : ∀ before after, grows before after → RetainsRead read before after)
    (persists : ∀ frame world, read world.memory.state = none →
      Persists environment grows sides world.memory ((anew frame).after world).memory)
    (keeps : ∀ frame world value left, anew frame world = .ok value left → read left.memory.state = some value) :
    Replays environment grows sides fun frame => keptOr read (anew frame) where
  persists frame world := by
    unfold after
    cases found : read world.memory.state with
    | some kept =>
      rw [keptOr_of_kept found]
      exact refl (r := World.Remembers (Persists environment grows sides)) world
    | none =>
      rw [keptOr_of_none found]
      exact persists frame world found
  again := by
    intro frame world left value ran later persists fixed frame'
    have kept : read left.memory.state = some value := by
      cases found : read world.memory.state with
      | some kept =>
        rw [keptOr_of_kept found] at ran
        cases ran
        exact found
      | none =>
        rw [keptOr_of_none found] at ran
        exact keeps frame world value left ran
    exact keptOr_of_kept (retains _ _ persists.node value kept) _

/-- Evaluating a part leaves the state of the node as it is. -/
theorem PartsEndure.state (endure : PartsEndure environment sides) {part : Meaning} (member : part ∈ branched sides)
    (frame : Frame) (world : World) :
    ((part.evaluate environment frame).after world).memory.state = world.memory.state :=
  (endure.persists Eq part member frame world).node.symm

/-- Evaluates a part and keeps its value at the node. -/
def evaluateKeeping (part : Meaning) (write : Value → NodeState → NodeState) (environment : Environment)
    (frame : Frame) : EvalM Value := do
  let value ← part.evaluate environment frame
  setNode (write value (← node))
  return value

theorem remembered_eq (part : Meaning) (read : NodeState → Option Value) (write : Value → NodeState → NodeState) :
    remembered part read write environment = fun frame => get >>= fun world =>
      if !part.isFixed world.memory then part.evaluate environment frame
      else keptOr read (evaluateKeeping part write environment frame) := by
  funext frame world
  unfold remembered keptOr
  rw [get_bind, get_bind]
  cases part.isFixed world.memory with
  | false => rfl
  | true =>
    change (node >>= _) world = (node >>= _) world
    rw [node_bind, node_bind]
    cases read world.memory.state <;> rfl

/-- The value of a part that is remembered at the node replays. -/
theorem remembered_replays [IsPreorder NodeState grows] (endure : PartsEndure environment sides) {part : Meaning}
    (member : part ∈ branched sides) {read : NodeState → Option Value} {write : Value → NodeState → NodeState}
    (retains : ∀ before after, grows before after → RetainsRead read before after)
    (wrote : ∀ value state, read (write value state) = some value)
    (grown : ∀ value state, read state = none → grows state (write value state)) :
    Replays environment grows sides (remembered part read write environment) := by
  have kept : Replays environment grows sides fun frame =>
      keptOr read (evaluateKeeping part write environment frame) := by
    refine keptOr_replays retains (fun frame world nothing => ?_) fun frame world value left ran => ?_
    · have evaluated := endure.persists grows part member frame world
      have state := endure.state member frame world
      cases began : part.evaluate environment frame world with
      | error error between =>
        have failed : evaluateKeeping part write environment frame world = .error error between :=
          bind_of_error began
        rwa [after_of_error failed, ← after_of_error began]
      | ok value between =>
        have ended : evaluateKeeping part write environment frame world =
            .ok value { between with memory := between.memory.withState (write value between.memory.state) } :=
          bind_of_ok began
        rw [after_of_ok began] at evaluated state
        rw [← state] at nothing
        rw [after_of_ok ended]
        exact IsTrans.trans _ _ _ evaluated (Persists.withState (grown value _ nothing))
    · obtain ⟨value, between, -, ended⟩ := ok_of_bind ran
      cases ended
      exact wrote ..
  have either (fixed : Bool) : Replays environment grows sides fun frame =>
      if !fixed then part.evaluate environment frame
      else keptOr read (evaluateKeeping part write environment frame) := by
    cases fixed with
    | false => exact endure.replays part member
    | true => exact kept
  rw [remembered_eq]
  exact .ask member either

/-- The bounds that are kept stay. -/
def RetainsBounds (before after : NodeState) : Prop :=
  RetainsRead NodeState.lower? before after ∧ RetainsRead NodeState.upper? before after

instance : IsPreorder NodeState RetainsBounds where
  refl _ := ⟨refl _, refl _⟩
  trans _ _ _ first second := ⟨IsTrans.trans _ _ _ first.1 second.1, IsTrans.trans _ _ _ first.2 second.2⟩

theorem between_replays (endure : PartsEndure environment sides) (negated : Bool) {subject lower upper : Meaning}
    (first : subject ∈ branched sides) (second : lower ∈ branched sides) (third : upper ∈ branched sides) :
    Replays environment RetainsBounds sides ((between negated subject lower upper).evaluate environment) := by
  have low : Replays environment RetainsBounds sides
      (remembered lower (·.lower?) (fun v state => .bounds (some v) state.upper?) environment) := by
    refine remembered_replays endure second (fun _ _ grown => grown.1) (fun _ _ => rfl) fun value state nothing => ?_
    refine ⟨fun kept found => ?_, fun kept found => found⟩
    rw [nothing] at found
    cases found
  have high : Replays environment RetainsBounds sides
      (remembered upper (·.upper?) (fun v state => .bounds state.lower? (some v)) environment) := by
    refine remembered_replays endure third (fun _ _ grown => grown.2) (fun _ _ => rfl) fun value state nothing => ?_
    refine ⟨fun kept found => found, fun kept found => ?_⟩
    rw [nothing] at found
    cases found
  exact ((endure.replays subject first).bind fun _ => low.bind fun _ => high.bind fun _ => .pure _).map _

/-- The patterns that are kept stay. -/
def RetainsPatterns (before after : NodeState) : Prop := ∀ place, RetainsRead (·.pattern? place) before after

instance : IsPreorder NodeState RetainsPatterns where
  refl _ _ := refl _
  trans _ _ _ first second place := IsTrans.trans _ _ _ (first place) (second place)

theorem keptPattern_eq (place : Nat) (ignoreCase : Bool) (text : String) :
    keptPattern place ignoreCase text = keptOr (·.pattern? place) do
      setNode ((← node).keepPattern place (LikePattern.compile text ignoreCase))
      return LikePattern.compile text ignoreCase := by
  funext world
  unfold keptPattern keptOr
  rw [node_bind, node_bind]
  dsimp only
  cases world.memory.state.pattern? place <;> rfl

theorem keptPattern_replays (place : Nat) (ignoreCase : Bool) (text : String) :
    Replays environment RetainsPatterns sides fun _ => keptPattern place ignoreCase text := by
  rw [keptPattern_eq]
  refine keptOr_replays (fun _ _ grown => grown place) (fun _ world nothing => ?_) fun _ world pattern left ran => ?_
  · refine Persists.withState fun asked kept found => ?_
    have other : asked ≠ place := by
      rintro rfl
      cases nothing.symm.trans found
    exact (pattern?_keepPattern ..).trans ((if_neg other).trans found)
  · cases ran
    exact (pattern?_keepPattern ..).trans (if_pos rfl)

section Membership

variable (membership : Membership) (subject : Value)

theorem hits_replays (alternative : Value) (place : Option Nat) :
    Replays environment RetainsPatterns sides fun _ => membership.hits subject alternative place := by
  unfold Membership.hits
  split
  · exact .pure _
  · split
    · exact .pure false
    · cases place with
      | none => exact (Replays.pure _).bind fun _ => .pure _
      | some place => exact (keptPattern_replays place _ _).bind fun _ => .pure _

theorem decideAmong_replays (place : Option Nat) (alternatives : List Value) :
    Replays environment RetainsPatterns sides fun _ => membership.decideAmong subject place alternatives := by
  induction alternatives with
  | nil => exact .pure none
  | cons alternative rest ih =>
    refine (hits_replays membership subject alternative place).bind fun hit => ?_
    dsimp only
    split
    · exact .pure _
    · split
      · exact .pure _
      · exact ih

/-- Where the pattern of an item is kept: at its place, if it is fixed and contributes itself alone. -/
def keptPlace (place : Nat) (fixed : Bool) : Value → Option Nat
  | .list _ | .map _ => none
  | _ => if fixed then some place else none

theorem decide_cons (frame : Frame) (place : Nat) (item : Meaning) (rest : List (Nat × Meaning)) :
    membership.decide subject environment frame ((place, item) :: rest) =
      item.evaluate environment frame >>= fun value => get >>= fun world =>
        decideOn membership subject environment rest (keptPlace place (item.isFixed world.memory) value)
          (alternatives value) frame := by
  refine congrArg (item.evaluate environment frame >>= ·) (funext fun value => ?_)
  cases value <;> rfl

theorem decide_replays (endure : PartsEndure environment sides) {items : List (Nat × Meaning)}
    (members : ∀ item ∈ items, item.2 ∈ branched sides) :
    Replays environment RetainsPatterns sides fun frame => membership.decide subject environment frame items := by
  induction items with
  | nil => exact .pure _
  | cons item rest ih =>
    obtain ⟨place, item⟩ := item
    obtain ⟨member, others⟩ := List.forall_mem_cons.mp members
    have onward (value : Value) (fixed : Bool) : Replays environment RetainsPatterns sides
        (decideOn membership subject environment rest (keptPlace place fixed value) (alternatives value)) := by
      refine (decideAmong_replays membership subject _ _).bind fun decided => ?_
      cases decided with
      | some decision => exact .pure decision
      | none => exact ih others
    simp only [decide_cons]
    exact (endure.replays item member).bind fun value => .ask member (onward value)

end Membership

theorem among_replays (endure : PartsEndure environment sides) (membership : Membership) {subject : Meaning}
    {items : List Meaning} (first : subject ∈ branched sides) (others : ∀ item ∈ items, item ∈ branched sides) :
    Replays environment RetainsPatterns sides ((among membership subject items).evaluate environment) := by
  refine ((endure.replays subject first).bind fun value => ?_).map _
  refine (decide_replays membership value endure fun item member => ?_).bind fun _ => .pure _
  obtain ⟨place, inside, rfl⟩ := List.mem_mapIdx.mp member
  exact others _ (List.getElem_mem inside)

/-- Nothing is asked of the state of a node. -/
def AnyState (_ _ : NodeState) : Prop := True

instance : IsPreorder NodeState AnyState where
  refl _ := trivial
  trans _ _ _ _ _ := trivial

instance : AllowsRemembering (World.Remembers (Persists environment AnyState sides)) where
  kept _ _ _ := Persists.withState trivial
  numbered world _ := refl (r := Persists environment AnyState sides) world.memory

section Like

variable {subject pattern : Meaning} {frame : Frame} {world middle between : World} {value written : Value}
  {negated ignoreCase : Bool}

theorem like_of_null (read : subject.evaluate environment frame world = .ok value middle)
    (null : value.isNull = true) :
    (like negated ignoreCase subject pattern).evaluate environment frame world = .ok (.boolean false) middle := by
  refine map_of_ok _ ((bind_of_ok read).trans ?_)
  rw [if_pos null]
  rfl

theorem like_of_kept (read : subject.evaluate environment frame world = .ok value middle)
    (present : value.isNull = false) (fixed : pattern.isFixed middle.memory = true) {compiled : LikePattern}
    (kept : middle.memory.state.pattern? 0 = some compiled) :
    (like negated ignoreCase subject pattern).evaluate environment frame world =
      .ok (.boolean (compiled.accepts value.text != negated)) middle := by
  refine map_of_ok _ ((bind_of_ok read).trans ?_)
  simp only [present, Bool.false_eq_true, if_false, get_bind, node_bind, fixed, kept]
  rfl

theorem like_of_null_pattern (read : subject.evaluate environment frame world = .ok value middle)
    (present : value.isNull = false) (nothing : middle.memory.state.pattern? 0 = none)
    (wrote : pattern.evaluate environment frame middle = .ok written between) (blank : written.isNull = true) :
    (like negated ignoreCase subject pattern).evaluate environment frame world = .ok (.boolean false) between := by
  refine map_of_ok _ ((bind_of_ok read).trans ?_)
  simp only [present, Bool.false_eq_true, if_false, get_bind, node_bind, nothing]
  refine (bind_of_ok wrote).trans ?_
  rw [if_pos blank]
  rfl

theorem like_of_new (read : subject.evaluate environment frame world = .ok value middle)
    (present : value.isNull = false) (fixed : pattern.isFixed middle.memory = true)
    (nothing : middle.memory.state.pattern? 0 = none)
    (wrote : pattern.evaluate environment frame middle = .ok written between) (filled : written.isNull = false)
    (nothing' : between.memory.state.pattern? 0 = none) :
    (like negated ignoreCase subject pattern).evaluate environment frame world =
      .ok (.boolean ((LikePattern.compile written.text ignoreCase).accepts value.text != negated))
        { between with memory := between.memory.withState (between.memory.state.keepPattern 0
            (LikePattern.compile written.text ignoreCase)) } := by
  refine map_of_ok _ ((bind_of_ok read).trans ?_)
  simp only [present, Bool.false_eq_true, if_false, get_bind, node_bind, nothing, fixed]
  refine (bind_of_ok wrote).trans ?_
  simp only [filled, Bool.false_eq_true, if_false, if_true, keptPattern_eq]
  exact bind_of_ok (keptOr_of_none nothing' _)

theorem Persists.like_isFixed {before after : Memory} (persists : Persists environment AnyState sides before after)
    (first : subject ∈ branched sides) (second : pattern ∈ branched sides) :
    (like negated ignoreCase subject pattern).isFixed after =
      (like negated ignoreCase subject pattern).isFixed before := by
  change (subject.isFixed _ && (pattern.isFixed _ && true)) = (subject.isFixed _ && (pattern.isFixed _ && true))
  rw [persists.fixed subject first, persists.fixed pattern second]

variable (endure : PartsEndure environment sides) (first : subject ∈ branched sides) (second : pattern ∈ branched sides)
include endure first second

/-- A test that has worked out a fixed pattern comes to the same again, whether it has kept the pattern or found it
null. -/
theorem like_again_of_new (read : subject.evaluate environment frame world = .ok value middle)
    (reads : subject.Recalls environment value middle.memory) (present : value.isNull = false)
    (fixed : pattern.isFixed middle.memory = true) (nothing : middle.memory.state.pattern? 0 = none) {result : Value}
    {left later : World}
    (ran : (like negated ignoreCase subject pattern).evaluate environment frame world = .ok result left)
    (same : later.memory = left.memory) (frame' : Frame) :
    (like negated ignoreCase subject pattern).evaluate environment frame' later = .ok result later := by
  obtain ⟨_, ran', rfl⟩ := ok_of_map ran
  obtain ⟨_, _, read', rest⟩ := ok_of_bind ran'
  cases read.symm.trans read'
  simp only [present, Bool.false_eq_true, if_false, get_bind, node_bind, nothing] at rest
  obtain ⟨written, between, wrote, -⟩ := ok_of_bind rest
  have onward : Persists environment AnyState sides middle.memory between.memory :=
    after_of_ok wrote ▸ endure.persists AnyState pattern second frame middle
  have nothing' : between.memory.state.pattern? 0 = none := by
    rw [← nothing, ← endure.state second frame middle, after_of_ok wrote]
  have fixed' : pattern.isFixed between.memory = true := (onward.fixed pattern second).trans fixed
  have reads' := onward.recalls subject first value reads
  have writes := (endure.part pattern second).recalls wrote fixed'
  by_cases blank : written.isNull = true
  · cases (like_of_null_pattern read present nothing wrote blank).symm.trans ran
    exact like_of_null_pattern (reads'.evaluate frame' later same) present (same ▸ nothing')
      (writes.evaluate frame' later same) blank
  · have filled : written.isNull = false := by simpa using blank
    cases (like_of_new read present fixed nothing wrote filled nothing').symm.trans ran
    have keeping : Persists environment AnyState sides between.memory later.memory := same ▸ Persists.withState trivial
    have found : later.memory.state.pattern? 0 = some (LikePattern.compile written.text ignoreCase) := by
      rw [same]
      exact (pattern?_keepPattern ..).trans (if_pos rfl)
    exact like_of_kept ((keeping.recalls subject first value reads').evaluate frame' later rfl) present
      ((keeping.fixed pattern second).trans fixed') found

theorem like_persists : (like negated ignoreCase subject pattern).KeepsIn
    (World.Remembers (Persists environment AnyState sides)) environment :=
  like_keepsIn negated ignoreCase (endure.persists AnyState subject first) (endure.persists AnyState pattern second)

/-- A pattern test endures, though nothing is kept of a null pattern. -/
theorem like_endures : (like negated ignoreCase subject pattern).Endures environment where
  keeps frame world := (like_persists endure first second frame world).like_isFixed first second
  recalls := by
    intro frame world left result ran all
    refine ⟨all, fun frame' later same => ?_⟩
    have through : Persists environment AnyState sides world.memory left.memory :=
      after_of_ok ran ▸ like_persists endure first second frame world
    change (subject.isFixed left.memory && (pattern.isFixed left.memory && true)) = true at all
    simp only [Bool.and_true, Bool.and_eq_true] at all
    obtain ⟨_, ran', -⟩ := ok_of_map ran
    obtain ⟨value, middle, read, -⟩ := ok_of_bind ran'
    -- Both parts were fixed by the time that the subject had been read.
    have begun : Persists environment AnyState sides world.memory middle.memory :=
      after_of_ok read ▸ endure.persists AnyState subject first frame world
    have fixed : subject.isFixed middle.memory = true :=
      ((begun.fixed subject first).trans (through.fixed subject first).symm).trans all.1
    have fixed' : pattern.isFixed middle.memory = true :=
      ((begun.fixed pattern second).trans (through.fixed pattern second).symm).trans all.2
    have reads : subject.Recalls environment value middle.memory := (endure.part subject first).recalls read fixed
    by_cases null : value.isNull = true
    · cases (like_of_null read null).symm.trans ran
      exact like_of_null (reads.evaluate frame' later same) null
    have present : value.isNull = false := by simpa using null
    cases kept : middle.memory.state.pattern? 0 with
    | some compiled =>
      cases (like_of_kept read present fixed' kept).symm.trans ran
      exact like_of_kept (reads.evaluate frame' later same) present (same ▸ fixed') (same ▸ kept)
    | none => exact like_again_of_new endure first second read reads present fixed' kept ran same frame'

end Like

/-! Calls. -/

/-- The same function is resolved to be called. -/
def SameResolution (before after : NodeState) : Prop := after.resolution? = before.resolution?

instance : IsPreorder NodeState SameResolution where
  refl _ := rfl
  trans _ _ _ first second := second.trans first

section Call

variable {arguments : List Meaning} {resolution : Resolution} {frame : Frame} {world between : World} {value : Value}
  {name : String}

theorem Persists.callIsFixed {before after : Memory} (persists : Persists environment SameResolution sides before after)
    (members : ∀ argument ∈ arguments, argument ∈ branched sides) :
    callIsFixed arguments after = callIsFixed arguments before := by
  have same : after.state.resolution? = before.state.resolution? := persists.node
  rw [Meaning.callIsFixed, Meaning.callIsFixed, same, persists.all_isFixed members]

/-- What a call that has kept nothing leaves: its result, if it is fixed. -/
theorem call_evaluate_of_anew (state : world.memory.state = .call resolution none)
    (ran : callAnew name resolution arguments environment frame world = .ok value between) :
    (call name arguments).evaluate environment frame world = .ok value
      (if callIsFixed arguments between.memory then
        { between with memory := between.memory.withState (.call resolution (some value)) } else between) := by
  rw [call_evaluate_anew name state, bind_of_ok ran, get_bind]
  cases callIsFixed arguments between.memory <;> rfl

theorem callAnew_persists (name : String) (endure : PartsEndure environment sides)
    (around : ∀ handler ∈ environment.functions.handlers, handler.RemembersNothing)
    (members : ∀ argument ∈ arguments, argument ∈ branched sides) (resolution : Resolution) (frame : Frame) :
    EvalM.Keeps (World.Remembers (Persists environment SameResolution sides))
      (callAnew name resolution arguments environment frame) :=
  (invoke_keeps resolution (fun argument inside => endure.persists SameResolution argument (members argument inside)) _
    (fun handler member => around handler member _) frame).inside _

theorem call_persists (endure : PartsEndure environment sides)
    (around : ∀ handler ∈ environment.functions.handlers, handler.RemembersNothing)
    (members : ∀ argument ∈ arguments, argument ∈ branched sides) :
    (call name arguments).KeepsIn (World.Remembers (Persists environment SameResolution sides)) environment := by
  intro frame world
  cases state : world.memory.state with
  | call resolution kept =>
    cases kept with
    | some kept =>
      rw [after_of_ok (call_evaluate_kept name state frame)]
      exact refl world
    | none =>
      have anew := callAnew_persists name endure around members resolution frame world
      cases ran : callAnew name resolution arguments environment frame world with
      | error error left =>
        have failed : (call name arguments).evaluate environment frame world = .error error left :=
          (call_evaluate_anew name state frame).trans (bind_of_error ran)
        rw [after_of_error failed]
        rwa [after_of_error ran] at anew
      | ok value between =>
        rw [after_of_ok ran] at anew
        rw [after_of_ok (call_evaluate_of_anew state ran)]
        split
        · have resolved : between.memory.state.resolution? = some resolution := by
            rw [anew.node, state]
            rfl
          exact IsTrans.trans _ _ _ anew (Persists.withState resolved.symm)
        · exact anew
  | _ =>
    have unresolved : (call name arguments).evaluate environment frame world =
        .error (.invalidStatement (.functionUnresolved (call name arguments).text)) world := by
      change (node >>= fun state => _) world = _
      rw [node_bind, state]
      rfl
    rw [after_of_error unresolved]
    exact refl world

theorem call_keepsResult {left : World} (ran : (call name arguments).evaluate environment frame world = .ok value left)
    (fixed : callIsFixed arguments left.memory = true) :
    ∃ resolution, left.memory.state = .call resolution (some value) := by
  cases state : world.memory.state with
  | call resolution kept =>
    cases kept with
    | some kept =>
      cases (call_evaluate_kept name state frame).symm.trans ran
      exact ⟨resolution, state⟩
    | none =>
      rw [call_evaluate_anew name state] at ran
      obtain ⟨value, between, began, ended⟩ := ok_of_bind ran
      rw [get_bind] at ended
      by_cases still : callIsFixed arguments between.memory = true
      · simp only [still, if_true] at ended
        cases ended
        exact ⟨resolution, rfl⟩
      · simp only [still] at ended
        cases ended
        exact absurd fixed still
  | _ =>
    change (node >>= fun state => _) world = _ at ran
    rw [node_bind, state] at ran
    cases ran

/-- A fixed call keeps its result. -/
theorem call_endures (endure : PartsEndure environment sides)
    (around : ∀ handler ∈ environment.functions.handlers, handler.RemembersNothing)
    (members : ∀ argument ∈ arguments, argument ∈ branched sides) : (call name arguments).Endures environment where
  keeps frame world := (call_persists endure around members frame world).callIsFixed members
  recalls := by
    intro frame world left value ran fixed
    obtain ⟨resolution, state⟩ := call_keepsResult ran fixed
    exact ⟨fixed, fun frame' later same => call_evaluate_kept name (same ▸ state) frame'⟩

end Call

theorem endures_of_loose {meaning : Meaning} (loose : ∀ memory, meaning.isFixed memory = false) :
    meaning.Endures environment where
  keeps _ _ := (loose _).trans (loose _).symm
  recalls _ fixed := by
    rw [loose] at fixed
    cases fixed

end Meaning

open Meaning

theorem Expr.mem_partMeanings_among (negated ignoreCase like all : Bool) (subject : Expr) (items : List Expr) :
    subject.meaning.down .subject ∈ (Expr.among negated ignoreCase like all subject items).partMeanings ∧
      ∀ item ∈ each (meanings items) .item,
        item ∈ (Expr.among negated ignoreCase like all subject items).partMeanings := by
  rw [partMeanings_among]
  exact List.forall_mem_cons.mp fun _ member => member

theorem Expr.partsEndure_of_parts {environment : Environment} {expression : Expr}
    (each : ∀ part ∈ expression.parts, part.2.meaning.Endures environment) :
    PartsEndure environment (expression.parts.map (Prod.map id Expr.meaning)) where
  apart := by
    rw [List.map_map]
    exact expression.parts_apart
  endures := by
    intro side member
    obtain ⟨part, inside, rfl⟩ := List.mem_map.mp member
    exact each part inside

/-- Among functions that remember nothing by themselves, every expression endures. -/
theorem Expr.meaning_endures {environment : Environment}
    (around : ∀ handler ∈ environment.functions.handlers, handler.RemembersNothing) (expression : Expr) :
    expression.meaning.Endures environment := by
  induction expression using byParts with
  | whole expression ih =>
    have endure := partsEndure_of_parts ih
    have replays : ∀ part ∈ expression.partMeanings, Replays environment Eq _ (part.evaluate environment) :=
      endure.replays
    cases expression with
    | member _ | bind _ _ | save _ _ | construct _ _ _ | subquery _ => exact endures_of_loose fun _ => rfl
    | constant value => exact endures_of_replays (fun _ => rfl) (.pure value : Replays environment Eq [] _)
    | arithmetic op left right =>
      obtain ⟨first, second, -⟩ := List.forall_mem_cons.mp replays |>.imp_right List.forall_mem_cons.mp
      exact endures_of_replays (fun _ => rfl) (arithmetic_replays op first second)
    | compare op ignoreCase left right =>
      obtain ⟨first, second, -⟩ := List.forall_mem_cons.mp replays |>.imp_right List.forall_mem_cons.mp
      exact endures_of_replays (fun _ => rfl) (compare_replays op ignoreCase first second)
    | logical op left right =>
      obtain ⟨first, second, -⟩ := List.forall_mem_cons.mp replays |>.imp_right List.forall_mem_cons.mp
      exact endures_of_replays (fun _ => rfl) (logical_replays op first second)
    | negate operand =>
      obtain ⟨part, -⟩ := List.forall_mem_cons.mp replays
      exact endures_of_replays (fun _ => rfl) (negate_replays part)
    | not operand =>
      obtain ⟨part, -⟩ := List.forall_mem_cons.mp replays
      exact endures_of_replays (fun _ => rfl) (not_replays part)
    | isNull negated operand =>
      obtain ⟨part, -⟩ := List.forall_mem_cons.mp replays
      exact endures_of_replays (fun _ => rfl) (isNull_replays negated part)
    | between negated subject lower upper =>
      exact endures_of_replays (fun _ => rfl) (between_replays endure negated (.head _) (.tail _ (.head _))
        (.tail _ (.tail _ (.head _))))
    | like negated ignoreCase subject pattern => exact like_endures endure (.head _) (.tail _ (.head _))
    | among negated ignoreCase like all subject items =>
      have listed := partMeanings_among negated ignoreCase like all subject items
      obtain ⟨first, others⟩ := mem_partMeanings_among negated ignoreCase like all subject items
      exact endures_of_replays (fun memory => congrArg (fun parts => parts.all (·.isFixed memory)) listed.symm)
        (among_replays endure _ first others)
    | call name arguments =>
      refine call_endures endure around fun argument inside => ?_
      rwa [← partMeanings_call] at inside

theorem Expr.parts_endure {environment : Environment}
    (around : ∀ handler ∈ environment.functions.handlers, handler.RemembersNothing) (expression : Expr) :
    PartsEndure environment (expression.parts.map (Prod.map id Expr.meaning)) :=
  partsEndure_of_parts fun part _ => part.2.meaning_endures around

end RecordQuery
