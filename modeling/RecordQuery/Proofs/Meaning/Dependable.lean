import RecordQuery.Proofs.Meaning.Trait
/-! Expressions whose value does not depend on what has been kept of earlier evaluations. What is kept is the outcome
of a fixed part, and that is one and the same wherever the part is evaluated. -/

namespace RecordQuery

open EvalM

namespace Meaning

variable {environment : Environment} {valid : Memory → Prop} {own : NodeState → Prop} {below : Branch → Memory → Prop}

/-- The expression is not fixed, or it is and this is its outcome, whatever it is about. -/
def Gives (environment : Environment) (valid : Memory → Prop) (meaning : Meaning) (outcome : Except Error Value) :
    Prop :=
  (∀ memory, valid memory → meaning.isFixed memory = false) ∨
    (∀ memory, valid memory → meaning.isFixed memory = true) ∧
      ∀ frame, Constantly valid outcome (meaning.evaluate environment frame)

/-- Where what is remembered is valid, an expression has a trait; if it is fixed, it has one outcome. -/
structure Dependable (trait : Trait) (environment : Environment) (valid : Memory → Prop) (meaning : Meaning) :
    Prop where
  shows : (trait.conduct valid).Of (meaning.evaluate environment)
  gives : ∃ outcome, meaning.Gives environment valid outcome

theorem Gives.down {meaning : Meaning} {branch : Branch} {outcome : Except Error Value}
    (gives : meaning.Gives environment (below branch) outcome) :
    (meaning.down branch).Gives environment (Memory.Within own below) outcome := by
  rcases gives with loose | ⟨fixed, constant⟩
  · exact .inl fun memory within => loose _ (within.2 branch)
  · exact .inr ⟨fun memory within => fixed _ (within.2 branch), fun frame => (constant frame).on⟩

variable {trait : Trait}

theorem Dependable.down {meaning : Meaning} {branch : Branch}
    (dependable : meaning.Dependable trait environment (below branch)) :
    (meaning.down branch).Dependable trait environment (Memory.Within own below) := by
  obtain ⟨outcome, gives⟩ := dependable.gives
  exact ⟨trait.on dependable.shows, outcome, gives.down⟩

/-- Either not all parts are fixed, or each of them has one outcome. -/
theorem all_fixed {parts : List Meaning} (each : ∀ part ∈ parts, part.Dependable trait environment valid) :
    (∀ memory, valid memory → parts.all (·.isFixed memory) = false) ∨
      (∀ memory, valid memory → parts.all (·.isFixed memory) = true) ∧
        ∀ part ∈ parts, (Conduct.steady valid).Of (part.evaluate environment) := by
  induction parts with
  | nil => exact .inr ⟨fun _ _ => rfl, by simp⟩
  | cons part rest ih =>
    obtain ⟨own, others⟩ := List.forall_mem_cons.mp each
    obtain ⟨outcome, loose | ⟨fixed, constant⟩⟩ := own.gives
    · exact .inl fun memory holds => by simp [loose memory holds]
    · rcases ih others with loose | ⟨fixed', constant'⟩
      · exact .inl fun memory holds => by simp [loose memory holds]
      · exact .inr ⟨fun memory holds => by simp [fixed memory holds, fixed' memory holds],
          List.forall_mem_cons.mpr ⟨⟨outcome, constant⟩, constant'⟩⟩

/-- An expression that is fixed if all its parts are is dependable if they are. -/
theorem dependable_of_parts {meaning : Meaning} (parts : List Meaning)
    (each : ∀ part ∈ parts, part.Dependable trait environment valid)
    (fixed : ∀ memory, meaning.isFixed memory = parts.all (·.isFixed memory))
    (conducts : ∀ conduct : Conduct, conduct.Within valid →
      (∀ part ∈ parts, conduct.Of (part.evaluate environment)) → conduct.Of (meaning.evaluate environment)) :
    meaning.Dependable trait environment valid := by
  have shows : (trait.conduct valid).Of (meaning.evaluate environment) :=
    conducts (trait.conduct valid) (trait.within valid) fun part member => (each part member).shows
  rcases all_fixed each with loose | ⟨all, constant⟩
  · exact ⟨shows, .error (noSuchFunction ""), .inl fun memory holds => (fixed memory).trans (loose memory holds)⟩
  · obtain ⟨outcome, steady⟩ := conducts (.steady valid) (Conduct.steady_within valid) constant
    exact ⟨shows, outcome, .inr ⟨fun memory holds => (fixed memory).trans (all memory holds), steady⟩⟩

/-- An expression that is never fixed. -/
theorem dependable_of_loose {meaning : Meaning} (shows : (trait.conduct valid).Of (meaning.evaluate environment))
    (loose : ∀ memory, valid memory → meaning.isFixed memory = false) : meaning.Dependable trait environment valid :=
  ⟨shows, .error (noSuchFunction ""), .inl loose⟩

/-! Variables without a path. -/

theorem followPath_none {value : Value} {world : World} (plain : world.memory.state.accessor? = none) :
    followPath value world = .ok value world := by
  unfold followPath
  rw [node_bind]
  dsimp only
  rw [plain]
  rfl

/-- Reading a variable changes nothing. -/
theorem bindValue_ok (name : String) (frame : Frame) (world : World) :
    ∃ value, bindValue name frame world = .ok value world := by
  unfold bindValue
  split <;> exact ⟨_, rfl⟩

theorem bind_dependable {name known : Option String} {path : Option AccessorPath}
    (reads : trait.reads ((name.or known).getD "?"))
    (state : ∀ memory, valid memory → memory.state.name? = known ∧ memory.state.accessor? = none) :
    (bind name path).Dependable trait environment valid := by
  refine dependable_of_loose ((trait.within valid).congr (fun frame world holds => ?_) (trait.bindValue valid reads))
    fun _ _ => rfl
  obtain ⟨value, ran⟩ := bindValue_ok ((name.or known).getD "?") frame world
  change (bindValue (storedName name world.memory.state) frame >>= followPath) world = _
  rw [storedName, (state _ holds).1, EvalM.bind_of_ok ran, followPath_none (state _ holds).2, ran]

theorem save_dependable {name : String} {path : Option AccessorPath}
    (plain : ∀ memory, valid memory → memory.state.accessor? = none) :
    (save name path).Dependable trait environment valid := by
  have read := (trait.conduct valid).map (trait.saveValue valid name) (·.getD .null)
  refine dependable_of_loose ((trait.within valid).congr (fun frame world holds => ?_) read) fun _ _ => rfl
  exact followPath_none (plain _ holds)

/-! Predicates that remember what is fixed. -/

section Remembered

variable {part : Meaning} {outcome : Except Error Value} (read : NodeState → Option Value)
  (write : Value → NodeState → NodeState)

theorem remembered_constantly (fixed : ∀ memory, valid memory → part.isFixed memory = true)
    {frame : Frame} (constant : Constantly valid outcome (part.evaluate environment frame))
    (kept : ∀ memory value, valid memory → read memory.state = some value → outcome = .ok value)
    (keeps : ∀ memory value, valid memory → outcome = .ok value → valid (memory.withState (write value memory.state))) :
    Constantly valid outcome (remembered part read write environment frame) := by
  intro world holds
  unfold remembered
  simp only [get_bind, fixed _ holds, Bool.not_true, Bool.false_eq_true, if_false, node_bind]
  cases found : read world.memory.state with
  | some value =>
    cases kept _ _ holds found
    exact ⟨world.memory, holds, rfl⟩
  | none =>
    obtain ⟨memory, left, ran⟩ := constant world holds
    cases outcome with
    | error error => exact ⟨memory, left, EvalM.bind_of_error ran⟩
    | ok value => exact ⟨_, keeps memory value left rfl, EvalM.bind_of_ok ran⟩

/-- A remembered part does what the part does. -/
theorem remembered_conducts {conduct : Conduct} (within : conduct.Within valid)
    (gives : part.Gives environment valid outcome) (conducts : conduct.Of (part.evaluate environment))
    (kept : ∀ memory value, valid memory → read memory.state = some value → outcome = .ok value)
    (keeps : ∀ memory value, valid memory → outcome = .ok value → valid (memory.withState (write value memory.state))) :
    conduct.Of (remembered part read write environment) := by
  rcases gives with loose | ⟨fixed, constant⟩
  · refine within.congr (fun frame world holds => ?_) conducts
    unfold remembered
    simp [get_bind, loose _ holds]
  · exact within.constantly _ fun frame => remembered_constantly read write fixed (constant frame) kept keeps

end Remembered

/-- What is kept of the bounds of a range are their outcomes. -/
def KeepsBounds (low high : Except Error Value) (state : NodeState) : Prop :=
  (∀ value, state.lower? = some value → low = .ok value) ∧ (∀ value, state.upper? = some value → high = .ok value)

theorem between_dependable {subject lower upper : Meaning} {low high : Except Error Value} (negated : Bool)
    (first : subject.Dependable trait environment (Memory.Within (KeepsBounds low high) below))
    (second : lower.Dependable trait environment (Memory.Within (KeepsBounds low high) below))
    (third : upper.Dependable trait environment (Memory.Within (KeepsBounds low high) below))
    (givesLow : lower.Gives environment (Memory.Within (KeepsBounds low high) below) low)
    (givesHigh : upper.Gives environment (Memory.Within (KeepsBounds low high) below) high) :
    (between negated subject lower upper).Dependable trait environment
      (Memory.Within (KeepsBounds low high) below) := by
  refine dependable_of_parts [subject, lower, upper] (by simp [first, second, third]) (fun _ => rfl)
    fun conduct within each => ?_
  obtain ⟨value, each⟩ := List.forall_mem_cons.mp each
  obtain ⟨bottom, each⟩ := List.forall_mem_cons.mp each
  obtain ⟨top, -⟩ := List.forall_mem_cons.mp each
  have bottom' := remembered_conducts (·.lower?) (fun v state => .bounds (some v) state.upper?)
    within givesLow bottom (fun memory value holds => holds.1.1 value)
    fun memory value holds same => holds.withState ⟨by rintro _ ⟨⟩; exact same, holds.1.2⟩
  have top' := remembered_conducts (·.upper?) (fun v state => .bounds state.lower? (some v))
    within givesHigh top (fun memory value holds => holds.1.2 value)
    fun memory value holds same => holds.withState ⟨holds.1.1, by rintro _ ⟨⟩; exact same⟩
  exact conduct.map (conduct.bind value fun _ => conduct.bind bottom' fun _ => conduct.bind top' fun _ =>
    conduct.pure _) _

/-- What is kept of the patterns at places are those compiled from their outcomes. -/
def KeepsPatterns (ignoreCase : Bool) (outcomes : Nat → Except Error Value) (state : NodeState) : Prop :=
  ∀ place pattern, state.pattern? place = some pattern →
    ∃ value, outcomes place = .ok value ∧ value.isNull = false ∧ pattern = LikePattern.compile value.text ignoreCase

theorem pattern?_keepPattern (state : NodeState) (place asked : Nat) (pattern : LikePattern) :
    (state.keepPattern place pattern).pattern? asked =
      if asked = place then some pattern else state.pattern? asked := by
  unfold NodeState.keepPattern NodeState.pattern?
  by_cases same : asked = place
  · cases state <;> simp [same]
  · cases state <;> simp [same, List.lookup_cons, beq_false_of_ne]

variable {ignoreCase : Bool} {outcomes : Nat → Except Error Value}

/-- Keeping the pattern of an outcome, or finding it kept, gives that pattern. -/
theorem keptPattern_constantly {place : Nat} {value : Value} (known : outcomes place = .ok value)
    (present : value.isNull = false) :
    Constantly (Memory.Within (KeepsPatterns ignoreCase outcomes) below)
      (.ok (LikePattern.compile value.text ignoreCase))
      (keptPattern place ignoreCase value.text) := by
  intro world holds
  unfold keptPattern
  rw [node_bind]
  cases found : world.memory.state.pattern? place with
  | some pattern =>
    obtain ⟨value', known', -, rfl⟩ := holds.1 place pattern found
    cases known.symm.trans known'
    exact ⟨world.memory, holds, rfl⟩
  | none =>
    refine ⟨_, holds.withState fun asked pattern found => ?_, rfl⟩
    rw [pattern?_keepPattern] at found
    split at found
    · next same =>
      cases found
      exact ⟨value, same ▸ known, present, rfl⟩
    · exact holds.1 asked pattern found

/-- What a text comes to against a pattern as written. -/
def accepted (negated ignoreCase : Bool) (text : String) (written : Value) : Bool :=
  if written.isNull then false else (LikePattern.compile written.text ignoreCase).accepts text != negated

theorem pure_accepted (negated ignoreCase : Bool) (text : String) (written : Value) :
    (pure (accepted negated ignoreCase text written) : EvalM Bool) = if written.isNull then pure false
      else pure ((LikePattern.compile written.text ignoreCase).accepts text != negated) := by
  unfold accepted
  split <;> rfl

/-- Against a pattern with one outcome a text comes to one outcome, whether or not the pattern has been kept. -/
theorem matchKept_constantly {pattern : Meaning} (negated : Bool) (text : String) {frame : Frame}
    (constant : Constantly (Memory.Within (KeepsPatterns ignoreCase outcomes) below) (outcomes 0)
      (pattern.evaluate environment frame)) :
    Constantly (Memory.Within (KeepsPatterns ignoreCase outcomes) below)
      ((outcomes 0).map (accepted negated ignoreCase text)) do
        match (← EvalM.node).pattern? 0 with
        | some compiled => return compiled.accepts text != negated
        | none =>
          let written ← pattern.evaluate environment frame
          if written.isNull then return false
          return (← keptPattern 0 ignoreCase written.text).accepts text != negated := by
  intro world holds
  rw [node_bind]
  cases found : world.memory.state.pattern? 0 with
  | some kept =>
    obtain ⟨written, known, present, rfl⟩ := holds.1 0 kept found
    exact ⟨world.memory, holds, by rw [known]; simp [Except.map, accepted, present]; rfl⟩
  | none =>
    obtain ⟨memory, left, ran⟩ := constant world holds
    cases known : outcomes 0 with
    | error error =>
      rw [known] at ran
      exact ⟨memory, left, EvalM.bind_of_error ran⟩
    | ok written =>
      rw [known] at ran
      by_cases blank : written.isNull = true
      · exact ⟨memory, left, (EvalM.bind_of_ok ran).trans (by simp [blank, Except.map, accepted]; rfl)⟩
      · have present : written.isNull = false := by simpa using blank
        obtain ⟨memory', left', compiled⟩ := keptPattern_constantly known present { world with memory } left
        refine ⟨memory', left', (EvalM.bind_of_ok ran).trans ?_⟩
        simp only [present, Except.map, accepted]
        exact EvalM.bind_of_ok compiled

theorem like_dependable {subject pattern : Meaning} (negated : Bool)
    (first : subject.Dependable trait environment (Memory.Within (KeepsPatterns ignoreCase outcomes) below))
    (second : pattern.Dependable trait environment (Memory.Within (KeepsPatterns ignoreCase outcomes) below))
    (gives : pattern.Gives environment (Memory.Within (KeepsPatterns ignoreCase outcomes) below) (outcomes 0)) :
    (like negated ignoreCase subject pattern).Dependable trait environment
      (Memory.Within (KeepsPatterns ignoreCase outcomes) below) := by
  refine dependable_of_parts [subject, pattern] (by simp [first, second]) (fun _ => rfl)
    fun conduct within each => ?_
  obtain ⟨read, each⟩ := List.forall_mem_cons.mp each
  obtain ⟨write, -⟩ := List.forall_mem_cons.mp each
  refine conduct.map (conduct.bind read fun value => ?_) _
  by_cases null : value.isNull = true
  · simp only [null, if_true]
    exact conduct.pure false
  simp only [null, Bool.false_eq_true, if_false]
  rcases gives with loose | ⟨fixed, constant⟩
  · -- A pattern that can change is compiled anew each time.
    have anew := conduct.bind write fun written => conduct.pure (accepted negated ignoreCase value.text written)
    refine within.congr (fun frame world holds => ?_) anew
    simp only [get_bind, node_bind, loose _ holds, pure_accepted]
    cases world.memory.state.pattern? 0 <;> rfl
  · refine within.constantly ((outcomes 0).map (accepted negated ignoreCase value.text)) fun frame world holds => ?_
    obtain ⟨memory, left, ran⟩ := matchKept_constantly negated value.text (constant frame) world holds
    refine ⟨memory, left, Eq.trans ?_ ran⟩
    simp only [get_bind, node_bind, fixed _ holds]
    cases world.memory.state.pattern? 0 <;> rfl

section Membership

variable {conduct : Conduct} (membership : Membership) (subject : Value)

theorem hits_conducts (alternative : Value) : conduct.Of fun _ => membership.hits subject alternative none := by
  unfold Membership.hits
  split
  · exact conduct.pure _
  · split
    · exact conduct.pure false
    · exact conduct.bind (conduct.pure _) fun _ => conduct.pure _

/-- A pattern that is kept is the one that would be compiled. -/
theorem hits_kept_conducts
    (within : conduct.Within (Memory.Within (KeepsPatterns membership.ignoreCase outcomes) below))
    {place : Nat} {value : Value} (known : outcomes place = .ok value) :
    conduct.Of fun _ => membership.hits subject value (some place) := by
  unfold Membership.hits
  split
  · exact conduct.pure _
  · split
    · exact conduct.pure false
    · next present =>
      have present : value.isNull = false := by simp_all
      exact within.bindConstantly (fun _ => keptPattern_constantly known present) (conduct.pure _)

theorem decideAmong_conducts {place : Option Nat} {alternatives : List Value}
    (each : ∀ alternative ∈ alternatives, conduct.Of fun _ => membership.hits subject alternative place) :
    conduct.Of fun _ => membership.decideAmong subject place alternatives := by
  induction alternatives with
  | nil => exact conduct.pure none
  | cons alternative rest ih =>
    obtain ⟨own, others⟩ := List.forall_mem_cons.mp each
    refine conduct.bind own fun hit => ?_
    dsimp only
    split
    · exact conduct.pure _
    · split
      · exact conduct.pure _
      · exact ih others

/-- Goes through the alternatives of an item, and on to the other items unless one of them decides. -/
def decideOn (membership : Membership) (subject : Value) (environment : Environment) (others : List (Nat × Meaning))
    (place : Option Nat) (alternatives : List Value) (frame : Frame) : EvalM Bool := do
  match ← membership.decideAmong subject place alternatives with
  | some decision => return decision
  | none => membership.decide subject environment frame others

variable {items : List (Nat × Meaning)}

theorem decideOn_conducts {place : Option Nat} {alternatives : List Value}
    (each : ∀ alternative ∈ alternatives, conduct.Of fun _ => membership.hits subject alternative place)
    (rest : conduct.Of fun frame => membership.decide subject environment frame items) :
    conduct.Of (decideOn membership subject environment items place alternatives) := by
  refine conduct.bind (decideAmong_conducts membership subject each) fun decided => ?_
  cases decided with
  | some decision => exact conduct.pure decision
  | none => exact rest

theorem decide_conducts (within : conduct.Within (Memory.Within (KeepsPatterns membership.ignoreCase outcomes) below))
    (conducts : ∀ item ∈ items, conduct.Of (item.2.evaluate environment))
    (gives : ∀ item ∈ items, item.2.Gives environment
      (Memory.Within (KeepsPatterns membership.ignoreCase outcomes) below) (outcomes item.1)) :
    conduct.Of fun frame => membership.decide subject environment frame items := by
  induction items with
  | nil => exact conduct.pure _
  | cons item rest ih =>
    obtain ⟨own, others⟩ := List.forall_mem_cons.mp conducts
    obtain ⟨given, others'⟩ := List.forall_mem_cons.mp gives
    have onward := ih others others'
    have several (value : Value) : conduct.Of (decideOn membership subject environment rest none (alternatives value)) :=
      decideOn_conducts membership subject (fun alternative _ => hits_conducts membership subject alternative) onward
    rcases given with loose | ⟨fixed, constant⟩
    · refine conduct.bind own fun value => within.congr (fun frame world holds => ?_) (several value)
      have unkept (scalar : Bool) :
          (if (scalar && item.2.isFixed world.memory) = true then some item.1 else none) = none := by
        simp [loose _ holds]
      exact (get_bind _ _).trans (congrArg (fun place =>
        decideOn membership subject environment rest place (alternatives value) frame world) (unkept _))
    · cases known : outcomes item.1 with
      | error error =>
        rw [known] at constant
        exact within.constantly _ fun frame => (constant frame).bind_of_error
      | ok value =>
        rw [known] at constant
        refine within.bindConstantly constant ?_
        have single := decideOn_conducts membership subject (List.forall_mem_singleton.mpr
          (hits_kept_conducts membership subject within known)) onward
        cases value with
        | list _ | map _ => exact within.congr (fun frame world holds => rfl) (several _)
        | _ =>
          refine within.congr (fun frame world holds => ?_) single
          simp only [get_bind, fixed _ holds, Bool.and_true, if_true]
          rfl

end Membership

theorem among_dependable {subject : Meaning} {items : List Meaning} (membership : Membership)
    (first : subject.Dependable trait environment (Memory.Within (KeepsPatterns membership.ignoreCase outcomes) below))
    (each : ∀ item ∈ items,
      item.Dependable trait environment (Memory.Within (KeepsPatterns membership.ignoreCase outcomes) below))
    (gives : ∀ (index : Nat) (item : Meaning), items[index]? = some item → item.Gives environment
      (Memory.Within (KeepsPatterns membership.ignoreCase outcomes) below) (outcomes index)) :
    (among membership subject items).Dependable trait environment
      (Memory.Within (KeepsPatterns membership.ignoreCase outcomes) below) := by
  refine dependable_of_parts (subject :: items) (by simpa [first] using each) (fun _ => rfl)
    fun conduct within parts => ?_
  obtain ⟨own, others⟩ := List.forall_mem_cons.mp parts
  refine conduct.map (conduct.bind own fun value => conduct.bind ?_ fun _ => conduct.pure _) _
  refine decide_conducts membership value within (fun item member => ?_) fun item member => ?_
  all_goals
    obtain ⟨index, inside, rfl⟩ := List.mem_mapIdx.mp member
  · exact others _ (List.getElem_mem inside)
  · exact gives index _ (List.getElem?_eq_getElem inside)

/-! Calls and constructors. -/

section Call

variable {arguments : List Meaning} {resolution : Resolution} {outcome : Except Error Value} (name : String)

/-- What a resolved call does while nothing is kept. -/
def callAnew (name : String) (resolution : Resolution) (arguments : List Meaning) (environment : Environment)
    (frame : Frame) : EvalM Value :=
  EvalM.inside ("function " ++ (call name arguments).text)
    (invoke resolution arguments (.invalidStatement (.functionUnresolved (call name arguments).text)) environment frame)

theorem call_evaluate_anew {world : World} (state : world.memory.state = .call resolution none) (frame : Frame) :
    (call name arguments).evaluate environment frame world =
      (do let value ← callAnew name resolution arguments environment frame
          if callIsFixed arguments (← get).memory then setNode (.call resolution (some value))
          return value) world := by
  change (node >>= fun state => _) world = _
  rw [node_bind, state]
  rfl

theorem call_evaluate_kept {world : World} {value : Value}
    (state : world.memory.state = .call resolution (some value)) (frame : Frame) :
    (call name arguments).evaluate environment frame world = .ok value world := by
  change (node >>= fun state => _) world = _
  rw [node_bind, state]
  rfl

/-- A call that is not fixed keeps nothing. -/
theorem call_dependable_of_loose (state : ∀ memory, valid memory → memory.state = .call resolution none)
    (loose : ∀ memory, valid memory → callIsFixed arguments memory = false)
    (shows : (trait.conduct valid).Of (callAnew name resolution arguments environment)) :
    (call name arguments).Dependable trait environment valid := by
  have keepNothing (value : Value) : (trait.conduct valid).Of fun _ => do
      if callIsFixed arguments (← get).memory then setNode (.call resolution (some value))
      return value := by
    refine (trait.within valid).congr (fun frame world holds => ?_) ((trait.conduct valid).pure value)
    simp only [get_bind, loose _ holds]
    rfl
  exact dependable_of_loose ((trait.within valid).congr
    (fun frame world holds => call_evaluate_anew name (state _ holds) frame)
    ((trait.conduct valid).bind shows keepNothing)) loose

/-- What is kept of a call is its outcome. -/
def KeepsResult (resolution : Resolution) (outcome : Except Error Value) (state : NodeState) : Prop :=
  state = .call resolution none ∨ ∃ value, outcome = .ok value ∧ state = .call resolution (some value)

/-- A fixed call keeps its outcome at the first success. -/
theorem call_dependable_of_fixed
    (fixed : ∀ memory, Memory.Within (KeepsResult resolution outcome) below memory →
      callIsFixed arguments memory = true)
    (constant : ∀ frame, Constantly (Memory.Within (KeepsResult resolution outcome) below) outcome
      (callAnew name resolution arguments environment frame)) :
    (call name arguments).Dependable trait environment (Memory.Within (KeepsResult resolution outcome) below) := by
  have steady (frame : Frame) : Constantly (Memory.Within (KeepsResult resolution outcome) below) outcome
      ((call name arguments).evaluate environment frame) := by
    intro world holds
    rcases holds.1 with empty | ⟨value, rfl, full⟩
    · obtain ⟨memory, left, ran⟩ := constant frame world holds
      rw [call_evaluate_anew name empty]
      cases outcome with
      | error error => exact ⟨memory, left, EvalM.bind_of_error ran⟩
      | ok value =>
        refine ⟨memory.withState (.call resolution (some value)), left.withState (.inr ⟨value, rfl, rfl⟩),
          (EvalM.bind_of_ok ran).trans ?_⟩
        simp only [get_bind, fixed _ left, if_true]
        rfl
    · rw [call_evaluate_kept name full]
      exact ⟨world.memory, holds, rfl⟩
  exact ⟨(trait.within _).constantly outcome steady, outcome, .inr ⟨fixed, steady⟩⟩

end Call

theorem construct_dependable {typeName : String} {arguments : List Meaning} {setters : List (Meaning × String)}
    {factory : RecordFactory} {constructor : Nat}
    (state : ∀ memory, valid memory → memory.state = .construction factory constructor)
    (each : ∀ argument ∈ arguments, argument.Dependable trait environment valid)
    (sets : ∀ setter ∈ setters, setter.1.Dependable trait environment valid) :
    (construct typeName arguments setters).Dependable trait environment valid := by
  let conduct := trait.conduct valid
  have built := build_conducts conduct typeName factory constructor (fun argument member => (each argument member).shows)
    fun setter member => (sets setter member).shows
  refine dependable_of_loose ((trait.within valid).congr (fun frame world holds => ?_) (conduct.inside built
    ("constructor " ++ (construct typeName arguments setters).text))) fun _ _ => rfl
  change (node >>= fun state => _) world = _
  rw [node_bind, state _ holds]
  rfl

end Meaning

end RecordQuery
