import RecordQuery.Proofs.Meaning.Readiness
/-! Expressions that remember something, evaluated in two worlds that remember the same at their node: as far as the
parts agree there, the whole does. -/

namespace RecordQuery

namespace EvalM

variable {α β : Type} {related : World → World → Prop}

theorem agrees_pure (value : α) : Agrees related (pure value) := fun _ _ alike => ⟨rfl, alike⟩

theorem agrees_throw (error : Error) : Agrees related (throw error : EvalM α) := fun _ _ alike => ⟨rfl, alike⟩

theorem agrees_ofExcept (outcome : Except Error α) : Agrees related (ofExcept outcome) := by
  cases outcome with
  | ok value => exact agrees_pure value
  | error error => exact agrees_throw error

theorem Agrees.forM {items : List β} {action : β → EvalM Unit} (each : ∀ item ∈ items, Agrees related (action item)) :
    Agrees related (items.forM action) := by
  induction items with
  | nil => exact agrees_pure ()
  | cons item rest ih =>
    obtain ⟨own, others⟩ := List.forall_mem_cons.mp each
    exact own.bind fun _ => ih others

/-- What follows a look at worlds that do not differ in what is looked at. -/
theorem agrees_get_bind {next : World → EvalM α} (same : ∀ world world', related world world' → next world = next world')
    (rest : ∀ world, Agrees related (next world)) : Agrees related (get >>= next) := by
  intro world world' alike
  rw [get_bind, get_bind, same world world' alike]
  exact rest _ world world' alike

/-- A part on a branch agrees from worlds that are related at the node, if it does from what they are down the branch. -/
theorem Agrees.on_of {below : World → World → Prop} {branch : Branch} {action : EvalM α}
    (agrees : Agrees below action)
    (down : ∀ world world', related world world' → below (world.down branch) (world'.down branch))
    (up : ∀ world world' left left', related world world' → below left left' →
      related { left with memory := world.memory.setChild branch left.memory }
        { left' with memory := world'.memory.setChild branch left'.memory }) :
    Agrees related (action.on branch) := by
  intro world world' alike
  have ended := agrees _ _ (down world world' alike)
  unfold EvalM.on
  cases ran : action (world.down branch) <;> cases ran' : action (world'.down branch) <;> rw [ran, ran'] at ended
  · exact ⟨ended.1, up _ _ _ _ alike ended.2⟩
  · exact ended.elim
  · exact ended.elim
  · exact ⟨ended.1, up _ _ _ _ alike ended.2⟩

end EvalM

open EvalM

/-- Related worlds remember the same at the node at hand, and go on doing so when it is given the same state. -/
structure World.SameAtNode (related : World → World → Prop) : Prop where
  state {world world' : World} (alike : related world world') : world.memory.state = world'.memory.state
  put {world world' : World} (alike : related world world') (state : NodeState) :
    related { world with memory := world.memory.withState state } { world' with memory := world'.memory.withState state }

namespace Meaning

/-- Whether the expression is fixed does not differ between related worlds. -/
def SameFixed (related : World → World → Prop) (meaning : Meaning) : Prop :=
  ∀ world world', related world world' → meaning.isFixed world.memory = meaning.isFixed world'.memory

variable {related : World → World → Prop} (same : World.SameAtNode related)
include same

theorem node_agrees {α : Type} {next : NodeState → EvalM α} (rest : ∀ state, Agrees related (next state)) :
    Agrees related (node >>= next) := by
  intro world world' alike
  rw [node_bind, node_bind, same.state alike]
  exact rest _ world world' alike

theorem setNode_agrees (state : NodeState) : Agrees related (setNode state) :=
  fun _ _ alike => ⟨rfl, same.put alike state⟩

/-- What a node has resolved its path to is the same, and goes on being the same. -/
theorem followPath_agrees (value : Value) : Agrees related (followPath value) := by
  refine node_agrees same fun state => ?_
  cases state.accessor? with
  | none => exact agrees_pure value
  | some accessor => exact (setNode_agrees same _).bind fun _ => agrees_ofExcept _

variable {scopes : Scope → Prop} {environment : Environment}

theorem remembered_agrees {part : Meaning} (read : NodeState → Option Value) (write : Value → NodeState → NodeState)
    (fixed : part.SameFixed related) (conducts : (Conduct.agrees related scopes).Of (part.evaluate environment)) :
    (Conduct.agrees related scopes).Of (remembered part read write environment) := by
  intro frame inside
  refine agrees_get_bind (fun world world' alike => by rw [fixed world world' alike]) fun world => ?_
  cases part.isFixed world.memory with
  | false => exact conducts frame inside
  | true =>
    refine node_agrees same fun state => ?_
    cases read state with
    | some kept => exact agrees_pure kept
    | none =>
      refine (conducts frame inside).bind fun value => node_agrees same fun state => ?_
      exact (setNode_agrees same _).bind fun _ => agrees_pure value

theorem between_agrees {subject lower upper : Meaning} (negated : Bool) (fixedLower : lower.SameFixed related)
    (fixedUpper : upper.SameFixed related)
    (first : (Conduct.agrees related scopes).Of (subject.evaluate environment))
    (second : (Conduct.agrees related scopes).Of (lower.evaluate environment))
    (third : (Conduct.agrees related scopes).Of (upper.evaluate environment)) :
    (Conduct.agrees related scopes).Of ((between negated subject lower upper).evaluate environment) := by
  let conduct := Conduct.agrees related scopes
  refine conduct.map (conduct.bind first fun _ => ?_) _
  refine conduct.bind (remembered_agrees same _ _ fixedLower second) fun _ => ?_
  exact conduct.bind (remembered_agrees same _ _ fixedUpper third) fun _ => conduct.pure _

theorem keptPattern_agrees (place : Nat) (ignoreCase : Bool) (text : String) :
    Agrees related (keptPattern place ignoreCase text) := by
  refine node_agrees same fun state => ?_
  cases state.pattern? place with
  | some pattern => exact agrees_pure pattern
  | none => exact node_agrees same fun state => (setNode_agrees same _).bind fun _ => agrees_pure _

theorem like_agrees {subject pattern : Meaning} (negated ignoreCase : Bool) (fixed : pattern.SameFixed related)
    (first : (Conduct.agrees related scopes).Of (subject.evaluate environment))
    (second : (Conduct.agrees related scopes).Of (pattern.evaluate environment)) :
    (Conduct.agrees related scopes).Of ((like negated ignoreCase subject pattern).evaluate environment) := by
  let conduct := Conduct.agrees related scopes
  refine conduct.map (conduct.bind first fun value frame inside => ?_) _
  have anew (fixed : Bool) : Agrees related (do
      let written ← pattern.evaluate environment frame
      if written.isNull then return false
      let compiled ←
        if fixed then keptPattern 0 ignoreCase written.text
        else pure (LikePattern.compile written.text ignoreCase)
      return compiled.accepts value.text != negated) := by
    refine (second frame inside).bind fun written => ?_
    split
    · exact agrees_pure false
    · cases fixed
      · exact (agrees_pure _).bind fun _ => agrees_pure _
      · exact (keptPattern_agrees same _ _ _).bind fun _ => agrees_pure _
  dsimp only
  split
  · exact agrees_pure false
  · refine agrees_get_bind (fun world world' alike => by rw [fixed world world' alike]) fun world => ?_
    refine node_agrees same fun state => ?_
    split
    · exact agrees_pure _
    · exact anew _

theorem hits_agrees (membership : Membership) (subject alternative : Value) (place : Option Nat) :
    Agrees related (membership.hits subject alternative place) := by
  unfold Membership.hits
  split
  · exact agrees_pure _
  · split
    · exact agrees_pure false
    · cases place with
      | none => exact (agrees_pure _).bind fun _ => agrees_pure _
      | some place => exact (keptPattern_agrees same _ _ _).bind fun _ => agrees_pure _

theorem decide_agrees (membership : Membership) (subject : Value) {items : List (Nat × Meaning)}
    (fixed : ∀ item ∈ items, item.2.SameFixed related)
    (conducts : ∀ item ∈ items, (Conduct.agrees related scopes).Of (item.2.evaluate environment)) :
    (Conduct.agrees related scopes).Of fun frame => membership.decide subject environment frame items := by
  induction items with
  | nil => exact (Conduct.agrees related scopes).pure _
  | cons item rest ih =>
    obtain ⟨own, others⟩ := List.forall_mem_cons.mp conducts
    obtain ⟨ownFixed, othersFixed⟩ := List.forall_mem_cons.mp fixed
    refine (Conduct.agrees related scopes).bind own fun value frame inside => ?_
    refine agrees_get_bind (fun world world' alike => by rw [ownFixed world world' alike]) fun world => ?_
    exact decideOn_conducts membership subject (fun alternative _ _ _ => hits_agrees same membership subject alternative _)
      (ih othersFixed others) frame inside

theorem among_agrees {subject : Meaning} {items : List Meaning} (membership : Membership)
    (fixed : ∀ item ∈ items, item.SameFixed related)
    (first : (Conduct.agrees related scopes).Of (subject.evaluate environment))
    (others : ∀ item ∈ items, (Conduct.agrees related scopes).Of (item.evaluate environment)) :
    (Conduct.agrees related scopes).Of ((among membership subject items).evaluate environment) := by
  let conduct := Conduct.agrees related scopes
  refine conduct.map (conduct.bind first fun value => conduct.bind ?_ fun _ => conduct.pure _) _
  refine decide_agrees same membership value (fun item member => ?_) fun item member => ?_
  all_goals
    obtain ⟨index, inside, rfl⟩ := List.mem_mapIdx.mp member
  · exact fixed _ (List.getElem_mem inside)
  · exact others _ (List.getElem_mem inside)

theorem construct_agrees {arguments : List Meaning} {setters : List (Meaning × String)} (typeName : String)
    (first : ∀ argument ∈ arguments, (Conduct.agrees related scopes).Of (argument.evaluate environment))
    (others : ∀ setter ∈ setters, (Conduct.agrees related scopes).Of (setter.1.evaluate environment)) :
    (Conduct.agrees related scopes).Of ((construct typeName arguments setters).evaluate environment) := by
  let conduct := Conduct.agrees related scopes
  intro frame inside
  refine node_agrees same fun state => ?_
  split
  · exact conduct.inside (build_conducts conduct typeName _ _ first others) _ frame inside
  · exact agrees_throw _

omit same

/-- A call that related worlds have resolved to the same function. -/
theorem call_agrees {name : String} {arguments : List Meaning} {allowed : Resolution → Prop}
    (state : ∀ world world', related world world' → world.memory.state = world'.memory.state)
    (resolved : ∀ world world' resolution, related world world' → world.memory.state.resolution? = some resolution →
      allowed resolution)
    (kept : ∀ world world' resolution result, related world world' → allowed resolution →
      related { world with memory := world.memory.withState (.call resolution result) }
        { world' with memory := world'.memory.withState (.call resolution result) })
    (fixed : (call name arguments).SameFixed related)
    (called : ∀ resolution, allowed resolution → Calls environment resolution (Conduct.agrees related scopes))
    (parts : ∀ argument ∈ arguments, (Conduct.agrees related scopes).Of (argument.evaluate environment)) :
    (Conduct.agrees related scopes).Of ((call name arguments).evaluate environment) := by
  let conduct := Conduct.agrees related scopes
  intro frame inside world world' alike
  have node := state world world' alike
  cases found : world.memory.state with
  | call resolution result =>
    rw [found] at node
    cases result with
    | some value =>
      rw [call_evaluate_kept name found, call_evaluate_kept name node.symm]
      exact ⟨rfl, alike⟩
    | none =>
      have known : allowed resolution := resolved _ _ _ alike (found ▸ rfl)
      have keep (value : Value) : Agrees related (do
          if callIsFixed arguments (← get).memory then setNode (.call resolution (some value))
          return value) := by
        refine agrees_get_bind (fun left left' alike => ?_) fun left => ?_
        · have same : callIsFixed arguments left.memory = callIsFixed arguments left'.memory := fixed _ _ alike
          rw [same]
        · have set : Agrees related (setNode (.call resolution (some value))) :=
            fun left left' alike => ⟨rfl, kept _ _ _ _ alike known⟩
          cases callIsFixed arguments left.memory with
          | false => exact agrees_pure value
          | true => exact set.bind fun _ => agrees_pure value
      rw [call_evaluate_anew name found, call_evaluate_anew name node.symm]
      exact (callAnew_conducts (called _ known) parts frame inside).bind keep world world' alike
  | _ =>
    rw [found] at node
    change Alike related ((EvalM.node >>= _) world) ((EvalM.node >>= _) world')
    rw [node_bind, node_bind, found, ← node]
    exact ⟨rfl, alike⟩

end Meaning

end RecordQuery
