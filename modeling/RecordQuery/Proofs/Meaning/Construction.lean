import RecordQuery.Meaning.Operand
import RecordQuery.Meaning.Call
import RecordQuery.Proofs.Evaluation.Outcome
import RecordQuery.Proofs.Value.Coercion
/-! What records made by a constructor hold: what its arguments and setters came to, and null elsewhere. For a
parameter of an integer type a number is held exactly, or no record is made. -/

namespace RecordQuery

/-- An argument of a constructor: the member that it goes to, what it came to, and what is held of that. -/
structure ConstructorArgument where
  parameter : Member
  given : Value
  held : Value

namespace ConstructorArgument

/-- What is held fits the parameter. -/
def Fits (argument : ConstructorArgument) (typeName : String) : Prop :=
  argument.given.coerce argument.parameter.dataType typeName = .ok argument.held

/-- A number for a parameter of an integer type denotes an integer that the type can hold, and it is held as that
integer. -/
def Exact (argument : ConstructorArgument) : Prop :=
  argument.parameter.dataType.IsInteger → argument.given.isNumeric = true →
    ∃ n : Int, argument.given.denoted? = some (.rational n) ∧ argument.parameter.dataType.CanHold n ∧
      argument.held.IsIntegerIn argument.parameter.dataType n ∧ argument.held.equal argument.given = true

theorem Fits.exact {argument : ConstructorArgument} {typeName : String} (fits : argument.Fits typeName) :
    argument.Exact := by
  intro integer number
  exact Value.canHold_of_coerce number integer typeName fits

end ConstructorArgument

/-! Members and their values. -/

namespace RecordOf

theorem mem_fields_put {record : Record} {name : String} {value : Value} {field : Member × Value}
    (present : field ∈ (record.put name value).fields) :
    field ∈ record.fields ∨ field.1.name = name ∧ field.2 = value := by
  obtain ⟨old, listed, same⟩ := List.mem_map.mp present
  subst same
  by_cases here : old.1.name = name
  · right
    simp [here]
  · left
    simpa [here] using listed

theorem mem_fields_assign {record assigned : Record} {property : String} {value : Value} {field : Member × Value}
    (success : record.assign property value = .ok assigned) (present : field ∈ assigned.fields) :
    field ∈ record.fields ∨ field.2 = value := by
  obtain ⟨member, -, rfl⟩ := exists_of_assign success
  exact (mem_fields_put present).imp_right And.right

end RecordOf

/-- What members hold after assignments was assigned to them, or was there before. -/
theorem RecordFactory.mem_fields_assignments {assignments : List (Member × Value)} {start : Record}
    {field : Member × Value}
    (present : field ∈ (assignments.foldl (fun record assignment => record.put assignment.1.name assignment.2)
      start).fields) :
    field ∈ start.fields ∨
      ∃ assignment ∈ assignments, assignment.1.name = field.1.name ∧ assignment.2 = field.2 := by
  induction assignments generalizing start with
  | nil => exact .inl present
  | cons assignment rest ih =>
    rcases ih present with old | ⟨later, listed, named, same⟩
    · rcases RecordOf.mem_fields_put old with before | ⟨named, same⟩
      · exact .inl before
      · exact .inr ⟨assignment, List.mem_cons_self, named.symm, same.symm⟩
    · exact .inr ⟨later, List.mem_cons_of_mem assignment listed, named, same⟩

/-- A new record holds null, or what its constructor was given for the member. -/
theorem RecordFactory.fields_construct {factory : RecordFactory} {index : Nat} {values : List Value} {record : Record}
    (success : factory.construct index values = .ok record) :
    ∃ members, factory.constructors[index]? = some members ∧ members.length = values.length ∧
      ∀ field ∈ record.fields, field.2 = .null ∨
        ∃ assignment ∈ members.zip values, assignment.1.name = field.1.name ∧ assignment.2 = field.2 := by
  unfold construct at success
  split at success
  · cases success
  · next members known =>
    split at success
    · cases success
    · next counted =>
      cases success
      refine ⟨members, known, by simpa using counted, ?_⟩
      intro field present
      rcases mem_fields_assignments present with fresh | assigned
      · obtain ⟨member, _, same⟩ := List.mem_map.mp fresh
        exact .inl (same ▸ rfl)
      · exact .inr assigned

namespace Meaning

open EvalM

variable {environment : Environment} {frame : Frame} {typeName : String}

/-- The values of expressions, evaluated in turn. -/
def evaluateEach (environment : Environment) (frame : Frame) (parts : List Meaning) : EvalM (List Value) :=
  parts.mapM fun part => part.evaluate environment frame

/-- Arguments that fit came to values in turn, one for each parameter, and these fit. -/
theorem coerceArguments_ok {members : List Member} {arguments : List Meaning} {world left : World} {values : List Value}
    (ran : coerceArguments typeName environment frame (members.map (·.dataType)) arguments world = .ok values left) :
    ∃ passed : List ConstructorArgument, passed.map (·.parameter) = members.take arguments.length ∧
      passed.map (·.held) = values ∧ (∀ argument ∈ passed, argument.Fits typeName) ∧
      evaluateEach environment frame (arguments.take members.length) world = .ok (passed.map (·.given)) left := by
  induction members generalizing arguments world values with
  | nil =>
    cases ran
    exact ⟨[], by simp, rfl, nofun, rfl⟩
  | cons member members ih =>
    cases arguments with
    | nil =>
      cases ran
      exact ⟨[], rfl, rfl, nofun, rfl⟩
    | cons argument arguments =>
      obtain ⟨given, middle, evaluated, ran⟩ := ok_of_bind ran
      obtain ⟨held, fits, ran⟩ := ok_of_ofExcept_bind ran
      obtain ⟨later, _, others, ran⟩ := ok_of_bind ran
      cases ran
      obtain ⟨passed, parameters, same, each, collected⟩ := ih others
      refine ⟨⟨member, given, held⟩ :: passed, ?_, ?_, List.forall_mem_cons.mpr ⟨fits, each⟩, ?_⟩
      · rw [List.map_cons, parameters, List.length_cons, List.take_succ_cons]
      · rw [List.map_cons, same]
      · rw [List.length_cons, List.take_succ_cons, evaluateEach, List.mapM_cons, bind_of_ok evaluated]
        exact bind_of_ok collected

/-- What members hold after setters is what one of these came to, or was there before. -/
theorem mem_fields_assignSetters {setters : List (Meaning × String)} {record assigned : Record} {world left : World}
    (ran : assignSetters environment frame record setters world = .ok assigned left) {field : Member × Value}
    (present : field ∈ assigned.fields) :
    field ∈ record.fields ∨
      ∃ setter ∈ setters, ∃ before after, setter.1.evaluate environment frame before = .ok field.2 after := by
  induction setters generalizing record world with
  | nil =>
    cases ran
    exact .inl present
  | cons setter rest ih =>
    obtain ⟨value, middle, evaluated, ran⟩ := ok_of_bind ran
    obtain ⟨changed, next, assigning, ran⟩ := ok_of_bind ran
    have success : record.assign setter.2 value = .ok changed := ok_of_inside_ofExcept assigning
    rcases ih ran with old | ⟨later, listed, came⟩
    · rcases RecordOf.mem_fields_assign success old with before | same
      · exact .inl before
      · exact .inr ⟨setter, List.mem_cons_self, world, middle, same ▸ evaluated⟩
    · exact .inr ⟨later, List.mem_cons_of_mem setter listed, came⟩

/-- A record is made of arguments that are held exactly, as many as there are parameters, and then of what the setters
came to. -/
theorem construct_ok {arguments : List Meaning} {setters : List (Meaning × String)} {factory : RecordFactory}
    {constructor : Nat} {world left : World} {value : Value}
    (state : world.memory.state = .construction factory constructor)
    (ran : (construct typeName arguments setters).evaluate environment frame world = .ok value left) :
    ∃ (passed : List ConstructorArgument) (middle : World) (record : Record), value = .object record ∧
      factory.constructors[constructor]? = some (passed.map (·.parameter)) ∧
      evaluateEach environment frame (arguments.take passed.length) world = .ok (passed.map (·.given)) middle ∧
      (∀ argument ∈ passed, argument.Exact) ∧
      ∀ field ∈ record.fields, field.2 = .null ∨
        (∃ argument ∈ passed, argument.parameter.name = field.1.name ∧ argument.held = field.2) ∨
        ∃ setter ∈ setters, ∃ before after, setter.1.evaluate environment frame before = .ok field.2 after := by
  change (node >>= fun state => _) world = _ at ran
  rw [node_bind, state] at ran
  obtain ⟨values, middle, coerced, ran⟩ := ok_of_bind (ok_of_inside ran)
  obtain ⟨fresh, made, ran⟩ := ok_of_ofExcept_bind ran
  obtain ⟨record, _, assigned, ran⟩ := ok_of_bind ran
  cases ran
  obtain ⟨members, known, counted, held⟩ := RecordFactory.fields_construct made
  have types : (factory.signatures[constructor]?).getD [] = members.map (·.dataType) := by
    rw [RecordFactory.signatures, List.getElem?_map, known]
    rfl
  obtain ⟨passed, parameters, same, fits, evaluated⟩ := coerceArguments_ok (types ▸ coerced)
  subst same
  have complete : passed.map (·.parameter) = members := by
    have counts := congrArg List.length parameters
    simp only [List.length_map, List.length_take] at counts counted
    rw [parameters, List.take_of_length_le (by omega)]
  subst complete
  rw [List.length_map] at evaluated
  refine ⟨passed, middle, record, rfl, known, evaluated, fun argument listed => (fits argument listed).exact, ?_⟩
  intro field present
  rcases mem_fields_assignSetters assigned present with before | set
  · apply (held field before).imp_right
    intro ⟨assignment, listed, named, same⟩
    rw [List.zip_map'] at listed
    obtain ⟨argument, member, rfl⟩ := List.mem_map.mp listed
    exact .inl ⟨argument, member, named, same⟩
  · exact .inr (.inr set)

end Meaning

open Meaning in
/-- A number is coerced to an integer type exactly if it denotes an integer that the type can hold, to that integer and
so to an equal value; any other number is a failure. A new record holds every such argument exactly. -/
theorem integers_exact :
    (∀ (value : Value) (target : DataType) (typeName : String), value.isNumeric = true → target.IsInteger →
      (∀ n : Int, value.denoted? = some (.rational n) → target.CanHold n →
        ∃ held : Value, value.coerce target typeName = .ok held ∧ held.IsIntegerIn target n ∧
          held.equal value = true) ∧
      ((∀ n : Int, value.denoted? = some (.rational n) → ¬target.CanHold n) →
        value.coerce target typeName =
          .error (.construction typeName (value.quoted ++ " does not fit " ++ target.text)))) ∧
    ∀ (typeName : String) (arguments : List Meaning) (setters : List (Meaning × String)) (environment : Environment)
      (frame : Frame) (factory : RecordFactory) (constructor : Nat) (world left : World) (value : Value),
      world.memory.state = .construction factory constructor →
      (construct typeName arguments setters).evaluate environment frame world = .ok value left →
      ∃ (passed : List ConstructorArgument) (middle : World) (record : Record), value = .object record ∧
        factory.constructors[constructor]? = some (passed.map (·.parameter)) ∧
        evaluateEach environment frame (arguments.take passed.length) world = .ok (passed.map (·.given)) middle ∧
        (∀ argument ∈ passed, argument.Exact) ∧
        ∀ field ∈ record.fields, field.2 = .null ∨
          (∃ argument ∈ passed, argument.parameter.name = field.1.name ∧ argument.held = field.2) ∨
          ∃ setter ∈ setters, ∃ before after, setter.1.evaluate environment frame before = .ok field.2 after := by
  refine ⟨?_, ?_⟩
  · intro value target typeName number integer
    refine ⟨?_, Value.coerce_of_not_canHold number integer typeName⟩
    intro n denoted inside
    exact Value.coerce_of_canHold number integer typeName denoted inside
  · intro typeName arguments setters environment frame factory constructor world left value state ran
    exact construct_ok state ran

/-- Points on a line of integers of 64 bits. -/
def RecordFactory.integerPoint : RecordFactory :=
  let x : Member := ⟨"x", .field, .int64⟩
  ⟨⟨"Point", [x]⟩, [[x]]⟩

/-- A world in which a constructor has been found. -/
def World.constructing (factory : RecordFactory) (constructor : Nat) : World :=
  { World.start with memory := World.start.memory.withState (.construction factory constructor) }

open Meaning in
/-- The least integer of 64 bits is held though it comes as a double; the double above the greatest is refused, though
the greatest is what it would be clamped to. -/
theorem integers_exact_at_bounds :
    let least : Value := .float64 Double.wordBound.neg
    let beyond : Value := .float64 Double.wordBound
    let frame : Frame := ⟨none, [], none, none, ⟨0, none⟩, ""⟩
    (∃ held : Value, least.coerce .int64 "Point" = .ok held ∧ held.IsIntegerIn .int64 (-2 ^ 63) ∧
      held.equal least = true) ∧
      beyond.coerce .int64 "Point" =
        .error (.construction "Point" (beyond.quoted ++ " does not fit " ++ DataType.int64.text)) ∧
      ∃ (value : Value) (left : World) (passed : List ConstructorArgument) (record : Record),
        (construct "Point" [constant least] []).evaluate ⟨.empty, .default⟩ frame (.constructing .integerPoint 0) =
          .ok value left ∧
        value = .object record ∧ passed.map (·.parameter.name) = ["x"] ∧ ∀ argument ∈ passed, argument.Exact := by
  intro least beyond frame
  obtain ⟨numbers, records⟩ := integers_exact
  have low : least.denoted? = some (.rational (-2 ^ 63 : Int)) :=
    Value.denoted?_eq_rational_iff.mpr (congrArg some Double.exact_neg_wordBound)
  have high : beyond.denoted? = some (.rational (2 ^ 63 : Int)) :=
    Value.denoted?_eq_rational_iff.mpr (congrArg some Double.exact_wordBound)
  have integer : DataType.int64.IsInteger := .inr rfl
  refine ⟨(numbers least .int64 "Point" rfl integer).1 _ low ⟨by decide, by decide⟩, ?_, ?_⟩
  · apply (numbers beyond .int64 "Point" rfl integer).2
    intro n denoted inside
    have same : (2 ^ 63 : Int) = n :=
      Int.cast_inj.mp (ExtendedRational.rational_inj.mp (Option.some.inj (high.symm.trans denoted)))
    exact absurd inside.2 (by omega)
  · obtain ⟨value, ran⟩ := EvalM.exists_ok ((construct "Point" [constant least] []).evaluate ⟨.empty, .default⟩ frame)
      (.constructing .integerPoint 0) (by decide +kernel)
    obtain ⟨passed, -, record, same, known, -, exact, -⟩ := records _ _ _ _ _ _ _ _ _ _ rfl ran
    have parameters : RecordFactory.integerPoint.constructors[0]? = some [⟨"x", .field, .int64⟩] := rfl
    rw [parameters] at known
    have names := congrArg (List.map Member.name) (Option.some.inj known)
    exact ⟨value, _, passed, record, ran, same, by simpa using names.symm, exact⟩

end RecordQuery
