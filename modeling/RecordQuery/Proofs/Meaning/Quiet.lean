import RecordQuery.Proofs.Function.Types
import RecordQuery.Proofs.Meaning.PerRow
/-! Expressions that leave nothing behind: with given variables they have one outcome, however what they do not read is
varied, and the variables stay as they are. -/

namespace RecordQuery

/-- Something holds of an expression and of all expressions inside it. -/
inductive Expr.Throughout (such : Expr → Prop) : Expr → Prop where
  | whole {expression : Expr} (own : such expression) (inside : ∀ part ∈ expression.parts, Throughout such part.2) :
    Throughout such expression

theorem Expr.Throughout.mono {such weaker : Expr → Prop} (follows : ∀ expression, such expression → weaker expression)
    {expression : Expr} (throughout : expression.Throughout such) : expression.Throughout weaker := by
  induction throughout with
  | whole own _ ih => exact .whole (follows _ own) ih

/-- Whether a handler has a function of the name with so many parameters. -/
def Handler.declares (handler : Handler) (name : String) (arity : Nat) : Bool :=
  handler.functions.any fun definition =>
    FunctionRegistry.sameName definition.name name && definition.params.length == arity

/-- Whether an expression by itself follows no path, has no statement inside it, is none of these variables, and calls
at most a standard function, neither access to a path nor an aggregate that is given a name. -/
def Expr.isQuiet (own : List Handler) (unread : List String) (expression : Expr) : Bool :=
  expression.isBare && match expression with
    | .bind (some name) _ => !unread.contains (normalizeName name)
    | .call name arguments =>
      !own.any (·.declares name arguments.length) && !FunctionRegistry.sameName name "accessor" &&
        !Aggregate.takesName name arguments.length
    | _ => true

/-! Looking at the set of rows. -/

theorem Conduct.SeesRows.and {first second : Conduct} (own : first.SeesRows) (other : second.SeesRows) :
    (first.and second).SeesRows :=
  fun run parts => ⟨own run fun rows => (parts rows).1, other run fun rows => (parts rows).2⟩

/-- Where the set of rows is not varied, it can be looked at. -/
theorem Conduct.unvarying_seesRows {variation : Frame.Variation}
    (leaves : ∀ index frame, (variation.vary index frame).rows = frame.rows) (scope : Scope)
    (binds saves : NameTable Value) (valid : Memory → Prop) :
    (Conduct.unvarying variation scope binds saves valid).SeesRows := by
  intro α run parts frame inside
  obtain ⟨outcome, constant⟩ := parts frame.rows frame inside
  refine ⟨outcome, fun index world holds => ?_⟩
  obtain ⟨left, ends, ran⟩ := constant index world holds
  exact ⟨left, ends, (congrArg (run · (variation.vary index frame) world) (leaves index frame)).trans ran⟩

/-! Calls. -/

variable {trait : Trait} {environment : Environment}

/-- A call that no handler of a statement's own answers goes to a standard function. -/
theorem FunctionRegistry.mem_standard {registry : FunctionRegistry} {name : String} {arity : Nat}
    (foreign : registry.own.any (·.declares name arity) = false) {handler : Handler}
    (member : handler ∈ registry.handlers) {index : Nat} {definition : FunctionDef}
    (listed : handler.functions[index]? = some definition) (counted : definition.params.length = arity)
    (same : sameName definition.name name = true) : handler ∈ registry.standard := by
  refine (List.mem_append.mp member).resolve_left fun own => ?_
  have declares : handler.declares name arity = true :=
    List.any_eq_true.mpr ⟨definition, List.mem_of_getElem? listed, by simp [same, counted]⟩
  exact List.any_eq_false.mp foreign handler own declares

section Standard

variable (standard : environment.functions.standard = FunctionRegistry.default.standard) {name : String} {arity : Nat}
  (foreign : environment.functions.own.any (·.declares name arity) = false)
  (other : FunctionRegistry.sameName name "accessor" = false) (unnamed : Aggregate.takesName name arity = false)
include standard foreign other unnamed

/-- A call of a standard function that neither accesses a path nor is given a name goes to a handler that conducts itself
as its arguments do, and if it does not depend on its context is steady. -/
theorem Meaning.standard_of_resolved {types : List DataType} {resolution : Resolution} (counted : types.length = arity)
    (resolved : environment.functions.resolve name types = some resolution) :
    (∀ conduct : Conduct, conduct.SeesRows → Calls environment resolution conduct) ∧
      (resolution.definition.contextDependent = false → ∀ valid, Calls environment resolution (.steady valid)) := by
  obtain ⟨handler, placed, listed, declared, same⟩ := FunctionRegistry.resolve_found resolved
  have member := FunctionRegistry.mem_standard foreign (List.mem_of_getElem? placed) listed (declared.trans counted) same
  rw [standard] at member
  rw [← FunctionRegistry.sameName_congr same] at other
  rw [← Aggregate.takesName_congr same, ← counted, ← declared] at unnamed
  refine ⟨fun conduct sees found placed' => ?_, fun settled valid found placed' => ?_⟩
  · cases placed.symm.trans placed'
    exact standard_conducts member listed other sees unnamed
  · cases placed.symm.trans placed'
    exact standard_steady member listed other settled valid

/-- A standard function that neither accesses a path nor is given a name keeps a trait that allows for looking at the
set of rows. -/
theorem Meaning.callsAllowed_of_standard (sees : ∀ valid, (trait.conduct valid).SeesRows) :
    CallsAllowed trait environment name arity := by
  intro types resolution counted resolved
  obtain ⟨conducts, steady⟩ := standard_of_resolved standard foreign other unnamed counted resolved
  exact ⟨fun valid => conducts _ (sees valid), steady⟩

end Standard

/-- What a call that is quiet by itself does not name. -/
theorem Expr.isQuiet_call {own : List Handler} {unread : List String} {name : String} {arguments : List Expr}
    (quiet : (Expr.call name arguments).isQuiet own unread = true) :
    own.any (·.declares name arguments.length) = false ∧ FunctionRegistry.sameName name "accessor" = false ∧
      Aggregate.takesName name arguments.length = false := by
  simpa only [isQuiet, isBare, Bool.true_and, Bool.and_eq_true, Bool.not_eq_true', and_assoc] using quiet

theorem Expr.isBare_of_quiet {own : List Handler} {unread : List String} (expression : Expr)
    (quiet : expression.isQuiet own unread = true) : expression.isBare = true :=
  (Bool.and_eq_true_iff.mp quiet).1

/-- An expression that is quiet throughout is ready for its evaluations. -/
theorem Expr.Throughout.readies (sees : ∀ valid, (trait.conduct valid).SeesRows)
    (standard : environment.functions.standard = FunctionRegistry.default.standard) {unread : List String}
    {expression : Expr} (quiet : expression.Throughout fun part => part.isQuiet environment.functions.own unread = true) :
    expression.meaning.Readies trait environment := by
  induction quiet with
  | whole own _ ih =>
    refine readies_of_parts (isBare_of_quiet _ own) (fun name arguments same => ?_) ih
    subst same
    obtain ⟨foreign, other, unnamed⟩ := isQuiet_call own
    exact Meaning.callsAllowed_of_standard standard foreign other unnamed sees

end RecordQuery
