import RecordQuery.Proofs.Function.Conduct
import RecordQuery.Proofs.Meaning.Keeps
/-! What the standard functions do to the world: aggregates that are given a name set a save value, and access to a
path remembers its accessor. All others leave the world alone. -/

namespace RecordQuery

open EvalM

/-- A preorder of worlds that allows for what the standard functions do by themselves. -/
class AllowsFunctions (related : World → World → Prop) : Prop extends IsPreorder World related where
  /-- A save value that was not set before is set. -/
  saved {begun world : World} (later : related begun world) {scope : Scope} {name : String}
    (absent : begun.heap.saveValue? scope name = none) (value : Value) :
    related begun { world with heap := world.heap.set scope .save name value }
  accessed (world : World) (accessors : List ((StoreId × String) × Accessor)) :
    related world { world with accessors }

instance : AllowsFunctions World.Extends where
  saved {_ world} later {scope name} _ value :=
    IsTrans.trans (r := World.Extends) _ world _ later (world.heap.extends_set scope .save name value)
  accessed world _ := refl world.heap

variable {related : World → World → Prop} [AllowsFunctions related]

theorem Aggregate.allowsSaving : AllowsSaving (.keeps related) := by
  intro name compute keeps frame
  refine keeps_readHeap_bind fun begun => ?_
  cases absent : begun.heap.saveValue? frame.scope name with
  | some kept => exact keeps_pure kept
  | none =>
    refine ((keeps frame).since begun).bind fun value => ?_
    exact (keeps_changeHeap fun world later => AllowsFunctions.saved later absent value).bind fun _ => keeps_pure value

theorem ConversionFunction.access_keeps (statement : StoreId) (path : String) (value : Value) :
    EvalM.Keeps related (ConversionFunction.access statement path value) := by
  refine keeps_get.bind fun world => ?_
  split
  all_goals
    refine EvalM.Keeps.bind (by first | exact keeps_pure _ | exact keeps_ofExcept _) fun accessor => ?_
    exact EvalM.Keeps.bind (fun world => AllowsFunctions.accessed world _) fun _ => keeps_ofExcept _

theorem ConversionFunction.handler_keeps : ConversionFunction.handler.Keeps related := by
  refine (Handler.keeps_iff related _).mpr fun index => ?_
  by_cases found : all[index]? = some accessor
  · intro arguments _ frame
    change EvalM.Keeps related (ConversionFunction.call index arguments frame)
    unfold ConversionFunction.call
    dsimp only
    rw [found]
    dsimp only
    split
    · exact keeps_pure _
    · exact ConversionFunction.access_keeps _ _ _
  · exact ConversionFunction.handler_conducts _ found

theorem standard_keep : ∀ handler ∈ FunctionRegistry.default.handlers, handler.Keeps related := by
  intro handler member
  simp only [FunctionRegistry.default, FunctionRegistry.handlers, List.nil_append, List.mem_cons, List.not_mem_nil,
    or_false] at member
  rcases member with rfl | rfl | rfl | rfl
  · exact (Handler.keeps_iff related _).mpr
      (Aggregate.handler_conducts (Conduct.keeps_seesRows related) Aggregate.allowsSaving)
  · exact (Handler.keeps_iff related _).mpr (TextFunction.handler_conducts _)
  · exact (Handler.keeps_iff related _).mpr (NumericFunction.handler_conducts _)
  · exact ConversionFunction.handler_keeps

end RecordQuery
