import RecordQuery.Proofs.Evaluation.Conduct
/-! Successes that carry over from one computation to another, from worlds that are alike in some way to worlds that are
alike so again. -/

namespace RecordQuery.EvalM

variable {α β γ δ : Type} {alike : World → World → Prop} {holds : World → Prop}

/-- Where one computation succeeds another one does, from a world like the one that this one starts from, with a related
result, and both leave worlds that are alike. -/
def Carries (alike : World → World → Prop) (run : EvalM α) (other : EvalM β) (related : α → β → Prop) : Prop :=
  ∀ ⦃world world' value left⦄, alike world world' → run world = .ok value left →
    ∃ value' left', other world' = .ok value' left' ∧ alike left left' ∧ related value value'

theorem carries_pure {value : α} {value' : β} {related : α → β → Prop} (same : related value value') :
    Carries alike (pure value) (pure value') related := by
  intro world world' found left begins ran
  cases ran
  exact ⟨value', world', rfl, begins, same⟩

theorem Carries.mono {run : EvalM α} {other : EvalM β} {related weaker : α → β → Prop}
    (carries : Carries alike run other related) (follows : ∀ value value', related value value' → weaker value value') :
    Carries alike run other weaker := by
  intro world world' value left begins ran
  obtain ⟨value', left', ran', ends, same⟩ := carries begins ran
  exact ⟨value', left', ran', ends, follows _ _ same⟩

theorem Carries.bind {run : EvalM α} {other : EvalM β} {related : α → β → Prop} {next : α → EvalM γ}
    {next' : β → EvalM δ} {related' : γ → δ → Prop} (head : Carries alike run other related)
    (rest : ∀ value value', related value value' → Carries alike (next value) (next' value') related') :
    Carries alike (run >>= next) (other >>= next') related' := by
  intro world world' result left begins ran
  obtain ⟨value, middle, began, ended⟩ := ok_of_bind ran
  obtain ⟨value', middle', began', between, same⟩ := head begins began
  obtain ⟨result', left', ended', ends, same'⟩ := rest value value' same between ended
  exact ⟨result', left', (bind_of_ok began').trans ended', ends, same'⟩

/-- What follows a step without effects is carried over from its result only. -/
theorem carries_ofExcept_bind {outcome : Except Error α} {next : α → EvalM β} {next' : α → EvalM γ}
    {related : β → γ → Prop} (rest : ∀ value, outcome = .ok value → Carries alike (next value) (next' value) related) :
    Carries alike (ofExcept outcome >>= next) (ofExcept outcome >>= next') related := by
  intro world world' result left begins ran
  obtain ⟨value, rfl, ran⟩ := ok_of_ofExcept_bind ran
  exact rest value rfl begins ran

/-- Variables can be looked at anywhere. -/
theorem carries_readHeap (read : Heap → α) (read' : Heap → β) :
    Carries alike (readHeap read) (readHeap read') fun _ _ => True := by
  intro world world' value left begins ran
  cases ran
  exact ⟨_, world', rfl, begins, trivial⟩

/-- A step that only the first computation takes. -/
theorem Carries.skip {run : EvalM α} {next : α → EvalM β} {other : EvalM γ} {related : β → γ → Prop}
    (head : Carries alike run (pure ()) fun _ _ => True)
    (rest : ∀ value, Carries alike (next value) other related) : Carries alike (run >>= next) other related :=
  head.bind fun value _ _ => rest value

/-- A step that only the second computation takes, and that succeeds. -/
theorem Carries.insert {run : EvalM α} {next : α → EvalM β} {other : EvalM γ} {related : γ → β → Prop}
    (head : Carries alike (pure ()) run fun _ _ => True)
    (rest : ∀ value, Carries alike other (next value) related) : Carries alike other (run >>= next) related := by
  have whole : Carries alike (pure () >>= fun _ => other) (run >>= next) related :=
    head.bind fun _ value _ => rest value
  rwa [pure_bind] at whole

/-- A step that leaves alone all that it is known to leave alone need not be taken. -/
theorem carries_leave {run : EvalM α} (leaves : ∀ related, Agrees related run) :
    Carries alike run (pure ()) fun _ _ => True := by
  intro world world' value left begins ran
  have ended := leaves (fun world _ => alike world world') world world begins
  rw [ran] at ended
  exact ⟨(), world', rfl, ended.2, trivial⟩

/-- A check that is passed wherever another one is. -/
theorem carries_check {outcome : Except Error α} {outcome' : Except Error β}
    (passes : ∀ value, outcome = .ok value → ∃ value', outcome' = .ok value') :
    Carries alike (discard (ofExcept outcome)) (discard (ofExcept outcome')) fun _ _ => True := by
  intro world world' value left begins ran
  cases outcome with
  | error error => cases ran
  | ok found =>
    cases ran
    obtain ⟨value', rfl⟩ := passes found rfl
    exact ⟨(), world', rfl, begins, trivial⟩

theorem Carries.forM {items : List γ} {action action' : γ → EvalM Unit}
    (each : ∀ item ∈ items, Carries alike (action item) (action' item) fun _ _ => True) :
    Carries alike (items.forM action) (items.forM action') fun _ _ => True := by
  induction items with
  | nil => exact carries_pure trivial
  | cons item rest ih =>
    obtain ⟨own, others⟩ := List.forall_mem_cons.mp each
    exact own.bind fun _ _ _ => ih others

/-- Steps that only the first computation takes. -/
theorem Carries.skips {items : List γ} {action : γ → EvalM Unit}
    (each : ∀ item ∈ items, Carries alike (action item) (pure ()) fun _ _ => True) :
    Carries alike (items.forM action) (pure ()) fun _ _ => True := by
  induction items with
  | nil => exact carries_pure trivial
  | cons item rest ih =>
    obtain ⟨own, others⟩ := List.forall_mem_cons.mp each
    exact own.skip fun _ => ih others

/-- Which places are named does not matter to a success. -/
theorem Carries.inside {run : EvalM α} {other : EvalM β} {related : α → β → Prop}
    (carries : Carries alike run other related) (place place' : String) :
    Carries alike (run.inside place) (other.inside place') related := by
  intro world world' value left begins ran
  obtain ⟨value', left', ran', ends, same⟩ := carries begins (ok_of_inside ran)
  exact ⟨value', left', inside_of_ok place' ran', ends, same⟩

/-- What agrees carries over to itself. -/
theorem Agrees.carries {run : EvalM α} (agrees : Agrees alike run) : Carries alike run run Eq := by
  intro world world' value left begins ran
  have ended := agrees world world' begins
  rw [ran] at ended
  cases ran' : run world' <;> rw [ran'] at ended
  · exact ⟨_, _, rfl, ended.2, ended.1⟩
  · exact ended.elim

/-! Worlds that are such, each by itself. -/

/-- Both worlds are such. -/
def Both (holds : World → Prop) (world world' : World) : Prop := holds world ∧ holds world'

theorem Carries.alone {run : EvalM α} {other : EvalM β} {related : α → β → Prop}
    (carries : Carries (Both holds) run other related) : Carries (Both holds) run (pure ()) fun _ _ => True := by
  rintro world world' value left ⟨begins, begins'⟩ ran
  obtain ⟨_, _, -, ⟨ends, -⟩, -⟩ := carries ⟨begins, begins⟩ ran
  exact ⟨(), world', rfl, ⟨ends, begins'⟩, trivial⟩

/-- From such a world the computation succeeds, and leaves such a world. -/
def Passes (holds : World → Prop) (run : EvalM α) : Prop :=
  ∀ world, holds world → ∃ value left, run world = .ok value left ∧ holds left

theorem passes_pure (value : α) : Passes holds (pure value) := fun world begins => ⟨value, world, rfl, begins⟩

/-- Of what succeeds in any case nothing need be known. -/
theorem Passes.carries {run : EvalM α} {other : EvalM β} (passes : Passes holds run) (passes' : Passes holds other) :
    Carries (Both holds) run other fun _ _ => True := by
  rintro world world' value left ⟨begins, begins'⟩ ran
  obtain ⟨_, _, ran', ends⟩ := passes world begins
  obtain ⟨value', left', ran'', ends'⟩ := passes' world' begins'
  cases ran.symm.trans ran'
  exact ⟨value', left', ran'', ⟨ends, ends'⟩, trivial⟩

/-- From such a world the computation returns this, and leaves such a world. -/
def Gives (holds : World → Prop) (run : EvalM α) (value : α) : Prop :=
  ∀ world, holds world → ∃ left, run world = .ok value left ∧ holds left

theorem gives_pure (value : α) : Gives holds (pure value) value := fun world begins => ⟨world, rfl, begins⟩

theorem Gives.bind {run : EvalM α} {next : α → EvalM β} {value : α} {result : β} (head : Gives holds run value)
    (rest : Gives holds (next value) result) : Gives holds (run >>= next) result := by
  intro world begins
  obtain ⟨middle, ran, between⟩ := head world begins
  obtain ⟨left, ended, ends⟩ := rest middle between
  exact ⟨left, (bind_of_ok ran).trans ended, ends⟩

theorem Gives.inside {run : EvalM α} {value : α} (gives : Gives holds run value) (place : String) :
    Gives holds (run.inside place) value := by
  intro world begins
  obtain ⟨left, ran, ends⟩ := gives world begins
  exact ⟨left, inside_of_ok place ran, ends⟩

/-- What a success carries over to gives the same result. -/
theorem Carries.gives {run : EvalM α} {other : EvalM α} {world left : World} {value : α}
    (carries : Carries (Both holds) run other Eq) (begins : holds world) (ran : run world = .ok value left) :
    Gives holds other value := by
  intro world' begins'
  obtain ⟨_, left', ran', ⟨-, ends'⟩, rfl⟩ := carries ⟨begins, begins'⟩ ran
  exact ⟨left', ran', ends'⟩

end RecordQuery.EvalM
