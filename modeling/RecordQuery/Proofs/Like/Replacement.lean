import Mathlib.Data.List.Forall2
import RecordQuery.Like
/-! What a pattern means: a text fits it if the text is the pattern with a piece in the place of each character. Runs
are looked for from left to right and never again; this finds a fit where there is one, since a run that ends earlier
leaves more room for those behind it. -/

namespace RecordQuery.LikePattern

/-- What may stand in a text for a character of a pattern: anything for `%`, any one character for `_`, and each other
character for itself. -/
def Replaces (c : Char) (piece : List Char) : Prop :=
  if c = '%' then True else if c = '_' then piece.length = 1 else piece = [c]

/-- The characters are those of a pattern, each with a piece in its place. -/
def Produces (pattern chars : List Char) : Prop :=
  ∃ pieces, List.Forall₂ Replaces pattern pieces ∧ chars = pieces.flatten

/-- Each character has its place in the run. -/
def FitsRun (run : Run) (piece : List Char) : Prop :=
  List.Forall₂ (fun place c => ∀ p ∈ place, p = c) run piece

/-- The runs in order, the last at the end, with anything before each of them. -/
def Spread : List Run → List Char → Prop
  | [], chars => chars = []
  | run :: rest, chars => ∃ skipped piece after, chars = skipped ++ piece ++ after ∧ FitsRun run piece ∧ Spread rest after

/-- There may be more before the first of the runs. -/
theorem Spread.more {run : Run} {rest : List Run} {chars : List Char} (spread : Spread (run :: rest) chars)
    (before : List Char) : Spread (run :: rest) (before ++ chars) := by
  obtain ⟨skipped, piece, after, rfl, fits, onward⟩ := spread
  exact ⟨before ++ skipped, piece, after, by simp only [List.append_assoc], fits, onward⟩

/-! A pattern and its runs. -/

theorem produces_nil {chars : List Char} : Produces [] chars ↔ chars = [] := by
  constructor
  · rintro ⟨pieces, replaced, rfl⟩
    cases replaced
    rfl
  · rintro rfl
    exact ⟨[], .nil, rfl⟩

theorem produces_cons {c : Char} {pattern chars : List Char} :
    Produces (c :: pattern) chars ↔ ∃ piece after, chars = piece ++ after ∧ Replaces c piece ∧ Produces pattern after := by
  constructor
  · rintro ⟨pieces, replaced, rfl⟩
    cases replaced with
    | cons first others => exact ⟨_, _, rfl, first, _, others, rfl⟩
  · rintro ⟨piece, after, rfl, first, pieces, others, rfl⟩
    exact ⟨piece :: pieces, .cons first others, rfl⟩

/-- A character other than `%` is replaced with one character, which has its place in a run. -/
theorem replaces_iff_of_ne {c : Char} {piece : List Char} (other : c ≠ '%') :
    Replaces c piece ↔ ∃ d, piece = [d] ∧ ∀ p ∈ (if c = '_' then none else some c), p = d := by
  rw [Replaces, if_neg other]
  split
  · simp [List.length_eq_one_iff]
  · simp

/-- The pattern's first run starts the text, and the others are spread over what is left. -/
theorem produces_iff_spread {pattern chars : List Char} :
    Produces pattern chars ↔ ∃ piece after, chars = piece ++ after ∧ FitsRun (runOf (cut pattern).1) piece ∧
      Spread ((cut pattern).2.map runOf) after := by
  induction pattern generalizing chars with
  | nil =>
    rw [produces_nil]
    constructor
    · rintro rfl
      exact ⟨[], [], rfl, .nil, rfl⟩
    · rintro ⟨piece, after, rfl, fits, onward⟩
      cases fits
      exact onward
  | cons c rest ih =>
    rw [produces_cons]
    by_cases gap : c = '%'
    · have runs : cut (c :: rest) = ([], (cut rest).1 :: (cut rest).2) := if_pos gap
      rw [runs]
      constructor
      · rintro ⟨skipped, behind, rfl, -, produced⟩
        obtain ⟨piece, after, rfl, fits, onward⟩ := ih.mp produced
        exact ⟨[], _, rfl, .nil, skipped, piece, after, (List.append_assoc ..).symm, fits, onward⟩
      · rintro ⟨piece, behind, rfl, fits, skipped, piece', after, rfl, fits', onward⟩
        cases fits
        exact ⟨skipped, piece' ++ after, List.append_assoc .., by rw [Replaces, if_pos gap]; trivial,
          ih.mpr ⟨piece', after, rfl, fits', onward⟩⟩
    · have runs : cut (c :: rest) = (c :: (cut rest).1, (cut rest).2) := if_neg gap
      rw [runs]
      constructor
      · rintro ⟨piece, behind, rfl, replaced, produced⟩
        obtain ⟨d, rfl, place⟩ := (replaces_iff_of_ne gap).mp replaced
        obtain ⟨piece, after, rfl, fits, onward⟩ := ih.mp produced
        exact ⟨d :: piece, after, rfl, .cons place fits, onward⟩
      · rintro ⟨piece, after, rfl, fits, onward⟩
        cases fits with
        | @cons _ d _ piece place fits =>
          exact ⟨[d], piece ++ after, rfl, (replaces_iff_of_ne gap).mpr ⟨d, rfl, place⟩,
            ih.mpr ⟨piece, after, rfl, fits, onward⟩⟩

/-! Runs found in a text. -/

theorem FitsRun.length_eq {run : Run} {piece : List Char} (fits : FitsRun run piece) : run.length = piece.length :=
  List.Forall₂.length_eq fits

theorem stripRun?_eq_some_iff {run : Run} {chars after : List Char} :
    stripRun? run chars = some after ↔ ∃ piece, chars = piece ++ after ∧ FitsRun run piece := by
  fun_induction stripRun? run chars with
  | case1 chars =>
    constructor
    · rintro ⟨rfl⟩
      exact ⟨[], rfl, .nil⟩
    · rintro ⟨piece, rfl, fits⟩
      cases fits
      rfl
  | case2 place run =>
    refine ⟨nofun, ?_⟩
    rintro ⟨piece, nothing, fits⟩
    cases fits
    cases nothing
  | case3 run c chars ih =>
    rw [ih]
    constructor
    · rintro ⟨piece, rfl, fits⟩
      exact ⟨c :: piece, rfl, .cons nofun fits⟩
    · rintro ⟨piece, split, fits⟩
      cases fits with
      | cons _ fits =>
        cases split
        exact ⟨_, rfl, fits⟩
  | case4 run p chars ih =>
    rw [ih]
    constructor
    · rintro ⟨piece, rfl, fits⟩
      exact ⟨p :: piece, rfl, .cons (by simp) fits⟩
    · rintro ⟨piece, split, fits⟩
      cases fits with
      | cons _ fits =>
        cases split
        exact ⟨_, rfl, fits⟩
  | case5 p run c chars different =>
    refine ⟨nofun, ?_⟩
    rintro ⟨piece, split, fits⟩
    cases fits with
    | cons place fits =>
      cases split
      exact absurd (place p rfl) different

/-- A run is found at a place where it fits. -/
theorem skipPast?_sound {run : Run} {chars after : List Char} (found : skipPast? run chars = some after) :
    ∃ skipped piece, chars = skipped ++ piece ++ after ∧ FitsRun run piece := by
  induction chars with
  | nil =>
    obtain ⟨piece, split, fits⟩ := stripRun?_eq_some_iff.mp found
    exact ⟨[], piece, split, fits⟩
  | cons c chars ih =>
    rw [skipPast?, Option.or_eq_some_iff] at found
    rcases found with here | ⟨-, later⟩
    · obtain ⟨piece, split, fits⟩ := stripRun?_eq_some_iff.mp here
      exact ⟨[], piece, split, fits⟩
    · obtain ⟨skipped, piece, rfl, fits⟩ := ih later
      exact ⟨c :: skipped, piece, rfl, fits⟩

/-- A run that fits somewhere is found, and no later: what is left behind that place is left. -/
theorem skipPast?_leftmost {run : Run} {piece : List Char} (fits : FitsRun run piece) (skipped after : List Char) :
    ∃ more, skipPast? run (skipped ++ piece ++ after) = some (more ++ after) := by
  induction skipped with
  | nil =>
    have here : stripRun? run (piece ++ after) = some after := stripRun?_eq_some_iff.mpr ⟨piece, rfl, fits⟩
    refine ⟨[], ?_⟩
    rw [List.nil_append, List.nil_append]
    cases whole : piece ++ after with
    | nil => rw [skipPast?, ← whole, here]
    | cons c chars => rw [skipPast?, ← whole, here, Option.some_or]
  | cons c skipped ih =>
    obtain ⟨more, later⟩ := ih
    rw [List.cons_append, List.cons_append, skipPast?, later]
    cases start : stripRun? run (c :: (skipped ++ piece ++ after)) with
    | none => exact ⟨more, rfl⟩
    | some left =>
      -- The run fits at the start as well. It is as long there, so no less is left behind it.
      obtain ⟨piece', split, fits'⟩ := stripRun?_eq_some_iff.mp start
      have size := congrArg List.length split
      have same := fits.length_eq.symm.trans fits'.length_eq
      simp only [List.length_cons, List.length_append] at size
      have suffix : after <:+ left :=
        List.suffix_of_suffix_length_le ⟨c :: (skipped ++ piece), rfl⟩ ⟨piece', split.symm⟩ (by omega)
      obtain ⟨more, rfl⟩ := suffix
      exact ⟨more, rfl⟩

/-- The last run fits the end of a text, if the text is no shorter. -/
theorem last_iff {run : Run} {chars : List Char} :
    matchesRest [run] chars = true ↔ ∃ skipped piece, chars = skipped ++ piece ∧ FitsRun run piece := by
  rw [matchesRest, Bool.and_eq_true, decide_eq_true_eq, beq_iff_eq, stripRun?_eq_some_iff]
  constructor
  · rintro ⟨-, piece, split, fits⟩
    rw [List.append_nil] at split
    refine ⟨chars.take (chars.length - run.length), piece, ?_, fits⟩
    rw [← split, List.take_append_drop]
  · rintro ⟨skipped, piece, rfl, fits⟩
    have size := fits.length_eq
    rw [List.length_append]
    refine ⟨by omega, piece, ?_, fits⟩
    rw [size, Nat.add_sub_cancel, List.drop_left, List.append_nil]

/-- Looking for each run at its leftmost place finds the runs wherever they are spread. -/
theorem matchesRest_iff {runs : List Run} {chars : List Char} : matchesRest runs chars = true ↔ Spread runs chars := by
  induction runs generalizing chars with
  | nil => rw [matchesRest, List.isEmpty_iff, Spread]
  | cons run rest ih =>
    cases rest with
    | nil =>
      rw [last_iff]
      constructor
      · rintro ⟨skipped, piece, rfl, fits⟩
        exact ⟨skipped, piece, [], (List.append_nil _).symm, fits, rfl⟩
      · rintro ⟨skipped, piece, after, rfl, fits, rfl⟩
        exact ⟨skipped, piece, List.append_nil _, fits⟩
    | cons next others =>
      rw [matchesRest]
      constructor
      · intro matched
        cases found : skipPast? run chars with
        | none => rw [found] at matched; cases matched
        | some after =>
          rw [found] at matched
          obtain ⟨skipped, piece, rfl, fits⟩ := skipPast?_sound found
          exact ⟨skipped, piece, after, rfl, fits, ih.mp matched⟩
      · rintro ⟨skipped, piece, after, rfl, fits, onward⟩
        obtain ⟨more, found⟩ := skipPast?_leftmost fits skipped after
        rw [found]
        exact ih.mpr (onward.more more)

/-! Whole patterns. -/

/-- The characters that a pattern or a text is compared by. -/
def folded (ignoreCase : Bool) (chars : List Char) : List Char := if ignoreCase then foldChars chars else chars

/-- A pattern fits with its first run at the start, and its others behind it. -/
theorem accepts_iff_fits (pattern : LikePattern) (text : String) :
    pattern.accepts text = true ↔ ∃ piece after, folded pattern.ignoreCase text.toList = piece ++ after ∧
      FitsRun pattern.first piece ∧ Spread pattern.rest after := by
  have onward (after : List Char) :
      (if pattern.rest.isEmpty then after.isEmpty else matchesRest pattern.rest after) = true ↔
        Spread pattern.rest after := by
    rw [← matchesRest_iff]
    cases pattern.rest <;> rfl
  unfold accepts
  constructor
  · intro accepted
    dsimp only at accepted
    split at accepted
    · cases accepted
    · next after stripped =>
      obtain ⟨piece, split, fits⟩ := stripRun?_eq_some_iff.mp stripped
      exact ⟨piece, after, split, fits, (onward after).mp accepted⟩
  · rintro ⟨piece, after, split, fits, spread⟩
    have stripped : stripRun? pattern.first (if pattern.ignoreCase then foldChars text.toList else text.toList) =
        some after := stripRun?_eq_some_iff.mpr ⟨piece, split, fits⟩
    dsimp only
    rw [stripped]
    exact (onward after).mpr spread

/-- With case ignored, the folded text has to fit the folded pattern. -/
theorem accepts_compile_iff (pattern text : String) (ignoreCase : Bool) :
    (compile pattern ignoreCase).accepts text = true ↔
      Produces (folded ignoreCase pattern.toList) (folded ignoreCase text.toList) := by
  rw [produces_iff_spread]
  exact accepts_iff_fits (compile pattern ignoreCase) text

/-- A pattern accepts exactly the texts that it becomes when each `%` is replaced with any characters, each `_` with any
one character, and all else is left as it is. -/
theorem accepts_iff (pattern text : String) :
    (compile pattern false).accepts text = true ↔
      ∃ pieces, List.Forall₂ Replaces pattern.toList pieces ∧ text.toList = pieces.flatten :=
  accepts_compile_iff pattern text false

/-- The start and the end of a text do not share a character. -/
example : (compile "ab%ba" false).accepts "aba" = false := by decide

end RecordQuery.LikePattern
