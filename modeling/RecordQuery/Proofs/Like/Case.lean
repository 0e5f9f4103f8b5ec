import Mathlib.Data.List.Forall2
import RecordQuery.Proofs.Like.Replacement
/-! Patterns with case ignored. Pattern and text are folded before they are compared, and one letter, `İ`, folds to two
characters. A `_` that stands for it stands for neither of the two alone, so a text that fits with case told apart may
not fit with case ignored. -/

namespace RecordQuery

/-! Folding one character. -/

/-- A code point that a run maps to is not below the one that it maps its first code point to. -/
theorem CaseRun.le_of_target? {run : CaseRun} {n mapped : Nat} (found : run.target? n = some mapped) :
    (run.first : Int) + run.shift ≤ mapped := by
  unfold target? at found
  split at found
  · cases found
    omega
  · cases found

theorem CaseRun.exists_of_find? {runs : List CaseRun} {n mapped : Nat} (found : find? runs n = some mapped) :
    ∃ run ∈ runs, run.target? n = some mapped := by
  induction runs with
  | nil => cases found
  | cons run rest ih =>
    rw [find?] at found
    split at found
    · cases found
    · split at found
      · rename_i target
        cases found
        exact ⟨run, List.mem_cons_self .., target⟩
      · obtain ⟨later, member, target⟩ := ih found
        exact ⟨later, List.mem_cons_of_mem _ member, target⟩

/-- Nothing beyond ASCII folds to one of the first hundred code points. -/
theorem hundred_le_lowerRuns : ∀ run ∈ lowerRuns, (100 : Int) ≤ run.first + run.shift := by
  decide +kernel

/-- The characters of a pattern that stand for others. -/
abbrev IsWildcard (c : Char) : Prop := c = '%' ∨ c = '_'

theorem not_isWildcard_ofNat {n : Nat} (high : 100 ≤ n) : ¬IsWildcard (Char.ofNat n) := by
  by_cases valid : n.isValidChar
  · have code : (Char.ofNat n).toNat = n := congrArg Char.toNat (dif_pos valid)
    rintro (percent | underscore)
    · rw [percent, show '%'.toNat = 37 from rfl] at code
      omega
    · rw [underscore, show '_'.toNat = 95 from rfl] at code
      omega
  · rw [show Char.ofNat n = '\x00' from dif_neg valid]
    decide

theorem lowerChar_of_ascii : ∀ n < 128, lowerChar (Char.ofNat n) = [(Char.ofNat n).toLower] ∧
    (IsWildcard (Char.ofNat n) ∨ IsWildcard (Char.ofNat n).toLower → (Char.ofNat n).toLower = Char.ofNat n) := by
  decide +kernel

/-- Every character but `İ` folds to one character, and only a wildcard to a wildcard, itself. -/
theorem lowerChar_of_ne {c : Char} (other : c ≠ 'İ') :
    ∃ d, lowerChar c = [d] ∧ (IsWildcard c ∨ IsWildcard d → d = c) := by
  by_cases ascii : c.toNat < 128
  · have folded := lowerChar_of_ascii c.toNat ascii
    rw [Char.ofNat_toNat] at folded
    exact ⟨_, folded⟩
  · have plain : ¬IsWildcard c := by
      rintro (rfl | rfl) <;> exact ascii (by decide)
    have single : lowerExpansions.lookup c.toNat = none := by
      have differs : (c.toNat == 304) = false := by
        rw [beq_eq_false_iff_ne]
        exact fun same => other (Char.toNat_inj.mp same)
      rw [lowerExpansions, List.lookup_cons, differs]
      rfl
    refine ⟨((CaseRun.find? lowerRuns c.toNat).map Char.ofNat).getD c, ?_, ?_⟩
    · rw [lowerChar, if_neg ascii, mapCase, single]
    · rintro (wildcard | wildcard)
      · exact absurd wildcard plain
      · cases found : CaseRun.find? lowerRuns c.toNat with
        | none => rfl
        | some mapped =>
          obtain ⟨run, member, target⟩ := CaseRun.exists_of_find? found
          have high := hundred_le_lowerRuns run member
          have above := CaseRun.le_of_target? target
          rw [found] at wildcard
          exact absurd wildcard (not_isWildcard_ofNat (by omega))

theorem foldChars_cons (c : Char) (chars : List Char) : foldChars (c :: chars) = lowerChar c ++ foldChars chars :=
  List.flatMap_cons

theorem foldChars_append (left right : List Char) : foldChars (left ++ right) = foldChars left ++ foldChars right :=
  List.flatMap_append

theorem lowerChar_wide : lowerChar 'İ' = ['i', Char.ofNat 0x307] := rfl

/-- Folding adds a character for each `İ`. -/
theorem length_foldChars (chars : List Char) : (foldChars chars).length = chars.length + chars.count 'İ' := by
  induction chars with
  | nil => rfl
  | cons c rest ih =>
    rw [foldChars_cons, List.length_append, ih, List.length_cons, List.count_cons]
    by_cases wide : c = 'İ'
    · rw [wide, lowerChar_wide, List.length_cons, List.length_singleton]
      simp only [beq_self_eq_true, if_true]
      omega
    · obtain ⟨d, folded, -⟩ := lowerChar_of_ne wide
      rw [folded, List.length_singleton, beq_false_of_ne wide]
      simp only [Bool.false_eq_true, if_false]
      omega

namespace LikePattern

variable {pattern : List Char} {pieces : List (List Char)}

/-- Characters that stand for themselves, on both sides. -/
theorem Produces.literals {pattern chars : List Char} (produced : Produces pattern chars) {literals : List Char}
    (plain : ∀ c ∈ literals, ¬IsWildcard c) : Produces (literals ++ pattern) (literals ++ chars) := by
  induction literals with
  | nil => exact produced
  | cons c rest ih =>
    have literal := not_or.mp (plain c (List.mem_cons_self ..))
    have replaced : Replaces c [c] := by rw [Replaces, if_neg literal.1, if_neg literal.2]
    have onward := ih fun d member => plain d (List.mem_cons_of_mem _ member)
    exact produces_cons.mpr ⟨[c], rest ++ chars, rfl, replaced, onward⟩

theorem not_isWildcard_lowerChar {c : Char} (plain : ¬IsWildcard c) : ∀ d ∈ lowerChar c, ¬IsWildcard d := by
  by_cases wide : c = 'İ'
  · rw [wide, lowerChar_wide]
    exact List.forall_mem_cons.mpr ⟨by decide, List.forall_mem_singleton.mpr (by decide)⟩
  · obtain ⟨d, folded, back⟩ := lowerChar_of_ne wide
    rw [folded]
    intro e member wildcard
    rw [List.mem_singleton.mp member] at wildcard
    exact plain (back (.inr wildcard) ▸ wildcard)

/-- Where no `_` stands for `İ`, the folded text is the folded pattern with pieces in its places. -/
theorem produces_foldChars (replaced : List.Forall₂ Replaces pattern pieces)
    (narrow : ('_', ['İ']) ∉ pattern.zip pieces) : Produces (foldChars pattern) (foldChars pieces.flatten) := by
  induction replaced with
  | nil => exact produces_nil.mpr rfl
  | @cons c piece pattern pieces first others ih =>
    rw [List.zip_cons_cons, List.mem_cons, not_or] at narrow
    have onward := ih narrow.2
    rw [List.flatten_cons, foldChars_cons, foldChars_append]
    by_cases wildcard : IsWildcard c
    · rcases wildcard with rfl | rfl
      · exact produces_cons.mpr ⟨_, _, rfl, trivial, onward⟩
      · obtain ⟨d, rfl⟩ := List.length_eq_one_iff.mp first
        have single : d ≠ 'İ' := fun wide => narrow.1 (by rw [wide])
        obtain ⟨e, folded, -⟩ := lowerChar_of_ne single
        rw [foldChars_cons, folded]
        exact produces_cons.mpr ⟨[e], _, rfl, rfl, onward⟩
    · have literal := not_or.mp wildcard
      rw [Replaces, if_neg literal.1, if_neg literal.2] at first
      rw [first, foldChars_cons]
      have same : lowerChar c ++ foldChars [] = lowerChar c := List.append_nil _
      rw [same]
      exact onward.literals (not_isWildcard_lowerChar wildcard)

/-- Without `%`, each character of a pattern stands for one. -/
theorem length_of_produces {pattern chars : List Char} (produced : Produces pattern chars) (bounded : '%' ∉ pattern) :
    chars.length = pattern.length := by
  induction pattern generalizing chars with
  | nil => rw [produces_nil.mp produced]
  | cons c pattern ih =>
    rw [List.mem_cons, not_or] at bounded
    obtain ⟨piece, after, rfl, replaced, onward⟩ := produces_cons.mp produced
    obtain ⟨d, rfl, -⟩ := (replaces_iff_of_ne (Ne.symm bounded.1)).mp replaced
    rw [List.length_append, ih onward bounded.2, List.length_singleton, List.length_cons, Nat.add_comm]

theorem percent_not_mem_foldChars (bounded : '%' ∉ pattern) : '%' ∉ foldChars pattern := by
  intro member
  obtain ⟨c, inside, mapped⟩ := List.mem_flatMap.mp member
  by_cases wildcard : IsWildcard c
  · rcases wildcard with rfl | rfl
    · exact bounded inside
    · exact absurd mapped (by decide)
  · exact not_isWildcard_lowerChar wildcard _ mapped (.inl rfl)

/-- Without `%`, a text has an `İ` for each of the pattern's and for each `_` that stands for one. -/
theorem count_of_replaces (replaced : List.Forall₂ Replaces pattern pieces) (bounded : '%' ∉ pattern) :
    pieces.flatten.count 'İ' = pattern.count 'İ' + (pattern.zip pieces).count ('_', ['İ']) := by
  induction replaced with
  | nil => rfl
  | @cons c piece pattern pieces first others ih =>
    rw [List.mem_cons, not_or] at bounded
    rw [List.flatten_cons, List.count_append, ih bounded.2, List.zip_cons_cons, List.count_cons, List.count_cons]
    obtain ⟨d, rfl, place⟩ := (replaces_iff_of_ne (Ne.symm bounded.1)).mp first
    by_cases wildcard : c = '_'
    · subst wildcard
      by_cases wide : d = 'İ'
      · subst wide
        simp
        omega
      · simp [wide]
    · have same : c = d := place c (by rw [if_neg wildcard]; rfl)
      subst same
      by_cases wide : c = 'İ'
      · subst wide
        simp
        omega
      · simp [wide, wildcard]

/-- Without `%`, a `_` that stands for `İ` leaves the folded text too long for the folded pattern. -/
theorem narrow_of_produces_foldChars (replaced : List.Forall₂ Replaces pattern pieces) (bounded : '%' ∉ pattern)
    (produced : Produces (foldChars pattern) (foldChars pieces.flatten)) : ('_', ['İ']) ∉ pattern.zip pieces := by
  have size := length_of_produces produced (percent_not_mem_foldChars bounded)
  have size' := length_of_produces ⟨pieces, replaced, rfl⟩ bounded
  have wide := count_of_replaces replaced bounded
  rw [length_foldChars, length_foldChars] at size
  exact List.count_eq_zero.mp (by omega)

/-- A `_` for each character. -/
theorem replaces_each (chars : List Char) :
    List.Forall₂ Replaces (List.replicate chars.length '_') (chars.map ([·])) := by
  induction chars with
  | nil => exact .nil
  | cons c rest ih => exact .cons rfl ih

theorem mem_zip_each {c : Char} {chars : List Char} (member : c ∈ chars) :
    ('_', [c]) ∈ (List.replicate chars.length '_').zip (chars.map ([·])) := by
  induction chars with
  | nil => cases member
  | cons d rest ih =>
    rcases List.mem_cons.mp member with rfl | later
    · exact List.mem_cons_self ..
    · exact List.mem_cons_of_mem _ (ih later)

/-- With case ignored, a pattern goes on accepting a text that it accepts by pieces of which none is an `İ` for `_`, and
where it has no `%`, only then. So the texts that lose no pattern in this way are those without `İ`. -/
theorem ignoring_case_adds (text : String) :
    (∀ (pattern : String) pieces, List.Forall₂ Replaces pattern.toList pieces → text.toList = pieces.flatten →
      (('_', ['İ']) ∉ pattern.toList.zip pieces → (compile pattern true).accepts text = true) ∧
      ('%' ∉ pattern.toList → (compile pattern true).accepts text = true →
        ('_', ['İ']) ∉ pattern.toList.zip pieces)) ∧
    ((∀ pattern, (compile pattern false).accepts text = true → (compile pattern true).accepts text = true) ↔
      'İ' ∉ text.toList) := by
  refine ⟨fun pattern pieces replaced split => ?_, ?_⟩
  · rw [accepts_compile_iff, folded, folded, if_pos rfl, if_pos rfl, split]
    exact ⟨produces_foldChars replaced, narrow_of_produces_foldChars replaced⟩
  · constructor
    · -- A pattern of as many `_` as the text has characters is lost.
      intro kept wide
      have written : (String.ofList (List.replicate text.toList.length '_')).toList = _ := String.toList_ofList
      have split : text.toList = (text.toList.map ([·])).flatten := (List.flatMap_singleton' _).symm
      have accepted := kept _ ((accepts_iff _ text).mpr ⟨_, written ▸ replaces_each text.toList, split⟩)
      rw [accepts_compile_iff, folded, folded, if_pos rfl, if_pos rfl, written] at accepted
      have bounded : '%' ∉ List.replicate text.toList.length '_' := fun member =>
        absurd (List.eq_of_mem_replicate member) (by decide)
      exact narrow_of_produces_foldChars (replaces_each text.toList) bounded (by rwa [← split])
        (mem_zip_each wide)
    · intro narrow pattern accepted
      rw [accepts_compile_iff] at accepted ⊢
      obtain ⟨pieces, replaced, split⟩ := accepted
      rw [folded, folded, if_pos rfl, if_pos rfl, show text.toList = pieces.flatten from split]
      refine produces_foldChars replaced fun member => narrow ?_
      rw [show text.toList = pieces.flatten from split]
      exact List.mem_flatten.mpr ⟨['İ'], (List.of_mem_zip member).2, List.mem_singleton.mpr rfl⟩

/-- An `İ` between, which no `_` stands for, is folded on both sides or passed over by `%`. -/
theorem ignoring_case_adds_around_wide :
    List.Forall₂ Replaces "_%b".toList [['a'], ['İ'], ['b']] ∧ "aİb".toList = [['a'], ['İ'], ['b']].flatten ∧
      (compile "_%b" true).accepts "aİb" = true ∧ ('_', ['İ']) ∉ "_İb".toList.zip [['a'], ['İ'], ['b']] := by
  have replaced : List.Forall₂ Replaces "_%b".toList [['a'], ['İ'], ['b']] := .cons rfl (.cons trivial (.cons rfl .nil))
  have replaced' : List.Forall₂ Replaces "_İb".toList [['a'], ['İ'], ['b']] := .cons rfl (.cons rfl (.cons rfl .nil))
  have split : "aİb".toList = [['a'], ['İ'], ['b']].flatten := by decide
  exact ⟨replaced, split, ((ignoring_case_adds "aİb").1 "_%b" _ replaced split).1 (by decide),
    ((ignoring_case_adds "aİb").1 "_İb" _ replaced' split).2 (by decide) (by decide)⟩

/-- One `_` stands for `İ`, but not for the two characters that it folds to. -/
theorem ignoring_case_loses_wide :
    (compile "_" false).accepts "İ" = true ∧ (compile "_" true).accepts "İ" = false := by
  decide

end LikePattern

end RecordQuery
