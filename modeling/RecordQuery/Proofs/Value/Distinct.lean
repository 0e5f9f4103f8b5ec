import Mathlib.Data.List.Induction
import RecordQuery.Proofs.Value.Equality
/-! Lists without repetitions. Equality of values without records is an equivalence, so a value that equals one before
it also equals one that stays: which values stay never depends on which ones were looked at. -/

namespace RecordQuery

/-- The values that equal none of those before them, whether these stay or not. -/
def firstOccurrences (items : List Value) : List Value :=
  (items.zipIdx.filter fun (item, place) => (items.take place).all fun earlier => !item.equal earlier).map (·.1)

/-! One more value at the end. -/

private theorem scan_concat (same : Value → Value → Bool) (items seen : List Value) (item : Value) :
    List.eraseDupsBy.loop same (items ++ [item]) seen =
      if (List.eraseDupsBy.loop same items seen).any (same item) then List.eraseDupsBy.loop same items seen
      else List.eraseDupsBy.loop same items seen ++ [item] := by
  induction items generalizing seen with
  | nil => cases repeated : seen.any (same item) <;> simp [List.eraseDupsBy.loop, repeated]
  | cons first rest ih => cases repeated : seen.any (same first) <;> simp [List.eraseDupsBy.loop, repeated, ih]

/-- A value stays unless it equals one that stays. -/
theorem distinct_concat (items : List Value) (item : Value) :
    distinct (items ++ [item]) =
      if (distinct items).any item.equal then distinct items else distinct items ++ [item] := by
  rw [distinct_eq, distinct_eq]
  exact scan_concat Value.equal items [] item

theorem firstOccurrences_concat (items : List Value) (item : Value) :
    firstOccurrences (items ++ [item]) =
      if items.any item.equal then firstOccurrences items else firstOccurrences items ++ [item] := by
  have before : (items.zipIdx.filter fun (found, place) =>
      ((items ++ [item]).take place).all fun earlier => !found.equal earlier) =
      items.zipIdx.filter fun (found, place) => (items.take place).all fun earlier => !found.equal earlier := by
    apply List.filter_congr
    intro ⟨found, place⟩ listed
    have inside : place < items.length := by simpa using List.snd_lt_of_mem_zipIdx listed
    simp only [List.take_append_of_le_length (Nat.le_of_lt inside)]
  unfold firstOccurrences
  rw [List.zipIdx_append, List.filter_append, before, List.map_append]
  cases repeated : items.any item.equal <;> simp_all

/-! What stays of a list. -/

theorem distinct_sublist (items : List Value) : (distinct items).Sublist items := by
  induction items using List.reverseRecOn with
  | nil => rw [distinct_eq]; exact List.Sublist.refl []
  | append_singleton items item ih =>
    rw [distinct_concat]
    split
    · exact ih.trans (List.sublist_append_left items [item])
    · exact ih.append (List.Sublist.refl [item])

/-- No value that stays equals an earlier one. -/
theorem pairwise_distinct (items : List Value) : (distinct items).Pairwise fun a b => b.equal a = false := by
  induction items using List.reverseRecOn with
  | nil => rw [distinct_eq]; exact List.Pairwise.nil
  | append_singleton items item ih =>
    rw [distinct_concat]
    split
    · exact ih
    · next fresh =>
      apply List.pairwise_append.mpr
      refine ⟨ih, List.pairwise_singleton _ item, ?_⟩
      intro kept stays last final
      rw [List.mem_singleton.mp final]
      simpa using fun equal => fresh (List.any_eq_true.mpr ⟨kept, stays, equal⟩)

/-- A list without repetitions stays as it is. -/
theorem distinct_of_pairwise {items : List Value} (apart : items.Pairwise fun a b => b.equal a = false) :
    distinct items = items := by
  induction items using List.reverseRecOn with
  | nil => exact distinct_eq []
  | append_singleton items item ih =>
    obtain ⟨earlier, -, last⟩ := List.pairwise_append.mp apart
    have fresh : ¬items.any item.equal = true := by
      intro repeated
      obtain ⟨kept, stays, equal⟩ := List.any_eq_true.mp repeated
      rw [last kept stays item (List.mem_singleton_self item)] at equal
      cases equal
    rw [distinct_concat, ih earlier, if_neg fresh]

section Plain

variable {items : List Value} (plain : ∀ item ∈ items, item.records = [])
include plain

/-- Looking for a value among those that stay finds what looking among all would find. -/
theorem any_distinct {item : Value} (own : item.records = []) :
    (distinct items).any item.equal = items.any item.equal := by
  induction items using List.reverseRecOn with
  | nil => rw [distinct_eq]; rfl
  | append_singleton items last ih =>
    obtain ⟨others, single⟩ := List.forall_mem_append.mp plain
    have found := ih others
    rw [distinct_concat]
    split
    · next repeated =>
      rw [found, List.any_append, List.any_cons, List.any_nil, Bool.or_false]
      -- What equals the value that goes equals the one that it goes for.
      cases equal : item.equal last with
      | false => rw [Bool.or_false]
      | true =>
        obtain ⟨kept, stays, same⟩ := List.any_eq_true.mp repeated
        have listed : kept ∈ items := (distinct_sublist items).subset stays
        have through : item.equal kept = true :=
          Value.equal_trans own (single last (List.mem_singleton_self last)) (others kept listed) equal same
        rw [Bool.or_true]
        exact List.any_eq_true.mpr ⟨kept, listed, through⟩
    · rw [List.any_append, List.any_append, found]

theorem distinct_eq_firstOccurrences : distinct items = firstOccurrences items := by
  induction items using List.reverseRecOn with
  | nil => exact distinct_eq []
  | append_singleton items item ih =>
    obtain ⟨others, single⟩ := List.forall_mem_append.mp plain
    have own : item.records = [] := single item (List.mem_singleton_self item)
    rw [distinct_concat, firstOccurrences_concat, any_distinct others own, ih others]

theorem exists_distinct {item : Value} (listed : item ∈ items) : ∃ kept ∈ distinct items, item.equal kept = true := by
  have own : item.records = [] := plain item listed
  apply List.any_eq_true.mp
  rw [any_distinct plain own]
  exact List.any_eq_true.mpr ⟨item, listed, Value.equal_refl own⟩

/-- Of values without records those stay that equal none before them: no two that stay are equal, every value equals
one that stays, and once more changes nothing. -/
theorem distinct_keeps_firsts :
    distinct items = firstOccurrences items ∧ (distinct items).Sublist items ∧
      ((distinct items).Pairwise fun a b => a.equal b = false) ∧
      (∀ item ∈ items, ∃ kept ∈ distinct items, item.equal kept = true) ∧
      distinct (distinct items) = distinct items := by
  have apart := pairwise_distinct items
  have kept : ∀ item ∈ distinct items, item.records = [] :=
    fun item stays => plain item ((distinct_sublist items).subset stays)
  refine ⟨distinct_eq_firstOccurrences plain, distinct_sublist items, ?_, ?_, distinct_of_pairwise apart⟩
  · apply apart.imp_of_mem
    intro a b first second differ
    rw [Value.equal_comm (kept a first) (kept b second), differ]
  · intro item listed
    exact exists_distinct plain listed

end Plain

/-- Two and one in three widths, alone and in lists. -/
theorem distinct_keeps_firsts_across_widths :
    let items : List Value :=
      [.int32 2, .float64 .one, .int64 2, .list [.int32 1, .null], .int32 1, .list [.float64 .one, .null]]
    (∀ item ∈ items, item.records = []) ∧ distinct items = [.int32 2, .float64 .one, .list [.int32 1, .null]] ∧
      ((distinct items).Pairwise fun a b => a.equal b = false) ∧
      (∀ item ∈ items, ∃ kept ∈ distinct items, item.equal kept = true) ∧
      distinct (distinct items) = distinct items := by
  intro items
  have plain : ∀ item ∈ items, item.records = [] := by simp [items, Value.records, recordsOfItems]
  obtain ⟨firsts, -, rest⟩ := distinct_keeps_firsts plain
  exact ⟨plain, firsts.trans rfl, rest⟩

end RecordQuery
