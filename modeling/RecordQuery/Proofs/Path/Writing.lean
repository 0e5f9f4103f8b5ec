import RecordQuery.Proofs.Path.Grammar
/-! Paths built from their segments, and that reading their text gives the segments back. Each segment is written as a
part of the grammar, and what follows a name begins with a dot or an opening, so that no part runs on into the next. -/

namespace RecordQuery

/-- Segments that have a text of their own: names of name characters, and keys without the quote that is put around
them. -/
def Segment.Writable : Segment → Prop
  | .name n => IsName n.toList
  | .index _ => True
  | .key k => '\'' ∉ k.toList

instance (chars : List Char) : Decidable (IsName chars) :=
  decidable_of_iff (chars ≠ [] ∧ chars.all isNameChar = true)
    ⟨fun ⟨nonempty, all⟩ => ⟨nonempty, List.all_eq_true.mp all⟩, fun isName =>
      ⟨isName.nonempty, List.all_eq_true.mpr isName.all⟩⟩

instance : (segment : Segment) → Decidable segment.Writable
  | .name n => inferInstanceAs (Decidable (IsName n.toList))
  | .index _ => .isTrue trivial
  | .key k => inferInstanceAs (Decidable ('\'' ∉ k.toList))

/-! Integers. -/

theorem isDigits_toDigits (n : Nat) : IsDigits (Nat.toDigits 10 n) :=
  ⟨Nat.toDigits_ne_nil, fun _ member => Nat.isDigit_of_mem_toDigits (by decide) (by decide) member⟩

theorem decimal_toDigits (n : Nat) : decimal (Nat.toDigits 10 n) = n := Nat.ofDigitChars_ten_toDigits

/-- The text of an integer writes it. -/
theorem writesInteger_toString (n : Int) : WritesInteger (toString n).toList n := by
  rw [Int.toString_eq_repr, Int.repr_eq_if]
  by_cases nonnegative : 0 ≤ n
  · rw [if_pos nonnegative, Nat.toList_repr]
    have written := WritesInteger.plain (isDigits_toDigits n.toNat)
    rwa [decimal_toDigits, Int.toNat_of_nonneg nonnegative] at written
  · rw [if_neg nonnegative, String.toList_append, Nat.toList_repr]
    have written := WritesInteger.minus (isDigits_toDigits (-n).toNat)
    rwa [decimal_toDigits, Int.toNat_of_nonneg (by omega), Int.neg_neg] at written

theorem WritesInteger.ne_nil {chars : List Char} {n : Int} (writes : WritesInteger chars n) : chars ≠ [] := by
  cases writes with
  | plain isDigits => exact isDigits.nonempty
  | plus => exact List.cons_ne_nil _ _
  | minus => exact List.cons_ne_nil _ _

/-- Digits and signs alone write integers. -/
theorem WritesInteger.digit_or_sign {chars : List Char} {n : Int} (writes : WritesInteger chars n) :
    ∀ c ∈ chars, c.isDigit = true ∨ c = '+' ∨ c = '-' := by
  intro c member
  cases writes with
  | plain isDigits => exact .inl (isDigits.all c member)
  | plus isDigits =>
    rcases List.mem_cons.mp member with sign | digit
    · exact .inr (.inl sign)
    · exact .inl (isDigits.all c digit)
  | minus isDigits =>
    rcases List.mem_cons.mp member with sign | digit
    · exact .inr (.inr sign)
    · exact .inl (isDigits.all c digit)

/-- What stands in an integer is no blank, opens no quoted key and closes no bracket. -/
theorem WritesInteger.bare {chars : List Char} {n : Int} (writes : WritesInteger chars n) :
    ∀ c ∈ chars, isBlank c = false ∧ ¬IsQuote c ∧ c ≠ ']' := by
  intro c member
  rcases writes.digit_or_sign c member with digit | rfl | rfl
  · have ascii : c.toNat < 128 := Nat.lt_of_le_of_lt (Char.isDigit_iff_toNat.mp digit).2 (by decide)
    have named : isNameChar c = true := by simp [isNameChar, isAlphanumeric, Char.isAlphanum, ascii, digit]
    refine ⟨isBlank_of_isNameChar named, ?_, ?_⟩
    · rintro (rfl | rfl) <;> cases digit
    · rintro rfl
      cases digit
  · exact ⟨rfl, by simp [IsQuote], by decide⟩
  · exact ⟨rfl, by simp [IsQuote], by decide⟩

/-! Single segments. -/

/-- An index in brackets is a bare literal, also the least and with its sign. -/
theorem bracket_index (i : Int64) : Bracket (Segment.index i).text.toList (.index i) := by
  have writes := writesInteger_toString i.toInt
  have bracket := @Bracket.bare [] (toString i.toInt).toList [] (.index i) nofun nofun writes.ne_nil
    (fun c head => (writes.bare c (List.mem_of_mem_head? head)).1)
    (fun c last => (writes.bare c (List.mem_of_mem_getLast? last)).1)
    (fun c head => (writes.bare c (List.mem_of_mem_head? head)).2.1)
    (fun closing => (writes.bare ']' closing).2.2 rfl) (.index writes)
  simpa [Segment.text] using bracket

/-- A key in brackets is quoted, whatever else it holds. -/
theorem bracket_key {key : String} (inside : '\'' ∉ key.toList) :
    Bracket (Segment.key key).text.toList (.key key) := by
  have bracket := @Bracket.quoted '\'' [] key.toList [] (.inl rfl) nofun inside nofun
  simpa [Segment.text] using bracket

theorem Segment.Writable.bracket {segment : Segment} (writable : segment.Writable)
    (bracketed : segment.isBracket = true) : Bracket segment.text.toList segment := by
  cases segment with
  | name name => cases bracketed
  | index i => exact bracket_index i
  | key key => exact bracket_key writable

/-! What follows a first segment. -/

theorem continuationText_name (name : String) (segments : List Segment) :
    (continuationText (.name name :: segments)).toList =
      '.' :: (name.toList ++ (continuationText segments).toList) := by
  simp [continuationText, Segment.isBracket, Segment.text]

theorem continuationText_bracket {segment : Segment} (bracketed : segment.isBracket = true) (segments : List Segment) :
    (continuationText (segment :: segments)).toList = segment.text.toList ++ (continuationText segments).toList := by
  simp [continuationText, bracketed]

theorem head?_continuationText (segments : List Segment) :
    ∀ c ∈ (continuationText segments).toList.head?, c = '.' ∨ c = '[' := by
  intro c head
  cases segments with
  | nil => cases head
  | cons segment segments =>
    cases segment with
    | name name =>
      rw [continuationText_name] at head
      exact .inl (Option.some.inj head).symm
    | index _ | key _ =>
      rw [continuationText_bracket rfl] at head
      have opened : '[' = c := by simpa [Segment.text] using head
      exact .inr opened.symm

/-- No name goes on in what is written behind it. -/
theorem endsName_continuationText (segments : List Segment) : EndsName (continuationText segments).toList := by
  intro c head
  rcases head?_continuationText segments c head with rfl | rfl <;> decide +kernel

/-- What is written behind a first segment continues it. -/
theorem continuation_continuationText {segments : List Segment} (writable : ∀ segment ∈ segments, segment.Writable) :
    Continuation (continuationText segments).toList segments := by
  induction segments with
  | nil => exact .done nofun
  | cons segment segments ih =>
    obtain ⟨own, others⟩ := List.forall_mem_cons.mp writable
    cases segment with
    | name name =>
      have path := @Continuation.name [] [] name.toList _ _ nofun nofun own (endsName_continuationText segments)
        (ih others)
      rw [String.ofList_toList] at path
      rw [continuationText_name]
      exact path
    | index _ | key _ =>
      rw [continuationText_bracket rfl]
      exact @Continuation.bracket [] _ _ _ _ nofun (own.bracket rfl) (ih others)

/-- The text of a path is one of the grammar, with the segments it was built from. -/
theorem pathText_ofSegments {segments : List Segment} (nonempty : segments ≠ [])
    (writable : ∀ segment ∈ segments, segment.Writable) :
    PathText (AccessorPath.ofSegments segments).text.toList segments := by
  obtain ⟨first, rest, rfl⟩ := List.exists_cons_of_ne_nil nonempty
  obtain ⟨own, others⟩ := List.forall_mem_cons.mp writable
  have onward := continuation_continuationText others
  rw [AccessorPath.ofSegments, String.toList_append]
  cases first with
  | name name =>
    have path := @PathText.name [] name.toList _ _ nofun own (endsName_continuationText rest) onward
    rwa [String.ofList_toList] at path
  | index _ | key _ => exact @PathText.bracket [] _ _ _ _ nofun (own.bracket rfl) onward

/-! Blanks around a text. -/

/-- Text with no blank at either end. -/
structure Unpadded (chars : List Char) : Prop where
  nonempty : chars ≠ []
  first : ∀ c ∈ chars.head?, isBlank c = false
  last : ∀ c ∈ chars.getLast?, isBlank c = false

theorem Unpadded.trim_eq {text : String} (unpadded : Unpadded text.toList) : trim text = text := by
  have trimmed := @trimBlanks_around [] text.toList [] nofun nofun unpadded.nonempty unpadded.first unpadded.last
  rw [List.nil_append, List.append_nil] at trimmed
  rw [trim, trimmed, String.ofList_toList]

theorem Unpadded.append {front back : List Char} (before : Unpadded front) (behind : Unpadded back) :
    Unpadded (front ++ back) where
  nonempty := List.append_ne_nil_of_left_ne_nil before.nonempty _
  first := by
    rw [List.head?_append_of_ne_nil _ before.nonempty]
    exact before.first
  last := by
    rw [List.getLast?_append_of_ne_nil _ behind.nonempty]
    exact behind.last

theorem IsName.unpadded {chars : List Char} (isName : IsName chars) : Unpadded chars where
  nonempty := isName.nonempty
  first c head := isBlank_of_isNameChar (isName.all c (List.mem_of_mem_head? head))
  last c last := isBlank_of_isNameChar (isName.all c (List.mem_of_mem_getLast? last))

theorem unpadded_dot : Unpadded ['.'] where
  nonempty := List.cons_ne_nil _ _
  first := by
    rintro c ⟨⟩
    rfl
  last := by
    rintro c ⟨⟩
    rfl

theorem unpadded_brackets (inner : List Char) : Unpadded ('[' :: (inner ++ [']'])) where
  nonempty := List.cons_ne_nil _ _
  first := by
    rintro c ⟨⟩
    rfl
  last := by
    intro c last
    rw [← List.cons_append, List.getLast?_concat] at last
    cases last
    rfl

theorem Bracket.unpadded {chars : List Char} {segment : Segment} (bracket : Bracket chars segment) :
    Unpadded chars := by
  cases bracket with
  | @quoted quote before key after =>
    simpa using unpadded_brackets (before ++ quote :: (key ++ quote :: after))
  | @bare before literal after => exact unpadded_brackets (before ++ literal ++ after)

theorem Segment.Writable.unpadded {segment : Segment} (writable : segment.Writable) :
    Unpadded segment.text.toList := by
  cases segment with
  | name name => exact IsName.unpadded writable
  | index _ | key _ => exact (writable.bracket rfl).unpadded

theorem Segment.Writable.unpadded_behind {segment : Segment} (writable : segment.Writable) :
    Unpadded ((if segment.isBracket then "" else ".") ++ segment.text).toList := by
  by_cases bracketed : segment.isBracket = true
  · rw [if_pos bracketed, String.empty_append]
    exact writable.unpadded
  · rw [if_neg bracketed, String.toList_append]
    exact unpadded_dot.append writable.unpadded

/-- What continues a text leaves no blank at its end. -/
theorem Unpadded.continued {segments : List Segment} (writable : ∀ segment ∈ segments, segment.Writable)
    {front : List Char} (unpadded : Unpadded front) : Unpadded (front ++ (continuationText segments).toList) := by
  induction segments generalizing front with
  | nil =>
    rw [continuationText, String.toList_empty, List.append_nil]
    exact unpadded
  | cons segment segments ih =>
    obtain ⟨own, others⟩ := List.forall_mem_cons.mp writable
    rw [continuationText, String.toList_append, ← List.append_assoc]
    exact ih others (unpadded.append own.unpadded_behind)

/-- A path that is built from segments is read back from its text as it was built. -/
theorem AccessorPath.parse_text_ofSegments {segments : List Segment} (nonempty : segments ≠ [])
    (writable : ∀ segment ∈ segments, segment.Writable) :
    AccessorPath.parse (AccessorPath.ofSegments segments).text =
      .ok { text := (AccessorPath.ofSegments segments).text, segments } := by
  obtain ⟨first, rest, rfl⟩ := List.exists_cons_of_ne_nil nonempty
  obtain ⟨own, others⟩ := List.forall_mem_cons.mp writable
  have unpadded : Unpadded (AccessorPath.ofSegments (first :: rest)).text.toList := by
    rw [AccessorPath.ofSegments, String.toList_append]
    exact own.unpadded.continued others
  rw [AccessorPath.parse, readSegments_complete (pathText_ofSegments nonempty writable), unpadded.trim_eq]

/-- Signs and digits, a key that would read as an index without its quotes, an empty one, and one with a closing. -/
theorem AccessorPath.parse_text_ofSegments_mixed :
    AccessorPath.parse "_größe[-9223372036854775808]['12'][''].$x['a ] b'][0]" =
      .ok { text := "_größe[-9223372036854775808]['12'][''].$x['a ] b'][0]"
            segments := [.name "_größe", .index Int64.minValue, .key "12", .key "", .name "$x", .key "a ] b",
              .index 0] } := by
  exact @AccessorPath.parse_text_ofSegments [.name "_größe", .index Int64.minValue, .key "12", .key "", .name "$x",
    .key "a ] b", .index 0] (List.cons_ne_nil _ _) (by decide +kernel)

end RecordQuery
