import RecordQuery.Proofs.Meaning.Words
/-! What the words of an expression leave open, and a grammar settles: which operands a sign has, and what literal, path
or variable a word stands for. Expressions that one grammar reads are the same if their words are. -/

namespace RecordQuery

/-- The word that closes what stands behind this one. -/
def Word.closing? : Word → Option Word
  | call _ | new _ | sign (.among ..) => some close
  | sign (.between _) => some (sign (.logical .and))
  | _ => none

theorem Word.closing_cases {word closing : Word} (closed : word.closing? = some closing) :
    closing = .close ∨ closing = .sign (.logical .and) ∧ ∃ negated, word = .sign (.between negated) := by
  unfold Word.closing? at closed
  split at closed
  · cases closed
    exact .inl rfl
  · cases closed
    exact .inl rfl
  · cases closed
    exact .inl rfl
  · next negated =>
    cases closed
    exact .inr ⟨rfl, negated, rfl⟩
  · cases closed

/-- A word with the expressions that stand between it and the word that closes it. -/
structure Phrase where
  head : Word
  enclosed : List Expr

namespace Phrase

def words (phrase : Phrase) : List Word :=
  phrase.head :: match phrase.head.closing? with
    | none => []
    | some closing => List.intercalate [.comma] (wordLists phrase.enclosed) ++ [closing]

def sign? (phrase : Phrase) : Option Sign :=
  match phrase.head with
  | .sign sign => some sign
  | _ => none

end Phrase

/-! Expressions taken apart at the sign outside all others. -/

namespace Expr

/-- The operand before the outermost sign. -/
def left : Expr → Option Expr
  | arithmetic _ left _ | compare _ _ left _ | logical _ left _ | isNull _ left | between _ left _ _
  | like _ _ left _ | among _ _ _ _ left _ => some left
  | _ => none

/-- The operand behind the outermost sign. -/
def right : Expr → Option Expr
  | arithmetic _ _ right | compare _ _ _ right | logical _ _ right | negate right | not right | between _ _ _ right
  | like _ _ _ right => some right
  | _ => none

/-- The outermost sign, or the word that an expression without one begins with. -/
def head : Expr → Word
  | arithmetic op _ _ => .sign (.arithmetic op)
  | compare op ignoreCase _ _ => .sign (.compare op ignoreCase)
  | negate _ => .sign .minus
  | not _ => .sign .not
  | logical op _ _ => .sign (.logical op)
  | isNull negated _ => .sign (.isNull negated)
  | between negated _ _ _ => .sign (.between negated)
  | like negated ignoreCase _ _ => .sign (.like negated ignoreCase)
  | among negated ignoreCase patterns all _ _ => .sign (.among negated ignoreCase patterns all)
  | call name _ => .call name
  | construct typeName _ [] => .new typeName
  | whole => .operand whole.meaning.text

def enclosed : Expr → List Expr
  | between _ _ lower _ => [lower]
  | among _ _ _ _ _ items => items
  | call _ arguments | construct _ arguments [] => arguments
  | _ => []

/-- The outermost sign with what it encloses. -/
def phrase (expression : Expr) : Phrase := ⟨expression.head, expression.enclosed⟩

/-- The phrases outside all brackets, from left to right. -/
def phrases : Expr → List Phrase
  | whole@(arithmetic _ left right) | whole@(compare _ _ left right) | whole@(logical _ left right)
  | whole@(between _ left _ right) | whole@(like _ _ left right) => left.phrases ++ whole.phrase :: right.phrases
  | whole@(negate right) | whole@(not right) => whole.phrase :: right.phrases
  | whole@(isNull _ left) | whole@(among _ _ _ _ left _) => left.phrases ++ [whole.phrase]
  | whole => [whole.phrase]
termination_by structural expression => expression

/-- The signs outside all brackets, from left to right. -/
def signs (expression : Expr) : List Sign := expression.phrases.filterMap Phrase.sign?

theorem phrases_eq (expression : Expr) :
    expression.phrases = expression.left.toList.flatMap phrases ++
      expression.phrase :: expression.right.toList.flatMap phrases := by
  cases expression <;>
    simp only [phrases, left, right, Option.toList_some, Option.toList_none, List.flatMap_cons, List.flatMap_nil,
      List.append_nil, List.nil_append]

theorem phrases_ne_nil (expression : Expr) : expression.phrases ≠ [] := by
  rw [phrases_eq]
  exact List.append_ne_nil_of_right_ne_nil _ (List.cons_ne_nil _ _)

theorem words_sides (expression : Expr) :
    expression.words = expression.left.toList.flatMap words ++
      (expression.phrase.words ++ expression.right.toList.flatMap words) := by
  cases expression with
  | construct _ _ setters =>
    cases setters with
    | nil => exact (List.append_nil _).symm
    | cons _ _ => rfl
  | _ =>
    simp only [words, wordLists, left, right, phrase, head, enclosed, Phrase.words, Word.closing?, Option.toList_some,
      Option.toList_none, List.flatMap_cons, List.flatMap_nil, List.append_nil, List.nil_append, List.cons_append,
      List.append_assoc, List.intercalate_singleton]

theorem mem_parts_of_side {expression side : Expr} (found : side ∈ expression.left ∨ side ∈ expression.right) :
    side ∈ expression.parts.map (·.2) := by
  rcases found with found | found <;> cases expression <;> cases found <;> simp [parts]

theorem words_eq_phrases (expression : Expr) : expression.words = expression.phrases.flatMap Phrase.words := by
  induction expression using byParts with
  | whole expression ih =>
    have sides {side : Option Expr} (own : ∀ operand ∈ side, operand ∈ expression.left ∨ operand ∈ expression.right) :
        side.toList.flatMap words = (side.toList.flatMap phrases).flatMap Phrase.words := by
      rw [List.flatMap_assoc]
      refine List.flatMap_congr fun operand found => ?_
      obtain ⟨part, member, rfl⟩ := List.mem_map.mp (mem_parts_of_side (own operand (Option.mem_toList.mp found)))
      exact ih part member
    rw [words_sides, phrases_eq, List.flatMap_append, List.flatMap_cons, sides fun _ => .inl, sides fun _ => .inr]

theorem head_of_left {expression left : Expr} (found : left ∈ expression.left) :
    ∃ sign, expression.head = .sign sign ∧ sign.isLeading = false := by
  cases expression <;> first | exact ⟨_, rfl, rfl⟩ | cases found

theorem head_of_right {expression right : Expr} (found : right ∈ expression.right) :
    ∃ sign, expression.head = .sign sign := by
  cases expression <;> first | exact ⟨_, rfl⟩ | cases found

theorem head_ne_comma (expression : Expr) : expression.head ≠ .comma := by
  cases expression with
  | construct _ _ setters => cases setters <;> exact Word.noConfusion
  | _ => exact Word.noConfusion

theorem head_ne_close (expression : Expr) : expression.head ≠ .close := by
  cases expression with
  | construct _ _ setters => cases setters <;> exact Word.noConfusion
  | _ => exact Word.noConfusion

/-- Only behind a word that another one closes is something enclosed. -/
theorem enclosed_of_closing {expression : Expr} (unclosed : expression.head.closing? = none) :
    expression.enclosed = [] := by
  cases expression with
  | between _ _ _ _ | among _ _ _ _ _ _ | call _ _ => cases unclosed
  | construct _ _ setters =>
    cases setters with
    | nil => cases unclosed
    | cons _ _ => rfl
  | _ => rfl

end Expr

/-- Two ways to take a list apart at an item are one, or each item stands beside the other. -/
theorem aligned_or_shifted {α : Type} {before behind otherBefore otherBehind : List α} {item other : α}
    (same : before ++ item :: behind = otherBefore ++ other :: otherBehind) :
    (before = otherBefore ∧ item = other ∧ behind = otherBehind) ∨
      (item ∈ otherBefore ∧ other ∈ behind) ∨ (other ∈ before ∧ item ∈ otherBehind) := by
  rcases List.append_eq_append_iff.mp same with ⟨inside, rfl, rest⟩ | ⟨inside, rfl, rest⟩
  · cases inside with
    | nil => exact .inl ⟨(List.append_nil _).symm, List.cons.inj rest⟩
    | cons first inside =>
      obtain ⟨rfl, rfl⟩ := List.cons.inj rest
      exact .inr (.inl ⟨by simp, by simp⟩)
  · cases inside with
    | nil => exact .inl ⟨List.append_nil _, List.cons.inj rest.symm⟩
    | cons first inside =>
      obtain ⟨rfl, rfl⟩ := List.cons.inj rest
      exact .inr (.inr ⟨by simp, by simp⟩)

/-- How expressions are read from words. -/
structure Grammar where
  /-- Whether the operand behind a sign reaches past a later sign, as it does past one that binds more tightly. -/
  reaches : Sign → Sign → Bool
  /-- The literal, path or variable of a word. -/
  operand : String → Expr

namespace Grammar

/-- The expression with an outermost phrase and the operands beside it. -/
def assemble (grammar : Grammar) (left : Option Expr) (phrase : Phrase) (right : Option Expr) : Option Expr :=
  match phrase.head, left, phrase.enclosed, right with
  | .operand text, none, [], none => some (grammar.operand text)
  | .call name, none, arguments, none => some (.call name arguments)
  | .new typeName, none, arguments, none => some (.construct typeName arguments [])
  | .sign .minus, none, [], some operand => some (.negate operand)
  | .sign .not, none, [], some operand => some (.not operand)
  | .sign (.arithmetic op), some left, [], some right => some (.arithmetic op left right)
  | .sign (.compare op ignoreCase), some left, [], some right => some (.compare op ignoreCase left right)
  | .sign (.logical op), some left, [], some right => some (.logical op left right)
  | .sign (.isNull negated), some operand, [], none => some (.isNull negated operand)
  | .sign (.between negated), some subject, [lower], some upper => some (.between negated subject lower upper)
  | .sign (.like negated ignoreCase), some subject, [], some pattern => some (.like negated ignoreCase subject pattern)
  | .sign (.among negated ignoreCase patterns all), some subject, items, none =>
    some (.among negated ignoreCase patterns all subject items)
  | _, _, _, _ => none

/-- Whether a grammar reads an expression back from its words: no sign in the operand before a sign reaches past it, and
it reaches past every sign behind an operand in the one that follows it. An `AND` closes the nearest `BETWEEN`. -/
inductive Reads (grammar : Grammar) : Expr → Prop where
  | whole {expression : Expr}
      (operand : ∀ text, expression.head = .operand text → grammar.operand text = expression)
      (left : ∀ side ∈ expression.left, grammar.Reads side)
      (right : ∀ side ∈ expression.right, grammar.Reads side)
      (enclosed : ∀ inner ∈ expression.enclosed, grammar.Reads inner)
      (before : ∀ sign, expression.head = .sign sign → ∀ side ∈ expression.left, ∀ inner ∈ side.signs,
        grammar.reaches inner sign = false)
      (behind : ∀ sign, expression.head = .sign sign → ∀ side ∈ expression.right, ∀ inner ∈ side.signs,
        inner.isLeading = false → grammar.reaches sign inner = true)
      (range : ∀ negated, expression.head = .sign (.between negated) → ∀ lower ∈ expression.enclosed,
        .logical .and ∉ lower.signs) : grammar.Reads expression

variable {grammar : Grammar} {expression other : Expr}

theorem Reads.operand (reads : grammar.Reads expression) :
    ∀ text, expression.head = .operand text → grammar.operand text = expression := by
  cases reads
  assumption

/-- An expression is put together again from its parts. -/
theorem Reads.assemble_eq (reads : grammar.Reads expression) :
    grammar.assemble expression.left expression.phrase expression.right = some expression := by
  have operand := reads.operand
  cases expression with
  | constant _ | member _ | bind _ _ | save _ _ | subquery _ => exact congrArg some (operand _ rfl)
  | construct _ _ setters =>
    cases setters with
    | nil => rfl
    | cons _ _ => exact congrArg some (operand _ rfl)
  | _ => rfl

/-- Every phrase outside all brackets is the outermost one of an expression that is read. -/
theorem Reads.of_phrase (reads : grammar.Reads expression) :
    ∀ phrase ∈ expression.phrases, ∃ own, grammar.Reads own ∧ own.phrase = phrase := by
  induction reads with
  | @whole expression operand left right enclosed before behind range ihLeft ihRight _ =>
    intro phrase member
    rw [Expr.phrases_eq, List.mem_append, List.mem_cons, List.mem_flatMap, List.mem_flatMap] at member
    rcases member with ⟨side, found, inside⟩ | same | ⟨side, found, inside⟩
    · exact ihLeft side (Option.mem_toList.mp found) phrase inside
    · exact ⟨expression, .whole operand left right enclosed before behind range, same.symm⟩
    · exact ihRight side (Option.mem_toList.mp found) phrase inside

/-- Operands of the same phrases, if they tell the expressions with these phrases. -/
theorem sides_eq {side otherSide : Option Expr}
    (told : ∀ own ∈ side, ∀ other ∈ otherSide, own.phrases = other.phrases → own = other)
    (same : side.toList.flatMap Expr.phrases = otherSide.toList.flatMap Expr.phrases) : side = otherSide := by
  cases side with
  | none =>
    cases otherSide with
    | none => rfl
    | some other => exact absurd (by simpa using same.symm) other.phrases_ne_nil
  | some own =>
    cases otherSide with
    | none => exact absurd (by simpa using same) own.phrases_ne_nil
    | some other => rw [told own rfl other rfl (by simpa using same)]

theorem mem_signs {side : Expr} {sign : Sign} {phrase : Phrase} (member : phrase ∈ side.phrases)
    (head : phrase.head = .sign sign) : sign ∈ side.signs :=
  List.mem_filterMap.mpr ⟨phrase, member, by rw [Phrase.sign?, head]⟩

/-- The outermost sign of one expression does not stand in the first operand of another one, whose outermost sign stands
in its second operand. -/
theorem Reads.not_shifted (reads : grammar.Reads expression) (otherReads : grammar.Reads other)
    (early : expression.phrase ∈ other.left.toList.flatMap Expr.phrases)
    (late : other.phrase ∈ expression.right.toList.flatMap Expr.phrases) : False := by
  obtain ⟨first, firstFound, early⟩ := List.mem_flatMap.mp early
  obtain ⟨second, secondFound, late⟩ := List.mem_flatMap.mp late
  rw [Option.mem_toList] at firstFound secondFound
  obtain ⟨sign, head⟩ := Expr.head_of_right secondFound
  obtain ⟨otherSign, otherHead, follows⟩ := Expr.head_of_left firstFound
  cases reads with
  | whole _ _ _ _ _ behind _ =>
    cases otherReads with
    | whole _ _ _ _ before _ _ =>
      have reaches := behind sign head second secondFound otherSign (mem_signs late otherHead) follows
      have ends := before otherSign otherHead first firstFound sign (mem_signs early head)
      rw [reaches] at ends
      cases ends

/-- An expression that is read is told by its phrases, since their signs tell which of them is the outermost. -/
theorem Reads.eq_of_phrases (reads : grammar.Reads expression) (otherReads : grammar.Reads other)
    (same : expression.phrases = other.phrases) : expression = other := by
  induction reads generalizing other with
  | @whole expression operand left right enclosed before behind range ihLeft ihRight _ =>
    have reads : grammar.Reads expression := .whole operand left right enclosed before behind range
    have assembled := reads.assemble_eq
    have otherAssembled := otherReads.assemble_eq
    rw [Expr.phrases_eq expression, Expr.phrases_eq other] at same
    rcases aligned_or_shifted same with ⟨sameLeft, samePhrase, sameRight⟩ | ⟨early, late⟩ | ⟨early, late⟩
    · cases otherReads with
      | whole _ otherLeft otherRight =>
        have leftEq :=
          sides_eq (fun own found other otherFound => ihLeft own found (otherLeft other otherFound)) sameLeft
        have rightEq :=
          sides_eq (fun own found other otherFound => ihRight own found (otherRight other otherFound)) sameRight
        rw [leftEq, samePhrase, rightEq, otherAssembled] at assembled
        exact (Option.some.inj assembled).symm
    · exact (reads.not_shifted otherReads early late).elim
    · exact (otherReads.not_shifted reads early late).elim

/-! Where the words of an expression end. -/

/-- Whether what follows begins, if it does, with one of some words. -/
def Stopped (stops : List Word) (rest : List Word) : Prop := ∀ word ∈ rest.head?, word ∈ stops

/-- An expression that is read, of whose phrases none begins with one of some words. -/
structure Fits (grammar : Grammar) (stops : List Word) (expression : Expr) : Prop where
  reads : grammar.Reads expression
  apart : ∀ phrase ∈ expression.phrases, phrase.head ∉ stops

/-- Expressions of fewer words than a number are told by their words, with whatever follows. -/
def Tells (grammar : Grammar) (n : Nat) : Prop :=
  ∀ ⦃stops expression other⦄, grammar.Fits stops expression → grammar.Fits stops other → expression.words.length < n →
    ∀ ⦃rest others⦄, Stopped stops rest → Stopped stops others → expression.words ++ rest = other.words ++ others →
      expression = other ∧ rest = others

/-- What stands between a word and the one that closes it goes on neither with that one nor with a comma. -/
theorem Reads.enclosed_fits {closing : Word} (reads : grammar.Reads expression)
    (closed : expression.head.closing? = some closing) :
    closing ≠ .comma ∧ ∀ inner ∈ expression.enclosed, grammar.Fits [.comma, closing] inner := by
  cases reads with
  | whole _ _ _ enclosed _ _ range =>
    have apart {inner : Expr} (found : inner ∈ expression.enclosed) {phrase : Phrase}
        (member : phrase ∈ inner.phrases) : phrase.head ≠ .comma ∧ phrase.head ≠ .close := by
      obtain ⟨own, -, rfl⟩ := (enclosed inner found).of_phrase phrase member
      exact ⟨own.head_ne_comma, own.head_ne_close⟩
    rcases Word.closing_cases closed with rfl | ⟨rfl, negated, between⟩
    · refine ⟨Word.noConfusion, fun inner found => ⟨enclosed inner found, fun phrase member => ?_⟩⟩
      simpa using apart found member
    · refine ⟨Word.noConfusion, fun inner found => ⟨enclosed inner found, fun phrase member => ?_⟩⟩
      have conjunction : phrase.head ≠ .sign (.logical .and) := fun head =>
        range negated between inner found (mem_signs member head)
      simpa using ⟨(apart found member).1, conjunction⟩

/-- The words of an expression begin with one of its phrases. -/
theorem head_words (expression : Expr) :
    ∃ phrase ∈ expression.phrases, ∃ rest, expression.words = phrase.head :: rest := by
  rw [expression.words_eq_phrases]
  cases found : expression.phrases with
  | nil => exact absurd found expression.phrases_ne_nil
  | cons phrase rest => exact ⟨phrase, List.mem_cons_self .., _, rfl⟩

theorem commas_cons (first : Expr) (others : List Expr) :
    List.intercalate [.comma] (wordLists (first :: others)) =
      first.words ++ others.flatMap fun item => .comma :: item.words := by
  induction others generalizing first with
  | nil => simp [wordLists]
  | cons second rest ih =>
    have tail := ih second
    simp only [wordLists, List.flatMap_cons, List.intercalate_cons_cons] at tail ⊢
    rw [tail]
    simp

/-- What a phrase encloses has fewer words. -/
theorem enclosed_shorter {phrase : Phrase} {closing : Word} (closed : phrase.head.closing? = some closing)
    {inner : Expr} (found : inner ∈ phrase.enclosed) : inner.words.length < phrase.words.length := by
  have part : inner.words.length ≤ (List.intercalate [.comma] (wordLists phrase.enclosed)).length := by
    cases items : phrase.enclosed with
    | nil => simp [items] at found
    | cons first others =>
      rw [commas_cons]
      rw [items, List.mem_cons] at found
      rcases found with rfl | later
      · exact (List.sublist_append_left ..).length_le
      · have piece := List.sublist_flatten_of_mem (List.mem_map_of_mem (f := fun item => .comma :: item.words) later)
        exact (((List.sublist_cons_self ..).trans piece).trans (List.sublist_append_right ..)).length_le
  simp only [Phrase.words, closed, List.length_cons, List.length_append, List.length_nil]
  omega

section Items

variable {n : Nat} {closing : Word} {items others : List Expr} {rest otherRest : List Word}

theorem stopped_tail (items : List Expr) (closing : Word) (rest : List Word) :
    Stopped [.comma, closing] ((items.flatMap fun item => .comma :: item.words) ++ closing :: rest) := by
  cases items <;> simp [Stopped]

/-- Items with a comma before each are told by their words. -/
theorem Tells.tail (tells : grammar.Tells n) (noComma : closing ≠ .comma)
    (fits : ∀ item ∈ items, grammar.Fits [.comma, closing] item) (short : ∀ item ∈ items, item.words.length < n)
    (othersFit : ∀ item ∈ others, grammar.Fits [.comma, closing] item)
    (same : (items.flatMap fun item => .comma :: item.words) ++ closing :: rest =
      (others.flatMap fun item => .comma :: item.words) ++ closing :: otherRest) :
    items = others ∧ rest = otherRest := by
  induction items generalizing others with
  | nil =>
    cases others with
    | nil => simpa using same
    | cons other others => exact absurd (List.cons.inj same).1 noComma
  | cons item items ih =>
    cases others with
    | nil => exact absurd (List.cons.inj same).1.symm noComma
    | cons other others =>
      obtain ⟨itemFits, itemsFit⟩ := List.forall_mem_cons.mp fits
      obtain ⟨otherFits, othersRest⟩ := List.forall_mem_cons.mp othersFit
      obtain ⟨itemShort, itemsShort⟩ := List.forall_mem_cons.mp short
      simp only [List.flatMap_cons, List.cons_append, List.append_assoc, List.cons.injEq, true_and] at same
      obtain ⟨rfl, tail⟩ := tells itemFits otherFits itemShort (stopped_tail _ _ _) (stopped_tail _ _ _) same
      obtain ⟨rfl, behind⟩ := ih itemsFit itemsShort othersRest tail
      exact ⟨rfl, behind⟩

/-- Items with commas between them are told by their words, up to the word that closes them. -/
theorem Tells.enclosed (tells : grammar.Tells n) (noComma : closing ≠ .comma)
    (fits : ∀ item ∈ items, grammar.Fits [.comma, closing] item) (short : ∀ item ∈ items, item.words.length < n)
    (othersFit : ∀ item ∈ others, grammar.Fits [.comma, closing] item)
    (same : List.intercalate [.comma] (wordLists items) ++ closing :: rest =
      List.intercalate [.comma] (wordLists others) ++ closing :: otherRest) :
    items = others ∧ rest = otherRest := by
  have begins {item : Expr} (fits : grammar.Fits [.comma, closing] item) (tail : List Word) (rest : List Word) :
      closing :: rest ≠ item.words ++ tail := by
    obtain ⟨phrase, member, words, split⟩ := head_words item
    rw [split, List.cons_append]
    intro same
    exact fits.apart phrase member (by simp [(List.cons.inj same).1])
  cases items with
  | nil =>
    cases others with
    | nil => simpa [wordLists] using same
    | cons other others =>
      rw [commas_cons, List.append_assoc] at same
      exact absurd same (begins (othersFit other (List.mem_cons_self ..)) _ _)
  | cons item items =>
    rw [commas_cons, List.append_assoc] at same
    obtain ⟨itemFits, itemsFit⟩ := List.forall_mem_cons.mp fits
    obtain ⟨itemShort, itemsShort⟩ := List.forall_mem_cons.mp short
    cases others with
    | nil => exact absurd same.symm (begins itemFits _ _)
    | cons other others =>
      rw [commas_cons, List.append_assoc] at same
      obtain ⟨otherFits, othersRest⟩ := List.forall_mem_cons.mp othersFit
      obtain ⟨rfl, tail⟩ := tells itemFits otherFits itemShort (stopped_tail _ _ _) (stopped_tail _ _ _) same
      obtain ⟨rfl, behind⟩ := tells.tail noComma itemsFit itemsShort othersRest tail
      exact ⟨rfl, behind⟩

end Items

/-- Phrases of expressions that are read are told by their words, up to a word with which none of them begins. -/
theorem Tells.phrases {n : Nat} (tells : grammar.Tells n) {stops : List Word} {phrases others : List Phrase}
    {rest otherRest : List Word}
    (own : ∀ phrase ∈ phrases, (∃ own, grammar.Reads own ∧ own.phrase = phrase) ∧ phrase.head ∉ stops)
    (short : ∀ phrase ∈ phrases, phrase.words.length ≤ n)
    (othersOwn : ∀ phrase ∈ others, (∃ own, grammar.Reads own ∧ own.phrase = phrase) ∧ phrase.head ∉ stops)
    (stopped : Stopped stops rest) (otherStopped : Stopped stops otherRest)
    (same : phrases.flatMap Phrase.words ++ rest = others.flatMap Phrase.words ++ otherRest) :
    phrases = others ∧ rest = otherRest := by
  have begins {phrase : Phrase} (apart : phrase.head ∉ stops) {tail rest : List Word} (stopped : Stopped stops rest) :
      rest ≠ phrase.words ++ tail := by
    rintro rfl
    exact apart (stopped _ rfl)
  induction phrases generalizing others with
  | nil =>
    cases others with
    | nil => exact ⟨rfl, same⟩
    | cons other others =>
      rw [List.flatMap_cons, List.append_assoc] at same
      exact absurd same (begins (othersOwn other (List.mem_cons_self ..)).2 stopped)
  | cons phrase phrases ih =>
    rw [List.flatMap_cons, List.append_assoc] at same
    obtain ⟨⟨⟨first, firstReads, rfl⟩, firstApart⟩, ownRest⟩ := List.forall_mem_cons.mp own
    obtain ⟨firstShort, shortRest⟩ := List.forall_mem_cons.mp short
    cases others with
    | nil => exact absurd same.symm (begins firstApart otherStopped)
    | cons other others =>
      rw [List.flatMap_cons, List.append_assoc] at same
      obtain ⟨⟨⟨second, secondReads, rfl⟩, -⟩, othersRest⟩ := List.forall_mem_cons.mp othersOwn
      simp only [Expr.phrase, Phrase.words, List.cons_append, List.cons.injEq] at same
      obtain ⟨head, behind⟩ := same
      -- The head tells which word closes it, and with it how far what it encloses goes.
      have sameEnclosed : first.enclosed = second.enclosed ∧
          phrases.flatMap Phrase.words ++ rest = others.flatMap Phrase.words ++ otherRest := by
        rw [← head] at behind
        cases closed : first.head.closing? with
        | none =>
          rw [first.enclosed_of_closing closed, second.enclosed_of_closing (head ▸ closed)]
          simpa only [closed, List.nil_append, true_and] using behind
        | some closing =>
          simp only [closed, List.append_assoc, List.singleton_append] at behind
          obtain ⟨noComma, firstFits⟩ := firstReads.enclosed_fits closed
          have secondFits := (secondReads.enclosed_fits (head ▸ closed)).2
          have innerShort (inner : Expr) (found : inner ∈ first.enclosed) : inner.words.length < n :=
            Nat.lt_of_lt_of_le (enclosed_shorter closed found) firstShort
          exact tells.enclosed noComma firstFits innerShort secondFits behind
      obtain ⟨rfl, after⟩ := ih ownRest shortRest othersRest sameEnclosed.2
      refine ⟨?_, after⟩
      rw [Expr.phrase, Expr.phrase, head, sameEnclosed.1]

theorem tells_all (grammar : Grammar) (n : Nat) : grammar.Tells n := by
  -- What phrases enclose is no part of the outermost operands, but has fewer words than the whole.
  induction n with
  | zero => exact fun _ _ _ _ _ short => absurd short (Nat.not_lt_zero _)
  | succ n ih =>
    intro stops expression other fits otherFits short rest others stopped otherStopped same
    rw [expression.words_eq_phrases, other.words_eq_phrases] at same
    have bounded : ∀ phrase ∈ expression.phrases, phrase.words.length ≤ n := fun phrase member => by
      have part := (List.sublist_flatten_of_mem (List.mem_map_of_mem (f := Phrase.words) member)).length_le
      rw [← List.flatMap_def, ← expression.words_eq_phrases] at part
      omega
    have own {whole : Expr} (fits : grammar.Fits stops whole) (phrase : Phrase) (member : phrase ∈ whole.phrases) :
        (∃ own, grammar.Reads own ∧ own.phrase = phrase) ∧ phrase.head ∉ stops :=
      ⟨fits.reads.of_phrase phrase member, fits.apart phrase member⟩
    have told := ih.phrases (own fits) bounded (own otherFits) stopped otherStopped same
    exact ⟨fits.reads.eq_of_phrases otherFits.reads told.1, told.2⟩

/-- Expressions that one grammar reads are the same if their words are. -/
theorem Reads.eq_of_words (reads : grammar.Reads expression) (otherReads : grammar.Reads other)
    (same : expression.words = other.words) : expression = other := by
  have fits {own : Expr} (reads : grammar.Reads own) : grammar.Fits [] own := ⟨reads, by simp⟩
  have nothing : Stopped [] [] := by simp [Stopped]
  exact (grammar.tells_all _ (fits reads) (fits otherReads) (Nat.lt_succ_self _) nothing nothing (by rw [same])).1

end Grammar

end RecordQuery
