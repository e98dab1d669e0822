import Mathlib.Data.List.TakeWhile
import ElixirReader.Proofs.Lexer.Numerals
import ElixirReader.Proofs.Quote.Segments

/-
  This file shows that integers denote their values: the tokens
  into which the lexer cuts an integer are put together again,
  the runs of its digits one behind the other, and read as the
  number with these digits in the base.

  Main declarations:
    * `IsInteger.numberForm?_eq`
    * `isPrimary_integer`
    * `quoteSource_integer`
-/

namespace ElixirReader

open Parse

variable {r : Radix}
variable {spaced : Bool}
variable {w : List Char}
variable {ls : List Lexeme}

------------------------------------------------------------
-- Values
------------------------------------------------------------

theorem partsText_eq
    (ls : List Lexeme) :
    (partsText ls).toList = ls.flatMap (·.text.toList) := by
  unfold partsText
  induction ls with
  | nil => rfl
  | cons l ls ih =>
      rw [List.map_cons, String.join_cons, String.toList_append, ih,
        List.flatMap_cons]

namespace AreDigits

/- Whatever tells digits from separators leaves the digits. -/
theorem partsText_filter
    {p : Lexeme → Bool}
    (hDigits : AreDigits r spaced w ls)
    (hPicks : ∀ l : Lexeme,
      (l.kind = .digits r → p l = true) ∧
        (l.kind = .separator → p l = false)) :
    (partsText (ls.filter p)).toList = numeralDigits w := by
  have hSame : ls.filter p = ls.filter (·.kind == .digits r) := by
    apply List.filter_congr
    intro l hMember
    rcases hDigits.kind l hMember with hKind | hKind
    · rw [(hPicks l).1 hKind, hKind, beq_self_eq_true]
    · rw [(hPicks l).2 hKind, hKind]
      rfl
  rw [partsText_eq, hSame, hDigits.text]

theorem ne_nil
    (hDigits : AreDigits r spaced w ls)
    (hNumeral : IsNumeral r w) :
    ls ≠ [] := by
  rintro rfl
  obtain ⟨c, hMember, hMark⟩ := hNumeral.digit
  have hDigit : c ∈ numeralDigits w :=
    List.mem_filter.mpr ⟨hMember, by simpa using hMark⟩
  rw [← hDigits.text] at hDigit
  cases hDigit

end AreDigits

/- Behind the mark of a base are digits of that base. -/
theorem of_letterKind?
    {kind : Kind}
    (hLetter : r.letterKind? = some kind) :
    letterBase? kind = some r.base ∧
      isBasedDigits (.digits r) = true ∧ kind.isNumberPart = true ∧
        kind.isFaulty = false := by
  cases r <;> cases hLetter <;> exact ⟨rfl, rfl, rfl, rfl⟩

/- The digits of an integer are its value. -/
theorem IsInteger.numberForm?_eq
    (hInteger : IsInteger w r ls)
    (hNumeral : IsNumeral r w) :
    numberForm? ls = some (.integer (numeralValue r w)) := by
  have hValue := hNumeral.integer?_eq
  cases hInteger with
  | bare spaced ls hDigits =>
      cases ls with
      | nil => exact absurd rfl (hDigits.ne_nil hNumeral)
      | cons l ls =>
          have hNoMark : l.kind ≠ .baseZero := by
            rcases hDigits.kind l List.mem_cons_self with
              hKind | hKind <;> rw [hKind] <;> exact Kind.noConfusion
          have hNoPoint :
              ¬ (l :: ls).any (·.kind == .decimalMark) = true := by
            rw [Bool.not_eq_true, List.any_eq_false]
            intro m hMember
            rcases hDigits.kind m hMember with hKind | hKind <;>
              rw [hKind] <;> decide
          have hText := hDigits.partsText_filter
            (p := (·.kind != .separator))
            (fun _ => ⟨fun hKind => by rw [hKind]; rfl,
              fun hKind => by rw [hKind]; rfl⟩)
          have hDecimal : numberForm? (l :: ls) =
              decimalForm? (l :: ls) :=
            if_neg hNoMark
          rw [hDecimal, decimalForm?, if_neg hNoPoint, hText]
          exact congrArg (Option.map Form.integer) hValue
  | marked r zero letter ls hZero hLetter _ hDigits =>
      obtain ⟨hBase, hBased, _⟩ := of_letterKind? hLetter
      have hText := hDigits.partsText_filter
        (p := (isBasedDigits ·.kind))
        (fun _ => ⟨fun hKind => by rw [hKind, hBased],
          fun hKind => by rw [hKind]; rfl⟩)
      have hForm : numberForm? (zero :: letter :: ls) =
          (letterBase? letter.kind).bind (basedForm? · ls) :=
        if_pos hZero
      rw [hForm, hBase, Option.bind_some, basedForm?, hText, hValue]
      rfl

------------------------------------------------------------
-- Literals
------------------------------------------------------------

/- The kinds that the first lexeme of a number may have. -/
def Kind.startsNumber : Kind → Bool
| digits .decimal => true
| baseZero => true
| separator => true
| _ => false

/- An integer is one number, and no part of it is faulty. -/
theorem IsInteger.parts
    (hInteger : IsInteger w r ls)
    (hNumeral : IsNumeral r w) :
    ∃ l more,
      ls = l :: more ∧ l.kind.startsNumber = true ∧
        (∀ m ∈ ls, m.kind.isNumberPart = true ∧
          m.kind.isFaulty = false) ∧
        ∀ m ∈ more, m.spaced = false := by
  cases hInteger with
  | bare spaced ls hDigits =>
      cases ls with
      | nil => exact absurd rfl (hDigits.ne_nil hNumeral)
      | cons l more =>
          refine ⟨l, more, rfl, ?_, ?_, hDigits.tail⟩
          · rcases hDigits.kind l List.mem_cons_self with
              hKind | hKind <;> rw [hKind] <;> rfl
          · intro m hMember
            rcases hDigits.kind m hMember with hKind | hKind <;>
              rw [hKind] <;> exact ⟨rfl, rfl⟩
  | marked r zero letter ls hZero hLetter hTouches hDigits =>
      obtain ⟨_, _, hPart, hSound⟩ := of_letterKind? hLetter
      refine ⟨zero, letter :: ls, rfl, by rw [hZero]; rfl, ?_, ?_⟩
      · simp only [List.forall_mem_cons]
        refine ⟨by rw [hZero]; exact ⟨rfl, rfl⟩, ⟨hPart, hSound⟩, ?_⟩
        intro m hMember
        rcases hDigits.kind m hMember with hKind | hKind <;>
          rw [hKind] <;> exact ⟨rfl, rfl⟩
      · rw [List.forall_mem_cons]
        exact ⟨hTouches, hDigits.touching⟩

/- Parts that touch each other are all of one number. -/
theorem numberParts_of_touching
    {l : Lexeme}
    {more : List Lexeme}
    (hParts : ∀ m ∈ l :: more, m.kind.isNumberPart = true)
    (hTouches : ∀ m ∈ more, m.spaced = false) :
    numberParts (l :: more) = l :: more := by
  rw [List.forall_mem_cons] at hParts
  have hAll : more.takeWhile
      (fun m => m.kind.isNumberPart && !m.spaced) = more := by
    apply List.takeWhile_eq_self_iff.mpr
    intro m hMember
    rw [hParts.2 m hMember, hTouches m hMember]
    rfl
  rw [numberParts, if_pos hParts.1, hAll]

theorem Kind.of_startsNumber
    {k : Kind}
    (hKind : k.startsNumber = true) :
    k.startsPrimary = true ∧ isSeparator k = false := by
  cases k with
  | digits r => exact ⟨rfl, rfl⟩
  | baseZero => exact ⟨rfl, rfl⟩
  | separator => exact ⟨rfl, rfl⟩
  | _ => cases hKind

theorem primaryAt_of_startsNumber
    {l : Lexeme}
    (expr : ExpressionParser)
    (context : Context)
    (hKind : l.kind.startsNumber = true) :
    primaryAt expr context l = number := by
  unfold primaryAt
  cases hEq : l.kind with
  | digits r => rfl
  | baseZero => rfl
  | separator => rfl
  | _ => rw [hEq] at hKind; cases hKind

/- An integer is read as its value. -/
theorem isPrimary_integer
    (m : Metadata)
    (hInteger : IsInteger w r ls)
    (hNumeral : IsNumeral r w) :
    IsPrimary m (.integer (numeralValue r w)) ls := by
  obtain ⟨l, more, rfl, hStarts, hParts, hTouches⟩ :=
    hInteger.parts hNumeral
  have hForm := hInteger.numberForm?_eq hNumeral
  have hOne : numberParts (l :: more) = l :: more :=
    numberParts_of_touching (fun m hMember => (hParts m hMember).1)
      hTouches
  have hSound : ¬ (l :: more).any (·.kind.isFaulty) = true := by
    rw [Bool.not_eq_true, List.any_eq_false]
    intro m hMember
    rw [(hParts m hMember).2]
    exact Bool.false_ne_true
  refine ⟨l, more, rfl, ?_, ?_, ?_⟩
  · exact (Kind.of_startsNumber hStarts).1
  · exact (Kind.of_startsNumber hStarts).2
  · intro expr
    refine ⟨⟨.integer (numeralValue r w), coveringSpan l more⟩, ?_,
      rfl⟩
    have hSkip : Steps (skip (more.length + 1)) (l :: more) [] () := by
      have hAll : (l :: more).drop (more.length + 1) = [] :=
        List.drop_length
      rw [← hAll]
      exact steps_skip (more.length + 1)
    rw [primaryAt_of_startsNumber expr _ hStarts]
    unfold number
    refine steps_rest.trans ?_
    rw [hOne]
    refine hSkip.trans ?_
    dsimp only
    rw [if_neg hSound, hForm]
    exact steps_pure _

------------------------------------------------------------
-- Sources
------------------------------------------------------------

/- No integer starts with the mark that sources may start with. -/
theorem IsNumeral.head?_ne_byteOrderMark
    {mark : List Char}
    (hNumeral : IsNumeral r w)
    (hMark : mark ∈ r.marks) :
    (mark ++ w).head? ≠ some Lexer.byteOrderMark := by
  intro hHead
  rcases List.mem_append.mp (List.mem_of_mem_head? hHead) with
    hMember | hMember
  · have hNone : ∀ mark ∈ r.marks, Lexer.byteOrderMark ∉ mark := by
      cases r <;> decide
    exact hNone mark hMark hMember
  · rcases hNumeral.parts _ hMember with hSame | hDigit
    · exact absurd hSame (by decide)
    · exact absurd (mem_digits_of_digitValue_lt hDigit) (by decide)

/-
  An integer in any base is its value, whatever its size, and
  wherever underscores stand between its digits.
-/
theorem quoteSource_integer
    (m : Metadata)
    {mark : List Char}
    (hMark : mark ∈ r.marks)
    (hNumeral : IsNumeral r w) :
    quoteSource m (String.ofList (mark ++ w)) =
      (.integer (numeralValue r w), []) := by
  apply quoteSource_of_primary
  · rw [String.toList_ofList]
    exact hNumeral.head?_ne_byteOrderMark hMark
  · rw [String.toList_ofList]
    exact (lexes_integer hMark hNumeral).mono fun _ _ hInteger =>
      isPrimary_integer m hInteger hNumeral

/- A mark in upper case, both cases of digits, and underscores. -/
theorem quoteSource_integer_hexadecimal :
    quoteSource .lineColumn "0X_fF_00__9" =
      (.integer 0xff009, []) := by
  have hSource : "0X_fF_00__9" =
      String.ofList (['0', 'X'] ++ "_fF_00__9".toList) := by
    decide
  have hValue :
      numeralValue .hexadecimal "_fF_00__9".toList = 0xff009 := by
    decide
  have hNumeral : IsNumeral .hexadecimal "_fF_00__9".toList := by
    decide
  rw [hSource, quoteSource_integer .lineColumn (by decide) hNumeral,
    hValue]
  rfl

end ElixirReader
