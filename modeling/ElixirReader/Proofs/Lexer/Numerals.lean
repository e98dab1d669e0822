import ElixirReader.Parser.Number
import ElixirReader.Proofs.Decimal.Numerals
import ElixirReader.Proofs.Lexer.Operands

/-
  This file shows what the lexer makes of an integer: the zero
  and the letter of its base, if it has a mark, and behind them
  runs of digits with separators between them. All of these
  touch each other, and the runs hold the digits in order.

  Key definitions include:
    * `Radix.mode`
    * `Radix.marks`
    * `AreDigits`
    * `IsPart`
    * `IsInteger`

  Main declarations:
    * `takes_digits`
    * `lexes_integer`
-/

namespace ElixirReader

open Transition Unicode

------------------------------------------------------------
-- Bases
------------------------------------------------------------

/- The mode in which the digits of a base are read. -/
def Radix.mode : Radix → Mode
| .decimal => .decimalDigits
| .binary => .binaryDigits
| .octal => .octalDigits
| .hexadecimal => .hexadecimalDigits

/- What may stand in front of the digits of a base. -/
def Radix.marks : Radix → List (List Char)
| .decimal => [[]]
| .binary => [['0', 'b'], ['0', 'B']]
| .octal => [['0', 'o'], ['0', 'O']]
| .hexadecimal => [['0', 'x'], ['0', 'X']]

/- The kind of the letter that names a base. -/
def Radix.letterKind? : Radix → Option Kind
| .decimal => none
| .binary => some .binaryBase
| .octal => some .octalBase
| .hexadecimal => some .hexadecimalBase

variable {r : Radix}
variable {mode : Mode}
variable {spaced : Bool}
variable {c : Char}
variable {w : List Char}
variable {ls : List Lexeme}

theorem of_separator
    (r : Radix)
    (cs : List Char) :
    Transition.of r.mode none none '_' cs =
      .plain .separator 0 r.mode := by
  cases r <;> rfl

/- Digits of a base are taken together. -/
theorem of_digit
    (cs : List Char)
    (hDigit : digitValue c < r.base) :
    Transition.of r.mode none none c cs =
      .plain (.digits r) (countWhile (isDigitOf r) cs) r.mode := by
  obtain ⟨hThis, hMark, _⟩ := of_digitValue_lt hDigit
  have hPoint : c ≠ '.' := by
    rintro rfl
    exact absurd (mem_digits_of_digitValue_lt hDigit) (by decide)
  have hRun : digitRun r.mode none c cs =
      .plain (.digits r) (countWhile (isDigitOf r) cs) r.mode := by
    have hModeDigit : isModeDigit r.mode = isDigitOf r := by
      cases r <;> rfl
    rw [digitRun, hModeDigit, if_pos hThis]
    cases r <;> rfl
  have hOf : Transition.of r.mode none none c cs =
      digits r.mode none c cs := by
    cases r <;> rfl
  have hNoFraction : r.mode ≠ .fractionDigits := by
    cases r <;> decide
  rw [hOf, digits, if_neg hMark, if_neg fun h => hPoint h.2.1,
    exponentOrRun, if_neg fun h => hNoFraction h.1, hRun]

------------------------------------------------------------
-- Runs of digits
------------------------------------------------------------

/-
  Lexemes that spell the digits of an integer and touch each
  other; before the first one there may be trivia.
-/
structure AreDigits
    (r : Radix)
    (spaced : Bool)
    (w : List Char)
    (ls : List Lexeme) : Prop where
  kind : ∀ l ∈ ls, l.kind = .digits r ∨ l.kind = .separator
  head : ∀ l ∈ ls.head?, l.spaced = spaced
  tail : ∀ l ∈ ls.tail, l.spaced = false
  text :
    (ls.filter (·.kind == .digits r)).flatMap (·.text.toList) =
      numeralDigits w

namespace AreDigits

theorem nil :
    AreDigits r spaced [] [] :=
  ⟨nofun, nofun, nofun, rfl⟩

theorem touching
    (hDigits : AreDigits r false w ls) :
    ∀ l ∈ ls, l.spaced = false := by
  intro l hMember
  cases ls with
  | nil => cases hMember
  | cons m ms =>
      rcases List.mem_cons.mp hMember with rfl | hMember
      · exact hDigits.head _ rfl
      · exact hDigits.tail l hMember

end AreDigits

/- Digits are taken as far as they go on. -/
theorem exists_run_of_digitValue_lt
    {cs : List Char}
    (hDigit : digitValue c < r.base) :
    ∃ run rest,
      cs = run ++ rest ∧
        countWhile (isDigitOf r) cs = run.length ∧
        numeralDigits (c :: run) = c :: run := by
  refine ⟨cs.takeWhile (isDigitOf r), cs.dropWhile (isDigitOf r),
    (List.takeWhile_append_dropWhile).symm, rfl, ?_⟩
  apply List.filter_eq_self.mpr
  intro d hMember
  have hOther : d ≠ '_' := by
    rcases List.mem_cons.mp hMember with rfl | hMember
    · exact (of_digitValue_lt hDigit).2.1
    · rintro rfl
      have hThis :=
        List.all_eq_true.mp List.all_takeWhile '_' hMember
      cases r <;> exact absurd hThis (by decide)
  simpa using hOther

/- The kind of a separator, or of digits that are all of a text. -/
def IsPart
    (r : Radix)
    (text : List Char)
    (kind : Kind) : Prop :=
  kind = .digits r ∧ numeralDigits text = text ∨
    kind = .separator ∧ numeralDigits text = []

theorem IsPart.solid
    {text : List Char}
    {kind : Kind}
    (hPart : IsPart r text kind) :
    kind.isTrivia = false ∧ kind.fault? text = none := by
  rcases hPart with ⟨rfl, _⟩ | ⟨rfl, _⟩ <;> exact ⟨rfl, rfl⟩

/- In front there is a separator, or a run of digits. -/
theorem exists_part
    (cs : List Char)
    (hPart : c = '_' ∨ digitValue c < r.base) :
    ∃ run rest kind,
      cs = run ++ rest ∧ IsPart r (c :: run) kind ∧
        Transition.of r.mode none none c cs =
          .plain kind run.length r.mode := by
  rcases hPart with rfl | hDigit
  · exact ⟨[], cs, .separator, rfl, .inr ⟨rfl, rfl⟩,
      of_separator r cs⟩
  · obtain ⟨run, rest, hSplit, hCount, hRun⟩ :=
      exists_run_of_digitValue_lt hDigit
    refine ⟨run, rest, .digits r, hSplit, .inl ⟨rfl, hRun⟩, ?_⟩
    rw [of_digit cs hDigit, hCount]

/- A separator or a run of digits in front of others. -/
theorem AreDigits.cons
    {l : Lexeme}
    {text : List Char}
    (hPart : IsPart r text l.kind)
    (hText : l.text = String.ofList text)
    (hDigits : AreDigits r false w ls) :
    AreDigits r l.spaced (text ++ w) (l :: ls) := by
  have hSplit : numeralDigits (text ++ w) =
      numeralDigits text ++ numeralDigits w :=
    List.filter_append text w
  refine ⟨?_, fun _ hHead => by cases hHead; rfl,
    hDigits.touching, ?_⟩
  · intro m hMember
    rcases List.mem_cons.mp hMember with rfl | hMember
    · exact hPart.imp And.left And.left
    · exact hDigits.kind m hMember
  · rw [hSplit, ← hDigits.text]
    rcases hPart with ⟨hKind, hRun⟩ | ⟨hKind, hNone⟩
    · rw [List.filter_cons_of_pos (by simp [hKind]),
        List.flatMap_cons, hText, String.toList_ofList, hRun]
    · rw [List.filter_cons_of_neg (by simp [hKind]), hNone,
        List.nil_append]

/-
  Digits and separators are taken up to the end of the source,
  in the mode of their base or one that reads the first of them
  alike. The induction is on what is left behind a run.
-/
theorem takes_digits
    {l : Lexer}
    (spaced : Bool)
    (hStands : Lexer.StandsAt [] mode w l)
    (hParts : ∀ c ∈ w, c = '_' ∨ digitValue c < r.base)
    (hAlike : ∀ c cs, w = c :: cs →
      Transition.of mode none none c cs =
        Transition.of r.mode none none c cs) :
    ∃ tokens mode' last,
      Lexer.Takes l tokens last ∧
        Lexer.StandsAt [] mode' [] last ∧
        AreDigits r spaced w
          (Lexeme.ofTokensAfter spaced tokens) := by
  induction hLength : w.length using Nat.strong_induction_on
    generalizing w l mode spaced with
  | _ n ih =>
      cases w with
      | nil => exact ⟨[], mode, l, .none l, hStands, .nil⟩
      | cons c cs =>
          obtain ⟨run, rest, kind, rfl, hPart, hOf⟩ :=
            exists_part cs (hParts c List.mem_cons_self)
          have hFirst := (hAlike c _ rfl).trans hOf
          obtain ⟨token, hNext, hKind, hText, _, hLeft⟩ :=
            hStands.next hFirst ⟨rfl, rfl, rfl, hPart.solid.2⟩
          have hLess : rest.length < n := by
            rw [List.length_cons, List.length_append] at hLength
            omega
          have hRest : ∀ d ∈ rest, d = '_' ∨ digitValue d < r.base :=
            fun d hMember => hParts d (List.mem_cons_of_mem c
              (List.mem_append_right run hMember))
          obtain ⟨tokens, mode', last, hTakes, hLast, hDigits⟩ :=
            ih rest.length hLess false hLeft hRest
              (fun _ _ _ => rfl) rfl
          refine ⟨token :: tokens, mode', last,
            .token l token tokens last hNext hTakes, hLast, ?_⟩
          have hPlain : token.kind.isTrivia = false := by
            rw [hKind]
            exact hPart.solid.1
          simp only [Lexeme.ofTokensAfter, hPlain]
          exact AreDigits.cons
            (l := ⟨token.kind, token.text, token.span, spaced⟩)
            (hKind ▸ hPart) hText hDigits

------------------------------------------------------------
-- Integers
------------------------------------------------------------

/- The lexemes of an integer, with the mark of its base or none. -/
inductive IsInteger
    (w : List Char) : Radix → List Lexeme → Prop where
| bare
    (spaced : Bool)
    (ls : List Lexeme)
    (hDigits : AreDigits .decimal spaced w ls) :
    IsInteger w .decimal ls
| marked
    (r : Radix)
    (zero letter : Lexeme)
    (ls : List Lexeme)
    (hZero : zero.kind = .baseZero)
    (hLetter : r.letterKind? = some letter.kind)
    (hTouches : letter.spaced = false)
    (hDigits : AreDigits r false w ls) :
    IsInteger w r (zero :: letter :: ls)

/- Without a mark, the first digits are read like the others. -/
theorem of_initial_digit
    {cs : List Char}
    (hDigit : digitValue c < Radix.decimal.base)
    (hParts : ∀ d ∈ cs, d = '_' ∨ digitValue d < Radix.decimal.base) :
    Transition.of .initial none none c cs =
      Transition.of .decimalDigits none none c cs := by
  have hThis : c.isDigit = true := (of_digitValue_lt hDigit).1
  obtain ⟨hBlank, hBreak, _⟩ := not_of_isDigit hThis
  have hNoBase : cs.head?.any Char.isAlpha = false := by
    cases cs with
    | nil => rfl
    | cons d ds =>
        rcases hParts d List.mem_cons_self with rfl | hDigit
        · rfl
        · exact (not_of_isDigit (of_digitValue_lt hDigit).1).2.2.1
  have hNumber : Transition.of .initial none none c cs =
      .plain (.digits .decimal) (countWhile Char.isDigit cs)
        .decimalDigits := by
    change expression .initial none c cs = _
    simp only [expression, hBlank, hBreak, hThis, number, hNoBase,
      and_false, if_false, if_true, Bool.false_eq_true]
  exact hNumber.trans (of_digit cs hDigit).symm

/- The zero and the letter of a mark, each a token of its own. -/
theorem exists_mark
    {mark : List Char}
    (cs : List Char)
    (hMark : mark ∈ r.marks) :
    mark = [] ∧ r = .decimal ∨
      ∃ letter kind,
        mark = ['0', letter] ∧ r.letterKind? = some kind ∧
          Transition.of .initial none none '0' (letter :: cs) =
            .plain .baseZero 0 .baseLetter ∧
          Transition.of .baseLetter none none letter cs =
            .plain kind 0 r.mode ∧
          kind.isTrivia = false ∧
            ∀ text, kind.fault? text = none := by
  cases r <;> simp only [Radix.marks, List.mem_cons,
    List.not_mem_nil, or_false] at hMark
  · exact .inl ⟨hMark, rfl⟩
  all_goals
    rcases hMark with rfl | rfl <;>
      exact .inr ⟨_, _, rfl, rfl, rfl, rfl, rfl, fun _ => rfl⟩

/- An integer with its mark, up to the end of a source. -/
theorem lexes_integer
    {mark : List Char}
    (hMark : mark ∈ r.marks)
    (hNumeral : IsNumeral r w) :
    Lexes [] .initial (mark ++ w) []
      (fun _ ls => IsInteger w r ls) := by
  intro l spaced hStands
  rw [List.append_nil] at hStands
  rcases exists_mark w hMark with
    ⟨rfl, rfl⟩ | ⟨letter, kind, rfl, hKind, hZero, hLetter, hPlain,
      hFault⟩
  · have hAlike : ∀ c cs, w = c :: cs →
        Transition.of .initial none none c cs =
          Transition.of Radix.decimal.mode none none c cs := by
      rintro c cs rfl
      apply of_initial_digit
      · rcases hNumeral.parts c List.mem_cons_self with rfl | hDigit
        · exact absurd rfl (hNumeral.starts rfl)
        · exact hDigit
      · exact fun d hMember =>
          hNumeral.parts d (List.mem_cons_of_mem c hMember)
    obtain ⟨tokens, mode', last, hTakes, hLast, hDigits⟩ :=
      takes_digits spaced hStands hNumeral.parts hAlike
    exact ⟨tokens, mode', last, hTakes, hLast, .bare _ _ hDigits⟩
  · have hFirst :
        Lexer.StandsAt [] .initial (['0'] ++ letter :: w) l := hStands
    obtain ⟨zero, hNext, hZeroKind, _, _, hLettered⟩ :=
      hFirst.next hZero ⟨rfl, rfl, rfl, rfl⟩
    have hSecond :
        Lexer.StandsAt [] _ ([letter] ++ w) _ := hLettered
    obtain ⟨named, hNext', hNamedKind, _, _, hLeft⟩ :=
      hSecond.next hLetter ⟨rfl, rfl, rfl, hFault _⟩
    obtain ⟨tokens, mode', last, hTakes, hLast, hDigits⟩ :=
      takes_digits false hLeft hNumeral.parts fun _ _ _ => rfl
    refine ⟨zero :: named :: tokens, mode', last,
      .token _ _ _ _ hNext (.token _ _ _ _ hNext' hTakes), hLast, ?_⟩
    have hZeroPlain : zero.kind.isTrivia = false := by
      rw [hZeroKind]
      rfl
    have hNamedPlain : named.kind.isTrivia = false := by
      rw [hNamedKind]
      exact hPlain
    simp only [Lexeme.ofTokensAfter, hZeroPlain, hNamedPlain]
    exact .marked r _ _ _ hZeroKind (hKind.trans (by rw [hNamedKind]; rfl))
      rfl hDigits

end ElixirReader
