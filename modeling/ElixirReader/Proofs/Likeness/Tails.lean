import ElixirReader.Proofs.Lexer.Operands

/-
  This file compares the next token in front of two tails that
  start with white space, or are empty. Nothing of a tail
  belongs to a token, unless the token goes on with the white
  space, as a run of blanks does, or the tail tells whether a
  colon marks a key.

  Key definitions include:
    * `spaces`
    * `Soft`
    * `Akin`
    * `Kind.endsFirmly`
    * `Transition.Fits`

  Main declarations:
    * `Transition.expression_append`
    * `Transition.of_append`
-/

namespace ElixirReader

open Transition Unicode

------------------------------------------------------------
-- Tails
------------------------------------------------------------

/- The characters that are white space. -/
def spaces : List Char :=
  [' ', '\t', '\x0c', '\n', '\r']

theorem mem_spaces
    {c : Char}
    (hSpace : isSpace c = true) :
    c ∈ spaces := by
  simpa [isSpace, isBlank, isLineBreak, spaces, or_assoc]
    using hSpace

/- Nothing but white space may be at the front. -/
def Soft
    (tail : List Char) : Prop :=
  ∀ c ∈ tail.head?, isSpace c = true

/-
  Tails that no token tells apart if it does not go on with
  white space: both are empty or none is, and a line feed at
  the front of the second is at the front of the first, too.
-/
structure Akin
    (tail tail' : List Char) : Prop where
  isEmpty : tail.isEmpty = tail'.isEmpty
  lineFeed : tail'.head? = some '\n' → tail.head? = some '\n'

variable {cs tail tail' : List Char}

theorem soft_newline
    {n : Char}
    {ns : List Char}
    (hBreak : isLineBreak n = true) :
    Soft (n :: ns) := by
  intro d hHead
  cases hHead
  rw [isSpace, hBreak, Bool.or_true]

theorem soft_blank
    (cs : List Char) :
    Soft (' ' :: cs) := by
  intro d hHead
  cases hHead
  rfl

namespace Soft

theorem eq_false_of_head?
    {p : Char → Bool}
    {c : Char}
    (hSoft : Soft tail)
    (hHead : c ∈ tail.head?)
    (hNone : spaces.any p = false) :
    p c = false := by
  rw [List.any_eq_false] at hNone
  exact Bool.eq_false_iff.mpr
    (hNone c (mem_spaces (hSoft c hHead)))

theorem ne_of_head?
    {c d : Char}
    (hSoft : Soft tail)
    (hHead : c ∈ tail.head?)
    (hOther : isSpace d = false) :
    c ≠ d := by
  rintro rfl
  rw [hSoft c hHead] at hOther
  cases hOther

/- No character of a tail counts but for white space. -/
theorem any_head?
    {p : Char → Bool}
    (cs : List Char)
    (hSoft : Soft tail)
    (hNone : spaces.any p = false) :
    (cs ++ tail).head?.any p = cs.head?.any p := by
  cases cs with
  | cons c cs => rfl
  | nil =>
      cases tail with
      | nil => rfl
      | cons c tail => exact hSoft.eq_false_of_head? rfl hNone

theorem any_head?_drop
    {p : Char → Bool}
    {n : Nat}
    (hSoft : Soft tail)
    (hLe : n ≤ cs.length)
    (hNone : spaces.any p = false) :
    ((cs ++ tail).drop n).head?.any p =
      (cs.drop n).head?.any p := by
  rw [List.drop_append_of_le_length hLe]
  exact hSoft.any_head? _ hNone

theorem head?_eq_some_iff
    {c : Char}
    (cs : List Char)
    (hSoft : Soft tail)
    (hOther : isSpace c = false) :
    (cs ++ tail).head? = some c ↔ cs.head? = some c := by
  cases cs with
  | cons d cs => rfl
  | nil =>
      constructor
      · intro hHead
        exact absurd rfl (hSoft.ne_of_head? hHead hOther)
      · intro hHead
        cases hHead

/- All that stands in front of a tail is white space, or not. -/
theorem all_head?
    (cs : List Char)
    (hSoft : Soft tail) :
    (cs ++ tail).head?.all isSpace = cs.head?.all isSpace := by
  cases cs with
  | cons c cs => rfl
  | nil =>
      cases tail with
      | nil => rfl
      | cons c tail => exact hSoft c rfl

/- A run of other characters ends where a tail starts. -/
theorem countWhile_append
    {p : Char → Bool}
    (cs : List Char)
    (hSoft : Soft tail)
    (hNone : spaces.any p = false) :
    countWhile p (cs ++ tail) = countWhile p cs :=
  countWhile_append_of_head? cs fun _ hHead =>
    hSoft.eq_false_of_head? hHead hNone

theorem isPrefixOf_append
    {text : List Char}
    (hSoft : Soft tail)
    (hNone : text.any isSpace = false) :
    text.isPrefixOf (cs ++ tail) = text.isPrefixOf cs := by
  rw [List.any_eq_false] at hNone
  apply isPrefixOf_append_of_head?
  exact fun c hHead hMember => hNone c hMember (hSoft c hHead)

theorem firstPrefix?_append
    {texts : List String}
    (cs : List Char)
    (hSoft : Soft tail)
    (hNone :
      texts.all (fun t => !t.toList.any isSpace) = true) :
    firstPrefix? texts (cs ++ tail) = firstPrefix? texts cs := by
  simp only [List.all_eq_true, Bool.not_eq_true'] at hNone
  exact List.find?_congr fun t hMember =>
    hSoft.isPrefixOf_append (hNone t hMember)

theorem find?_append
    {table : List OperatorEntry}
    (cs : List Char)
    (hSoft : Soft tail)
    (hNone :
      table.all (fun e => !e.text.toList.any isSpace) = true) :
    OperatorEntry.find? table (cs ++ tail) =
      OperatorEntry.find? table cs := by
  simp only [List.all_eq_true, Bool.not_eq_true'] at hNone
  exact List.find?_congr fun e hMember =>
    hSoft.isPrefixOf_append (hNone e hMember)

theorem withMark_append
    {p : Char → Bool}
    (cs : List Char)
    (hSoft : Soft tail)
    (hNone : spaces.any p = false) :
    withMark (cs ++ tail) (countWhile p (cs ++ tail)) =
      withMark cs (countWhile p cs) :=
  withMark_append_of_head? cs fun _ hHead =>
    ⟨hSoft.eq_false_of_head? hHead hNone,
      hSoft.eq_false_of_head? hHead (by decide)⟩

theorem identifierTail_append
    (cs : List Char)
    (hSoft : Soft tail) :
    identifierTail (cs ++ tail) = identifierTail cs :=
  hSoft.withMark_append cs (by decide)

theorem atomNameTail_append
    (cs : List Char)
    (hSoft : Soft tail) :
    atomNameTail (cs ++ tail) = atomNameTail cs :=
  hSoft.withMark_append cs (by decide)

theorem isTriple_append
    {quote : Char}
    (cs : List Char)
    (hSoft : Soft tail)
    (hQuote : isSpace quote = false) :
    isTriple quote (cs ++ tail) = isTriple quote cs := by
  have hOther : ∀ c ∈ tail.head?, (c == quote) = false := by
    intro c hHead
    simpa using hSoft.ne_of_head? hHead hQuote
  rcases cs with _ | ⟨c, _ | ⟨d, cs⟩⟩
  · rcases tail with _ | ⟨c, _ | ⟨d, tail⟩⟩
    · rfl
    · rfl
    · simp [isTriple, hOther c rfl]
  · rcases tail with _ | ⟨d, tail⟩
    · rfl
    · simp [isTriple, hOther d rfl]
  · rfl

theorem hexTail_append
    (most : Nat)
    (cs : List Char)
    (hSoft : Soft tail) :
    hexTail most (cs ++ tail) = hexTail most cs := by
  have hDigits : ∀ ds : List Char,
      countWhile isHexDigit (ds ++ tail) =
        countWhile isHexDigit ds :=
    fun ds => hSoft.countWhile_append ds (by decide)
  cases cs with
  | nil =>
      have hNone : countWhile isHexDigit tail = 0 :=
        hDigits []
      cases tail with
      | nil => rfl
      | cons c tail =>
          have hOther : c ≠ '{' := hSoft.ne_of_head? rfl rfl
          have hNil : countWhile isHexDigit [] = 0 := rfl
          simp [hexTail, hOther, hNone, hNil]
  | cons d ds =>
      by_cases hCurly : d = '{'
      · subst hCurly
        simp only [List.cons_append, hexTail, hDigits]
        rw [List.drop_append_of_le_length (countWhile_le _ ds)]
        simp only [hSoft.head?_eq_some_iff _
          (show isSpace '}' = false by rfl)]
      · have hAll := hDigits (d :: ds)
        rw [List.cons_append] at hAll
        simp [hexTail, hCurly, hAll]

/- A key mark is told apart from a colon by the tail alone. -/
theorem startsWithKeyMark_append
    (cs : List Char)
    (hSoft : Soft tail)
    (hSoft' : Soft tail')
    (hColon : tail.isEmpty = tail'.isEmpty ∨ cs ≠ [':']) :
    startsWithKeyMark (cs ++ tail') =
      startsWithKeyMark (cs ++ tail) := by
  rcases cs with _ | ⟨c, _ | ⟨d, cs⟩⟩
  · have hNone : ∀ {ds : List Char}, Soft ds →
        startsWithKeyMark ds = false := by
      intro ds hSoft
      apply startsWithKeyMark_of_head?
      intro hHead
      exact absurd rfl (hSoft.ne_of_head? hHead rfl)
    exact (hNone hSoft').trans (hNone hSoft).symm
  · by_cases hFirst : c = ':'
    · subst hFirst
      have hEmpty := hColon.resolve_right fun hNot => hNot rfl
      cases tail with
      | nil =>
          cases tail' with
          | nil => rfl
          | cons d tail' => cases hEmpty
      | cons d tail =>
          cases tail' with
          | nil => cases hEmpty
          | cons e tail' =>
              exact (hSoft' e rfl).trans (hSoft d rfl).symm
    · rw [startsWithKeyMark_of_head?, startsWithKeyMark_of_head?] <;>
        simpa [eq_comm] using hFirst
  · by_cases hFirst : c = ':'
    · subst hFirst
      rfl
    · simp [startsWithKeyMark, hFirst]

theorem keyTail?_append
    (cs : List Char)
    (hSoft : Soft tail)
    (hSoft' : Soft tail')
    (hKey : tail.isEmpty = tail'.isEmpty ∨
      cs.drop (atomNameTail cs) ≠ [':']) :
    keyTail? (cs ++ tail') = keyTail? (cs ++ tail) := by
  have hLe : atomNameTail cs ≤ cs.length := withMark_le _ cs
  unfold keyTail?
  rw [hSoft.atomNameTail_append, hSoft'.atomNameTail_append,
    List.drop_append_of_le_length hLe,
    List.drop_append_of_le_length hLe,
    hSoft.startsWithKeyMark_append _ hSoft' hKey]

end Soft

/- A run that takes some characters is made of nothing else. -/
theorem forall_of_countWhile
    {p : Char → Bool}
    (hCount : countWhile p (cs ++ tail) = cs.length) :
    ∀ d ∈ cs, p d = true := by
  have hTake := take_countWhile p (cs ++ tail)
  rw [hCount, List.take_left] at hTake
  intro d hMem
  rw [hTake] at hMem
  exact List.all_eq_true.mp List.all_takeWhile d hMem

/- A run that ends before the tail ends there anyway. -/
theorem countWhile_append_congr
    {p : Char → Bool}
    (tail' : List Char)
    (hLess : countWhile p (cs ++ tail) < cs.length) :
    countWhile p (cs ++ tail') = countWhile p (cs ++ tail) := by
  unfold countWhile at hLess ⊢
  rw [List.takeWhile_append] at hLess
  rw [List.takeWhile_append, List.takeWhile_append]
  split at hLess
  · simp only [List.length_append] at hLess
    omega
  · rename_i hPart
    rw [if_neg hPart, if_neg hPart]

/- The line feed behind a carriage return may be the last character. -/
theorem lineBreakTail_append
    {c : Char}
    (hWithin : lineBreakTail c (cs ++ tail) ≤ cs.length)
    (hLast : cs ≠ [] ∨
      (tail'.head? = some '\n' → tail.head? = some '\n')) :
    lineBreakTail c (cs ++ tail') = lineBreakTail c (cs ++ tail) := by
  cases cs with
  | cons d cs => rfl
  | nil =>
      have hLineFeed := hLast.resolve_left fun hNot => hNot rfl
      unfold lineBreakTail at hWithin ⊢
      simp only [List.nil_append, List.length_nil] at hWithin ⊢
      split at hWithin
      · cases hWithin
      · rename_i hNot
        rw [if_neg hNot, if_neg]
        rintro ⟨hReturn, hHead⟩
        exact hNot ⟨hReturn, hLineFeed hHead⟩

theorem escapeTail_append
    {letter : Char}
    (hSoft : Soft tail)
    (hSoft' : Soft tail')
    (hWithin : escapeTail letter (cs ++ tail) ≤ cs.length)
    (hLast : cs ≠ [] ∨
      (tail'.head? = some '\n' → tail.head? = some '\n')) :
    escapeTail letter (cs ++ tail') =
      escapeTail letter (cs ++ tail) := by
  unfold escapeTail at hWithin ⊢
  rw [hSoft.hexTail_append, hSoft.hexTail_append,
    hSoft'.hexTail_append, hSoft'.hexTail_append]
  split
  · rfl
  · rename_i hX
    split
    · rfl
    · rename_i hU
      rw [if_neg hX, if_neg hU] at hWithin
      exact lineBreakTail_append hWithin hLast

theorem backslashTail_append
    (hSoft : Soft tail)
    (hSoft' : Soft tail')
    (hWithin : backslashTail (cs ++ tail) ≤ cs.length)
    (hLast : backslashTail (cs ++ tail) < cs.length ∨
      Akin tail tail') :
    backslashTail (cs ++ tail') = backslashTail (cs ++ tail) := by
  cases cs with
  | nil =>
      have hAkin := hLast.resolve_left (Nat.not_lt_zero _)
      cases tail with
      | nil =>
          cases tail' with
          | nil => rfl
          | cons d tail' => cases hAkin.isEmpty
      | cons d tail =>
          simp [backslashTail] at hWithin
  | cons d cs =>
      simp only [List.cons_append, backslashTail,
        List.length_cons] at hWithin hLast ⊢
      have hTail : escapeTail d (cs ++ tail) ≤ cs.length := by
        omega
      rw [escapeTail_append hSoft hSoft' hTail]
      rcases hLast with hLess | hAkin
      · left
        rintro rfl
        simp only [List.length_nil] at hLess
        omega
      · exact .inr hAkin.lineFeed

------------------------------------------------------------
-- Tokens
------------------------------------------------------------

/- The kinds of tokens that end for themselves. -/
def Kind.endsFirmly : Kind → Bool
| .whiteSpace => false
| .endOfLine => false
| .comment => false
| .colon => false
| .character => false
| _ => true

/- A name that becomes a key if white space comes behind it. -/
def isLateKey : List Char → Bool
| [] => false
| c :: cs => isNameStart c && cs.drop (atomNameTail cs) == [':']

/- White space or a comment starts here, but for a line at its end. -/
def startsGap : List Char → Bool
| [] => false
| c :: cs =>
    isSpace c || c == '#' || c == '\\' && cs.head?.any isLineBreak

/-
  A token that starts with `c` ends in front of a tail, and the
  other tail would not have been a part of it. In a literal the
  tail cannot be next, since its text goes on with white space.
-/
structure Transition.Fits
    (c : Char)
    (cs tail tail' : List Char)
    (t : Transition) : Prop where
  within : t.more ≤ cs.length
  inside : t.mode.isGroup = true → t.more < cs.length
  good : t.kind ≠ .badCharacter
  last : t.more < cs.length ∨ t.kind.endsFirmly = true ∨
    (Akin tail tail' ∧
      (isBlank c = true → t.kind ≠ .whiteSpace) ∧
      (c = '#' → t.kind ≠ .comment)) ∨
    t.kind ≠ .colon ∧ t.kind ≠ .character ∧
      startsGap (c :: cs) = false
  key : tail.isEmpty = tail'.isEmpty ∨ isLateKey (c :: cs) = false

namespace Transition

variable {mode : Mode}
variable {top : Option Frame}
variable {c : Char}

------------------------------------------------------------
-- Tokens that look at no white space
------------------------------------------------------------

section

variable {ds : List Char}

theorem signIsBinary_append
    (mode : Mode)
    (hSoft : Soft tail) :
    signIsBinary mode (cs ++ tail) = signIsBinary mode cs := by
  unfold signIsBinary
  rw [hSoft.all_head?]

theorem operator_append
    (mode : Mode)
    (c : Char)
    (hSoft : Soft tail) :
    operator mode c (cs ++ tail) = operator mode c cs := by
  unfold operator plus minus
  rw [← List.cons_append,
    hSoft.find?_append (c :: cs) (by decide),
    signIsBinary_append mode hSoft]

theorem tilde_append
    (hSoft : Soft tail) :
    tilde (cs ++ tail) = tilde cs := by
  unfold tilde
  rw [← List.cons_append,
    hSoft.find?_append ('~' :: cs) (by decide)]

theorem dot_append
    (hSoft : Soft tail) :
    dot (cs ++ tail) = dot cs := by
  have hOther : ∀ d ∈ tail.head?, d ≠ '.' :=
    fun d hHead => hSoft.ne_of_head? hHead rfl
  rcases cs with _ | ⟨d, _ | ⟨e, cs⟩⟩
  · cases tail with
    | nil => rfl
    | cons d tail => simp [dot, hOther d rfl]
  · by_cases hDot : d = '.'
    · subst hDot
      cases tail with
      | nil => rfl
      | cons e tail => simp [dot, hOther e rfl]
    · simp [dot, hDot]
  · by_cases hDot : d = '.'
    · subst hDot
      by_cases hDot' : e = '.'
      · subst hDot'
        rfl
      · simp [dot, hDot']
    · simp [dot, hDot]

theorem aliasName_append
    (hSoft : Soft tail) :
    aliasName (cs ++ tail) = aliasName cs := by
  unfold aliasName aliasTail
  rw [hSoft.countWhile_append cs (by decide)]

theorem word_append
    (c : Char)
    (hSoft : Soft tail) :
    word c (cs ++ tail) = word c cs := by
  have hLe : identifierTail cs ≤ cs.length := withMark_le _ cs
  unfold word
  rw [hSoft.identifierTail_append]
  dsimp only
  rw [List.take_append_of_le_length hLe]

theorem number_append
    (c : Char)
    (hSoft : Soft tail) :
    number c (cs ++ tail) = number c cs := by
  unfold number
  rw [hSoft.any_head? cs (by decide),
    hSoft.countWhile_append cs (by decide)]

theorem quote_append
    (hSoft : Soft tail)
    (hQuote : isSpace c = false) :
    quote c (cs ++ tail) = quote c cs := by
  unfold quote quoteLayout
  rw [hSoft.isTriple_append cs hQuote]

theorem exponentTail?_append
    (hSoft : Soft tail) :
    exponentTail? (cs ++ tail) = exponentTail? cs := by
  unfold exponentTail?
  rw [hSoft.any_head? cs (by decide)]
  dsimp only
  split
  · cases cs with
    | nil => contradiction
    | cons d cs =>
        rw [hSoft.any_head?_drop (Nat.le_add_left 1 cs.length)
          (by decide)]
  · rw [hSoft.any_head?_drop (Nat.zero_le _) (by decide)]

end

------------------------------------------------------------
-- Tokens that may go on with white space
------------------------------------------------------------

/- At the end the tails are akin, if the token is not firm. -/
theorem Fits.less_or_akin
    {t : Transition}
    (hFits : t.Fits c cs tail tail')
    (hFirm : t.kind.endsFirmly = false)
    (hLoose : t.kind = .colon ∨ t.kind = .character ∨
      startsGap (c :: cs) = true) :
    t.more < cs.length ∨ Akin tail tail' := by
  rcases hFits.last with
    hLess | hEnds | ⟨hAkin, _⟩ | ⟨hColon, hCharacter, hGap⟩
  · exact .inl hLess
  · rw [hFirm] at hEnds
    cases hEnds
  · exact .inr hAkin
  · rw [hGap] at hLoose
    simp [hColon, hCharacter] at hLoose

theorem startsGap_of_isSpace
    (cs : List Char)
    (hSpace : isSpace c = true) :
    startsGap (c :: cs) = true := by
  rw [startsGap, hSpace]
  rfl

theorem blanks_append
    (hBlank : isBlank c = true)
    (hFits : (blanks mode (cs ++ tail)).Fits c cs tail tail') :
    blanks mode (cs ++ tail') = blanks mode (cs ++ tail) := by
  have hLess : countWhile isBlank (cs ++ tail) < cs.length := by
    rcases hFits.last with
      hLess | hEnds | ⟨_, hOther, _⟩ | ⟨_, _, hGap⟩
    · exact hLess
    · cases hEnds
    · exact absurd rfl (hOther hBlank)
    · rw [startsGap_of_isSpace cs (by rw [isSpace, hBlank]; rfl)] at hGap
      cases hGap
  unfold blanks
  rw [countWhile_append_congr tail' hLess]

theorem comment_append
    (hFits :
      (comment mode (cs ++ tail)).Fits '#' cs tail tail') :
    comment mode (cs ++ tail') = comment mode (cs ++ tail) := by
  have hLess :
      countWhile (fun c => !isLineBreak c) (cs ++ tail) <
        cs.length := by
    rcases hFits.last with
      hLess | hEnds | ⟨_, _, hOther⟩ | ⟨_, _, hGap⟩
    · exact hLess
    · cases hEnds
    · exact absurd rfl (hOther rfl)
    · cases hGap
  unfold comment
  rw [countWhile_append_congr tail' hLess]

theorem lineBreak_append
    (hBreak : isLineBreak c = true)
    (hFits :
      (lineBreak mode c (cs ++ tail)).Fits c cs tail tail') :
    lineBreak mode c (cs ++ tail') =
      lineBreak mode c (cs ++ tail) := by
  have hFirm :
      (lineBreak mode c (cs ++ tail)).kind.endsFirmly = false := by
    unfold lineBreak
    split <;> rfl
  have hMore : (lineBreak mode c (cs ++ tail)).more =
      lineBreakTail c (cs ++ tail) := by
    unfold lineBreak
    split <;> rfl
  have hWithin := hFits.within
  have hLast := hFits.less_or_akin hFirm
    (.inr (.inr (startsGap_of_isSpace cs
      (by rw [isSpace, hBreak, Bool.or_true]))))
  rw [hMore] at hWithin hLast
  have hSame : lineBreakTail c (cs ++ tail') =
      lineBreakTail c (cs ++ tail) := by
    apply lineBreakTail_append hWithin
    rcases hLast with hLess | hAkin
    · exact .inl (List.ne_nil_of_length_pos (Nat.zero_lt_of_lt hLess))
    · exact .inr hAkin.lineFeed
  unfold lineBreak
  rw [hSame]

theorem backslash_append
    (hSoft : Soft tail)
    (hFits : (backslash mode (cs ++ tail)).Fits '\\' cs tail tail') :
    backslash mode (cs ++ tail') = backslash mode (cs ++ tail) := by
  cases cs with
  | nil =>
      cases tail with
      | nil => exact absurd rfl hFits.good
      | cons d tail =>
          have hOther : d ≠ '\\' := hSoft.ne_of_head? rfl rfl
          have hGood := hFits.good
          have hWithin := hFits.within
          simp only [List.nil_append, backslash, hOther, if_false]
            at hGood hWithin
          split at hWithin
          · change 1 + _ ≤ 0 at hWithin
            omega
          · rename_i hBreak
            rw [if_neg hBreak] at hGood
            exact absurd rfl hGood
  | cons d cs =>
      simp only [List.cons_append, backslash]
      split
      · rename_i hBreak
        simp only [List.cons_append, backslash, hBreak, if_true]
          at hFits
        have hWithin := hFits.within
        have hLast := hFits.less_or_akin rfl
          (.inr (.inr (by simp [startsGap, hBreak])))
        simp only [plain, List.length_cons] at hWithin hLast
        have hTail : lineBreakTail d (cs ++ tail) ≤ cs.length := by
          omega
        rw [lineBreakTail_append hTail]
        rcases hLast with hLess | hAkin
        · left
          rintro rfl
          simp only [List.length_nil] at hLess
          omega
        · exact .inr hAkin.lineFeed
      · rfl

theorem colon_append
    (hSoft : Soft tail)
    (hSoft' : Soft tail')
    (hFits : (colon (cs ++ tail)).Fits c cs tail tail') :
    colon (cs ++ tail') = colon (cs ++ tail) := by
  cases cs with
  | nil =>
      have hColon : ∀ {ds : List Char}, Soft ds →
          colon ds = plain .colon 0
            (if ds.isEmpty then .atomStart else .initial) := by
        intro ds hSoft
        cases ds with
        | nil => rfl
        | cons d ds =>
            have hOther : d ≠ ':' := hSoft.ne_of_head? rfl rfl
            simp [colon, hOther, hSoft d rfl]
      rw [List.nil_append] at hFits ⊢
      rw [List.nil_append]
      have hLast := hFits.less_or_akin
        (by rw [hColon hSoft]; rfl)
        (.inl (by rw [hColon hSoft]; rfl))
      have hAkin := hLast.resolve_left (Nat.not_lt_zero _)
      rw [hColon hSoft, hColon hSoft', hAkin.isEmpty]
  | cons d cs =>
      by_cases hColon : d = ':'
      · subst hColon
        rfl
      · have hNext : ∀ ds : List Char,
            colon (d :: ds) =
              if isSpace d then plain .colon 0 .initial
              else plain .colon 0 .atomStart := by
          intro ds
          unfold colon
          split
          · rename_i hFirst
            exact absurd (List.cons.inj hFirst).1 hColon
          · rfl
        rw [List.cons_append, List.cons_append, hNext, hNext]

theorem name_append
    (hSoft : Soft tail)
    (hSoft' : Soft tail')
    (hStart : isNameStart c = true)
    (hFits : (name c (cs ++ tail)).Fits c cs tail tail') :
    name c (cs ++ tail') = name c (cs ++ tail) := by
  have hKey : tail.isEmpty = tail'.isEmpty ∨
      cs.drop (atomNameTail cs) ≠ [':'] := by
    apply hFits.key.imp_right
    intro hNot
    simpa [isLateKey, hStart] using hNot
  unfold name
  rw [hSoft.keyTail?_append cs hSoft' hKey,
    aliasName_append hSoft, aliasName_append hSoft',
    word_append c hSoft, word_append c hSoft']

theorem character_append
    (hSoft : Soft tail)
    (hSoft' : Soft tail')
    (hFits : (character c (cs ++ tail)).Fits c cs tail tail') :
    character c (cs ++ tail') = character c (cs ++ tail) := by
  have hWithin := hFits.within
  have hLast := hFits.less_or_akin rfl (.inr (.inl rfl))
  unfold character at hWithin hLast ⊢
  split
  · rename_i hBackslash
    simp only [plain, hBackslash, if_true] at hWithin hLast
    rw [backslashTail_append hSoft hSoft' hWithin hLast]
  · rfl

------------------------------------------------------------
-- Tokens of expressions
------------------------------------------------------------

theorem symbol_append
    (hSoft : Soft tail)
    (hSoft' : Soft tail')
    (hFits :
      (symbol mode top c (cs ++ tail)).Fits c cs tail tail') :
    symbol mode top c (cs ++ tail') =
      symbol mode top c (cs ++ tail) := by
  unfold symbol at hFits ⊢
  split
  · exact backslash_append hSoft hFits
  · exact comment_append hFits
  · rw [quote_append hSoft rfl, quote_append hSoft' rfl]
  · rw [quote_append hSoft rfl, quote_append hSoft' rfl]
  · rfl
  · rw [tilde_append hSoft, tilde_append hSoft']
  · exact colon_append hSoft hSoft' hFits
  · rw [dot_append hSoft, dot_append hSoft']
  · rfl
  · rfl
  · rfl
  · rfl
  · rfl
  · rfl
  · rfl
  · rfl
  · rw [operator_append mode _ hSoft, operator_append mode _ hSoft']

theorem expression_append
    (hSoft : Soft tail)
    (hSoft' : Soft tail')
    (hFits :
      (expression mode top c (cs ++ tail)).Fits c cs tail tail') :
    expression mode top c (cs ++ tail') =
      expression mode top c (cs ++ tail) := by
  unfold expression at hFits ⊢
  split
  · rename_i hBlank
    rw [if_pos hBlank] at hFits
    exact blanks_append hBlank hFits
  · rename_i hBlank
    rw [if_neg hBlank] at hFits
    split
    · rename_i hBreak
      rw [if_pos hBreak] at hFits
      exact lineBreak_append hBreak hFits
    · rename_i hBreak
      rw [if_neg hBreak] at hFits
      split
      · rw [number_append c hSoft, number_append c hSoft']
      · rename_i hDigit
        rw [if_neg hDigit] at hFits
        split
        · rename_i hStart
          rw [if_pos hStart] at hFits
          exact name_append hSoft hSoft' hStart hFits
        · rename_i hStart
          rw [if_neg hStart] at hFits
          exact symbol_append hSoft hSoft' hFits

theorem atomStart_append
    (hSoft : Soft tail)
    (hSoft' : Soft tail')
    (hFits :
      (atomStart top c (cs ++ tail)).Fits c cs tail tail') :
    atomStart top c (cs ++ tail') = atomStart top c (cs ++ tail) := by
  have hPrefix : ∀ {ds : List Char}, Soft ds →
      firstPrefix? atomOperators (c :: (cs ++ ds)) =
        firstPrefix? atomOperators (c :: cs) :=
    fun hSoft => hSoft.firstPrefix?_append (c :: cs) (by decide)
  unfold atomStart at hFits ⊢
  rw [hPrefix hSoft] at hFits ⊢
  rw [hPrefix hSoft']
  split
  · rename_i hQuote
    have hOther : isSpace c = false := by
      rcases hQuote with rfl | rfl <;> rfl
    rw [quote_append hSoft hOther, quote_append hSoft' hOther]
  · rename_i hQuote
    rw [if_neg hQuote] at hFits
    split
    · rw [hSoft.atomNameTail_append, hSoft'.atomNameTail_append]
    · rename_i hStart
      rw [if_neg hStart] at hFits
      split
      · rfl
      · rename_i hNone
        rw [hNone] at hFits
        exact expression_append hSoft hSoft' hFits

theorem afterDot_append
    (hSoft : Soft tail)
    (hSoft' : Soft tail')
    (hFits :
      (afterDot top c (cs ++ tail)).Fits c cs tail tail') :
    afterDot top c (cs ++ tail') = afterDot top c (cs ++ tail) := by
  have hPrefix : ∀ {ds : List Char}, Soft ds →
      firstPrefix? callOperators (c :: (cs ++ ds)) =
        firstPrefix? callOperators (c :: cs) :=
    fun hSoft => hSoft.firstPrefix?_append (c :: cs) (by decide)
  unfold afterDot at hFits ⊢
  rw [hPrefix hSoft] at hFits ⊢
  rw [hPrefix hSoft']
  split
  · rename_i hBlank
    rw [if_pos hBlank] at hFits
    exact blanks_append hBlank hFits
  · rename_i hBlank
    rw [if_neg hBlank] at hFits
    split
    · rename_i hBreak
      rw [if_pos hBreak] at hFits
      exact lineBreak_append hBreak hFits
    · rename_i hBreak
      rw [if_neg hBreak] at hFits
      split
      · rename_i hHash
        rw [if_pos hHash] at hFits
        subst hHash
        exact comment_append hFits
      · rename_i hHash
        rw [if_neg hHash] at hFits
        split
        · rw [aliasName_append hSoft, aliasName_append hSoft']
        · rename_i hUpper
          rw [if_neg hUpper] at hFits
          split
          · rw [hSoft.identifierTail_append,
              hSoft'.identifierTail_append]
          · rename_i hStart
            rw [if_neg hStart] at hFits
            split
            · rfl
            · rename_i hNone
              rw [hNone] at hFits
              exact expression_append hSoft hSoft' hFits

theorem baseLetter_append
    (hSoft : Soft tail)
    (hSoft' : Soft tail')
    (hFits :
      (baseLetter top c (cs ++ tail)).Fits c cs tail tail') :
    baseLetter top c (cs ++ tail') =
      baseLetter top c (cs ++ tail) := by
  unfold baseLetter at hFits ⊢
  split
  · rfl
  · rename_i hBinary
    rw [if_neg hBinary] at hFits
    split
    · rfl
    · rename_i hOctal
      rw [if_neg hOctal] at hFits
      split
      · rfl
      · rename_i hHexadecimal
        rw [if_neg hHexadecimal] at hFits
        split
        · rfl
        · rename_i hAlpha
          rw [if_neg hAlpha] at hFits
          exact expression_append hSoft hSoft' hFits

/- No white space is a digit of a base. -/
theorem any_isModeDigit_spaces
    (mode : Mode) :
    spaces.any (isModeDigit mode) = false := by
  cases mode <;> decide

theorem any_isWrongDigit_spaces
    (mode : Mode) :
    spaces.any (fun d => d.isAlphanum && !isModeDigit mode d) =
      false := by
  cases mode <;> decide

theorem digitRun_append
    (hSoft : Soft tail)
    (hSoft' : Soft tail')
    (hFits :
      (digitRun mode top c (cs ++ tail)).Fits c cs tail tail') :
    digitRun mode top c (cs ++ tail') =
      digitRun mode top c (cs ++ tail) := by
  unfold digitRun at hFits ⊢
  split
  · rw [hSoft.countWhile_append cs (any_isModeDigit_spaces mode),
      hSoft'.countWhile_append cs (any_isModeDigit_spaces mode)]
  · rename_i hDigit
    rw [if_neg hDigit] at hFits
    split
    · rw [hSoft.countWhile_append cs (any_isWrongDigit_spaces mode),
        hSoft'.countWhile_append cs (any_isWrongDigit_spaces mode)]
    · rename_i hAlphanum
      rw [if_neg hAlphanum] at hFits
      exact expression_append hSoft hSoft' hFits

theorem exponentOrRun_append
    (hSoft : Soft tail)
    (hSoft' : Soft tail')
    (hFits :
      (exponentOrRun mode top c (cs ++ tail)).Fits c cs tail tail') :
    exponentOrRun mode top c (cs ++ tail') =
      exponentOrRun mode top c (cs ++ tail) := by
  unfold exponentOrRun at hFits ⊢
  rw [exponentTail?_append hSoft] at hFits ⊢
  rw [exponentTail?_append hSoft']
  split
  · rename_i hMark
    rw [if_pos hMark] at hFits
    split
    · rfl
    · rename_i hNone
      rw [hNone] at hFits
      exact digitRun_append hSoft hSoft' hFits
  · rename_i hMark
    rw [if_neg hMark] at hFits
    exact digitRun_append hSoft hSoft' hFits

theorem digits_append
    (hSoft : Soft tail)
    (hSoft' : Soft tail')
    (hFits :
      (digits mode top c (cs ++ tail)).Fits c cs tail tail') :
    digits mode top c (cs ++ tail') =
      digits mode top c (cs ++ tail) := by
  unfold digits at hFits ⊢
  rw [hSoft.any_head? cs (by decide)] at hFits ⊢
  rw [hSoft'.any_head? cs (by decide)]
  split
  · rename_i hSeparator
    rw [if_pos hSeparator] at hFits
    split
    · rename_i hUnknown
      rw [if_pos hUnknown] at hFits
      exact name_append hSoft hSoft' (by rw [hSeparator]; rfl) hFits
    · rfl
  · rename_i hSeparator
    rw [if_neg hSeparator] at hFits
    split
    · rfl
    · rename_i hPoint
      rw [if_neg hPoint] at hFits
      exact exponentOrRun_append hSoft hSoft' hFits

------------------------------------------------------------
-- Sigils
------------------------------------------------------------

theorem sigilHead_append
    {pending : Option Bool}
    (hSoft : Soft tail)
    (hSoft' : Soft tail')
    (hFits :
      (sigilHead pending top c (cs ++ tail)).Fits c cs tail tail') :
    sigilHead pending top c (cs ++ tail') =
      sigilHead pending top c (cs ++ tail) := by
  cases pending with
  | none =>
      unfold sigilHead sigilName at hFits ⊢
      dsimp only at hFits ⊢
      rw [hSoft.countWhile_append cs (by decide)] at hFits ⊢
      rw [hSoft'.countWhile_append cs (by decide)]
      split
      · rfl
      · rename_i hLower
        rw [if_neg hLower] at hFits
        split
        · rfl
        · rename_i hUpper
          rw [if_neg hUpper] at hFits
          exact expression_append hSoft hSoft' hFits
  | some reads =>
      unfold sigilHead sigilPromoter at hFits ⊢
      dsimp only at hFits ⊢
      have hTriple : ∀ {ds : List Char}, Soft ds →
          ((c = '"' ∨ c = '\'') ∧ isTriple c (cs ++ ds) = true ↔
            (c = '"' ∨ c = '\'') ∧ isTriple c cs = true) := by
        intro ds hSoft
        apply and_congr_right
        rintro (rfl | rfl) <;> rw [hSoft.isTriple_append cs rfl]
      simp only [hTriple hSoft] at hFits ⊢
      simp only [hTriple hSoft']
      split
      · rfl
      · rename_i hHeredoc
        rw [if_neg hHeredoc] at hFits
        split
        · rfl
        · rename_i hNone
          rw [hNone] at hFits
          exact expression_append hSoft hSoft' hFits

theorem sigilModifiers_append
    (hSoft : Soft tail)
    (hSoft' : Soft tail')
    (hFits :
      (sigilModifiers top c (cs ++ tail)).Fits c cs tail tail') :
    sigilModifiers top c (cs ++ tail') =
      sigilModifiers top c (cs ++ tail) := by
  unfold sigilModifiers at hFits ⊢
  rw [hSoft.countWhile_append cs (by decide)] at hFits ⊢
  rw [hSoft'.countWhile_append cs (by decide)]
  split
  · rfl
  · rename_i hAlphanum
    rw [if_neg hAlphanum] at hFits
    exact expression_append hSoft hSoft' hFits

------------------------------------------------------------
-- Bodies of literals
------------------------------------------------------------

variable {g : Group}

/- A character that is neither a terminator nor a backslash. -/
theorem fragmentLength_plain
    (cs : List Char)
    (hGoes : ¬ (g.layout = .quoted ∧ c = g.terminator))
    (hPlain : c ≠ '\\') :
    fragmentLength g (c :: cs) =
      if g.reads = true ∧ c = '#' ∧ cs.head? = some '{' then 0
      else if g.layout = .heredoc ∧ c = '\n' then 1
      else 1 + fragmentLength g cs := by
  rw [fragmentLength.eq_def]
  dsimp only
  rw [if_neg hGoes, if_neg hPlain]

/- A backslash where escapes are not read. -/
theorem fragmentLength_raw
    (d : Char)
    (cs : List Char)
    (hGoes : ¬ (g.layout = .quoted ∧ '\\' = g.terminator))
    (hRaw : ¬ g.reads = true) :
    fragmentLength g ('\\' :: d :: cs) =
      if d = g.terminator then 2 + fragmentLength g cs
      else 1 + fragmentLength g (d :: cs) := by
  rw [fragmentLength.eq_def]
  dsimp only
  rw [if_neg hGoes, if_pos rfl, if_neg hRaw]

/- Plain text that ends before a tail ends there anyway. -/
theorem fragmentLength_append
    (tail' : List Char)
    (hSoft : Soft tail)
    (hSoft' : Soft tail')
    (hLess : fragmentLength g (cs ++ tail) < cs.length) :
    fragmentLength g (cs ++ tail') =
      fragmentLength g (cs ++ tail) := by
  have hCurly : isSpace '{' = false := rfl
  induction cs using fragmentLength.induct g with
  | case1 => exact absurd hLess (Nat.not_lt_zero _)
  | case2 c cs hEnds =>
      have hNone : ∀ ds, fragmentLength g (c :: ds) = 0 := by
        intro ds
        rw [fragmentLength.eq_def]
        exact if_pos hEnds
      rw [List.cons_append, List.cons_append, hNone, hNone]
  | case3 cs hReads hGoes =>
      have hNone : ∀ ds, fragmentLength g ('\\' :: ds) = 0 := by
        intro ds
        rw [fragmentLength.eq_def]
        simp [hGoes, hReads]
      rw [List.cons_append, List.cons_append, hNone, hNone]
  | case4 hRaw hGoes =>
      exfalso
      rw [List.singleton_append, List.length_singleton] at hLess
      cases tail with
      | nil =>
          rw [fragmentLength.eq_def] at hLess
          simp [hGoes, hRaw] at hLess
      | cons d tail =>
          rw [fragmentLength_raw d tail hGoes hRaw] at hLess
          split at hLess <;> omega
  | case5 hRaw cs hGoes ih =>
      simp only [List.cons_append, fragmentLength_raw _ _ hGoes hRaw,
        if_true, List.length_cons] at hLess ⊢
      rw [ih (by omega)]
  | case6 hRaw d cs hOther hGoes ih =>
      simp only [List.cons_append, fragmentLength_raw _ _ hGoes hRaw,
        if_neg hOther, List.length_cons] at hLess ih ⊢
      rw [ih (by omega)]
  | case7 c cs hGoes hPlain hStarts =>
      simp only [List.cons_append,
        fragmentLength_plain _ hGoes hPlain,
        hSoft.head?_eq_some_iff cs hCurly,
        hSoft'.head?_eq_some_iff cs hCurly,
        if_pos hStarts]
  | case8 c cs hGoes hPlain hStays hLine =>
      simp only [List.cons_append,
        fragmentLength_plain _ hGoes hPlain,
        hSoft.head?_eq_some_iff cs hCurly,
        hSoft'.head?_eq_some_iff cs hCurly,
        if_neg hStays, if_pos hLine]
  | case9 c cs hGoes hPlain hStays hLine ih =>
      simp only [List.cons_append,
        fragmentLength_plain _ hGoes hPlain,
        hSoft.head?_eq_some_iff cs hCurly,
        hSoft'.head?_eq_some_iff cs hCurly,
        if_neg hStays, if_neg hLine, List.length_cons]
        at hLess ⊢
      rw [ih (by omega)]

theorem fragment_append
    (hSoft : Soft tail)
    (hSoft' : Soft tail')
    (hLess : (fragment g c (cs ++ tail)).more < cs.length) :
    fragment g c (cs ++ tail') = fragment g c (cs ++ tail) := by
  have hFragment :
      fragmentLength g (c :: cs ++ tail) < (c :: cs).length := by
    change fragmentLength g (c :: (cs ++ tail)) - 1 < _ at hLess
    rw [List.cons_append, List.length_cons]
    omega
  have hSame := fragmentLength_append tail' hSoft hSoft' hFragment
  change plain g.fragmentKind
      (fragmentLength g (c :: cs ++ tail') - 1)
      (fragmentMode g ((c :: cs ++ tail').take
        (fragmentLength g (c :: cs ++ tail')))) =
    plain g.fragmentKind (fragmentLength g (c :: cs ++ tail) - 1)
      (fragmentMode g ((c :: cs ++ tail).take
        (fragmentLength g (c :: cs ++ tail))))
  rw [hSame,
    List.take_append_of_le_length (Nat.le_of_lt hFragment),
    List.take_append_of_le_length (Nat.le_of_lt hFragment)]

theorem escape_append
    (hSoft : Soft tail)
    (hSoft' : Soft tail')
    (hLess : (escape g (cs ++ tail)).more < cs.length) :
    escape g (cs ++ tail') = escape g (cs ++ tail) := by
  change backslashTail (cs ++ tail) < cs.length at hLess
  have hSame := backslashTail_append hSoft hSoft'
    (Nat.le_of_lt hLess) (.inl hLess)
  have hMode : ∀ ds : List Char,
      escapeMode g (cs ++ ds) = escapeMode g cs := by
    intro ds
    cases cs with
    | nil => exact absurd hLess (Nat.not_lt_zero _)
    | cons d cs => rfl
  unfold escape
  dsimp only
  rw [hSame, hMode, hMode,
    List.take_append_of_le_length (Nat.le_of_lt hLess),
    List.take_append_of_le_length (Nat.le_of_lt hLess)]

theorem isGroup_bodyMode
    (g : Group) :
    g.bodyMode.isGroup = true := by
  unfold Group.bodyMode
  cases g.layout <;> rfl

theorem body_append
    (hSoft : Soft tail)
    (hSoft' : Soft tail')
    (hFits : (body g c (cs ++ tail)).Fits c cs tail tail') :
    body g c (cs ++ tail') = body g c (cs ++ tail) := by
  have hCurly : isSpace '{' = false := rfl
  unfold body at hFits ⊢
  simp only [hSoft.head?_eq_some_iff cs hCurly] at hFits ⊢
  simp only [hSoft'.head?_eq_some_iff cs hCurly]
  split
  · rename_i hEscape
    rw [if_pos hEscape] at hFits
    apply escape_append hSoft hSoft'
    apply hFits.inside
    change (escapeMode g (cs ++ tail)).isGroup = true
    unfold escapeMode
    split
    · rfl
    · exact isGroup_bodyMode g
  · rename_i hEscape
    rw [if_neg hEscape] at hFits
    split
    · rfl
    · rename_i hStarts
      rw [if_neg hStarts] at hFits
      apply fragment_append hSoft hSoft'
      apply hFits.inside
      change (fragmentMode g _).isGroup = true
      unfold fragmentMode
      split
      · rfl
      · exact isGroup_bodyMode g

theorem group_append
    (hSoft : Soft tail)
    (hSoft' : Soft tail')
    (hFits : (group g c (cs ++ tail)).Fits c cs tail tail') :
    group g c (cs ++ tail') = group g c (cs ++ tail) := by
  unfold group at hFits ⊢
  split
  · rfl
  · rename_i hGoes
    rw [if_neg hGoes] at hFits
    exact body_append hSoft hSoft' hFits

theorem heredocStart_append
    (hFits :
      (heredocStart c (cs ++ tail)).Fits c cs tail tail') :
    heredocStart c (cs ++ tail') = heredocStart c (cs ++ tail) := by
  unfold heredocStart at hFits ⊢
  split
  · rename_i hIndent
    rw [if_pos hIndent] at hFits
    rw [countWhile_append_congr tail' (hFits.inside rfl)]
  · rename_i hIndent
    rw [if_neg hIndent] at hFits
    split
    · rename_i hBreak
      rw [if_pos hBreak] at hFits
      have hLess : lineBreakTail c (cs ++ tail) < cs.length :=
        hFits.inside rfl
      rw [lineBreakTail_append (Nat.le_of_lt hLess)
        (.inl (List.ne_nil_of_length_pos
          (Nat.zero_lt_of_lt hLess)))]
    · rename_i hBreak
      rw [if_neg hBreak] at hFits
      exact absurd rfl hFits.good

theorem heredocLineStart_append
    (hSoft : Soft tail)
    (hSoft' : Soft tail')
    (hTerminator : isSpace g.terminator = false)
    (hFits :
      (heredocLineStart g c (cs ++ tail)).Fits c cs tail tail') :
    heredocLineStart g c (cs ++ tail') =
      heredocLineStart g c (cs ++ tail) := by
  have hTriple : ∀ {ds : List Char}, Soft ds →
      (c = g.terminator ∧ isTriple c (cs ++ ds) = true ↔
        c = g.terminator ∧ isTriple c cs = true) := by
    intro ds hSoft
    apply and_congr_right
    intro hEq
    rw [hSoft.isTriple_append cs (by rw [hEq, hTerminator])]
  unfold heredocLineStart at hFits ⊢
  simp only [hTriple hSoft] at hFits ⊢
  simp only [hTriple hSoft']
  split
  · rename_i hIndent
    rw [if_pos hIndent] at hFits
    rw [countWhile_append_congr tail' (hFits.inside rfl)]
  · rename_i hIndent
    rw [if_neg hIndent] at hFits
    split
    · rfl
    · rename_i hGoes
      rw [if_neg hGoes] at hFits
      exact body_append hSoft hSoft' hFits

------------------------------------------------------------
-- All tokens
------------------------------------------------------------

/-
  A token that ends in front of a tail is the same in front of
  any other tail that would not have been a part of it.
-/
theorem of_append
    {pending : Option Bool}
    (hSoft : Soft tail)
    (hSoft' : Soft tail')
    (hTerminator :
      ∀ layout, isSpace (currentGroup layout top).terminator = false)
    (hFits :
      (Transition.of mode pending top c (cs ++ tail)).Fits c cs tail
        tail') :
    Transition.of mode pending top c (cs ++ tail') =
      Transition.of mode pending top c (cs ++ tail) := by
  cases mode with
  | group => exact group_append hSoft hSoft' hFits
  | heredocStart => exact heredocStart_append hFits
  | heredocLineStart =>
      exact heredocLineStart_append hSoft hSoft' (hTerminator _) hFits
  | heredocLineBody => exact body_append hSoft hSoft' hFits
  | sigil => exact sigilHead_append hSoft hSoft' hFits
  | sigilModifiers => exact sigilModifiers_append hSoft hSoft' hFits
  | character => exact character_append hSoft hSoft' hFits
  | atomStart => exact atomStart_append hSoft hSoft' hFits
  | afterDot => exact afterDot_append hSoft hSoft' hFits
  | baseLetter => exact baseLetter_append hSoft hSoft' hFits
  | binaryDigits => exact digits_append hSoft hSoft' hFits
  | octalDigits => exact digits_append hSoft hSoft' hFits
  | hexadecimalDigits => exact digits_append hSoft hSoft' hFits
  | unknownDigits => exact digits_append hSoft hSoft' hFits
  | decimalDigits => exact digits_append hSoft hSoft' hFits
  | fractionDigits => exact digits_append hSoft hSoft' hFits
  | exponentDigits => exact digits_append hSoft hSoft' hFits
  | _ => exact expression_append hSoft hSoft' hFits

end Transition

end ElixirReader
