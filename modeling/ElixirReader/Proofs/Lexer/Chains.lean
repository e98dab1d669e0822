import ElixirReader.Proofs.Lexer.Literals

/-
  This file shows what the lexer makes of the parts of a call:
  the name that is called, the dot in front of it, and the
  parentheses or brackets that touch what is before them. That
  a bracket touches it is seen from the last token there, which
  is no trivia.

  Key definitions include:
    * `IsCallName`
    * `Mode.endsChain`

  Main declarations:
    * `lexesSolid_variable`
    * `lexesSolid_alias`
    * `lexesSolid_nameBehindDot`
    * `lexesSolid_applied`
-/

namespace ElixirReader

open Transition Unicode

variable {mode : Mode}
variable {spaced : Bool}
variable {text rest : List Char}
variable {Result Result' Mid : Mode → List Lexeme → Prop}

------------------------------------------------------------
-- Names
------------------------------------------------------------

/- The modes right behind a name, a closing bracket or a block. -/
def Mode.endsChain : Mode → Bool
| afterOperand => true
| afterAlias => true
| afterIdentifier => true
| afterLiteral => true
| afterMark => true
| _ => false

theorem Mode.endsElement_of_endsChain
    (hMode : mode.endsChain = true) :
    mode.endsElement = true := by
  cases mode <;> first | rfl | cases hMode

/- A name that is no key, up to what touches it. -/
theorem lexesSolid_word
    {c : Char}
    {cs : List Char}
    {kind : Kind}
    {mode' : Mode}
    (hStart : isIdentifierStart c = true)
    (hTail : identifierTail cs = cs.length)
    (hWord : word c cs = .plain kind cs.length mode')
    (hKind :
      kind.fault? (c :: cs) = none ∧ kind.isTrivia = false)
    (hMode : mode.awaitsWord = true)
    (hEnds : EndsName rest) :
    LexesSolid mode spaced (c :: cs) rest
      (IsTouching kind (c :: cs) spaced mode') := by
  have hNameStart : isNameStart c = true := by
    rw [isNameStart, hStart]
    rfl
  have hOf :
      Transition.of mode none none c (cs ++ rest) =
        .plain kind cs.length mode' := by
    rw [of_nameStart hMode hNameStart,
      hEnds.name_append hStart hTail, hWord]
  exact lexesSolid_plain hOf hKind.1 hKind.2

theorem lexesSolid_variable
    {name : List Char}
    (hName : IsVariableName name)
    (hMode : mode.awaitsWord = true)
    (hEnds : EndsName rest) :
    LexesSolid mode spaced name rest
      (IsTouching .identifier name spaced .afterIdentifier) := by
  cases hName with
  | word c cs hStart hTail hWord =>
      apply lexesSolid_word hStart hTail _ ⟨rfl, rfl⟩ hMode hEnds
      unfold word
      rw [hTail]
      dsimp only
      rw [List.take_length, hWord]
  | dots =>
      have hOf :
          Transition.of mode none none '.' ('.' :: '.' :: rest) =
            .plain .identifier 2 .afterIdentifier := by
        cases mode <;> first | rfl | cases hMode
      exact lexesSolid_plain hOf rfl rfl

/- An alias is read up to what may come behind a name. -/
theorem aliasTail_append
    {cs : List Char}
    (hParts : ∀ c ∈ cs, isAliasPart c = true)
    (hEnds : EndsName rest) :
    aliasTail (cs ++ rest) = cs.length :=
  countWhile_append_of_forall hParts fun _ hHead =>
    hEnds.eq_false_of_head? hHead (by decide)

/- What a segment of an alias consists of. -/
theorem exists_of_isAliasSegment
    {name : List Char}
    (hName : Literal.isAliasSegment name = true) :
    ∃ c cs,
      name = c :: cs ∧ c.isUpper = true ∧
        ∀ d ∈ cs, isAliasPart d = true := by
  cases name with
  | nil => cases hName
  | cons c cs =>
      simp only [Literal.isAliasSegment, List.head?_cons,
        Option.any_some, List.all_cons, Bool.and_eq_true,
        List.all_eq_true] at hName
      refine ⟨c, cs, rfl, hName.1, fun d hMember => ?_⟩
      rw [isAliasPart, Bool.or_comm]
      exact hName.2.2 d hMember

theorem lexesSolid_alias
    {name : List Char}
    (hName : Literal.isAliasSegment name = true)
    (hMode : mode.awaitsWord = true)
    (hEnds : EndsName rest) :
    LexesSolid mode spaced name rest
      (IsTouching .alias name spaced .afterAlias) := by
  rcases exists_of_isAliasSegment hName with
    ⟨c, cs, rfl, hUpper, hParts⟩
  have hStart : isNameStart c = true := by
    rw [isNameStart, hUpper, Bool.or_true]
  have hNoKey : keyTail? (cs ++ rest) = none := by
    have hTail :
        atomNameTail (cs ++ rest) = cs.length := by
      have hRun : ∀ d ∈ cs,
          (isIdentifierPart d || d == '@') = true := by
        intro d hMember
        have hPart := hParts d hMember
        rw [isAliasPart, Bool.or_comm] at hPart
        rw [isIdentifierPart_of_isAlphanum hPart]
        rfl
      have hRest : ∀ d ∈ rest.head?, endsName d = true := by
        intro d hHead
        have hNot := hEnds.eq_false_of_head?
          (p := fun d => !endsName d) hHead (by decide)
        simpa using hNot
      have hNoMark :
          ∀ d ∈ ([] : List Char), isIdentifierMark d = true := by
        simp
      have hAll :=
        atomNameTail_append hRun hNoMark (Nat.zero_le 1) hRest
      rwa [List.append_nil] at hAll
    unfold keyTail?
    rw [hTail, List.drop_left, startsWithKeyMark_of_head?]
    · rfl
    · intro hHead
      exact absurd (hEnds _ hHead) (by decide)
  have hOf :
      Transition.of mode none none c (cs ++ rest) =
        .plain .alias cs.length .afterAlias := by
    rw [of_nameStart hMode hStart]
    unfold Transition.name aliasName
    rw [hNoKey, aliasTail_append hParts hEnds]
    dsimp only
    rw [hUpper, if_pos rfl]
  exact lexesSolid_plain hOf rfl rfl

/- A name that may be called, behind a dot or by itself. -/
structure IsCallName
    (name : List Char) : Prop where
  identifier : Literal.isIdentifier name = true
  plain : '@' ∉ name

theorem isIdentifierStart_of_startsIdentifier
    {c : Char}
    (hStart : Literal.startsIdentifier c = true) :
    isIdentifierStart c = true := by
  rw [Literal.startsIdentifier, Bool.or_eq_true, beq_iff_eq]
    at hStart
  rcases hStart with rfl | hLower
  · rfl
  · exact isIdentifierStart_of_isLowercase hLower

/- Without an `@` in it, the name of an atom is an identifier. -/
theorem identifierTail_eq_atomNameTail
    {cs : List Char}
    (hPlain : '@' ∉ cs) :
    identifierTail cs = atomNameTail cs := by
  have hSame : countWhile isIdentifierPart cs =
      countWhile (fun c => isIdentifierPart c || c == '@') cs := by
    induction cs with
    | nil => rfl
    | cons c cs ih =>
        rw [List.mem_cons, not_or] at hPlain
        have hOther : (c == '@') = false :=
          beq_eq_false_iff_ne.mpr (Ne.symm hPlain.1)
        unfold countWhile at ih ⊢
        rw [List.takeWhile_cons, List.takeWhile_cons, hOther,
          Bool.or_false]
        split
        · rw [List.length_cons, List.length_cons, ih hPlain.2]
        · rfl
  unfold identifierTail atomNameTail
  rw [hSame]

/- A name that may be called is one whole identifier. -/
theorem IsCallName.exists_identifierTail
    {name : List Char}
    (hName : IsCallName name) :
    ∃ c cs,
      name = c :: cs ∧ isIdentifierStart c = true ∧
        identifierTail cs = cs.length := by
  rcases isWholeName_of_isIdentifier hName.identifier with
    ⟨c, cs, rfl, _, hTail⟩
  have hStart : Literal.startsIdentifier c = true := by
    have hIdentifier := hName.identifier
    rw [Literal.isIdentifier, Bool.and_eq_true,
      Bool.and_eq_true] at hIdentifier
    exact hIdentifier.1.1
  have hPlain : '@' ∉ cs := fun hMember =>
    hName.plain (List.mem_cons_of_mem c hMember)
  have hWhole := hTail [] (by simp)
  rw [List.append_nil] at hWhole
  refine ⟨c, cs, rfl,
    isIdentifierStart_of_startsIdentifier hStart, ?_⟩
  rw [identifierTail_eq_atomNameTail hPlain, hWhole]

/- A name that may be called is a variable, unless it is reserved. -/
theorem IsCallName.isVariableName
    {name : String}
    (hName : IsCallName name.toList)
    (hWord : reservedWord? name = none) :
    IsVariableName name.toList := by
  rcases hName.exists_identifierTail with
    ⟨c, cs, hSplit, hStart, hTail⟩
  rw [hSplit]
  apply IsVariableName.word c cs hStart hTail
  rw [← hSplit, String.ofList_toList]
  exact hWord

------------------------------------------------------------
-- Dots
------------------------------------------------------------

/- A dot that no other dot follows. -/
theorem lexesSolid_dot
    (hMode : mode.endsChain = true)
    (hNext : ∀ c ∈ rest.head?, c ≠ '.') :
    LexesSolid mode spaced ['.'] rest
      (IsTouching .dot ['.'] spaced .afterDot) := by
  have hDot : dot rest = .plain .dot 0 .afterDot := by
    unfold dot
    split
    · exact absurd rfl (hNext '.' rfl)
    · exact absurd rfl (hNext '.' rfl)
    · rfl
  have hOf :
      Transition.of mode none none '.' ([] ++ rest) =
        .plain .dot 0 .afterDot := by
    rw [List.nil_append, ← hDot]
    cases mode <;> first | rfl | cases hMode
  exact lexesSolid_plain hOf rfl rfl

/- Behind a dot no word is reserved. -/
theorem lexesSolid_nameBehindDot
    {name : List Char}
    (hName : IsCallName name)
    (hEnds : EndsName rest) :
    LexesSolid .afterDot spaced name rest
      (IsTouching .identifier name spaced .afterIdentifier) := by
  rcases hName.exists_identifierTail with
    ⟨c, cs, rfl, hStart, hTail⟩
  have hNameStart : isNameStart c = true := by
    rw [isNameStart, hStart]
    rfl
  have hOther : c ≠ '#' := by
    rintro rfl
    exact absurd hStart (by decide)
  rcases not_of_isNameStart hNameStart with ⟨hBlank, hBreak, _⟩
  have hOf :
      Transition.of .afterDot none none c (cs ++ rest) =
        .plain .identifier cs.length .afterIdentifier := by
    change afterDot none c (cs ++ rest) = _
    unfold afterDot
    rw [hBlank, hBreak, if_neg hOther,
      isUpper_of_isIdentifierStart hStart, hStart,
      hEnds.identifierTail_append, hTail]
    rfl
  exact lexesSolid_plain hOf rfl rfl

/- An operator that may be called is read up to what ends a name. -/
theorem EndsName.firstPrefix?_append
    {name : String}
    (hCalled : name ∈ callOperators)
    (hEnds : EndsName rest) :
    firstPrefix? callOperators (name.toList ++ rest) = some name := by
  have hApart :
      ∀ t ∈ callOperators,
        (t.toList.all fun c => !nameEnds.contains c) = true := by
    decide
  have hWhole :
      ∀ t ∈ callOperators,
        firstPrefix? callOperators t.toList = some t := by
    decide
  have hSame :
      firstPrefix? callOperators (name.toList ++ rest) =
        firstPrefix? callOperators name.toList :=
    List.find?_congr fun t hMember =>
      isPrefixOf_append_of_head? fun c hHead hInside => by
        have hNone := List.all_eq_true.mp (hApart t hMember) c hInside
        simp [hEnds c hHead] at hNone
  rw [hSame, hWhole name hCalled]

/- No operator that may be called starts like anything else. -/
theorem exists_of_mem_callOperators
    {name : String}
    (hCalled : name ∈ callOperators) :
    ∃ c cs,
      name.toList = c :: cs ∧ name.length - 1 = cs.length ∧
        ∀ rest,
          Transition.of .afterDot none none c rest =
            match firstPrefix? callOperators (c :: rest) with
            | some op =>
                .plain .identifier (op.length - 1) .afterIdentifier
            | none => expression .initial none c rest := by
  have hAll :
      ∀ t ∈ callOperators,
        t.toList ≠ [] ∧ t.length = t.toList.length ∧
          (t.toList.head?.all fun c =>
            !isBlank c && !isLineBreak c && c != '#' &&
              !c.isUpper && !isIdentifierStart c) = true := by
    decide
  rcases hAll name hCalled with ⟨hFilled, hLength, hStart⟩
  cases hText : name.toList with
  | nil => exact absurd hText hFilled
  | cons c cs =>
      rw [hText] at hLength hStart
      simp only [List.head?_cons, Option.all_some, Bool.and_eq_true,
        Bool.not_eq_true', bne_iff_ne] at hStart
      rcases hStart with
        ⟨⟨⟨⟨hBlank, hBreak⟩, hOther⟩, hUpper⟩, hNone⟩
      refine ⟨c, cs, rfl, by rw [hLength]; rfl, fun rest => ?_⟩
      change afterDot none c rest = _
      unfold afterDot
      rw [hBlank, hBreak, if_neg hOther, hUpper, hNone]
      rfl

/- Behind a dot an operator may be a name. -/
theorem lexesSolid_operatorBehindDot
    {name : String}
    (hCalled : name ∈ callOperators)
    (hEnds : EndsName rest) :
    LexesSolid .afterDot spaced name.toList rest
      (IsTouching .identifier name.toList spaced .afterIdentifier)
      := by
  rcases exists_of_mem_callOperators hCalled with
    ⟨c, cs, hText, hLength, hDot⟩
  have hFirst := hEnds.firstPrefix?_append hCalled
  rw [hText, List.cons_append] at hFirst
  have hOf :
      Transition.of .afterDot none none c (cs ++ rest) =
        .plain .identifier cs.length .afterIdentifier := by
    rw [hDot, hFirst, ← hLength]
  rw [hText]
  exact lexesSolid_plain hOf rfl rfl

/- Behind a dot any text between quotes may be a name. -/
theorem lexesSolid_textBehindDot
    (content : List Char)
    (hEnds : EndsName rest) :
    LexesSolid .afterDot spaced
      (['"'] ++ Literal.escapedText content ++ ['"']) rest
      (fun m ls => m = .afterLiteral ∧ IsText content ls) := by
  have hRest : '"' ∉ rest.head? := by
    intro hHead
    exact absurd (hEnds '"' hHead) (by decide)
  apply (lexesSolid_text spaced content (fun _ => rfl) hRest).mono
  exact fun m ls h => ⟨h.1, h.2.1⟩

theorem lexesSolid_aliasBehindDot
    {name : List Char}
    (hName : Literal.isAliasSegment name = true)
    (hEnds : EndsName rest) :
    LexesSolid .afterDot spaced name rest
      (IsTouching .alias name spaced .afterAlias) := by
  rcases exists_of_isAliasSegment hName with
    ⟨c, cs, rfl, hUpper, hParts⟩
  have hStart : isNameStart c = true := by
    rw [isNameStart, hUpper, Bool.or_true]
  have hOther : c ≠ '#' := by
    rintro rfl
    exact absurd hUpper (by decide)
  rcases not_of_isNameStart hStart with ⟨hBlank, hBreak, _⟩
  have hOf :
      Transition.of .afterDot none none c (cs ++ rest) =
        .plain .alias cs.length .afterAlias := by
    change afterDot none c (cs ++ rest) = _
    unfold afterDot aliasName
    rw [hBlank, hBreak, if_neg hOther, hUpper,
      aliasTail_append hParts hEnds]
    rfl
  exact lexesSolid_plain hOf rfl rfl

------------------------------------------------------------
-- Brackets
------------------------------------------------------------

/- The modes in which a bracket opens right behind a name or dot. -/
def Mode.opensBracket
    (mode : Mode) : Bool :=
  mode.endsChain || mode == .afterDot

theorem lexesSolid_opening
    {b : Bracket}
    {opener closer : Char}
    (hMarks : (b, opener, closer) ∈ bracketMarks)
    (hBracket : b ≠ .curly)
    (hMode : mode.opensBracket = true) :
    LexesSolid mode spaced [opener] rest
      (IsTouching (.opening b) [opener] spaced .afterOpening) := by
  have hOf :
      Transition.of mode none none opener ([] ++ rest) =
        .plain (.opening b) 0 .afterOpening := by
    simp only [bracketMarks, List.mem_cons, Prod.mk.injEq,
      List.not_mem_nil, or_false] at hMarks
    rcases hMarks with ⟨rfl, rfl, _⟩ | ⟨rfl, rfl, _⟩ |
      ⟨rfl, rfl, _⟩
    · cases mode <;> first | rfl | cases hMode
    · cases mode <;> first | rfl | cases hMode
    · exact absurd rfl hBracket
  exact lexesSolid_plain hOf rfl rfl

theorem lexesSolid_closing
    {b : Bracket}
    {opener closer : Char}
    (hMarks : (b, opener, closer) ∈ bracketMarks)
    (hBracket : b ≠ .curly)
    (hMode :
      mode.awaitsOperand = true ∨ mode.endsOperand = true) :
    LexesSolid mode spaced [closer] rest
      (IsTouching (.closing b) [closer] spaced .afterOperand) := by
  have hOf :
      Transition.of mode none none closer ([] ++ rest) =
        .plain (.closing b) 0 .afterOperand := by
    simp only [bracketMarks, List.mem_cons, Prod.mk.injEq,
      List.not_mem_nil, or_false] at hMarks
    rcases hMarks with ⟨rfl, _, rfl⟩ | ⟨rfl, _, rfl⟩ |
      ⟨rfl, _, rfl⟩
    · rcases hMode with hMode | hMode <;>
        (cases mode <;> first | rfl | cases hMode)
    · rcases hMode with hMode | hMode <;>
        (cases mode <;> first | rfl | cases hMode)
    · exact absurd rfl hBracket
  exact lexesSolid_plain hOf rfl rfl

/- The lexemes are brackets that touch what is before them. -/
def IsApplied
    {α : Type}
    (Spelled : α → List Lexeme → Prop)
    (b : Bracket)
    (items : List α)
    (ls : List Lexeme) : Prop :=
  ∃ opened body closed,
    ls = opened :: (body ++ [closed]) ∧
      opened.kind = .opening b ∧ opened.spaced = false ∧
      closed.kind = .closing b ∧ Separated .comma Spelled items body

/- Elements in brackets that touch what is before them. -/
theorem lexesSolid_applied
    {α : Type}
    {write : α → List Char}
    {Spelled : α → List Lexeme → Prop}
    {items : List α}
    {b : Bracket}
    {opener closer : Char}
    (hMarks : (b, opener, closer) ∈ bracketMarks)
    (hBracket : b ≠ .curly)
    (hItems : ∀ a ∈ items,
      LaysElement Mode.awaitsWord (write a) (Spelled a))
    (hMode : mode.opensBracket = true) :
    LexesSolid mode false
      ([opener] ++ Written.commas (items.map write) ++ [closer])
      rest
      (fun m ls => m = .afterOperand ∧ IsApplied Spelled b items ls)
      := by
  rw [List.append_assoc]
  apply (lexesSolid_opening hMarks hBracket hMode).append
  rintro _ _ ⟨rfl, opened, rfl, hOpened, _, hTouches⟩
  apply LexesSolid.behind (lexes_commas_closed hMarks hItems
    fun _ => Mode.awaitsWord_of_awaitsOperand)
  rintro m body spaced' ⟨hMode', hSeparated⟩
  apply (lexesSolid_closing hMarks hBracket hMode').mono
  rintro _ _ ⟨rfl, closed, rfl, hClosed, _⟩
  exact ⟨rfl, opened, body, closed, rfl, hOpened, hTouches,
    hClosed, hSeparated⟩

end ElixirReader
