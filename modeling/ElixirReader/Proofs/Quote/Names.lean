import ElixirReader.Proofs.Quote.Chains
import ElixirReader.Proofs.Quote.Indentation

/-
  This file shows how names are written and read again: on one
  line, with quotes around those that need them, in front of the
  colon of a key and behind a dot. Behind a dot operators need
  no quotes either, apart from those that are not called there.

  Key definitions include:
    * `LaysName`
    * `IsDottedName`

  Main declarations:
    * `isLine_key`
    * `IsDottedName.laysName`
-/

namespace ElixirReader

open Written Unicode

------------------------------------------------------------
-- Names
------------------------------------------------------------

/- An identifier is on one line. -/
theorem isLine_of_identifierTail
    {c : Char}
    {cs : List Char}
    (hStart : isIdentifierStart c = true)
    (hTail : identifierTail cs = cs.length) :
    IsLine (c :: cs) := by
  have hParts : ∀ d,
      isIdentifierStart d = false →
        isIdentifierPart d = false →
          isIdentifierMark d = false →
            d ∉ c :: cs := by
    intro d hStart' hPart hMark hMember
    rcases List.mem_cons.mp hMember with rfl | hMember
    · rw [hStart] at hStart'
      cases hStart'
    · have hTaken : d ∈ cs.take (identifierTail cs) := by
        rw [hTail, List.take_length]
        exact hMember
      rcases mem_take_withMark hTaken with hFound | hFound
      · rw [hPart] at hFound
        cases hFound
      · rw [hMark] at hFound
        cases hFound
  exact ⟨List.cons_ne_nil c cs,
    hParts '\n' (by decide) (by decide)
      (by decide),
    hParts '\r' (by decide) (by decide)
      (by decide)⟩

theorem IsVariableName.isLine
    {name : List Char}
    (hName : IsVariableName name) :
    IsLine name := by
  cases hName with
  | word c cs hStart hTail _ =>
      exact isLine_of_identifierTail hStart hTail
  | dots => exact ⟨by decide, by decide, by decide⟩

theorem IsCallName.isLine
    {name : List Char}
    (hName : IsCallName name) :
    IsLine name := by
  rcases hName.exists_identifierTail with
    ⟨c, cs, rfl, hStart, hTail⟩
  exact isLine_of_identifierTail hStart hTail

/- A name that needs no quotes is on one line. -/
theorem isLine_of_isPlain
    {name : List Char}
    (hPlain : Literal.isPlain name = true) :
    IsLine name := by
  rcases isWholeName_of_isPlain hPlain with ⟨c, cs, hName, _⟩
  exact ⟨hName ▸ List.cons_ne_nil c cs,
    notMem_of_isPlain hPlain (by decide) (by decide)
      (by decide),
    notMem_of_isPlain hPlain (by decide) (by decide)
      (by decide)⟩

/- A text between quotes is on one line, with its escapes. -/
theorem isLine_text
    (content : List Char) :
    IsLine (['"'] ++ Literal.escapedText content ++ ['"']) := by
  refine ⟨by simp, ?_, ?_⟩
  · have hBreak : '\n' ∉ Literal.escapedText content :=
      notMem_escapedText content rfl (by decide)
    simpa using hBreak
  · have hReturn : '\r' ∉ Literal.escapedText content :=
      notMem_escapedText content rfl (by decide)
    simpa using hReturn

/- The key of a pair is on one line. -/
theorem isLine_key
    {name : String}
    (hVisible : name.toList.all Literal.isVisible = true) :
    IsLine (Literal.key name ++ [' ']) := by
  have hColon : IsLine [':'] := ⟨by decide, by decide, by decide⟩
  have hBlank : IsLine [' '] := ⟨by decide, by decide, by decide⟩
  apply IsLine.append _ hBlank
  unfold Literal.key
  split
  · rename_i hPlain
    exact (isLine_of_isPlain hPlain).append hColon
  · rw [Literal.binary, if_pos hVisible]
    exact (isLine_text name.toList).append hColon

/- A name that needs no quotes may start an operand. -/
theorem starts_of_isPlain
    {name : List Char}
    (hPlain : Literal.isPlain name = true) :
    name.head?.any startsOperandText = true := by
  rcases isWholeName_of_isPlain hPlain with ⟨c, cs, rfl, hStart, _⟩
  change startsOperandText c = true
  rw [startsOperandText, hStart]
  rfl

------------------------------------------------------------
-- Names behind dots
------------------------------------------------------------

variable {name : String}
variable {text : List Char}

/- A text behind a dot is laid out as a name. -/
structure LaysName
    (name : String)
    (text : List Char) : Prop where
  line : IsLine text
  starts : text.head?.any (· != '.') = true
  lexes : ∀ spaced rest,
    EndsName rest →
      LexesSolid .afterDot spaced text rest
        (fun m ls => m.endsChain = true ∧ ReadsName name ls)

theorem LaysName.ne_dot
    {rest : List Char}
    (hName : LaysName name text) :
    ∀ c ∈ (text ++ rest).head?, c ≠ '.' := by
  intro c hHead
  exact bne_iff_ne.mp (of_head?_append hName.starts c hHead)

/- A name that is one identifier behind a dot. -/
theorem laysName_identifier
    (hLine : IsLine name.toList)
    (hStarts : name.toList.head?.any (· != '.') = true)
    (hLexes : ∀ spaced rest,
      EndsName rest →
        LexesSolid .afterDot spaced name.toList rest
          (IsTouching .identifier name.toList spaced
            .afterIdentifier)) :
    LaysName name name.toList := by
  refine ⟨hLine, hStarts, fun spaced rest hEnds => ?_⟩
  apply (hLexes spaced rest hEnds).mono
  rintro _ _ ⟨rfl, l, rfl, hKind, hText, _⟩
  refine ⟨rfl, ?_⟩
  rw [← String.ofList_toList (s := name), ← hText]
  exact readsName_identifier hKind

/- Any text between quotes is a name behind a dot. -/
theorem laysName_text
    (name : String) :
    LaysName name
      (['"'] ++ Literal.escapedText name.toList ++ ['"']) := by
  refine ⟨isLine_text name.toList, rfl, fun spaced rest hEnds => ?_⟩
  apply (lexesSolid_textBehindDot name.toList hEnds).mono
  rintro _ ls ⟨rfl, hText⟩
  refine ⟨rfl, ?_⟩
  rw [← String.ofList_toList (s := name)]
  exact readsName_text hText

theorem laysName_operator
    (hCalled : name ∈ callOperators) :
    LaysName name name.toList := by
  have hAll :
      ∀ n ∈ callOperators,
        n.toList ≠ [] ∧ '\n' ∉ n.toList ∧ '\r' ∉ n.toList ∧
          n.toList.head?.any (· != '.') = true := by
    decide
  rcases hAll name hCalled with ⟨hFilled, hBreak, hReturn, hStarts⟩
  exact laysName_identifier ⟨hFilled, hBreak, hReturn⟩ hStarts
    fun _ _ => lexesSolid_operatorBehindDot hCalled

theorem IsCallName.laysName
    (hName : IsCallName name.toList) :
    LaysName name name.toList := by
  apply laysName_identifier hName.isLine ?_
    fun _ _ => lexesSolid_nameBehindDot hName
  rcases hName.exists_identifierTail with ⟨c, cs, hText, hStart, _⟩
  rw [hText]
  change (c != '.') = true
  rw [bne_iff_ne]
  rintro rfl
  exact absurd hStart (by decide)

/-
  The names that are read behind a dot as they are written
  there: identifiers, operators, and what is put in quotes.
-/
inductive IsDottedName
    (name : String) : Prop where
| identifier
    (hName : IsCallName name.toList)
| operator
    (hCalled : name ∈ callOperators)
    (hBinds : (OperatorName.binding? name).isSome = true)
| quoted
    (hOther : Literal.isIdentifier name.toList = false)
    (hLoose : OperatorName.binding? name = none)
    (hVisible : name.toList.all Literal.isVisible = true)
    (hBraces : name ≠ "\x7b\x7d")

theorem IsDottedName.ne_braces
    (hDotted : IsDottedName name) :
    name ≠ "\x7b\x7d" := by
  rintro rfl
  cases hDotted with
  | identifier hName =>
      exact absurd hName.identifier (by decide)
  | operator hCalled _ => exact absurd hCalled (by decide)
  | quoted _ _ _ hBraces => exact hBraces rfl

/- The text of such a name is laid out as the name. -/
theorem IsDottedName.laysName
    (hDotted : IsDottedName name) :
    LaysName name (Written.dottedName name) := by
  unfold Written.dottedName
  cases hDotted with
  | identifier hName =>
      rw [if_pos (.inl hName.identifier)]
      exact hName.laysName
  | operator hCalled hBinds =>
      rw [if_pos (.inr hBinds)]
      exact laysName_operator hCalled
  | quoted hOther hLoose hVisible _ =>
      rw [if_neg (by simp [hOther, hLoose]), Literal.binary,
        if_pos hVisible]
      exact laysName_text name

end ElixirReader
