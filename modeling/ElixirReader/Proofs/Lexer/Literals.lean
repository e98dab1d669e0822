import ElixirReader.Proofs.Lexer.Operands
import ElixirReader.Term.Literal

/-
  This file shows what the lexer makes of literals as they are
  written: atoms and the keys of pairs, whose names need no
  quotes, texts between double quotes, and what stands between
  the elements of a list.

  Key definitions include:
    * `endsName`
    * `IsWholeName`
    * `IsKey`
    * `IsAtom`
    * `SpellsText`
    * `IsText`
    * `Separated`
    * `Continues`
    * `LaysElement`
    * `IsBracketed`

  Main declarations:
    * `isWholeName_of_isPlain`
    * `lexes_key`
    * `lexes_atom`
    * `lexesSolid_text`
    * `lexes_text`
    * `lexes_commas`
    * `lexes_bracketed`
-/

namespace ElixirReader

open Transition Unicode

variable {mode : Mode}
variable {rest : List Char}

------------------------------------------------------------
-- Names of atoms
------------------------------------------------------------

/- A character with which no name of an atom goes on. -/
def endsName
    (c : Char) : Bool :=
  !(isIdentifierPart c || c == '@') && !isIdentifierMark c

theorem countWhile_append_of_forall
    {p : Char → Bool}
    {cs : List Char}
    (hAll : ∀ c ∈ cs, p c = true)
    (hNone : ∀ c ∈ rest.head?, p c = false) :
    countWhile p (cs ++ rest) = cs.length := by
  rw [countWhile_append_of_head? cs hNone,
    countWhile_eq_length hAll]

/- A name is a run of its characters and at most one mark. -/
theorem atomNameTail_append
    {run marks : List Char}
    (hRun : ∀ c ∈ run, (isIdentifierPart c || c == '@') = true)
    (hMarks : ∀ c ∈ marks, isIdentifierMark c = true)
    (hLength : marks.length ≤ 1)
    (hRest : ∀ c ∈ rest.head?, endsName c = true) :
    atomNameTail (run ++ marks ++ rest) =
      (run ++ marks).length := by
  have hMark :
      ∀ c, isIdentifierMark c = true →
        (isIdentifierPart c || c == '@') = false := by
    intro c hMark
    rw [isIdentifierMark, Bool.or_eq_true, beq_iff_eq,
      beq_iff_eq] at hMark
    rcases hMark with rfl | rfl <;> decide
  have hNext :
      ∀ c ∈ rest.head?,
        (isIdentifierPart c || c == '@') = false ∧
          isIdentifierMark c = false := by
    intro c hHead
    simpa [endsName] using hRest c hHead
  have hNone :
      ∀ c ∈ (marks ++ rest).head?,
        (isIdentifierPart c || c == '@') = false := by
    intro c hHead
    cases marks with
    | nil => exact (hNext c hHead).1
    | cons m marks =>
        cases hHead
        exact hMark c (hMarks c List.mem_cons_self)
  unfold atomNameTail withMark
  rw [List.append_assoc, countWhile_append_of_forall hRun hNone,
    List.drop_left]
  rcases marks with _ | ⟨m, _ | ⟨m', marks⟩⟩
  · rw [List.nil_append, if_neg, List.append_nil]
    cases rest with
    | nil => exact Bool.false_ne_true
    | cons c rest =>
        rw [List.head?_cons, Option.any_some, (hNext c rfl).2]
        exact Bool.false_ne_true
  · have hEnd : isIdentifierMark m = true :=
      hMarks m List.mem_cons_self
    simp [hEnd]
  · simp at hLength

/-
  The ranges that are left of some others, in increasing order,
  when those that lie in the given ones are taken away.
-/
def rangesOutside
    (outer inner : List CodeRange) : List CodeRange :=
  outer.foldl
    (fun left r =>
      left.dropWhile fun r' => decide (r.1 ≤ r'.1 ∧ r'.2 ≤ r.2))
    inner

theorem inRanges_of_rangesOutside
    {outer inner : List CodeRange}
    {n : Nat}
    (hNone : (rangesOutside outer inner).isEmpty = true)
    (hInner : inRanges inner n = true) :
    inRanges outer n = true := by
  rw [inRanges_iff] at hInner ⊢
  rcases hInner with ⟨r, hMember, hFirst, hLast⟩
  induction outer generalizing inner with
  | nil =>
      have hEmpty : inner = [] := List.isEmpty_iff.mp hNone
      rw [hEmpty] at hMember
      cases hMember
  | cons r' outer ih =>
      let within : CodeRange → Bool :=
        fun r => decide (r'.1 ≤ r.1 ∧ r.2 ≤ r'.2)
      have hSplit :
          r ∈ inner.takeWhile within ++ inner.dropWhile within := by
        rw [List.takeWhile_append_dropWhile]
        exact hMember
      rcases List.mem_append.mp hSplit with hTaken | hLeft
      · have hWithin :=
          List.all_eq_true.mp List.all_takeWhile r hTaken
        have hBounds := of_decide_eq_true hWithin
        exact ⟨r', List.mem_cons_self, by omega, by omega⟩
      · rcases ih hNone hLeft with ⟨s, hMember, hHolds⟩
        exact ⟨s, List.mem_cons_of_mem _ hMember, hHolds⟩

theorem ascii_of_isUpper
    {c : Char}
    (hUpper : c.isUpper = true) :
    c.toNat < 128 := by
  have hBound : c.val ≤ 'Z'.val := (of_decide_eq_true hUpper).2
  exact Nat.lt_of_le_of_lt (UInt32.le_iff_toNat_le.mp hBound)
    (by decide)

theorem ascii_of_isAlphanum
    {c : Char}
    (hAlphanum : c.isAlphanum = true) :
    c.toNat < 128 := by
  rcases Bool.or_eq_true_iff.mp hAlphanum with hAlpha | hDigit
  · rcases Bool.or_eq_true_iff.mp hAlpha with hUpper | hLower
    · exact ascii_of_isUpper hUpper
    · have hBound : c.val ≤ 'z'.val :=
        of_decide_eq_true (Bool.and_eq_true_iff.mp hLower).2
      exact Nat.lt_of_le_of_lt (UInt32.le_iff_toNat_le.mp hBound)
        (by decide)
  · exact ascii_of_isDigit hDigit

/- Lower case letters start identifiers. -/
theorem isIdentifierStart_of_isLowercase
    {c : Char}
    (hLower : isLowercase c = true) :
    isIdentifierStart c = true := by
  by_cases hAscii : c.toNat < 128
  · have hStart :=
      of_ascii (fun c => !isLowercase c || isIdentifierStart c)
        hAscii (by decide)
    simpa [hLower] using hStart
  · have hAlphabetic : isAlphabetic c = true := by
      rw [isLowercase, if_neg hAscii] at hLower
      rw [isAlphabetic, if_neg hAscii]
      exact inRanges_of_rangesOutside (by decide +kernel) hLower
    have hUpper : c.isUpper = false := by
      cases hUpper : c.isUpper with
      | false => rfl
      | true => exact absurd (ascii_of_isUpper hUpper) hAscii
    rw [isIdentifierStart, hAlphabetic, hUpper]
    exact Bool.or_true _

/- The characters of ASCII that an alias may hold are letters. -/
theorem isIdentifierPart_of_isAlphanum
    {c : Char}
    (hPart : (c == '_' || c.isAlphanum) = true) :
    isIdentifierPart c = true := by
  by_cases hAscii : c.toNat < 128
  · have hName :=
      of_ascii
        (fun c =>
          !(c == '_' || c.isAlphanum) || isIdentifierPart c)
        hAscii (by decide)
    simpa [hPart] using hName
  · exfalso
    apply hAscii
    rw [Bool.or_eq_true, beq_iff_eq] at hPart
    rcases hPart with rfl | hPart
    · decide
    · exact ascii_of_isAlphanum hPart

/- An identifier is a run of its characters and at most one mark. -/
theorem exists_marks_of_isIdentifier
    {name : List Char}
    (hName : Literal.isIdentifier name = true) :
    ∃ base marks,
      name = base ++ marks ∧
        (∀ c ∈ base, Literal.isIdentifierPart c = true) ∧
        (∀ c ∈ marks, isIdentifierMark c = true) ∧
        marks.length ≤ 1 := by
  unfold Literal.isIdentifier at hName
  rw [Bool.and_eq_true, Bool.and_eq_true,
    decide_eq_true_eq] at hName
  rcases hName with ⟨⟨_, hLength⟩, hParts⟩
  let marks := (name.reverse.takeWhile Literal.isMark).reverse
  have hSplit : Literal.withoutMarks name ++ marks = name := by
    change (name.reverse.dropWhile _).reverse ++
      (name.reverse.takeWhile _).reverse = name
    rw [← List.reverse_append,
      List.takeWhile_append_dropWhile, List.reverse_reverse]
  refine ⟨_, marks, hSplit.symm, List.all_eq_true.mp hParts,
    ?_, ?_⟩
  · intro c hMember
    exact List.all_eq_true.mp List.all_takeWhile c
      (List.mem_reverse.mp hMember)
  · have hSum := congrArg List.length hSplit
    rw [List.length_append] at hSum
    omega

/-
  A name that is read through its last character, wherever the
  name of an atom is read.
-/
def IsWholeName
    (name : List Char) : Prop :=
  ∃ c cs,
    name = c :: cs ∧ isNameStart c = true ∧
      ∀ rest,
        (∀ d ∈ rest.head?, endsName d = true) →
          atomNameTail (cs ++ rest) = cs.length

theorem isNameStart_of_startsIdentifier
    {c : Char}
    (hStart : Literal.startsIdentifier c = true) :
    isNameStart c = true := by
  rw [Literal.startsIdentifier, Bool.or_eq_true,
    beq_iff_eq] at hStart
  rcases hStart with rfl | hLower
  · decide
  · rw [isNameStart, isIdentifierStart_of_isLowercase hLower]
    rfl

theorem isWholeName_of_isIdentifier
    {name : List Char}
    (hName : Literal.isIdentifier name = true) :
    IsWholeName name := by
  have hHead : name.head?.any Literal.startsIdentifier = true := by
    rw [Literal.isIdentifier, Bool.and_eq_true,
      Bool.and_eq_true] at hName
    exact hName.1.1
  rcases exists_marks_of_isIdentifier hName with
    ⟨base, marks, rfl, hParts, hMarks, hFew⟩
  cases base with
  | nil =>
      -- A mark starts no identifier.
      cases marks with
      | nil => cases hHead
      | cons m marks =>
          have hStart : Literal.startsIdentifier m = true := hHead
          have hMark := hMarks m List.mem_cons_self
          rw [isIdentifierMark, Bool.or_eq_true, beq_iff_eq,
            beq_iff_eq] at hMark
          rcases hMark with rfl | rfl <;>
            exact absurd hStart (by decide)
  | cons c run =>
      refine ⟨c, run ++ marks, rfl,
        isNameStart_of_startsIdentifier hHead, ?_⟩
      intro rest hRest
      apply atomNameTail_append _ hMarks hFew hRest
      intro d hMember
      have hPart := hParts d (List.mem_cons_of_mem c hMember)
      simpa [Literal.isIdentifierPart, isIdentifierPart,
        or_assoc, or_comm, or_left_comm] using hPart

theorem isWholeName_of_isAliasSegment
    {name : List Char}
    (hName : Literal.isAliasSegment name = true) :
    IsWholeName name := by
  unfold Literal.isAliasSegment at hName
  rw [Bool.and_eq_true] at hName
  rcases hName with ⟨hHead, hParts⟩
  cases name with
  | nil => cases hHead
  | cons c cs =>
      have hUpper : c.isUpper = true := hHead
      refine ⟨c, cs, rfl, ?_, ?_⟩
      · rw [isNameStart, hUpper, Bool.or_true]
      · intro rest hRest
        have hRun :
            ∀ d ∈ cs, (isIdentifierPart d || d == '@') = true := by
          intro d hMember
          rw [isIdentifierPart_of_isAlphanum
            (List.all_eq_true.mp hParts d
              (List.mem_cons_of_mem c hMember))]
          rfl
        have hNoMark : ∀ d ∈ [], isIdentifierMark d = true := by
          simp
        have hTail :=
          atomNameTail_append hRun hNoMark (Nat.zero_le 1) hRest
        rwa [List.append_nil] at hTail

/- A name that needs no quotes is read to its end. -/
theorem isWholeName_of_isPlain
    {name : List Char}
    (hPlain : Literal.isPlain name = true) :
    IsWholeName name := by
  rcases Bool.or_eq_true_iff.mp hPlain with hName | hName
  · exact isWholeName_of_isIdentifier hName
  · exact isWholeName_of_isAliasSegment hName

/- No other characters are in a name that needs no quotes. -/
theorem notMem_of_isPlain
    {name : List Char}
    {c : Char}
    (hPlain : Literal.isPlain name = true)
    (hPart : Literal.isIdentifierPart c = false)
    (hMark : isIdentifierMark c = false)
    (hAscii : (c == '_' || c.isAlphanum) = false) :
    c ∉ name := by
  intro hMember
  rcases Bool.or_eq_true_iff.mp hPlain with hName | hName
  · rcases exists_marks_of_isIdentifier hName with
      ⟨base, marks, rfl, hBase, hMarks, _⟩
    rcases List.mem_append.mp hMember with hMember | hMember
    · rw [hBase c hMember] at hPart
      cases hPart
    · rw [hMarks c hMember] at hMark
      cases hMark
  · unfold Literal.isAliasSegment at hName
    rw [Bool.and_eq_true] at hName
    have hSegment := List.all_eq_true.mp hName.2 c hMember
    rw [hSegment] at hAscii
    cases hAscii

/- A name that needs no quotes can be seen. -/
theorem isVisible_of_isPlain
    {name : List Char}
    (hPlain : Literal.isPlain name = true) :
    name.all Literal.isVisible = true := by
  rw [List.all_eq_true]
  intro c hMember
  rw [← Bool.not_eq_false]
  intro hHidden
  have hControl : isControl c = true := by
    rw [Literal.isVisible, Bool.or_eq_false_iff] at hHidden
    simpa using hHidden.2
  have hBound : c.toNat < 160 := by
    rw [isControl, decide_eq_true_eq] at hControl
    omega
  have hOther :=
    of_toNat_lt
      (fun c =>
        !isControl c ||
          (!Literal.isIdentifierPart c && !isIdentifierMark c &&
            !(c == '_' || c.isAlphanum)))
      hBound (by decide +kernel)
  simp only [hControl, Bool.not_true, Bool.false_or,
    Bool.and_eq_true, Bool.not_eq_true'] at hOther
  exact notMem_of_isPlain hPlain hOther.1.1 hOther.1.2 hOther.2
    hMember

------------------------------------------------------------
-- Atoms and keys
------------------------------------------------------------

/- The lexemes are a key with its colon. -/
def IsKey
    (name : String)
    (ls : List Lexeme) : Prop :=
  ∃ key colon,
    ls = [key, colon] ∧ key.kind = .atomName ∧
      key.text = name ∧ colon.kind = .colon

/- The lexemes are an atom: a colon, and a name that touches it. -/
def IsAtom
    (name : String)
    (ls : List Lexeme) : Prop :=
  ∃ colon l,
    ls = [colon, l] ∧ colon.kind = .colon ∧
      l.kind = .atomName ∧ l.text = name ∧ l.spaced = false

/- A key that needs no quotes, up to the value of the pair. -/
theorem lexes_key
    {name : String}
    (hPlain : Literal.isPlain name.toList = true)
    (hMode : mode.awaitsWord = true)
    (hNext : ∀ c ∈ rest.head?, isBlank c = false) :
    Lexes [] mode (Literal.key name ++ [' ']) rest
      (fun m ls => m = .initial ∧ IsKey name ls) := by
  rcases isWholeName_of_isPlain hPlain with
    ⟨c, cs, hName, hStart, hTail⟩
  have hText : Literal.key name = c :: cs ++ [':'] := by
    rw [Literal.key, if_pos hPlain, hName]
  have hKey : keyTail? (cs ++ ':' :: ' ' :: rest) = some cs.length := by
    have hEnd :
        atomNameTail (cs ++ ':' :: ' ' :: rest) = cs.length := by
      apply hTail
      intro d hHead
      cases hHead
      decide
    unfold keyTail?
    rw [hEnd, List.drop_left]
    rfl
  have hOf :
      Transition.of mode none none c (cs ++ ':' :: ' ' :: rest) =
        .plain .atomName cs.length .afterMark := by
    rw [of_nameStart hMode hStart, Transition.name, hKey]
  have hColon :
      Transition.of .afterMark none none ':' ([] ++ ' ' :: rest) =
        .plain .colon 0 .initial := rfl
  rw [hText, List.append_assoc]
  apply (lexes_plain [] hOf rfl rfl).append
  rintro _ _ ⟨rfl, key, rfl, hKind, hKeyText⟩
  apply (lexes_plain [] hColon rfl rfl).append
  rintro _ _ ⟨rfl, colon, rfl, hKind', _⟩
  apply (lexes_blank (.inl rfl) hNext).mono
  rintro _ _ ⟨rfl, rfl⟩
  refine ⟨rfl, key, colon, rfl, hKind, ?_, hKind'⟩
  rw [hKeyText, ← hName, String.ofList_toList]

theorem EndsOperand.endsName
    (hEnds : EndsOperand rest) :
    ∀ c ∈ rest.head?, endsName c = true := by
  intro c hHead
  have hNot :=
    hEnds.endsNameBefore.eq_false_of_head?
      (p := fun c => !ElixirReader.endsName c)
      hHead (by decide)
  simpa using hNot

/- An atom whose name needs no quotes. -/
theorem lexes_atom
    {name : String}
    (hPlain : Literal.isPlain name.toList = true)
    (hMode : mode.awaitsOperand = true)
    (hEnds : EndsOperand rest) :
    Lexes [] mode (':' :: name.toList) rest
      (fun m ls => m = .afterOperand ∧ IsAtom name ls) := by
  rcases isWholeName_of_isPlain hPlain with
    ⟨c, cs, hName, hStart, hTail⟩
  have hOther : ∀ d, isNameStart d = false → c ≠ d := by
    rintro d hFalse rfl
    rw [hStart] at hFalse
    cases hFalse
  have hColon :
      Transition.of mode none none ':' ([] ++ (c :: cs ++ rest)) =
        .plain .colon 0 .atomStart := by
    rcases not_of_isNameStart hStart with ⟨hBlank, hBreak, _⟩
    rw [of_awaitsOperand hMode]
    change colon (c :: (cs ++ rest)) = _
    unfold colon
    split
    · rename_i hEq
      exact absurd (List.cons.inj hEq).1 (hOther ':' (by decide))
    · rw [List.head?_cons, Option.any_some, isSpace, hBlank,
        hBreak]
      rfl
  have hAtom :
      Transition.of .atomStart none none c (cs ++ rest) =
        .plain .atomName cs.length .afterOperand := by
    change atomStart none c (cs ++ rest) = _
    unfold atomStart
    rw [if_neg (not_or.mpr
      ⟨hOther '"' (by decide), hOther '\'' (by decide)⟩),
      if_pos hStart, hTail rest hEnds.endsName]
  rw [hName]
  apply (lexes_touching [] hColon hAtom ⟨rfl, rfl⟩
    ⟨rfl, rfl⟩).mono
  rintro _ _ ⟨rfl, l, l', rfl, hKind, hKind', hText, hSpaced⟩
  refine ⟨rfl, l, l', rfl, hKind, hKind', ?_, hSpaced⟩
  rw [hText, ← hName, String.ofList_toList]

------------------------------------------------------------
-- Texts
------------------------------------------------------------

/- The letters of the escapes that are written. -/
def escapeLetters : List Char :=
  ['"', '\\', 'n', 'r', 't', 'v', 'b', 'f', 'e', 'a', 'd', '#']

/- Lexemes that stand for some characters between quotes. -/
inductive SpellsText : List Char → List Lexeme → Prop where
| nil :
    SpellsText [] []
| fragment
    (l : Lexeme)
    (run cs : List Char)
    (ls : List Lexeme)
    (hKind : l.kind = .fragment .string)
    (hText : l.text = String.ofList run)
    (hRest : SpellsText cs ls) :
    SpellsText (run ++ cs) (l :: ls)
| escape
    (l : Lexeme)
    (c : Char)
    (cs : List Char)
    (ls : List Lexeme)
    (hKind : l.kind = .escapeSequence)
    (hText : Escape.decode? l.text.toList = some [c])
    (hRest : SpellsText cs ls) :
    SpellsText (c :: cs) (l :: ls)

/- A character stands for itself, or a letter escapes it. -/
theorem escapedChar_cases
    (c : Char)
    (cs : List Char) :
    (Literal.escapedChar c cs = [c] ∧ Literal.escape? c = none ∧
        c ≠ '"' ∧ c ≠ '\\' ∧ (c = '#' → cs.head? ≠ some '{')) ∨
      ∃ letter ∈ escapeLetters,
        Literal.escapedChar c cs = ['\\', letter] ∧
          Escape.decode? ['\\', letter] = some [c] := by
  unfold Literal.escapedChar
  cases hEscape : Literal.escape? c with
  | some e =>
      right
      unfold Literal.escape? at hEscape
      split at hEscape <;> cases hEscape <;>
        exact ⟨_, by decide, rfl, by decide⟩
  | none =>
      have hOther : ∀ d, Literal.escape? d ≠ none → c ≠ d := by
        rintro d hSome rfl
        exact hSome hEscape
      dsimp only
      split
      · rename_i hHash
        rw [Literal.startsInterpolation, Bool.and_eq_true,
          beq_iff_eq] at hHash
        right
        rw [hHash.1]
        exact ⟨'#', by decide, rfl, by decide⟩
      · rename_i hHash
        refine .inl ⟨rfl, rfl, hOther '"' (by decide),
          hOther '\\' (by decide), ?_⟩
        rintro rfl hHead
        apply hHash
        rw [Literal.startsInterpolation, hHead]
        rfl

/- What is written as an escape is not written as itself. -/
theorem notMem_escapedText
    {c : Char}
    (content : List Char)
    (hEscape : (Literal.escape? c).isSome = true)
    (hLetter : c ∉ '\\' :: escapeLetters) :
    c ∉ Literal.escapedText content := by
  induction content with
  | nil => exact List.not_mem_nil
  | cons d cs ih =>
      rw [Literal.escapedText, List.mem_append, not_or]
      refine ⟨?_, ih⟩
      rcases escapedChar_cases d cs with
        ⟨hSelf, hPlain, _⟩ | ⟨letter, hMember, hSelf, _⟩
      · rw [hSelf, List.mem_singleton]
        rintro rfl
        rw [hPlain] at hEscape
        cases hEscape
      · rw [hSelf]
        intro hFound
        apply hLetter
        simp only [List.mem_cons, List.not_mem_nil, or_false]
          at hFound ⊢
        rcases hFound with rfl | rfl
        · exact .inl rfl
        · exact .inr hMember

/- A curly comes first only where it is the first character. -/
theorem head?_escapedText
    (cs : List Char)
    (hHead :
      (Literal.escapedText cs ++ '"' :: rest).head? = some '{') :
    cs.head? = some '{' := by
  cases cs with
  | nil => cases hHead
  | cons c cs =>
      unfold Literal.escapedText at hHead
      rcases escapedChar_cases c cs with
        ⟨hSelf, _⟩ | ⟨letter, _, hEscape, _⟩
      · rw [hSelf] at hHead
        exact hHead
      · rw [hEscape] at hHead
        cases hHead

/- How far plain text reaches in a string. -/
theorem fragmentLength_string
    (c : Char)
    (cs : List Char) :
    fragmentLength (Group.string .quoted) (c :: cs) =
      if c = '"' ∨ c = '\\' ∨ c = '#' ∧ cs.head? = some '{' then 0
      else 1 + fragmentLength (Group.string .quoted) cs := by
  rw [fragmentLength.eq_def]
  simp only [Group.string, true_and, if_true, reduceCtorEq,
    false_and, if_false]
  by_cases hQuote : c = '"' <;>
    by_cases hBackslash : c = '\\' <;>
      simp [hQuote, hBackslash]

/- Plain text in a string is one fragment. -/
theorem group_of_fragmentLength
    {c : Char}
    {cs : List Char}
    {n : Nat}
    (hLength :
      fragmentLength (Group.string .quoted) (c :: cs) = n + 1) :
    group (Group.string .quoted) c cs =
      .plain (.fragment .string) n .group := by
  have hPlain :
      ¬ (c = '"' ∨ c = '\\' ∨ c = '#' ∧ cs.head? = some '{') := by
    intro hEnd
    rw [fragmentLength_string, if_pos hEnd] at hLength
    cases hLength
  rw [not_or, not_or] at hPlain
  have hHash :
      ¬ ((Group.string .quoted).reads = true ∧ c = '#' ∧
        cs.head? = some '{') :=
    fun hStart => hPlain.2.2 hStart.2
  have hOpen : c ≠ (Group.string .quoted).terminator := hPlain.1
  rw [group, if_neg hOpen, body,
    if_neg (fun hEscape => hPlain.2.1 hEscape.2), if_neg hHash,
    fragment, hLength]
  rfl

/- An escape in a string is two characters long. -/
theorem group_of_mem_escapeLetters
    {letter : Char}
    (hLetter : letter ∈ escapeLetters)
    (cs : List Char) :
    group (Group.string .quoted) '\\' (letter :: cs) =
      .plain .escapeSequence 1 .group := by
  simp only [escapeLetters, List.mem_cons, List.not_mem_nil,
    or_false] at hLetter
  rcases hLetter with rfl | rfl | rfl | rfl | rfl | rfl | rfl |
    rfl | rfl | rfl | rfl | rfl <;> rfl

/- Plain text is one token, or none if there is no text. -/
theorem lexes_fragment
    (span : Span)
    {run : List Char}
    (hLength :
      fragmentLength (Group.string .quoted) (run ++ rest) =
        run.length) :
    Lexes [.group (Group.string .quoted) span] .group run rest
      (fun m ls =>
        m = .group ∧
          ∀ cs ls', SpellsText cs ls' →
            SpellsText (run ++ cs) (ls ++ ls')) := by
  cases run with
  | nil => exact .nil ⟨rfl, fun _ _ hRest => hRest⟩
  | cons c run =>
      have hOf :
          Transition.of .group none
              [Frame.group (Group.string .quoted) span].head? c
              (run ++ rest) =
            .plain (.fragment .string) run.length .group :=
        group_of_fragmentLength hLength
      apply (lexes_plain _ hOf rfl rfl).mono
      rintro _ _ ⟨rfl, l, rfl, hKind, hText⟩
      exact ⟨rfl, fun cs ls' hRest =>
        .fragment l _ _ _ hKind hText hRest⟩

/-
  An escaped text is taken up to the quote behind it. The
  induction is on the text, and `run` is the plain text in
  front of it that is not a token yet.
-/
theorem lexes_escapedText
    (span : Span)
    (run content : List Char)
    (hRun :
      fragmentLength (Group.string .quoted)
          (run ++ (Literal.escapedText content ++ '"' :: rest)) =
        run.length +
          fragmentLength (Group.string .quoted)
            (Literal.escapedText content ++ '"' :: rest)) :
    Lexes [.group (Group.string .quoted) span] .group
      (run ++ Literal.escapedText content) ('"' :: rest)
      (fun m ls => m = .group ∧ SpellsText (run ++ content) ls) := by
  induction content generalizing run with
  | nil =>
      simp only [Literal.escapedText, List.append_nil]
      rw [Literal.escapedText, List.nil_append,
        fragmentLength_string, if_pos (.inl rfl)] at hRun
      apply (lexes_fragment span hRun).mono
      rintro m ls ⟨hMode, hSpells⟩
      have hLast := hSpells [] [] .nil
      rw [List.append_nil, List.append_nil] at hLast
      exact ⟨hMode, hLast⟩
  | cons c cs ih =>
      rw [Literal.escapedText] at hRun ⊢
      rcases escapedChar_cases c cs with
        ⟨hSelf, _, hQuote, hBackslash, hHash⟩ |
          ⟨letter, hLetter, hEscape, hDecode⟩
      · rw [hSelf, List.append_assoc, List.singleton_append,
          fragmentLength_string, if_neg] at hRun
        · have hMore := ih (run ++ [c]) (by
            rw [List.append_assoc, List.singleton_append, hRun,
              List.length_append, List.length_singleton,
              Nat.add_assoc])
          rw [hSelf]
          simpa using hMore
        · rintro (hEq | hEq | ⟨hEq, hHead⟩)
          · exact hQuote hEq
          · exact hBackslash hEq
          · exact hHash hEq (head?_escapedText cs hHead)
      · rw [hEscape, List.append_assoc, List.cons_append,
          fragmentLength_string, if_pos (.inr (.inl rfl))] at hRun
        rw [hEscape]
        apply (lexes_fragment span hRun).append
        rintro _ ls ⟨rfl, hSpells⟩
        have hOf :
            Transition.of .group none
                [Frame.group (Group.string .quoted) span].head?
                '\\'
                ([letter] ++
                  (Literal.escapedText cs ++ '"' :: rest)) =
              .plain .escapeSequence 1 .group :=
          group_of_mem_escapeLetters hLetter _
        apply (lexes_plain _ hOf rfl rfl).append
        rintro _ _ ⟨rfl, l, rfl, hKind, hText⟩
        apply (ih [] (by simp)).mono
        rintro m ls' ⟨hMode, hRest⟩
        refine ⟨hMode, hSpells _ _ (.escape l c cs ls' hKind ?_ hRest)⟩
        rw [hText, String.toList_ofList]
        exact hDecode

theorem isTriple_cons
    {quote c : Char}
    (cs : List Char)
    (hOther : c ≠ quote) :
    isTriple quote (c :: cs) = false := by
  cases cs with
  | nil => rfl
  | cons d cs => simp [isTriple, hOther]

/- A text between quotes is not taken for a heredoc. -/
theorem isTriple_escapedText
    (content : List Char)
    (hRest : '"' ∉ rest.head?) :
    isTriple '"' (Literal.escapedText content ++ '"' :: rest) =
      false := by
  cases content with
  | nil =>
      cases rest with
      | nil => rfl
      | cons d rest =>
          have hOther : d ≠ '"' := by
            rintro rfl
            exact hRest rfl
          simp [Literal.escapedText, isTriple, hOther]
  | cons c cs =>
      rw [Literal.escapedText]
      rcases escapedChar_cases c cs with
        ⟨hSelf, _, hQuote, _⟩ | ⟨letter, _, hEscape, _⟩
      · rw [hSelf]
        exact isTriple_cons _ hQuote
      · rw [hEscape]
        exact isTriple_cons _ (by decide)

/- The lexemes are a text between double quotes. -/
def IsText
    (content : List Char)
    (ls : List Lexeme) : Prop :=
  ∃ opened body closed,
    ls = opened :: (body ++ [closed]) ∧
      opened.kind = .promoter .string .quoted ∧
      closed.kind = .terminator .string .quoted ∧
      SpellsText content body

/-
  A text between quotes, with its escapes, in any mode in which
  a quote opens one. The closing quote is its last token.
-/
theorem lexesSolid_text
    (spaced : Bool)
    (content : List Char)
    (hOpens : ∀ cs, Transition.of mode none none '"' cs = quote '"' cs)
    (hRest : '"' ∉ rest.head?) :
    LexesSolid mode spaced
      (['"'] ++ Literal.escapedText content ++ ['"']) rest
      (fun m ls =>
        m = .afterLiteral ∧ IsText content ls ∧
          ∀ l ∈ ls.head?, l.spaced = spaced) := by
  have hOpen :
      Transition.of mode none none '"'
          ([] ++
            (Literal.escapedText content ++ (['"'] ++ rest))) =
        promoter (Group.string .quoted) := by
    rw [hOpens]
    change quote '"' (Literal.escapedText content ++ '"' :: rest) = _
    unfold quote quoteLayout
    rw [isTriple_escapedText content hRest]
    rfl
  have hBody : ∀ span,
      Lexes [.group (Group.string .quoted) span] .group
        (Literal.escapedText content) (['"'] ++ rest)
        (fun m ls => m = .group ∧ SpellsText content ls) :=
    fun span => lexes_escapedText span [] content (by simp)
  have hClose : ∀ (span : Span) mode' ls,
      mode' = Mode.group ∧ SpellsText content ls →
        Transition.of mode' none
            [Frame.group (Group.string .quoted) span].head? '"'
            ([] ++ rest) =
          terminator (Group.string .quoted) := by
    rintro span _ ls ⟨rfl, _⟩
    rfl
  apply (lexesSolid_enclosed hOpen ⟨rfl, rfl, rfl, rfl⟩ rfl
    (fun _ => rfl) hBody hClose ⟨rfl, rfl, rfl, rfl⟩ rfl
    (fun _ _ => rfl)).mono
  rintro _ _ ⟨rfl, opened, body, closed, _, rfl, hSpaced, hKind,
    hKind', _, hSpells⟩
  refine ⟨rfl, ⟨opened, body, closed, rfl, hKind, hKind', hSpells⟩, ?_⟩
  intro l hHead
  cases hHead
  exact hSpaced

theorem EndsOperand.not_mem_head?
    (hEnds : EndsOperand rest) :
    '"' ∉ rest.head? := by
  intro hHead
  have hNone : ('"' == '"') = false :=
    hEnds.endsNameBefore.eq_false_of_head? (p := (· == '"')) hHead
      (by decide)
  cases hNone

theorem lexes_text
    (content : List Char)
    (hMode : mode.awaitsOperand = true)
    (hEnds : EndsOperand rest) :
    Lexes [] mode
      (['"'] ++ Literal.escapedText content ++ ['"']) rest
      (fun m ls => m = .afterLiteral ∧ IsText content ls) := by
  have hOpens : ∀ cs,
      Transition.of mode none none '"' cs = quote '"' cs :=
    fun _ => of_awaitsOperand hMode
  have hText : ∀ spaced,
      LexesSolid mode spaced
        (['"'] ++ Literal.escapedText content ++ ['"']) rest
        (fun m ls => m = .afterLiteral ∧ IsText content ls) :=
    fun spaced =>
      (lexesSolid_text spaced content hOpens
        hEnds.not_mem_head?).mono fun _ _ hDone =>
          ⟨hDone.1, hDone.2.1⟩
  exact LexesSolid.lexes hText

------------------------------------------------------------
-- Lists of elements
------------------------------------------------------------

/- A comma and a blank, up to the next element. -/
theorem lexes_comma
    (hMode : mode.endsElement = true)
    (hNext : ∀ c ∈ rest.head?, isBlank c = false) :
    Lexes [] mode ([','] ++ [' ']) rest
      (IsLexeme .comma [','] .initial) := by
  have hOf :
      Transition.of mode none none ',' ([] ++ ' ' :: rest) =
        .plain .comma 0 .initial := by
    cases mode <;> first | rfl | cases hMode
  apply (lexes_plain [] hOf rfl rfl).append
  rintro _ _ ⟨rfl, l, rfl, hKind⟩
  apply (lexes_blank (.inl rfl) hNext).mono
  rintro _ _ ⟨rfl, rfl⟩
  exact ⟨rfl, l, rfl, hKind⟩

/- Lexemes of some elements with a separator between each two. -/
inductive Separated
    {α : Type}
    (kind : Kind)
    (Spelled : α → List Lexeme → Prop) :
    List α → List Lexeme → Prop where
| nil :
    Separated kind Spelled [] []
| single
    (a : α)
    (ls : List Lexeme)
    (hFirst : Spelled a ls) :
    Separated kind Spelled [a] ls
| cons
    (a b : α)
    (rest : List α)
    (ls more : List Lexeme)
    (l : Lexeme)
    (hFirst : Spelled a ls)
    (hSeparator : l.kind = kind)
    (hRest : Separated kind Spelled (b :: rest) more) :
    Separated kind Spelled (a :: b :: rest) (ls ++ l :: more)

/-
  What is behind an element: nothing if it is the last one, or
  a separator and the lexemes of the others.
-/
def Continues
    {α : Type}
    (kind : Kind)
    (Spelled : α → List Lexeme → Prop)
    (items : List α)
    (behind : List Lexeme) : Prop :=
  items = [] ∧ behind = [] ∨
    ∃ l more,
      behind = l :: more ∧ l.kind = kind ∧
        items ≠ [] ∧ Separated kind Spelled items more

theorem Separated.mono
    {α : Type}
    {kind : Kind}
    {Spelled Spelled' : α → List Lexeme → Prop}
    {as : List α}
    {ls : List Lexeme}
    (hSeparated : Separated kind Spelled as ls)
    (hSpelled : ∀ a ls, Spelled a ls → Spelled' a ls) :
    Separated kind Spelled' as ls := by
  induction hSeparated with
  | nil => exact .nil
  | single a ls hFirst => exact .single a ls (hSpelled a ls hFirst)
  | cons a b rest ls more l hFirst hKind _ ih =>
      exact .cons a b rest ls more l (hSpelled a ls hFirst) hKind ih

theorem Separated.of_map
    {α β : Type}
    {kind : Kind}
    {f : α → β}
    {Spelled : β → List Lexeme → Prop}
    {as : List α}
    {ls : List Lexeme}
    (hSeparated : Separated kind Spelled (as.map f) ls) :
    Separated kind (fun a => Spelled (f a)) as ls := by
  generalize hBs : as.map f = bs at hSeparated
  induction hSeparated generalizing as with
  | nil =>
      rw [List.map_eq_nil_iff.mp hBs]
      exact .nil
  | single b ls hFirst =>
      rcases List.map_eq_singleton_iff.mp hBs with ⟨a, rfl, rfl⟩
      exact .single a ls hFirst
  | cons b c rest ls more l hFirst hKind _ ih =>
      rcases as with _ | ⟨a, _ | ⟨a', as⟩⟩
      · cases hBs
      · cases hBs
      · cases hBs
        exact .cons a a' as ls more l hFirst hKind (ih rfl)

/- There are no more items than lexemes. -/
theorem Separated.length_le
    {α : Type}
    {kind : Kind}
    {Spelled : α → List Lexeme → Prop}
    {as : List α}
    {ls : List Lexeme}
    (hSeparated : Separated kind Spelled as ls)
    (hSome : ∀ a ls, Spelled a ls → ls ≠ []) :
    as.length ≤ ls.length := by
  induction hSeparated with
  | nil => exact Nat.le_refl _
  | single a ls hFirst =>
      exact List.length_pos_iff.mpr (hSome a ls hFirst)
  | cons a b rest ls more l hFirst _ _ ih =>
      simp only [List.length_cons, List.length_append] at ih ⊢
      omega

theorem Continues.of_map
    {α β : Type}
    {kind : Kind}
    {f : α → β}
    {Spelled : β → List Lexeme → Prop}
    {as : List α}
    {ls : List Lexeme}
    (hContinues : Continues kind Spelled (as.map f) ls) :
    Continues kind (fun a => Spelled (f a)) as ls := by
  rcases hContinues with
    ⟨hNil, rfl⟩ | ⟨l, more, rfl, hKind, hSome, hMore⟩
  · exact .inl ⟨List.map_eq_nil_iff.mp hNil, rfl⟩
  · exact .inr ⟨l, more, rfl, hKind,
      fun hNil => hSome (List.map_eq_nil_iff.mpr hNil), hMore.of_map⟩

/- The lexemes of the first element, and what is behind them. -/
theorem Separated.exists_append
    {α : Type}
    {kind : Kind}
    {Spelled : α → List Lexeme → Prop}
    {a : α}
    {items : List α}
    {ls : List Lexeme}
    (hSeparated : Separated kind Spelled (a :: items) ls) :
    ∃ first behind,
      ls = first ++ behind ∧ Spelled a first ∧
        Continues kind Spelled items behind := by
  cases hSeparated with
  | single _ _ hFirst =>
      exact ⟨ls, [], (List.append_nil ls).symm, hFirst,
        .inl ⟨rfl, rfl⟩⟩
  | cons _ b items first more l hFirst hSeparator hRest =>
      exact ⟨first, l :: more, rfl, hFirst,
        .inr ⟨l, more, rfl, hSeparator, List.cons_ne_nil _ _,
          hRest⟩⟩

theorem head?_any_append
    {α : Type}
    {p : α → Bool}
    {as : List α}
    (bs : List α)
    (hHead : as.head?.any p = true) :
    (as ++ bs).head?.any p = true := by
  cases as with
  | nil => cases hHead
  | cons a as => exact hHead

/- What all items start with, they start with. -/
theorem Separated.begins
    {α : Type}
    {kind : Kind}
    {Spelled : α → List Lexeme → Prop}
    {p : Lexeme → Bool}
    {as : List α}
    {ls : List Lexeme}
    (hSeparated : Separated kind Spelled as ls)
    (hSome : as ≠ [])
    (hBegins : ∀ a ls, Spelled a ls → ls.head?.any p = true) :
    ls.head?.any p = true := by
  cases as with
  | nil => exact absurd rfl hSome
  | cons a as =>
      rcases hSeparated.exists_append with
        ⟨first, behind, rfl, hFirst, _⟩
      exact head?_any_append behind (hBegins a first hFirst)

/- A text is taken as an element, in all modes that await one. -/
structure LaysElement
    (awaits : Mode → Bool)
    (text : List Char)
    (Spelled : List Lexeme → Prop) : Prop where
  starts : text.head?.any (fun c => !isBlank c) = true
  lexes : ∀ mode rest,
    awaits mode = true →
      EndsOperand rest →
        Lexes [] mode text rest
          (fun mode' ls =>
            mode'.endsElement = true ∧ Spelled ls)

/- What the first character of a text is, none other comes first. -/
theorem of_head?_append
    {p : Char → Bool}
    {cs : List Char}
    (hHead : cs.head?.any p = true) :
    ∀ c ∈ (cs ++ rest).head?, p c = true := by
  intro c hMember
  cases cs with
  | nil => cases hHead
  | cons d cs =>
      cases hMember
      exact hHead

theorem head?_intercalate
    {p : Char → Bool}
    {text : List Char}
    (separator : List Char)
    (texts : List (List Char))
    (hHead : text.head?.any p = true) :
    (separator.intercalate (text :: texts)).head?.any p = true := by
  cases text with
  | nil => cases hHead
  | cons c cs => cases texts <;> simpa using hHead

/-
  A text separates elements: it ends the one in front, and all
  that it is taken for is one lexeme of a kind.
-/
structure LaysSeparator
    (awaits : Mode → Bool)
    (text : List Char)
    (kind : Kind) : Prop where
  ends : ∀ rest, EndsOperand (text ++ rest)
  lexes : ∀ mode rest,
    mode.endsElement = true →
      (∀ c ∈ rest.head?, isBlank c = false) →
        Lexes [] mode text rest
          (fun m ls =>
            awaits m = true ∧ ∃ l, ls = [l] ∧ l.kind = kind)

/- Elements with separators between them, up to what ends the last. -/
theorem lexes_intercalate
    {α : Type}
    {separator : List Char}
    {kind : Kind}
    {write : α → List Char}
    {Spelled : α → List Lexeme → Prop}
    {items : List α}
    (hSeparator : LaysSeparator awaits separator kind)
    (hItems : ∀ a ∈ items, LaysElement awaits (write a) (Spelled a))
    (hSome : items ≠ [])
    (hMode : awaits mode = true)
    (hEnds : EndsOperand rest) :
    Lexes [] mode (separator.intercalate (items.map write)) rest
      (fun m ls =>
        m.endsElement = true ∧ Separated kind Spelled items ls) := by
  induction items generalizing mode with
  | nil => exact absurd rfl hSome
  | cons a items ih =>
      have hFirst := hItems a List.mem_cons_self
      cases items with
      | nil =>
          have hText :
              separator.intercalate ([a].map write) = write a := by
            simp
          rw [hText]
          apply (hFirst.lexes mode rest hMode hEnds).mono
          rintro m ls ⟨hMode', hSpelled⟩
          exact ⟨hMode', .single a ls hSpelled⟩
      | cons b items =>
          have hText :
              separator.intercalate ((a :: b :: items).map write) =
                write a ++ (separator ++
                  separator.intercalate ((b :: items).map write)) := by
            simp
          have hNext :
              ∀ c ∈ (separator.intercalate ((b :: items).map write) ++
                  rest).head?,
                isBlank c = false := by
            intro c hHead
            have hStarts :=
              (hItems b (List.mem_cons_of_mem a
                List.mem_cons_self)).starts
            have hFirst :=
              of_head?_append
                (head?_intercalate separator (items.map write) hStarts)
                c hHead
            simpa using hFirst
          have hEnd :
              EndsOperand
                (separator ++
                  separator.intercalate ((b :: items).map write) ++
                  rest) := by
            rw [List.append_assoc]
            exact hSeparator.ends _
          rw [hText]
          apply (hFirst.lexes mode _ hMode hEnd).append
          rintro m ls ⟨hMode', hSpelled⟩
          apply (hSeparator.lexes m _ hMode' hNext).append
          rintro m' _ ⟨hAwaits, l, rfl, hKind⟩
          have hMore : ∀ c ∈ b :: items,
              LaysElement awaits (write c) (Spelled c) :=
            fun c hMember =>
              hItems c (List.mem_cons_of_mem a hMember)
          apply (ih hMore (List.cons_ne_nil b items) hAwaits).mono
          rintro m'' more ⟨hEnded, hMore⟩
          refine ⟨hEnded, ?_⟩
          exact .cons a b items ls more l hSpelled hKind hMore

theorem laysSeparator_comma
    (hAwaits : awaits .initial = true) :
    LaysSeparator awaits ", ".toList .comma := by
  refine ⟨fun rest => .inl (by decide), ?_⟩
  intro mode rest hMode hNext
  apply (lexes_comma hMode hNext).mono
  rintro _ _ ⟨rfl, l, rfl, hKind, _⟩
  exact ⟨hAwaits, l, rfl, hKind⟩

/- Elements with commas between them, up to what ends the last. -/
theorem lexes_commas
    {α : Type}
    {write : α → List Char}
    {Spelled : α → List Lexeme → Prop}
    {items : List α}
    (hItems : ∀ a ∈ items, LaysElement awaits (write a) (Spelled a))
    (hInitial : awaits .initial = true)
    (hSome : items ≠ [])
    (hMode : awaits mode = true)
    (hEnds : EndsOperand rest) :
    Lexes [] mode (Written.commas (items.map write)) rest
      (fun m ls =>
        m.endsElement = true ∧
          Separated .comma Spelled items ls) :=
  lexes_intercalate (laysSeparator_comma hInitial) hItems hSome hMode
    hEnds

/- The lexemes are brackets with elements between them. -/
def IsBracketed
    {α : Type}
    (Spelled : α → List Lexeme → Prop)
    (b : Bracket)
    (items : List α)
    (ls : List Lexeme) : Prop :=
  ∃ opened body closed,
    ls = opened :: (body ++ [closed]) ∧
      opened.kind = .opening b ∧ closed.kind = .closing b ∧
      Separated .comma Spelled items body

/- Elements behind an opening bracket, up to the closing one. -/
theorem lexes_commas_closed
    {α : Type}
    {write : α → List Char}
    {Spelled : α → List Lexeme → Prop}
    {items : List α}
    {b : Bracket}
    {opener closer : Char}
    (hMarks : (b, opener, closer) ∈ bracketMarks)
    (hItems : ∀ a ∈ items, LaysElement awaits (write a) (Spelled a))
    (hAwaits : ∀ m : Mode, m.awaitsOperand = true → awaits m = true) :
    Lexes [] .afterOpening (Written.commas (items.map write))
      ([closer] ++ rest)
      (fun m ls =>
        (m.awaitsOperand = true ∨ m.endsOperand = true) ∧
          Separated .comma Spelled items ls) := by
  have hEnds : EndsOperand ([closer] ++ rest) := by
    have hAll :
        ∀ m ∈ bracketMarks, m.2.2 ∈ operandEnds := by
      decide
    exact .inl (hAll _ hMarks)
  cases items with
  | nil => exact .nil ⟨.inl rfl, .nil⟩
  | cons a items =>
      apply (lexes_commas hItems (hAwaits .initial rfl)
        (List.cons_ne_nil a items) (hAwaits .afterOpening rfl)
        hEnds).mono
      rintro m ls ⟨hMode, hSeparated⟩
      refine ⟨?_, hSeparated⟩
      cases m <;> first | exact .inl rfl | exact .inr rfl |
        cases hMode

/- Brackets of one character with elements between them. -/
theorem lexes_bracketed
    {α : Type}
    {write : α → List Char}
    {Spelled : α → List Lexeme → Prop}
    {items : List α}
    {b : Bracket}
    {opener closer : Char}
    (hMarks : (b, opener, closer) ∈ bracketMarks)
    (hItems : ∀ a ∈ items,
      LaysElement Mode.awaitsOperand (write a) (Spelled a))
    (hMode : mode.awaitsOperand = true) :
    Lexes [] mode
      ([opener] ++ Written.commas (items.map write) ++ [closer])
      rest
      (fun m ls => m = .afterOperand ∧ IsBracketed Spelled b items ls)
      := by
  rw [List.append_assoc]
  apply (lexes_opening hMarks hMode).append
  rintro _ _ ⟨rfl, opened, rfl, hOpened, _⟩
  apply (lexes_commas_closed hMarks hItems fun _ h => h).append
  rintro m body ⟨hMode', hSeparated⟩
  apply (lexes_closing hMarks hMode').mono
  rintro _ _ ⟨rfl, closed, rfl, hClosed, _⟩
  exact ⟨rfl, opened, body, closed, rfl, hOpened, hClosed,
    hSeparated⟩

/- The mark of a map, in front of its curly. -/
theorem lexes_mapMark
    (hMode : mode.awaitsOperand = true) :
    Lexes [] mode ['%'] ('{' :: rest)
      (IsLexeme (.operator .struct) ['%'] .afterMark) := by
  have hOf :
      Transition.of mode none none '%' ([] ++ '{' :: rest) =
        .plain (.operator .struct) 0 .afterMark := by
    cases mode <;> first | rfl | cases hMode
  exact lexes_plain [] hOf rfl rfl

end ElixirReader
