import ElixirReader.Lexer.Basic

/-
  This file lists what the lexer takes outside of quoted
  literals. The kind of most tokens tells the mode behind
  them; the others are blanks, digits, characters, the names
  of sigils, curlies and promoters. What holds of all of these
  holds of every token of the code. What belongs to a name, a
  line break, an escape, an operator or a piece of text is
  there.

  Key definitions include:
    * `Transition.fixedSteps`
    * `Transition.Delimits`
    * `Transition.Code`

  Main declarations:
    * `withMark_le`
    * `backslashTail_le`
    * `fragmentLength_le`
    * `Transition.expression_code`
    * `Transition.of_code`
-/

namespace ElixirReader

------------------------------------------------------------
-- Measures
------------------------------------------------------------

section Measures

open Transition Unicode

variable {c : Char}
variable {cs : List Char}

/- A character that is found is there. -/
theorem lt_length_of_any_head?_drop
    {p : Char → Bool}
    {n : Nat}
    (hAny : (cs.drop n).head?.any p = true) :
    n < cs.length := by
  apply Nat.lt_of_not_le
  intro hLe
  rw [List.drop_eq_nil_of_le hLe] at hAny
  cases hAny

theorem lineBreakTail_le
    (c : Char)
    (cs : List Char) :
    lineBreakTail c cs ≤ cs.length := by
  unfold lineBreakTail
  split
  · rename_i hFeed
    cases cs with
    | nil => cases hFeed.2
    | cons d cs => simp
  · exact Nat.zero_le _

theorem hexTail_le
    (most : Nat)
    (cs : List Char) :
    hexTail most cs ≤ cs.length := by
  unfold hexTail
  split
  · rename_i ds
    have hDigits := countWhile_le isHexDigit ds
    dsimp only
    split
    · rename_i hCurly
      have hLess : countWhile isHexDigit ds < ds.length :=
        lt_length_of_any_head?_drop (p := fun _ => true)
          (by rw [hCurly]; rfl)
      rw [List.length_cons]
      omega
    · rw [List.length_cons]
      omega
  · exact Nat.le_trans (Nat.min_le_right _ _) (countWhile_le _ _)

theorem backslashTail_le
    (cs : List Char) :
    backslashTail cs ≤ cs.length := by
  cases cs with
  | nil => exact Nat.le_refl _
  | cons d cs =>
      have hTail : escapeTail d cs ≤ cs.length := by
        unfold escapeTail
        split
        · exact hexTail_le _ _
        · split
          · exact hexTail_le _ _
          · exact lineBreakTail_le _ _
      change 1 + escapeTail d cs ≤ cs.length + 1
      omega

/- A text at the front is no longer than what it is in front of. -/
theorem length_le_of_isPrefixOf
    {text : String}
    (hPrefix : text.toList.isPrefixOf (c :: cs) = true) :
    text.length - 1 ≤ cs.length := by
  have hLength :=
    (List.isPrefixOf_iff_prefix.mp hPrefix).length_le
  rw [String.length_toList, List.length_cons] at hLength
  omega

theorem length_le_of_firstPrefix?
    {texts : List String}
    {text : String}
    (hFirst : firstPrefix? texts (c :: cs) = some text) :
    text.length - 1 ≤ cs.length :=
  length_le_of_isPrefixOf
    (@List.find?_some _ (fun t : String =>
      t.toList.isPrefixOf (c :: cs)) _ _ hFirst)

theorem withMark_le
    (p : Char → Bool)
    (cs : List Char) :
    withMark cs (countWhile p cs) ≤ cs.length := by
  have hRun := countWhile_le p cs
  unfold withMark
  split
  · rename_i hMark
    rcases Nat.lt_or_eq_of_le hRun with hLess | hAll
    · exact hLess
    · rw [hAll, List.drop_length] at hMark
      cases hMark
  · exact hRun

theorem keyTail?_le
    {n : Nat}
    (hKey : keyTail? cs = some n) :
    n ≤ cs.length := by
  unfold keyTail? at hKey
  split at hKey
  · cases hKey
    exact withMark_le _ cs
  · cases hKey

theorem isTriple_le
    (hTriple : isTriple c cs = true) :
    2 ≤ cs.length := by
  rcases cs with _ | ⟨d, _ | ⟨e, cs⟩⟩
  · cases hTriple
  · cases hTriple
  · simp

theorem exponentTail?_le
    {n : Nat}
    (hExponent : exponentTail? cs = some n) :
    n ≤ cs.length := by
  unfold exponentTail? at hExponent
  rcases Option.ite_none_right_eq_some.mp hExponent with
    ⟨hDigit, hSome⟩
  rw [← Option.some.inj hSome]
  exact Nat.le_of_lt (lt_length_of_any_head?_drop hDigit)

theorem fragmentLength_le
    (g : Group)
    (cs : List Char) :
    fragmentLength g cs ≤ cs.length := by
  fun_induction fragmentLength g cs <;>
    simp only [List.length_nil, List.length_cons] at * <;> omega

end Measures

------------------------------------------------------------
-- Classes of kinds
------------------------------------------------------------

/- The kinds inside of a number that go on with its digits. -/
def Kind.isDigits : Kind → Bool
| digits _ => true
| badDigits _ => true
| badBaseDigits => true
| separator => true
| _ => false

namespace Transition

------------------------------------------------------------
-- What code consists of
------------------------------------------------------------

/- The kinds that come from no table, and the modes behind them. -/
def otherSteps : List (Kind × Mode) :=
  [(.endOfLine, .initial), (.comment, .initial),
   (.comment, .afterDot), (.badCharacter, .initial),
   (.operator .inMatch, .afterOperator),
   (.operator .addition, .afterOpening),
   (.operator .identity, .initial),
   (.operator .subtraction, .afterOpening),
   (.operator .negation, .initial),
   (.operator .range, .afterOperator),
   (.tilde, .sigil), (.doubleColon, .afterOpening),
   (.colon, .initial), (.colon, .atomStart), (.dot, .afterDot),
   (.opening .parenthesis, .afterOpening),
   (.closing .parenthesis, .afterOperand),
   (.opening .square, .afterOpening),
   (.closing .square, .afterOperand),
   (.comma, .initial), (.semicolon, .afterOpening),
   (.identifier, .afterIdentifier), (.alias, .afterAlias),
   (.atomName, .afterMark), (.atomName, .afterOperand),
   (.characterMark, .character), (.sigilModifiers, .afterOperand),
   (.baseZero, .baseLetter), (.binaryBase, .binaryDigits),
   (.octalBase, .octalDigits),
   (.hexadecimalBase, .hexadecimalDigits),
   (.unknownBase, .unknownDigits),
   (.digits .decimal, .decimalDigits),
   (.decimalMark, .fractionDigits),
   (.exponentMark, .exponentDigits),
   (.word .after, .afterOperator), (.word .catch, .afterOperator),
   (.word .do, .afterOperator), (.word .else, .afterOperator),
   (.word .fn, .afterOperator), (.word .rescue, .afterOperator),
   (.word .end, .afterMark), (.word .true, .afterLiteral),
   (.word .false, .afterLiteral), (.word .nil, .afterLiteral),
   (.operator .andWord, .afterOperator),
   (.operator .orWord, .afterOperator),
   (.operator .notWord, .afterOperator),
   (.operator .inWord, .afterOperator),
   (.operator .whenWord, .afterOperator)]

/-
  Kinds of tokens, each with a mode behind them that does not
  hang on the mode before them.
-/
def fixedSteps : List (Kind × Mode) :=
  (operatorTable ++ tildeTable).map (fun e => (e.kind, e.mode)) ++
    otherSteps

/- A delimiter in front opens a literal. -/
structure Delimits
    (c : Char)
    (cs : List Char)
    (g : Group) : Prop where
  quoted :
    g.layout = .quoted → sigilTerminator? c = some g.terminator
  heredoc :
    g.layout = .heredoc →
      (c = '"' ∨ c = '\'') ∧ isTriple c cs = true ∧
        g.terminator = c

/-
  All that may be taken outside of quoted literals, by the mode
  and the innermost open construct. No token reaches beyond the
  characters that are left.
-/
inductive Code
    (mode : Mode)
    (top : Option Frame)
    (c : Char)
    (cs : List Char) : Transition → Prop
| fixed
    (kind : Kind)
    (more : Nat)
    (next : Mode)
    (hStep : (kind, next) ∈ fixedSteps)
    (hMore : more ≤ cs.length) :
    Code mode top c cs (plain kind more next)
| space
    (m next : Mode)
    (more : Nat)
    (hMode : m = mode ∨ m = .initial ∨ m = .afterOperand)
    (hNext : next = m.afterBlank ∨
      next = m ∧ m.newlineIsBlank = true)
    (hMore : more ≤ cs.length) :
    Code mode top c cs (plain .whiteSpace more next)
| digits
    (kind : Kind)
    (more : Nat)
    (hMode : mode.isNumber = true)
    (hKind : kind.isDigits = true)
    (hMore : more ≤ cs.length) :
    Code mode top c cs (plain kind more mode)
| character
    (more : Nat)
    (hMode : mode = .character)
    (hMore : more ≤ cs.length) :
    Code mode top c cs (plain .character more .afterOperand)
| sigilName
    (kind : Kind)
    (more : Nat)
    (reads : Bool)
    (hKind : kind = .readSigilName ∨ kind = .literalSigilName)
    (hMore : more ≤ cs.length) :
    Code mode top c cs
      { plain kind more .sigil with sigil := some reads }
| opensCurly :
    Code mode top c cs openCurly
| closesCurly :
    Code mode top c cs (closeCurly top)
| opens
    (g : Group)
    (hDelimits : Delimits c cs g) :
    Code mode top c cs (promoter g)

variable {mode m : Mode}
variable {top : Option Frame}
variable {c : Char}
variable {cs : List Char}

------------------------------------------------------------
-- Tokens of one sort
------------------------------------------------------------

/- A token of one character. -/
theorem Code.single
    {kind : Kind}
    {next : Mode}
    (hStep : (kind, next) ∈ fixedSteps) :
    Code mode top c cs (plain kind 0 next) :=
  .fixed kind 0 next hStep (Nat.zero_le _)

theorem Code.bad :
    Code mode top c cs bad :=
  .single (by decide)

theorem Code.ofEntry
    {table : List OperatorEntry}
    {e : OperatorEntry}
    (hTable : ∀ e ∈ table, e ∈ operatorTable ++ tildeTable)
    (hFind : OperatorEntry.find? table (c :: cs) = some e) :
    Code mode top c cs (ofEntry e) := by
  have hMem : e ∈ operatorTable ++ tildeTable :=
    hTable e (List.mem_of_find?_eq_some hFind)
  have hPrefix : e.text.toList.isPrefixOf (c :: cs) = true :=
    @List.find?_some _ (fun e : OperatorEntry =>
      e.text.toList.isPrefixOf (c :: cs)) _ _ hFind
  exact .fixed _ _ _
    (List.mem_append_left _
      (@List.mem_map_of_mem _ _ _ _ (fun e => (e.kind, e.mode)) hMem))
    (length_le_of_isPrefixOf hPrefix)

theorem mem_fixedSteps_of_reservedWord?
    {text : String}
    {step : Kind × Mode}
    (hWord : reservedWord? text = some step) :
    step ∈ fixedSteps := by
  unfold reservedWord? at hWord
  split at hWord <;> cases hWord <;> decide

theorem quote_code
    (hQuote : c = '"' ∨ c = '\'') :
    Code mode top c cs (quote c cs) := by
  refine .opens _ ⟨fun _ => ?_, fun hLayout => ⟨hQuote, ?_, rfl⟩⟩
  · rcases hQuote with rfl | rfl <;> rfl
  · change quoteLayout c cs = .heredoc at hLayout
    unfold quoteLayout at hLayout
    split at hLayout
    · assumption
    · cases hLayout

theorem name_code :
    Code mode top c cs (name c cs) := by
  unfold name
  split
  · exact .fixed _ _ _ (by decide) (keyTail?_le ‹_›)
  · split
    · exact .fixed _ _ _ (by decide) (countWhile_le _ cs)
    · unfold word
      dsimp only
      split
      · exact .fixed _ _ _ (mem_fixedSteps_of_reservedWord? ‹_›)
          (withMark_le _ cs)
      · exact .fixed _ _ _ (by decide) (withMark_le _ cs)

theorem number_code :
    Code mode top c cs (number c cs) := by
  unfold number
  split
  · exact .single (by decide)
  · exact .fixed _ _ _ (by decide) (countWhile_le _ cs)

theorem operator_code :
    Code mode top c cs (operator m c cs) := by
  unfold operator
  split
  · exact .ofEntry (fun _ hMem => List.mem_append_left _ hMem) ‹_›
  · split
    · unfold plus
      split <;> exact .single (by decide)
    · split
      · unfold minus
        split <;> exact .single (by decide)
      · exact .bad

theorem tilde_code :
    Code mode top '~' cs (tilde cs) := by
  unfold tilde
  split
  · exact .ofEntry (fun _ hMem => List.mem_append_right _ hMem) ‹_›
  · exact .single (by decide)

theorem colon_code :
    Code mode top c cs (colon cs) := by
  unfold colon
  split
  · exact .fixed _ _ _ (by decide) (by simp)
  · split <;> exact .single (by decide)

theorem dot_code :
    Code mode top c cs (dot cs) := by
  unfold dot
  split
  · exact .fixed _ _ _ (by decide) (by simp)
  · exact .fixed _ _ _ (by decide) (by simp)
  · exact .single (by decide)

------------------------------------------------------------
-- Expressions
------------------------------------------------------------

section Expressions

variable (hMode : m = mode ∨ m = .initial ∨ m = .afterOperand)

include hMode

theorem blanks_code :
    Code mode top c cs (blanks m cs) :=
  .space m _ _ hMode (.inl rfl) (countWhile_le _ cs)

theorem lineBreak_code :
    Code mode top c cs (lineBreak m c cs) := by
  unfold lineBreak
  split
  · exact .space m _ _ hMode (.inr ⟨rfl, ‹_›⟩)
      (lineBreakTail_le c cs)
  · exact .fixed _ _ _ (by decide) (lineBreakTail_le c cs)

theorem backslash_code :
    Code mode top c cs (backslash m cs) := by
  unfold backslash
  split
  · exact .bad
  · rename_i d ds
    have hTail := lineBreakTail_le d ds
    split
    · refine .space m _ _ hMode (.inl rfl) ?_
      rw [List.length_cons]
      omega
    · split
      · exact .fixed _ _ _ (by decide) (by simp)
      · exact .bad

theorem symbol_code :
    Code mode top c cs (symbol m top c cs) := by
  unfold symbol
  split
  · exact backslash_code hMode
  · exact .fixed _ _ _ (by decide) (countWhile_le _ cs)
  · exact quote_code (.inl rfl)
  · exact quote_code (.inr rfl)
  · exact .single (by decide)
  · exact tilde_code
  · exact colon_code
  · exact dot_code
  · exact .opensCurly
  · exact .closesCurly
  · exact .single (by decide)
  · exact .single (by decide)
  · exact .single (by decide)
  · exact .single (by decide)
  · exact .single (by decide)
  · exact .single (by decide)
  · exact operator_code

theorem expression_code :
    Code mode top c cs (expression m top c cs) := by
  unfold expression
  split
  · exact blanks_code hMode
  · split
    · exact lineBreak_code hMode
    · split
      · exact number_code
      · split
        · exact name_code
        · exact symbol_code hMode

end Expressions

------------------------------------------------------------
-- Modes that are not those of an expression
------------------------------------------------------------

theorem atomStart_code :
    Code mode top c cs (atomStart top c cs) := by
  unfold atomStart
  split
  · exact quote_code ‹_›
  · split
    · exact .fixed _ _ _ (by decide) (withMark_le _ cs)
    · split
      · exact .fixed _ _ _ (by decide) (length_le_of_firstPrefix? ‹_›)
      · exact expression_code (.inr (.inl rfl))

theorem afterDot_code :
    Code .afterDot top c cs (afterDot top c cs) := by
  unfold afterDot
  split
  · exact blanks_code (.inl rfl)
  · split
    · exact lineBreak_code (.inl rfl)
    · split
      · exact .fixed _ _ _ (by decide) (countWhile_le _ cs)
      · split
        · exact .fixed _ _ _ (by decide) (countWhile_le _ cs)
        · split
          · exact .fixed _ _ _ (by decide) (withMark_le _ cs)
          · split
            · exact .fixed _ _ _ (by decide)
                (length_le_of_firstPrefix? ‹_›)
            · exact expression_code (.inr (.inl rfl))

theorem baseLetter_code :
    Code mode top c cs (baseLetter top c cs) := by
  unfold baseLetter
  split
  · exact .single (by decide)
  · split
    · exact .single (by decide)
    · split
      · exact .single (by decide)
      · split
        · exact .single (by decide)
        · exact expression_code (.inr (.inl rfl))

/- The kind of a run of digits, whatever the base. -/
theorem isDigits_digitKind
    (radix : Option Radix)
    (kind : Radix → Kind)
    (hKind : ∀ r, (kind r).isDigits = true) :
    ((radix.map kind).getD .badBaseDigits).isDigits = true := by
  cases radix with
  | none => rfl
  | some r => exact hKind r

theorem digitRun_code
    (hMode : mode.isNumber = true) :
    Code mode top c cs (digitRun mode top c cs) := by
  unfold digitRun
  split
  · exact .digits _ _ hMode (isDigits_digitKind _ _ fun _ => rfl)
      (countWhile_le _ cs)
  · split
    · exact .digits _ _ hMode (isDigits_digitKind _ _ fun _ => rfl)
        (countWhile_le _ cs)
    · exact expression_code (.inl rfl)

theorem digits_code
    (hMode : mode.isNumber = true) :
    Code mode top c cs (digits mode top c cs) := by
  unfold digits
  split
  · split
    · exact name_code
    · exact .digits _ _ hMode rfl (Nat.zero_le _)
  · split
    · exact .single (by decide)
    · unfold exponentOrRun
      split
      · split
        · exact .fixed _ _ _ (by decide) (exponentTail?_le ‹_›)
        · exact digitRun_code hMode
      · exact digitRun_code hMode

theorem sigilName_code :
    Code mode top c cs (sigilName top c cs) := by
  unfold sigilName
  split
  · exact .sigilName _ _ _ (.inl rfl) (Nat.zero_le _)
  · split
    · exact .sigilName _ _ _ (.inr rfl) (countWhile_le _ cs)
    · exact expression_code (.inr (.inl rfl))

theorem sigilPromoter_code
    (reads : Bool) :
    Code mode top c cs (sigilPromoter reads top c cs) := by
  unfold sigilPromoter
  split
  · rename_i hTriple
    refine .opens _ ⟨fun hLayout => ?_, fun _ => ⟨hTriple.1,
      hTriple.2, rfl⟩⟩
    cases hLayout
  · split
    · refine .opens _ ⟨fun _ => ‹_›, fun hLayout => ?_⟩
      cases hLayout
    · exact expression_code (.inr (.inl rfl))

theorem sigilHead_code
    (pending : Option Bool) :
    Code mode top c cs (sigilHead pending top c cs) := by
  unfold sigilHead
  split
  · exact sigilName_code
  · exact sigilPromoter_code _

theorem sigilModifiers_code :
    Code mode top c cs (sigilModifiers top c cs) := by
  unfold sigilModifiers
  split
  · exact .fixed _ _ _ (by decide) (countWhile_le _ cs)
  · exact expression_code (.inr (.inr rfl))

theorem character_code :
    Code .character top c cs (character c cs) := by
  refine .character _ rfl ?_
  split
  · exact backslashTail_le cs
  · exact Nat.zero_le _

/- Outside of literals every mode leads to one of these tokens. -/
theorem of_code
    (pending : Option Bool)
    (hMode : mode.isGroup = false) :
    Code mode top c cs (of mode pending top c cs) := by
  cases mode with
  | group => cases hMode
  | heredocStart => cases hMode
  | heredocLineStart => cases hMode
  | heredocLineBody => cases hMode
  | sigil => exact sigilHead_code pending
  | sigilModifiers => exact sigilModifiers_code
  | character => exact character_code
  | atomStart => exact atomStart_code
  | afterDot => exact afterDot_code
  | baseLetter => exact baseLetter_code
  | binaryDigits => exact digits_code rfl
  | octalDigits => exact digits_code rfl
  | hexadecimalDigits => exact digits_code rfl
  | unknownDigits => exact digits_code rfl
  | decimalDigits => exact digits_code rfl
  | fractionDigits => exact digits_code rfl
  | exponentDigits => exact digits_code rfl
  | _ => exact expression_code (.inl rfl)

end Transition

end ElixirReader
