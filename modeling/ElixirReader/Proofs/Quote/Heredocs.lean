import ElixirReader.Proofs.Lexer.Heredocs
import ElixirReader.Proofs.Quote.Segments

/-
  This file shows how heredocs are indented: the blanks in
  front of the terminator say how many are taken off the start
  of each line, as far as the line has any.

  Main declarations:
    * `isPrimary_heredoc`
    * `quoteSource_heredoc`
-/

namespace ElixirReader

open Parse

variable {lines : List HeredocLine}
variable {indent : List Char}
variable {ls : List Lexeme}

/- A heredoc is read with the lines that are left of it. -/
theorem steps_text_lines
    {opened line closed : Lexeme}
    {body blanks : List Lexeme}
    (expr : ExpressionParser)
    (hOpened : opened.kind = .promoter .string .heredoc)
    (hLine : line.kind = .endOfLine)
    (hLines : CutsLines lines body)
    (hBlanks : AreBlanks indent blanks)
    (hClosed : closed.kind = .terminator .string .heredoc) :
    ∃ segments span,
      IsInside segments body ∧
        Segment.said true indent.length segments =
          lines.flatMap (HeredocLine.dedented indent.length) ∧
        Steps (text expr)
          (opened :: line :: (body ++ blanks ++ [closed])) []
          (⟨.string, true, indent.length, segments⟩, span) := by
  obtain ⟨segments, hInside, hSaid, hLast⟩ := hLines
  have hPromoter : promoterText (some opened) = (.string, true) := by
    rw [promoterText, hOpened]
  rcases hBlanks with ⟨rfl, rfl⟩ | ⟨l, rfl, hKind, hText⟩
  · obtain ⟨span, hSteps⟩ := hInside.steps_text_heredoc expr []
      hPromoter hLine hClosed
    rw [textOf_unindented .string span hLast] at hSteps
    rw [List.append_nil]
    exact ⟨segments, span, hInside, hSaid _ _, hSteps⟩
  · have hAll := hInside.append (isInside_indent hKind hText)
    obtain ⟨span, hSteps⟩ := hAll.steps_text_heredoc expr []
      hPromoter hLine hClosed
    rw [textOf_indent, String.length_ofList] at hSteps
    exact ⟨segments, span, hInside, hSaid _ _, hSteps⟩

/- The lexemes of a heredoc are read as its text. -/
theorem isPrimary_heredoc
    (m : Metadata)
    (hHeredoc : IsHeredoc lines indent ls) :
    IsPrimary m
      (.binary (String.ofList
        (lines.flatMap (HeredocLine.dedented indent.length)))) ls := by
  obtain ⟨opened, line, body, blanks, closed, rfl, hOpened, hLine,
    hLines, hBlanks, hClosed⟩ := hHeredoc
  refine ⟨opened, _, rfl, ?_, ?_, ?_⟩
  · rw [hOpened]
    rfl
  · rw [hOpened]
    rfl
  · intro expr
    obtain ⟨segments, span, hInside, hSaid, hSteps⟩ :=
      steps_text_lines expr hOpened hLine hLines hBlanks hClosed
    have hPrimary : primaryAt expr .statement opened =
        promoterOperand expr .statement := by
      unfold primaryAt
      rw [hOpened]
    refine ⟨⟨.text ⟨.string, true, indent.length, segments⟩, span⟩,
      ?_, ?_⟩
    · rw [hPrimary]
      refine steps_rest.trans ?_
      rw [keywordAhead, hOpened, if_neg Bool.false_ne_true]
      exact hSteps.trans (steps_pure _)
    · have hText := hInside.literal?_eq m .string true indent.length
      rw [hSaid] at hText
      change Construct.string m span
        (Node.quoteText m
          ⟨.string, true, indent.length, segments⟩) = _
      rw [Construct.string, hText]

/- A source that is a heredoc is quoted to its text. -/
theorem quoteSource_heredoc
    (m : Metadata)
    (lines : List HeredocLine)
    (hIndent : ∀ c ∈ indent, isIndent c = true) :
    quoteSource m (String.ofList (heredocText lines indent)) =
      (.binary (String.ofList
        (lines.flatMap (HeredocLine.dedented indent.length))),
        []) := by
  apply quoteSource_of_primary
  · rw [String.toList_ofList]
    simp [heredocText, Lexer.byteOrderMark]
  · rw [String.toList_ofList]
    apply (lexes_heredoc lines hIndent).mono
    intro _ ls hHeredoc
    exact isPrimary_heredoc m hHeredoc

/- A line that is indented less loses all of its blanks. -/
theorem quoteSource_heredoc_short :
    (∀ c ∈ [' ', ' '], isIndent c = true) ∧
      quoteSource .none "\"\"\"\n   a\n \"b\n\n  \"\"\"" =
        (.binary " a\n\"b\n\n", []) := by
  have hIndent : ∀ c ∈ [' ', ' '], isIndent c = true := by
    simp [isIndent]
  let lines : List HeredocLine :=
    [⟨[' ', ' ', ' '], ['a'], by simp [isIndent],
        by simp [isIndent], by simp, by decide, by decide⟩,
      ⟨[' '], ['"', 'b'], by simp [isIndent],
        by simp [isIndent], by simp, by decide, by decide⟩,
      ⟨[], [], nofun, nofun, nofun, by decide, by decide⟩]
  have hSource :
      "\"\"\"\n   a\n \"b\n\n  \"\"\"" =
        String.ofList (heredocText lines [' ', ' ']) := by
    decide
  refine ⟨hIndent, ?_⟩
  rw [hSource, quoteSource_heredoc .none lines hIndent]
  rfl

end ElixirReader
