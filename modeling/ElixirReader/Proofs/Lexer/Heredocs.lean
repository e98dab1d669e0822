import ElixirReader.Proofs.Lexer.Literals
import ElixirReader.Proofs.Lexer.Pieces

/-
  This file shows what the lexer makes of a heredoc: of each
  line its blanks, if there are any, and then the rest of the
  line with its end. The blanks in front of the terminator
  stand alone.

  Key definitions include:
    * `HeredocLine`
    * `HeredocLine.dedented`
    * `CutsLines`
    * `IsHeredoc`

  Main declarations:
    * `HeredocLine.fragmentLength_eq`
    * `HeredocLine.lexes_content`
    * `lexes_lines`
    * `lexes_heredoc`
-/

namespace ElixirReader

open Transition

------------------------------------------------------------
-- Lines
------------------------------------------------------------

/-
  A line of a heredoc: the blanks that indent it, and what is
  behind them up to the end of the line. That is plain text,
  and it does not start with the terminator.
-/
structure HeredocLine where
  blanks : List Char
  content : List Char
  hBlanks : ∀ c ∈ blanks, isIndent c = true
  hStart : ∀ c ∈ content.head?, isIndent c = false
  hPlain : ∀ c ∈ content, c ≠ '\n' ∧ c ≠ '\\'
  hHash : ¬ ['#', '{'] <:+: content
  hQuotes : ¬ ['"', '"', '"'] <+: content

/- The lexemes are some blanks, or none if there are none. -/
def AreBlanks
    (blanks : List Char)
    (ls : List Lexeme) : Prop :=
  blanks = [] ∧ ls = [] ∨
    ∃ l,
      ls = [l] ∧ l.kind = .heredocIndent ∧
        l.text = String.ofList blanks

namespace HeredocLine

/- The characters of a line, with the newline that ends it. -/
def written
    (line : HeredocLine) : List Char :=
  line.blanks ++ line.content ++ ['\n']

/- A line without the first so many of its blanks. -/
def dedented
    (indent : Nat)
    (line : HeredocLine) : List Char :=
  line.blanks.drop indent ++ line.content ++ ['\n']

variable {content rest : List Char}

/- The group of a heredoc between double quotes. -/
abbrev group : Group :=
  Group.string .heredoc

/- Plain text in a line reaches through its end. -/
theorem fragmentLength_line
    (rest : List Char)
    (hPlain : ∀ c ∈ content, c ≠ '\n' ∧ c ≠ '\\')
    (hHash : ¬ ['#', '{'] <:+: content) :
    fragmentLength group (content ++ '\n' :: rest) =
      content.length + 1 := by
  induction content with
  | nil =>
      rw [List.nil_append, fragmentLength.eq_def]
      simp [Group.string]
  | cons c cs ih =>
      obtain ⟨hFeed, hBackslash⟩ := hPlain c List.mem_cons_self
      have hMore := ih
        (fun d hMember => hPlain d (List.mem_cons_of_mem c hMember))
        (fun hInfix => hHash (List.infix_cons hInfix))
      have hNoStart :
          ¬ (c = '#' ∧ (cs ++ '\n' :: rest).head? = some '{') := by
        rintro ⟨rfl, hHead⟩
        cases cs with
        | nil => cases hHead
        | cons d ds =>
            obtain rfl := Option.some.inj hHead
            exact hHash ⟨[], ds, rfl⟩
      have hStep :
          fragmentLength group (c :: (cs ++ '\n' :: rest)) =
            1 + fragmentLength group (cs ++ '\n' :: rest) := by
        rw [fragmentLength.eq_def]
        dsimp only
        rw [if_neg (by simp [Group.string]), if_neg hBackslash,
          if_neg (fun hStart => hNoStart hStart.2),
          if_neg (fun hEnd => hFeed hEnd.2)]
      rw [List.cons_append, hStep, hMore, List.length_cons]
      omega

/- The text of a line is not taken for the terminator. -/
theorem isTriple_line
    {c : Char}
    {cs : List Char}
    (rest : List Char)
    (hQuotes : ¬ ['"', '"', '"'] <+: c :: cs) :
    ¬ (c = '"' ∧ isTriple c (cs ++ '\n' :: rest) = true) := by
  rintro ⟨rfl, hTriple⟩
  rcases cs with _ | ⟨d, _ | ⟨e, cs⟩⟩
  · cases rest <;> simp [isTriple] at hTriple
  · simp [isTriple] at hTriple
  · simp only [List.cons_append, isTriple, Bool.and_eq_true,
      beq_iff_eq] at hTriple
    obtain ⟨rfl, rfl⟩ := hTriple
    exact hQuotes ⟨cs, rfl⟩

/- A run of blanks is one lexeme, or none if it is empty. -/
theorem lexes_blanks
    {frames : List Frame}
    {blanks : List Char}
    (span : Span)
    (hBlanks : ∀ c ∈ blanks, isIndent c = true)
    (hRest : ∀ c ∈ rest.head?, isIndent c = false) :
    Lexes (.group group span :: frames) .heredocLineStart blanks rest
      (fun m ls =>
        m = .heredocLineStart ∧ AreBlanks blanks ls) := by
  cases blanks with
  | nil => exact .nil ⟨rfl, .inl ⟨rfl, rfl⟩⟩
  | cons c cs =>
      have hCount : countWhile isIndent (cs ++ rest) = cs.length :=
        countWhile_append_of_forall
          (fun d hMember =>
            hBlanks d (List.mem_cons_of_mem c hMember)) hRest
      have hOf :
          Transition.of .heredocLineStart none
              (Frame.group group span :: frames).head? c
              (cs ++ rest) =
            .plain .heredocIndent cs.length .heredocLineStart := by
        change heredocLineStart group c (cs ++ rest) = _
        rw [heredocLineStart, if_pos (hBlanks c List.mem_cons_self),
          hCount]
      apply (lexes_plain _ hOf rfl rfl).mono
      rintro _ _ ⟨rfl, l, rfl, hKind, hText⟩
      exact ⟨rfl, .inr ⟨l, rfl, hKind, hText⟩⟩

/- Text at the start of a line, through the end of the line. -/
theorem lexes_lineText
    {frames : List Frame}
    {c : Char}
    {cs : List Char}
    (span : Span)
    (hIndent : isIndent c = false)
    (hTriple : ¬ (c = '"' ∧ isTriple c (cs ++ rest) = true))
    (hLength :
      fragmentLength group (c :: (cs ++ rest)) = cs.length + 1)
    (hLast : (c :: cs).getLast? = some '\n') :
    Lexes (.group group span :: frames) .heredocLineStart (c :: cs)
      rest
      (IsLexeme (.fragment .string) (c :: cs) .heredocLineStart) := by
  have hMode :
      fragmentMode group ((c :: (cs ++ rest)).take (cs.length + 1)) =
        .heredocLineStart := by
    rw [List.take_succ_cons, List.take_left, fragmentMode,
      if_pos ⟨rfl, hLast⟩]
  have hOf :
      Transition.of .heredocLineStart none
          (Frame.group group span :: frames).head? c (cs ++ rest) =
        .plain (.fragment .string) cs.length .heredocLineStart := by
    change heredocLineStart group c (cs ++ rest) = _
    have hOther :
        ¬ (c = group.terminator ∧ isTriple c (cs ++ rest) = true) :=
      hTriple
    rw [heredocLineStart, hIndent, if_neg Bool.false_ne_true,
      if_neg hOther, body_of_fragmentLength hLength, hMode]
    rfl
  exact lexes_plain _ hOf rfl rfl

/- What is behind the blanks of a line is one lexeme. -/
theorem lexes_content
    {frames : List Frame}
    (span : Span)
    (line : HeredocLine) :
    Lexes (.group group span :: frames) .heredocLineStart
      (line.content ++ ['\n']) rest
      (IsLexeme (.fragment .string) (line.content ++ ['\n'])
        .heredocLineStart) := by
  obtain ⟨_, content, _, hStart, hPlain, hHash, hQuotes⟩ := line
  have hLength := fragmentLength_line rest hPlain hHash
  cases content with
  | nil =>
      exact lexes_lineText span rfl (fun hEq => absurd hEq.1 (by decide))
        hLength rfl
  | cons c cs =>
      rw [List.cons_append]
      apply lexes_lineText span (hStart c rfl)
      · simpa using isTriple_line rest hQuotes
      · simpa using hLength
      · rw [← List.cons_append]
        exact List.getLast?_concat

end HeredocLine

------------------------------------------------------------
-- Heredocs
------------------------------------------------------------

/-
  The lexemes are lines of a heredoc. Each line ends in plain
  text, so blanks at the very end are those of the terminator.
-/
def CutsLines
    (lines : List HeredocLine)
    (ls : List Lexeme) : Prop :=
  ∃ segments,
    IsInside segments ls ∧
      (∀ decode indent,
        Segment.said decode indent segments =
          lines.flatMap (HeredocLine.dedented indent)) ∧
      ∀ blanks, segments.getLast? ≠ some (.indent blanks)

theorem AreBlanks.cuts
    {blanks : List Char}
    {ls : List Lexeme}
    (hBlanks : AreBlanks blanks ls) :
    Cuts (fun _ indent => blanks.drop indent) ls := by
  rcases hBlanks with ⟨rfl, rfl⟩ | ⟨l, rfl, hKind, hText⟩
  · exact ⟨[], .nil, fun _ _ => by simp⟩
  · refine ⟨_, isInside_indent hKind hText, fun _ _ => ?_⟩
    simp [Segment.characters]

/- A line in front of others. -/
theorem CutsLines.cons
    {line : HeredocLine}
    {lines : List HeredocLine}
    {l : Lexeme}
    {blanks ls : List Lexeme}
    (hBlanks : AreBlanks line.blanks blanks)
    (hKind : l.kind = .fragment .string)
    (hText : l.text = String.ofList (line.content ++ ['\n']))
    (hLines : CutsLines lines ls) :
    CutsLines (line :: lines) (blanks ++ l :: ls) := by
  obtain ⟨front, hFront, hSaidFront⟩ := hBlanks.cuts
  obtain ⟨segments, hInside, hSaid, hLast⟩ := hLines
  have hRest : IsInside (.fragment _ :: segments) (l :: ls) :=
    (isInside_fragment hKind hText).append hInside
  refine ⟨_, hFront.append hRest, ?_, ?_⟩
  · intro decode indent
    rw [Segment.said_append, Segment.said_cons, hSaidFront, hSaid]
    simp [Segment.characters, HeredocLine.dedented]
  · intro text hIndent
    rw [List.getLast?_append, List.getLast?_cons] at hIndent
    cases hEnd : segments.getLast? with
    | none =>
        rw [hEnd] at hIndent
        cases hIndent
    | some segment =>
        rw [hEnd] at hIndent
        rw [Option.some_or] at hIndent
        exact hLast text (hEnd.trans hIndent)

/- The lines of a heredoc, up to the blanks behind them. -/
theorem lexes_lines
    {frames : List Frame}
    {rest : List Char}
    (span : Span)
    (lines : List HeredocLine) :
    Lexes (.group HeredocLine.group span :: frames) .heredocLineStart
      (lines.flatMap HeredocLine.written) rest
      (fun m ls => m = .heredocLineStart ∧ CutsLines lines ls) := by
  induction lines with
  | nil =>
      exact .nil ⟨rfl, [], .nil, fun _ _ => rfl, nofun⟩
  | cons line lines ih =>
      rw [List.flatMap_cons, HeredocLine.written, List.append_assoc,
        List.append_assoc]
      apply (HeredocLine.lexes_blanks span line.hBlanks _).append
      · rintro _ blanks ⟨rfl, hBlanks⟩
        rw [← List.append_assoc]
        apply (HeredocLine.lexes_content span line).append
        rintro _ _ ⟨rfl, l, rfl, hKind, hText⟩
        apply ih.mono
        rintro m ls ⟨hMode, hLines⟩
        exact ⟨hMode, hLines.cons hBlanks hKind hText⟩
      · intro c hHead
        have hStart := line.hStart c
        cases hContent : line.content with
        | nil =>
            rw [hContent] at hHead
            obtain rfl := Option.some.inj hHead
            rfl
        | cons d ds =>
            rw [hContent] at hHead hStart
            exact hStart hHead

/- The lexemes are a heredoc of some lines. -/
def IsHeredoc
    (lines : List HeredocLine)
    (indent : List Char)
    (ls : List Lexeme) : Prop :=
  ∃ opened line body blanks closed,
    ls = opened :: line :: (body ++ blanks ++ [closed]) ∧
      opened.kind = .promoter .string .heredoc ∧
      line.kind = .endOfLine ∧ CutsLines lines body ∧
      AreBlanks indent blanks ∧
      closed.kind = .terminator .string .heredoc

/- The characters of a heredoc. -/
def heredocText
    (lines : List HeredocLine)
    (indent : List Char) : List Char :=
  ['"', '"', '"'] ++
    (['\n'] ++ (lines.flatMap HeredocLine.written ++ indent)) ++
      ['"', '"', '"']

/- A heredoc between two lines of quotes. -/
theorem lexes_heredoc
    {indent rest : List Char}
    (lines : List HeredocLine)
    (hIndent : ∀ c ∈ indent, isIndent c = true) :
    Lexes [] .initial (heredocText lines indent) rest
      (fun _ ls => IsHeredoc lines indent ls) := by
  let g := HeredocLine.group
  have hBody : ∀ span,
      Lexes [.group g span] .heredocStart
        (['\n'] ++ (lines.flatMap HeredocLine.written ++ indent))
        (['"', '"', '"'] ++ rest)
        (fun m ls =>
          m = .heredocLineStart ∧
            ∃ line body blanks,
              ls = line :: (body ++ blanks) ∧
                line.kind = .endOfLine ∧ CutsLines lines body ∧
                AreBlanks indent blanks) := by
    intro span
    have hLine :
        Transition.of .heredocStart none [Frame.group g span].head?
            '\n' ([] ++ (lines.flatMap HeredocLine.written ++ indent ++
              (['"', '"', '"'] ++ rest))) =
          .plain .endOfLine 0 .heredocLineStart := rfl
    apply (lexes_plain _ hLine rfl rfl).append
    rintro _ _ ⟨rfl, line, rfl, hKind, _⟩
    apply (lexes_lines span lines).append
    rintro _ body ⟨rfl, hLines⟩
    apply (HeredocLine.lexes_blanks span hIndent _).mono
    · rintro m blanks ⟨hMode, hBlanks⟩
      exact ⟨hMode, line, body, blanks, by simp, hKind, hLines,
        hBlanks⟩
    · intro c hHead
      obtain rfl := Option.some.inj hHead
      rfl
  have hOpen :
      Transition.of .initial none none '"'
          (['"', '"'] ++
            (['\n'] ++ (lines.flatMap HeredocLine.written ++ indent) ++
              (['"', '"', '"'] ++ rest))) =
        promoter g := rfl
  have hClose : ∀ (span : Span) mode' ls,
      (mode' = Mode.heredocLineStart ∧
          ∃ line body blanks,
            ls = line :: (body ++ blanks) ∧ line.kind = .endOfLine ∧
              CutsLines lines body ∧ AreBlanks indent blanks) →
        Transition.of mode' none [Frame.group g span].head? '"'
          (['"', '"'] ++ rest) = terminator g := by
    rintro span _ ls ⟨rfl, _⟩
    rfl
  apply (lexes_enclosed [] hOpen ⟨rfl, rfl, rfl, rfl⟩ rfl
    (fun _ => rfl) hBody hClose ⟨rfl, rfl, rfl, rfl⟩ rfl
    (fun _ _ => rfl)).mono
  rintro _ _ ⟨_, opened, _, closed, _, rfl, hOpened, hClosed, _,
    line, body, blanks, rfl, hKind, hLines, hBlanks⟩
  exact ⟨opened, line, body, blanks, closed, rfl, hOpened, hKind,
    hLines, hBlanks, hClosed⟩

end ElixirReader
