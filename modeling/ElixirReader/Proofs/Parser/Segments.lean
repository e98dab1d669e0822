import ElixirReader.Proofs.Parser.Texts
import ElixirReader.Proofs.Parser.Yields

/-
  This file shows how a literal without interpolations is
  read: each lexeme inside of it is a segment, in the same
  order, and what closes it is taken with it.

  Key definitions include:
    * `Segment.said`
    * `IsInside`

  Main declarations:
    * `IsInside.append`
    * `IsInside.steps_segmentsFor`
    * `IsInside.steps_text`
    * `IsInside.steps_text_heredoc`
-/

namespace ElixirReader

open Parse

variable {segments segments' : List (Segment Node)}
variable {body body' more : List Lexeme}
variable {expr : ExpressionParser}

------------------------------------------------------------
-- Segments
------------------------------------------------------------

/-
  What segments say, with their escapes decoded or not, and
  with so many blanks taken off the start of each line.
-/
def Segment.said
    (decode : Bool)
    (indent : Nat)
    (segments : List (Segment Node)) : List Char :=
  segments.flatMap fun s => (s.characters decode indent).toList

namespace Segment

variable {decode : Bool}
variable {indent : Nat}

@[simp] theorem said_nil :
    said decode indent [] = [] :=
  rfl

@[simp] theorem said_cons
    (s : Segment Node)
    (ss : List (Segment Node)) :
    said decode indent (s :: ss) =
      (s.characters decode indent).toList ++
        said decode indent ss :=
  rfl

@[simp] theorem said_append
    (ss ss' : List (Segment Node)) :
    said decode indent (ss ++ ss') =
      said decode indent ss ++ said decode indent ss' :=
  List.flatMap_append

end Segment

------------------------------------------------------------
-- Insides of literals
------------------------------------------------------------

/- Lexemes are the segments of a literal, one by one. -/
def IsInside
    (segments : List (Segment Node))
    (body : List Lexeme) : Prop :=
  body.map plainSegment? = segments.map some

theorem IsInside.nil :
    IsInside [] [] :=
  rfl

theorem IsInside.append
    (hFirst : IsInside segments body)
    (hSecond : IsInside segments' body') :
    IsInside (segments ++ segments') (body ++ body') := by
  unfold IsInside at hFirst hSecond ⊢
  rw [List.map_append, List.map_append, hFirst, hSecond]

theorem isInside_fragment
    {l : Lexeme}
    {f : Family}
    {text : String}
    (hKind : l.kind = .fragment f)
    (hText : l.text = text) :
    IsInside [.fragment text] [l] := by
  unfold IsInside
  simp [plainSegment?, hKind, hText]

theorem isInside_escape
    {l : Lexeme}
    {text : String}
    (hKind : l.kind = .escapeSequence)
    (hText : l.text = text) :
    IsInside [.escape text] [l] := by
  unfold IsInside
  simp [plainSegment?, hKind, hText]

theorem isInside_indent
    {l : Lexeme}
    {text : String}
    (hKind : l.kind = .heredocIndent)
    (hText : l.text = text) :
    IsInside [.indent text] [l] := by
  unfold IsInside
  simp [plainSegment?, hKind, hText]

/- None of the segments is an interpolation. -/
theorem IsInside.any_isInterpolation
    (hInside : IsInside segments body) :
    segments.any Segment.isInterpolation = false := by
  rw [List.any_eq_false]
  intro segment hSegment
  have hMember : some segment ∈ body.map plainSegment? := by
    rw [hInside]
    exact List.mem_map_of_mem hSegment
  obtain ⟨l, _, hPlain⟩ := List.mem_map.mp hMember
  unfold plainSegment? at hPlain
  split at hPlain <;> cases hPlain <;> exact Bool.false_ne_true

------------------------------------------------------------
-- Reading
------------------------------------------------------------

variable {f : Family}
variable {layout : Layout}
variable {opened closed : Lexeme}

/- The lexemes of a literal are taken up to its terminator. -/
theorem IsInside.steps_segmentsFor
    {k : Nat}
    (expr : ExpressionParser)
    (more : List Lexeme)
    (span : Span)
    (hInside : IsInside segments body)
    (hClosed : closed.kind = .terminator f layout)
    (hBound : body.length < k) :
    ∃ span', Steps (segmentsFor expr k span)
      (body ++ closed :: more) more ⟨segments, span', true⟩ := by
  induction body generalizing segments k span with
  | nil =>
      cases segments with
      | cons segment segments => cases hInside
      | nil =>
          cases k with
          | zero => exact absurd hBound (Nat.not_lt_zero _)
          | succ k =>
              refine ⟨span.merge closed.span, ?_⟩
              intro s hStands
              rw [segmentsFor_of_terminator hStands.rest
                (by simp [plainSegment?, hClosed]) hClosed]
              exact ⟨rfl, (steps_skip_one closed s hStands).2⟩
  | cons l body ih =>
      cases segments with
      | nil => cases hInside
      | cons segment segments =>
          obtain ⟨hPlain, hRest⟩ := List.cons.inj hInside
          cases k with
          | zero => exact absurd hBound (Nat.not_lt_zero _)
          | succ k =>
              obtain ⟨span', hSteps⟩ := ih (span.merge l.span) hRest
                (Nat.lt_of_succ_lt_succ hBound)
              refine ⟨span', ?_⟩
              intro s hStands
              rw [segmentsFor_of_plain hStands.rest hPlain]
              obtain ⟨hResult, hLast⟩ := hSteps (s.advance 1)
                (steps_skip_one l s hStands).2
              dsimp only
              rw [hResult]
              exact ⟨rfl, hLast⟩

/- A literal, from its promoter to where its text starts. -/
theorem IsInside.steps_textOf
    {kind : TextKind}
    {heredoc : Bool}
    {ls : List Lexeme}
    (expr : ExpressionParser)
    (more : List Lexeme)
    (hInside : IsInside segments body)
    (hOpened : promoterText (some opened) = (kind, heredoc))
    (hStart : ∀ s, Stands ls s →
      Stands (body ++ closed :: more) (textStart heredoc s))
    (hClosed : closed.kind = .terminator f layout) :
    ∃ span, Steps (text expr) (opened :: ls) more
      (textOf kind heredoc ⟨segments, span, true⟩) := by
  obtain ⟨span, hSteps⟩ := hInside.steps_segmentsFor expr more
    (k := (body ++ closed :: more).length + 1) opened.span hClosed
    (by rw [List.length_append]; omega)
  refine ⟨span, ?_⟩
  intro s hStands
  let start := textStart heredoc (s.advance 1)
  have hStands' : Stands (body ++ closed :: more) start :=
    hStart _ (steps_skip_one opened s hStands).2
  obtain ⟨hResult, hLast⟩ := hSteps start hStands'
  rw [text_of_cons hStands.rest, hOpened]
  change
    textOf kind heredoc
        (segmentsFor expr (start.rest.length + 1) opened.span
          start).1 = _ ∧
      Stands more (poisonedIf
        (!(segmentsFor expr (start.rest.length + 1) opened.span
          start).1.closed)
        (segmentsFor expr (start.rest.length + 1) opened.span
          start).2)
  rw [hStands'.rest, hResult]
  exact ⟨rfl, hLast⟩

/- On one line no indentation is taken off. -/
theorem textOf_quoted
    (kind : TextKind)
    (i : Inside) :
    textOf kind false i = (⟨kind, false, 0, i.segments⟩, i.span) := by
  unfold textOf splitIndent
  split <;> rfl

/- A literal on one line, from its promoter on. -/
theorem text_of_quoted
    {s : ParseState}
    {ls : List Lexeme}
    {kind : TextKind}
    (hRest : s.rest = opened :: ls)
    (hOpened : promoterText (some opened) = (kind, false)) :
    text expr s =
      let i := segmentsFor expr (ls.length + 1) opened.span
        (s.advance 1)
      ((⟨kind, false, 0, i.1.segments⟩, i.1.span),
        poisonedIf (!i.1.closed) i.2) := by
  have hTail := (ParseState.take_one hRest).2
  have hStart : textStart false (s.advance 1) = s.advance 1 := rfl
  rw [text_of_cons hRest, hOpened]
  simp only [hStart, hTail, textOf_quoted]

/- A literal on one line, through its terminator. -/
theorem IsInside.steps_text
    {kind : TextKind}
    (expr : ExpressionParser)
    (more : List Lexeme)
    (hInside : IsInside segments body)
    (hOpened : promoterText (some opened) = (kind, false))
    (hClosed : closed.kind = .terminator f layout) :
    ∃ span, Steps (text expr) (opened :: (body ++ closed :: more))
      more (⟨kind, false, 0, segments⟩, span) := by
  obtain ⟨span, hSteps⟩ := hInside.steps_textOf expr more hOpened
    (fun _ hStands => hStands) hClosed
  rw [textOf_quoted] at hSteps
  exact ⟨span, hSteps⟩

/- A heredoc, whose promoter ends a line. -/
theorem IsInside.steps_text_heredoc
    {kind : TextKind}
    {line : Lexeme}
    (expr : ExpressionParser)
    (more : List Lexeme)
    (hInside : IsInside segments body)
    (hOpened : promoterText (some opened) = (kind, true))
    (hLine : line.kind = .endOfLine)
    (hClosed : closed.kind = .terminator f layout) :
    ∃ span, Steps (text expr)
      (opened :: line :: (body ++ closed :: more)) more
      (textOf kind true ⟨segments, span, true⟩) := by
  apply hInside.steps_textOf expr more hOpened _ hClosed
  intro s hStands
  have hLength : lineLength s.rest = 0 := by
    rw [hStands.rest]
    apply runLength_eq_zero
    intro l hHead
    cases hHead
    rw [hLine]
    rfl
  change Stands _ (heredocStart s).2
  rw [heredocStart_apply, hLength]
  exact (steps_skip_one line s hStands).2

/- The blanks in front of the terminator are the indentation. -/
theorem textOf_indent
    (kind : TextKind)
    (blanks : String)
    (span : Span) :
    textOf kind true ⟨segments ++ [.indent blanks], span, true⟩ =
      (⟨kind, true, blanks.length, segments⟩, span) := by
  simp [textOf, splitIndent]

/- Where there are none, nothing is taken off the lines. -/
theorem textOf_unindented
    (kind : TextKind)
    (span : Span)
    (hLast : ∀ blanks, segments.getLast? ≠ some (.indent blanks)) :
    textOf kind true ⟨segments, span, true⟩ =
      (⟨kind, true, 0, segments⟩, span) := by
  unfold textOf splitIndent
  split
  · rename_i blanks hIndent
    exact absurd hIndent (hLast blanks)
  · rfl

end ElixirReader
