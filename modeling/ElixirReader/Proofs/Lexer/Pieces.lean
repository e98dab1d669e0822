import ElixirReader.Proofs.Lexer.Stretches
import ElixirReader.Proofs.Parser.Segments

/-
  This file shows how the text of a literal is cut into
  lexemes. Where escapes are read, a text is a row of plain
  characters and escapes: each escape is a lexeme, and so is
  each run of plain characters between two escapes. What the
  lexemes say is what the row says.

  Key definitions include:
    * `Piece`
    * `Piece.Fits`
    * `Piece.FitAll`
    * `Cuts`

  Main declarations:
    * `lexes_run`
    * `lexes_pieces`
-/

namespace ElixirReader

open Transition

variable {g : Group}
variable {frames : List Frame}
variable {rest : List Char}

------------------------------------------------------------
-- Runs of plain characters
------------------------------------------------------------

/- The lexemes are inside of a literal, and say some characters. -/
def Cuts
    (said : Bool → Nat → List Char)
    (ls : List Lexeme) : Prop :=
  ∃ segments,
    IsInside segments ls ∧
      ∀ decode indent,
        Segment.said decode indent segments = said decode indent

theorem Cuts.nil :
    Cuts (fun _ _ => []) [] :=
  ⟨[], .nil, fun _ _ => rfl⟩

theorem Cuts.append
    {said said' : Bool → Nat → List Char}
    {ls ls' : List Lexeme}
    (hFirst : Cuts said ls)
    (hSecond : Cuts said' ls') :
    Cuts (fun decode indent =>
      said decode indent ++ said' decode indent) (ls ++ ls') := by
  obtain ⟨segments, hInside, hSaid⟩ := hFirst
  obtain ⟨segments', hInside', hSaid'⟩ := hSecond
  refine ⟨segments ++ segments', hInside.append hInside', ?_⟩
  intro decode indent
  rw [Segment.said_append, hSaid, hSaid']

/- A fragment says what its characters are. -/
theorem cuts_fragment
    {l : Lexeme}
    {f : Family}
    {text : List Char}
    (hKind : l.kind = .fragment f)
    (hText : l.text = String.ofList text) :
    Cuts (fun _ _ => text) [l] := by
  refine ⟨_, isInside_fragment hKind hText, fun _ _ => ?_⟩
  simp [Segment.characters]

/- In front of a run of plain text no other token starts. -/
theorem body_of_fragmentLength
    {c : Char}
    {cs : List Char}
    {n : Nat}
    (hLength : fragmentLength g (c :: cs) = n + 1) :
    body g c cs =
      .plain g.fragmentKind n
        (fragmentMode g ((c :: cs).take (n + 1))) := by
  have hEscape : ¬ (g.reads = true ∧ c = '\\') := by
    rintro ⟨hReads, rfl⟩
    rw [fragmentLength.eq_def] at hLength
    simp [hReads] at hLength
  have hHash :
      ¬ (g.reads = true ∧ c = '#' ∧ cs.head? = some '{') := by
    rintro ⟨hReads, rfl, hHead⟩
    rw [fragmentLength.eq_def] at hLength
    simp [hReads, hHead] at hLength
  rw [body, if_neg hEscape, if_neg hHash, fragment, hLength]
  rfl

/- A run of plain text is one lexeme, or none if it is empty. -/
theorem lexes_run
    (span : Span)
    {run : List Char}
    (hLayout : g.layout = .quoted)
    (hLength : fragmentLength g (run ++ rest) = run.length) :
    Lexes (.group g span :: frames) .group run rest
      (fun m ls => m = .group ∧ Cuts (fun _ _ => run) ls) := by
  cases run with
  | nil => exact .nil ⟨rfl, .nil⟩
  | cons c run =>
      have hTerminator : c ≠ g.terminator := by
        rintro rfl
        rw [List.cons_append, fragmentLength.eq_def] at hLength
        simp [hLayout] at hLength
      have hMode :
          fragmentMode g ((c :: (run ++ rest)).take
            (run.length + 1)) = .group := by
        simp [fragmentMode, Group.bodyMode, hLayout]
      have hOf :
          Transition.of .group none
              (Frame.group g span :: frames).head? c
              (run ++ rest) =
            .plain g.fragmentKind run.length .group := by
        change group g c (run ++ rest) = _
        rw [List.cons_append] at hLength
        rw [group, if_neg hTerminator,
          body_of_fragmentLength hLength, hMode]
      apply (lexes_plain _ hOf rfl rfl).mono
      rintro _ _ ⟨rfl, l, rfl, hKind, hText⟩
      exact ⟨rfl, cuts_fragment hKind hText⟩

------------------------------------------------------------
-- Pieces
------------------------------------------------------------

/- A plain character, or an escape by what follows its backslash. -/
inductive Piece where
| plain (c : Char)
| escape (tail : List Char)
deriving DecidableEq, Repr

namespace Piece

/- The characters of a piece. -/
def written : Piece → List Char
| plain c => [c]
| escape tail => '\\' :: tail

/- What a piece says, if escapes are decoded and if they are kept. -/
def said
    (decode : Bool) : Piece → List Char
| plain c => [c]
| escape tail =>
    if decode then
      (Escape.decode? ('\\' :: tail)).getD ('\\' :: tail)
    else
      '\\' :: tail

/-
  A piece is taken for what it is, in a group and in front of
  some characters: a plain character starts nothing else, and
  an escape reaches as far as it is meant to.
-/
def Fits
    (g : Group)
    (next : List Char) : Piece → Prop
| plain c =>
    c ≠ g.terminator ∧ c ≠ '\\' ∧
      (c = '#' → next.head? ≠ some '{')
| escape tail =>
    backslashTail (tail ++ next) = tail.length ∧
      escapeFault g tail = none

/- All of some pieces fit, one in front of the other. -/
def FitAll
    (g : Group)
    (rest : List Char) : List Piece → Prop
| [] => True
| p :: ps =>
    p.Fits g (ps.flatMap written ++ rest) ∧ FitAll g rest ps

end Piece

/- How far plain text reaches where escapes are read. -/
theorem fragmentLength_cons
    (c : Char)
    (cs : List Char)
    (hLayout : g.layout = .quoted)
    (hReads : g.reads = true) :
    fragmentLength g (c :: cs) =
      if c = g.terminator ∨ c = '\\' ∨
          c = '#' ∧ cs.head? = some '{' then 0
      else 1 + fragmentLength g cs := by
  rw [fragmentLength.eq_def]
  simp only [hLayout, hReads, true_and, if_true, reduceCtorEq,
    false_and, if_false]
  by_cases hTerminator : c = g.terminator <;>
    by_cases hBackslash : c = '\\' <;>
      simp [hTerminator, hBackslash]

/- An escape is one lexeme. -/
theorem lexes_escape
    (span : Span)
    {tail : List Char}
    (hLayout : g.layout = .quoted)
    (hReads : g.reads = true)
    (hTerminator : g.terminator ≠ '\\')
    (hFits : (Piece.escape tail).Fits g rest) :
    Lexes (.group g span :: frames) .group ('\\' :: tail) rest
      (fun m ls =>
        m = .group ∧
          Cuts (fun decode _ => (Piece.escape tail).said decode)
            ls) := by
  obtain ⟨hTail, hFault⟩ := hFits
  have hOf :
      Transition.of .group none
          (Frame.group g span :: frames).head? '\\'
          (tail ++ rest) =
        .plain .escapeSequence tail.length .group := by
    change group g '\\' (tail ++ rest) = _
    rw [group, if_neg hTerminator.symm, body,
      if_pos ⟨hReads, rfl⟩, escape, hTail, List.take_left, hFault]
    simp [escapeMode, Group.bodyMode, hLayout, Transition.plain]
  apply (lexes_plain _ hOf rfl rfl).mono
  rintro _ _ ⟨rfl, l, rfl, hKind, hText⟩
  refine ⟨rfl, _, isInside_escape hKind hText, ?_⟩
  intro decode indent
  cases decode with
  | false => simp [Segment.characters, Piece.said]
  | true =>
      simp only [Segment.said_cons, Segment.said_nil,
        Segment.characters, Segment.decoded, Piece.said, if_true,
        String.toList_ofList, List.append_nil]
      cases Escape.decode? ('\\' :: tail) <;> simp

/-
  A text of pieces is taken up to the terminator behind it. The
  induction is on the pieces, and `run` is the plain text in
  front of them that is not a lexeme yet.
-/
theorem lexes_pieces
    (span : Span)
    (run : List Char)
    (pieces : List Piece)
    (hLayout : g.layout = .quoted)
    (hReads : g.reads = true)
    (hTerminator : g.terminator ≠ '\\')
    (hFit : Piece.FitAll g (g.terminator :: rest) pieces)
    (hRun :
      fragmentLength g
          (run ++ (pieces.flatMap Piece.written ++
            g.terminator :: rest)) =
        run.length +
          fragmentLength g
            (pieces.flatMap Piece.written ++
              g.terminator :: rest)) :
    Lexes (.group g span :: frames) .group
      (run ++ pieces.flatMap Piece.written)
      (g.terminator :: rest)
      (fun m ls =>
        m = .group ∧
          Cuts (fun decode _ =>
            run ++ pieces.flatMap (Piece.said decode)) ls) := by
  induction pieces generalizing run with
  | nil =>
      simp only [List.flatMap_nil, List.append_nil,
        List.nil_append] at hRun ⊢
      rw [fragmentLength_cons _ _ hLayout hReads,
        if_pos (.inl rfl), Nat.add_zero] at hRun
      exact lexes_run span hLayout hRun
  | cons p ps ih =>
      obtain ⟨hFirst, hOthers⟩ := hFit
      cases p with
      | plain c =>
          obtain ⟨hOther, hBackslash, hHash⟩ := hFirst
          have hLonger :
              fragmentLength g
                  (run ++ [c] ++ (ps.flatMap Piece.written ++
                    g.terminator :: rest)) =
                (run ++ [c]).length +
                  fragmentLength g
                    (ps.flatMap Piece.written ++
                      g.terminator :: rest) := by
            simp only [List.flatMap_cons, Piece.written,
              List.cons_append, List.nil_append] at hRun
            rw [fragmentLength_cons c _ hLayout hReads,
              if_neg] at hRun
            · simpa [Nat.add_assoc] using hRun
            · rintro (hEq | hEq | ⟨hEq, hHead⟩)
              · exact hOther hEq
              · exact hBackslash hEq
              · exact hHash hEq hHead
          have hMore := ih (run ++ [c]) hOthers hLonger
          simpa [Piece.written, Piece.said] using hMore
      | escape tail =>
          simp only [List.flatMap_cons, Piece.written,
            List.cons_append] at hRun ⊢
          rw [fragmentLength_cons _ _ hLayout hReads,
            if_pos (.inr (.inl rfl)), Nat.add_zero] at hRun
          apply (lexes_run span hLayout _).append
          · rintro _ ls ⟨rfl, hCuts⟩
            apply (lexes_escape span hLayout hReads hTerminator
              hFirst).append
            rintro _ ls' ⟨rfl, hCuts'⟩
            apply (ih [] hOthers (by simp)).mono
            rintro m ls'' ⟨hMode, hCuts''⟩
            refine ⟨hMode, ?_⟩
            have hAll := hCuts.append (hCuts'.append hCuts'')
            simpa using hAll
          · simpa using hRun

end ElixirReader
