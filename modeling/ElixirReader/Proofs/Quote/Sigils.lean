import ElixirReader.Proofs.Lexer.Sigils
import ElixirReader.Proofs.Quote.Segments

/-
  This file shows that sigils keep their bodies: whatever the
  body is cut into, and whether escapes were read in it or not,
  the sigil is quoted to a call with the text of the body and
  the letters behind it.

  Key definitions include:
    * `sigilTerm`

  Main declarations:
    * `isPrimary_sigil`
    * `quoteSource_sigil`
-/

namespace ElixirReader

open Parse

variable {name body modifiers : List Char}
variable {ls : List Lexeme}

------------------------------------------------------------
-- Terms
------------------------------------------------------------

/- A sigil with its body, which is no part if it is empty. -/
def sigilTerm
    (name body modifiers : List Char) : Term :=
  .call (.atom ("sigil_" ++ String.ofList name)) (.list [])
    (.list
      [.call (.atom "<<>>") (.list [])
          (.list (if body = [] then []
            else [.binary (String.ofList body)])),
        .codePoints (String.ofList modifiers)])

theorem steps_sigilModifiers
    (span : Span)
    (hModifiers : AreModifiers modifiers ls) :
    ∃ span', Steps (sigilModifiers span) ls []
      (String.ofList modifiers, span') := by
  rcases hModifiers with
    ⟨rfl, rfl⟩ | ⟨l, rfl, hKind, hSpaced, hText⟩
  · exact ⟨span, steps_peek.trans (steps_pure _)⟩
  · refine ⟨span.merge l.span, steps_peek.trans ?_⟩
    dsimp only [List.head?_cons]
    rw [if_pos ⟨hKind, hSpaced⟩, ← hText]
    exact (steps_skip_one l).trans (steps_pure _)

/- The term of a sigil that has been read. -/
theorem quote_sigil
    {segments : List (Segment Node)}
    {inside : List Lexeme}
    (kind : TextKind)
    (span : Span)
    (hInside : IsInside segments inside)
    (hSaid : Segment.said false 0 segments = body) :
    Node.quote .none
        ⟨.sigil (String.ofList name) ⟨kind, false, 0, segments⟩
          (String.ofList modifiers), span⟩ =
      sigilTerm name body modifiers := by
  have hParts := hInside.parts_eq .none kind false 0 false
  rw [hSaid] at hParts
  change Construct.sigil .none span _
    (Node.quoteText .none ⟨kind, false, 0, segments⟩) _ = _
  rw [Construct.sigil, Construct.binary, hParts, Part.ofRun]
  unfold sigilTerm
  split <;> rfl

/- The lexemes of a sigil are read as the sigil. -/
theorem isPrimary_sigil
    (hSigil : IsSigil name body modifiers ls) :
    IsPrimary .none (sigilTerm name body modifiers) ls := by
  obtain ⟨tilde, n, opened, inside, closed, last, said, rfl,
    hTilde, hName, hText, hOpened, hClosed, hModifiers,
    ⟨segments, hInside, hSegments⟩, hSaid⟩ := hSigil
  refine ⟨tilde, _, rfl, ?_, ?_, ?_⟩
  · rw [hTilde]
    rfl
  · rw [hTilde]
    rfl
  · intro expr
    have hPromoter : promoterText (some opened) = (.string, false) := by
      rw [promoterText, hOpened]
    obtain ⟨span, hSteps⟩ := hInside.steps_text expr last hPromoter
      hClosed
    obtain ⟨span', hLast⟩ := steps_sigilModifiers
      (tilde.span.merge span) hModifiers
    have hBody :
        Steps (sigilBody expr tilde.span n.text)
          (opened :: (inside ++ closed :: last)) []
          ⟨.sigil n.text ⟨.string, false, 0, segments⟩
            (String.ofList modifiers), span'⟩ := by
      refine steps_peek.trans ?_
      rw [List.head?_cons, Option.any_some, hOpened]
      exact hSteps.trans (hLast.trans (steps_pure _))
    rw [hText] at hBody
    refine ⟨_, ?_, quote_sigil .string span' hInside
      ((hSegments false 0).trans hSaid)⟩
    have hPrimary : primaryAt expr .statement tilde = sigil expr := by
      unfold primaryAt
      rw [hTilde]
    rw [hPrimary]
    refine (steps_currentSpan tilde).trans
      ((steps_skip_one tilde).trans (steps_peek.trans ?_))
    dsimp only [List.head?_cons]
    rw [if_pos hName, hText]
    exact (steps_skip_one n).trans hBody

------------------------------------------------------------
-- Sources
------------------------------------------------------------

/- A source that is a sigil keeps the body of it. -/
theorem quoteSource_sigil
    {reads : Bool}
    {opener close : Char}
    (hText : IsSigilText close reads name body)
    (hDelimiters : (opener, close) ∈ sigilDelimiters)
    (hModifiers : ∀ c ∈ modifiers, c.isAlphanum = true) :
    quoteSource .none
        (String.ofList
          ('~' :: (name ++ opener :: (body ++ close :: modifiers)))) =
      (sigilTerm name body modifiers, []) := by
  apply quoteSource_of_primary
  · rw [String.toList_ofList]
    simp [Lexer.byteOrderMark]
  · rw [String.toList_ofList]
    apply (lexes_sigil hText hDelimiters hModifiers).mono
    intro _ ls hSigil
    exact isPrimary_sigil hSigil

/-
  A terminator behind a backslash does not end the body, and an
  escape that takes more than its letter is kept as well.
-/
theorem quoteSource_sigil_guarded :
    quoteSource .none "~R2(\\))i" =
        (sigilTerm ['R', '2'] ['\\', ')'] ['i'], []) ∧
      quoteSource .none "~s|\\x4\\||" =
        (sigilTerm ['s'] ['\\', 'x', '4', '\\', '|'] [], []) := by
  constructor
  · have hBody : IsProtected ')' ['\\', ')'] := by
      refine ⟨?_, by decide⟩
      rintro (_ | ⟨c, _ | ⟨d, pre⟩⟩) post hSplit
      · simp at hSplit
      · obtain ⟨rfl, _⟩ := List.cons.inj hSplit
        rfl
      · simp at hSplit
    have hSource : "~R2(\\))i" =
        String.ofList
          ('~' :: (['R', '2'] ++ '(' :: (['\\', ')'] ++
            ')' :: ['i']))) := by
      decide
    rw [hSource]
    exact quoteSource_sigil (.takes 'R' ['2'] _ rfl (by simp) hBody)
      (by decide) (by simp)
  · have hBody : IsEscaped '|' ['\\', 'x', '4', '\\', '|'] :=
      .pair _ _ (.plain _ _ (by decide) (by decide) (by decide)
        (.pair _ _ .nil))
    have hSource : "~s|\\x4\\||" =
        String.ofList
          ('~' :: (['s'] ++ '|' ::
            (['\\', 'x', '4', '\\', '|'] ++ '|' :: []))) := by
      decide
    rw [hSource]
    exact quoteSource_sigil (.reads 's' _ rfl hBody) (by decide)
      nofun

end ElixirReader
