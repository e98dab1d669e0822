import ElixirReader.Proofs.Lexer.Effect

/-
  This file shows that the mode of a lexer, its open
  constructs and its pending sigil always fit together: the
  mode is inside of a literal exactly if a literal is the
  innermost open construct, literals and interpolations take
  turns, and what an interpolation resumes fits the literal
  that it stands in.

  Key definitions include:
    * `Frame.Alternate`
    * `Lexer.Coherent`
    * `Lexer.behind`

  Main declarations:
    * `Lexer.coherent_next`
    * `Lexer.coherent_behind_startingIn`
-/

namespace ElixirReader

------------------------------------------------------------
-- Coherence
------------------------------------------------------------

/-
  Literals and interpolations take turns, with a literal at
  the bottom. An interpolation resumes the mode in which the
  body of the literal under it is read.
-/
inductive Frame.Alternate : List Frame → Prop where
| none :
    Alternate []
| literal
    (g : Group)
    (opened : Span) :
    Alternate [.group g opened]
| nested
    (g : Group)
    (opened : Span)
    (curlies : Nat)
    (resume : Mode)
    (fs : List Frame)
    (hBelow : Alternate (.interpolation curlies resume :: fs)) :
    Alternate
      (.group g opened :: .interpolation curlies resume :: fs)
| interpolation
    (curlies : Nat)
    (resume : Mode)
    (g : Group)
    (opened : Span)
    (fs : List Frame)
    (hQuoted : g.layout = .quoted → resume = .group)
    (hHeredoc : g.layout = .heredoc →
      resume = .heredocLineBody)
    (hBelow : Alternate (.group g opened :: fs)) :
    Alternate
      (.interpolation curlies resume :: .group g opened :: fs)

namespace Frame

/- No construct, or an interpolation, is innermost. -/
def isOutside : List Frame → Bool
| [] => true
| .group _ _ :: _ => false
| .interpolation _ _ :: _ => true

theorem Alternate.openGroup
    {fs : List Frame}
    (g : Group)
    (opened : Span)
    (hFrames : Alternate fs)
    (hOutside : isOutside fs = true) :
    Alternate (.group g opened :: fs) := by
  cases hFrames with
  | none => exact .literal g opened
  | literal _ _ => cases hOutside
  | nested _ _ _ _ _ _ => cases hOutside
  | interpolation n m g' o fs hQuoted hHeredoc hBelow =>
      exact .nested g opened n m _
        (.interpolation n m g' o fs hQuoted hHeredoc hBelow)

/- What is under a literal has no literal innermost. -/
theorem Alternate.closeGroup
    {fs : List Frame}
    {g : Group}
    {opened : Span}
    (hFrames : Alternate (.group g opened :: fs)) :
    Alternate fs ∧ isOutside fs = true := by
  cases hFrames with
  | literal _ _ => exact ⟨.none, rfl⟩
  | nested _ _ n m fs hBelow => exact ⟨hBelow, rfl⟩

/- Curlies are counted without any change to the turns. -/
theorem Alternate.setCurlies
    {fs : List Frame}
    {n : Nat}
    {m : Mode}
    (k : Nat)
    (hFrames : Alternate (.interpolation n m :: fs)) :
    Alternate (.interpolation k m :: fs) := by
  cases hFrames with
  | interpolation _ _ g o fs hQuoted hHeredoc hBelow =>
      exact .interpolation k m g o fs hQuoted hHeredoc hBelow

/-
  A curly changes the count of the interpolation that it
  stands in, if there is one.
-/
theorem Alternate.applyCurly
    {fs : List Frame}
    {change : Change}
    (span : Span)
    (hFrames : Alternate fs)
    (hOutside : isOutside fs = true)
    (hChange : change = .openCurly ∨ change = .closeCurly) :
    Alternate (change.apply span fs) ∧
      isOutside (change.apply span fs) = true := by
  cases fs with
  | nil => rcases hChange with rfl | rfl <;> exact ⟨.none, rfl⟩
  | cons f fs =>
      cases f with
      | group g opened => cases hOutside
      | interpolation n m =>
          rcases hChange with rfl | rfl
          · exact ⟨hFrames.setCurlies (n + 1), rfl⟩
          · exact ⟨hFrames.setCurlies (n - 1), rfl⟩

end Frame

namespace Lexer

/-
  The mode, the open constructs and the pending sigil fit
  together.
-/
structure Coherent
    (l : Lexer) : Prop where
  group_iff :
    l.mode.isGroup = true ↔
      ∃ g opened fs, l.frames = .group g opened :: fs
  heredoc_iff :
    ∀ g opened fs,
      l.frames = .group g opened :: fs →
        (g.layout = .heredoc ↔ l.mode ≠ .group)
  alternate :
    Frame.Alternate l.frames
  sigil :
    l.sigil.isSome = true → l.mode = .sigil

theorem Coherent.of_outside
    {l : Lexer}
    (hMode : l.mode.isGroup = false)
    (hOutside : Frame.isOutside l.frames = true)
    (hAlternate : Frame.Alternate l.frames)
    (hSigil : l.sigil.isSome = true → l.mode = .sigil) :
    Coherent l := by
  have hNoGroup :
      ∀ g opened fs, l.frames ≠ .group g opened :: fs := by
    intro g opened fs hFrames
    rw [hFrames] at hOutside
    cases hOutside
  refine ⟨?_, ?_, hAlternate, hSigil⟩
  · constructor
    · intro hGroup
      rw [hMode] at hGroup
      cases hGroup
    · rintro ⟨g, opened, fs, hFrames⟩
      exact absurd hFrames (hNoGroup g opened fs)
  · intro g opened fs hFrames
    exact absurd hFrames (hNoGroup g opened fs)

theorem Coherent.of_inside
    {l : Lexer}
    {g : Group}
    {opened : Span}
    {fs : List Frame}
    (hFrames : l.frames = .group g opened :: fs)
    (hIn : l.mode.isIn g.layout = true)
    (hAlternate : Frame.Alternate l.frames)
    (hSigil : l.sigil = none) :
    Coherent l := by
  refine ⟨?_, ?_, hAlternate, ?_⟩
  · constructor
    · intro _
      exact ⟨g, opened, fs, hFrames⟩
    · intro _
      exact (Mode.isGroup_iff_isIn _).mpr ⟨g.layout, hIn⟩
  · intro g' opened' fs' hFrames'
    rw [hFrames] at hFrames'
    cases hFrames'
    exact Mode.eq_heredoc_iff_of_isIn hIn
  · intro hPending
    rw [hSigil] at hPending
    cases hPending

/- Behind a literal's promoter the mode reads its body. -/
theorem Coherent.isIn
    {l : Lexer}
    {g : Group}
    {opened : Span}
    {fs : List Frame}
    (hCoherent : Coherent l)
    (hFrames : l.frames = .group g opened :: fs) :
    l.mode.isIn g.layout = true := by
  exact Mode.isIn_of_isGroup
    (hCoherent.group_iff.mpr ⟨g, opened, fs, hFrames⟩)
    (hCoherent.heredoc_iff g opened fs hFrames)

theorem Coherent.isOutside
    {l : Lexer}
    (hCoherent : Coherent l)
    (hMode : l.mode.isGroup = false) :
    Frame.isOutside l.frames = true := by
  cases hFrames : l.frames with
  | nil => rfl
  | cons f fs =>
      cases f with
      | interpolation n m => rfl
      | group g opened =>
          have hGroup :=
            hCoherent.group_iff.mpr ⟨g, opened, fs, hFrames⟩
          rw [hMode] at hGroup
          cases hGroup

------------------------------------------------------------
-- One token
------------------------------------------------------------

/- The start of a source is coherent, whatever the mode. -/
theorem coherent_startingIn
    (mode : Mode)
    (source : String) :
    Coherent (startingIn mode source) := by
  have hFrames :
      (startingIn mode source).frames =
        initialFrames mode (origin source.toList) := rfl
  cases hGroup : mode.isGroup with
  | false =>
      rw [initialFrames, if_neg (by simp [hGroup])] at hFrames
      apply Coherent.of_outside
      · exact hGroup
      · rw [hFrames]
        rfl
      · rw [hFrames]
        exact .none
      · intro hPending
        cases hPending
  | true =>
      rw [initialFrames, if_pos hGroup] at hFrames
      refine Coherent.of_inside hFrames ?_ ?_ rfl
      · change mode.isIn _ = true
        cases mode <;> first | rfl | cases hGroup
      · rw [hFrames]
        exact .literal _ _

/- A token outside of literals keeps a lexer coherent. -/
theorem coherent_past_of_outside
    {l : Lexer}
    {t : Transition}
    (text rest : List Char)
    (hCoherent : Coherent l)
    (hMode : l.mode.isGroup = false)
    (hToken : t.Outside l.frames.head?) :
    Coherent (l.past t text rest) := by
  have hOutside := hCoherent.isOutside hMode
  have hAlternate := hCoherent.alternate
  cases hToken with
  | keeps hKeeps =>
      apply Coherent.of_outside
      · exact hKeeps.mode
      · simpa [past, hKeeps.change, Change.apply]
          using hOutside
      · simpa [past, hKeeps.change, Change.apply]
          using hAlternate
      · exact hKeeps.sigil
  | opensCurly hEq =>
      subst hEq
      have hNext :=
        hAlternate.applyCurly (l.here.spanOf text) hOutside
          (.inl rfl)
      exact Coherent.of_outside rfl hNext.2 hNext.1
        (fun hPending => by cases hPending)
  | closesCurly hEq hTop =>
      subst hEq
      have hNext :=
        hAlternate.applyCurly (l.here.spanOf text) hOutside
          (.inr rfl)
      exact Coherent.of_outside rfl hNext.2 hNext.1
        (fun hPending => by cases hPending)
  | opens g hEq =>
      subst hEq
      exact Coherent.of_inside rfl g.isIn_startMode
        (hAlternate.openGroup g _ hOutside) rfl
  | resumes resume hTop hEq =>
      subst hEq
      cases hFrames : l.frames with
      | nil =>
          rw [hFrames] at hTop
          cases hTop
      | cons f fs =>
          rw [hFrames] at hTop hAlternate
          cases hTop
          cases hAlternate with
          | interpolation _ _ g o fs hQuoted hHeredoc hBelow =>
              have hTail : l.frames.tail = .group g o :: fs := by
                rw [hFrames]
                rfl
              refine Coherent.of_inside hTail ?_ ?_ rfl
              · change resume.isIn g.layout = true
                cases hLayout : g.layout with
                | quoted => rw [hQuoted hLayout]; rfl
                | heredoc => rw [hHeredoc hLayout]; rfl
              · change Frame.Alternate l.frames.tail
                rw [hFrames]
                exact hBelow

/- A token inside of a literal keeps a lexer coherent. -/
theorem coherent_past_of_inside
    {l : Lexer}
    {t : Transition}
    {g : Group}
    {opened : Span}
    {fs : List Frame}
    (text rest : List Char)
    (hCoherent : Coherent l)
    (hFrames : l.frames = .group g opened :: fs)
    (hToken : t.Inside g l.mode) :
    Coherent (l.past t text rest) := by
  have hIn := hCoherent.isIn hFrames
  have hAlternate := hCoherent.alternate
  -- A token that keeps the open constructs and stays inside.
  have hKept :
      t.change = .keep →
        t.mode.isIn g.layout = true →
          t.sigil = none → Coherent (l.past t text rest) := by
    intro hChange hNext hSigil
    have hSame : (l.past t text rest).frames = l.frames := by
      simp [past, hChange, Change.apply]
    refine Coherent.of_inside (hSame.trans hFrames) hNext ?_
      hSigil
    rw [hSame]
    exact hAlternate
  -- On the promoter's line the literal is a heredoc.
  have hFirstLine :
      l.mode = .heredocStart → g.layout = .heredoc := by
    intro hMode
    rw [hMode] at hIn
    exact Mode.layout_of_heredocStart hIn
  cases hToken with
  | onFirstLine hMode hKind hStays hChange hSigil =>
      apply hKept hChange _ hSigil
      rw [hStays, hFirstLine hMode]
      rfl
  | endsFirstLine hMode hKind hNext hChange hSigil =>
      apply hKept hChange _ hSigil
      rw [hNext, hFirstLine hMode]
      rfl
  | segment hMode hKind hNext hBody hChange hSigil =>
      exact hKept hChange hNext hSigil
  | interpolates hMode hEq =>
      subst hEq
      apply Coherent.of_outside
      · rfl
      · rfl
      · have hNext :
            (l.past (Transition.interpolation g) text
                rest).frames =
              .interpolation 0 g.bodyMode ::
                .group g opened :: fs := by
          rw [← hFrames]
          rfl
        rw [hNext]
        rw [hFrames] at hAlternate
        refine .interpolation 0 g.bodyMode g opened fs ?_ ?_
          hAlternate
        · intro hLayout
          simp [Group.bodyMode, hLayout]
        · intro hLayout
          simp [Group.bodyMode, hLayout]
      · intro hPending
        cases hPending
  | ends hMode hEq =>
      subst hEq
      rw [hFrames] at hAlternate
      have hNext :
          (l.past (Transition.terminator g) text rest).frames =
            fs := by
        simp [past, Transition.terminator, Change.apply,
          hFrames]
      apply Coherent.of_outside
      · exact g.isGroup_endMode
      · rw [hNext]
        exact hAlternate.closeGroup.2
      · rw [hNext]
        exact hAlternate.closeGroup.1
      · intro hPending
        cases hPending

/- The token that a coherent lexer takes, by its mode. -/
theorem Coherent.past
    {l : Lexer}
    (c : Char)
    (cs : List Char)
    (text rest : List Char)
    (hCoherent : Coherent l) :
    Coherent (l.past (l.transition c cs) text rest) := by
  cases hMode : l.mode.isGroup with
  | false =>
      exact coherent_past_of_outside text rest hCoherent hMode
        (Transition.of_outside l.sigil hMode)
  | true =>
      rcases hCoherent.group_iff.mp hMode with
        ⟨g, opened, fs, hFrames⟩
      have hTop : l.frames.head? = some (.group g opened) := by
        rw [hFrames]
        rfl
      apply coherent_past_of_inside text rest hCoherent hFrames
      unfold transition
      rw [hTop]
      exact Transition.of_inside l.sigil opened
        (hCoherent.isIn hFrames)

theorem coherent_next
    {l : Lexer}
    (hCoherent : Coherent l) :
    Coherent l.next.2 := by
  unfold next
  split
  · exact hCoherent
  · split
    · exact ⟨hCoherent.group_iff, hCoherent.heredoc_iff,
        hCoherent.alternate, hCoherent.sigil⟩
    · split
      · unfold finish
        split
        · exact hCoherent
        · exact ⟨hCoherent.group_iff, hCoherent.heredoc_iff,
            hCoherent.alternate, hCoherent.sigil⟩
      · exact hCoherent.past _ _ _ _

------------------------------------------------------------
-- Any number of tokens
------------------------------------------------------------

/- The lexer behind a number of requests for a token. -/
def behind : Nat → Lexer → Lexer
| 0, l => l
| n + 1, l => behind n l.next.2

theorem Coherent.behind
    {l : Lexer}
    (n : Nat)
    (hCoherent : Coherent l) :
    Coherent (l.behind n) := by
  induction n generalizing l with
  | zero => exact hCoherent
  | succ n ih => exact ih (coherent_next hCoherent)

end Lexer

end ElixirReader
