import ElixirReader.Proofs.Errors.Literals
import ElixirReader.Proofs.Spans.Texts

/-
  This file follows places through numbers, sigils, characters,
  atoms, and the pairs of keywords. Each value of a pair
  stretches the span of the pairs before it.

  Key definitions include:
    * `PairsLaid`

  Main declarations:
    * `Proceeds.number`
    * `Proceeds.sigil`
    * `Proceeds.character`
    * `Proceeds.atom`
    * `Proceeds.keywords`
-/

namespace ElixirReader

open Parse

variable {a k : Nat}
variable {l : Lexeme}
variable {ls : List Lexeme}
variable {s : ParseState}
variable {expr : ExpressionParser}
variable {context : Context}

------------------------------------------------------------
-- Leaves
------------------------------------------------------------

/- A node with nothing below it may have any span. -/
theorem Fits.leaf
    {f : Form Node}
    {span : Span}
    {b : Nat}
    (hNodes : f.nodes = [])
    (hForm : Node.isError ⟨f, span⟩ = false)
    (hStart : a ≤ span.start)
    (hLe : span.start ≤ span.stop)
    (hStop : span.stop ≤ b) :
    Fits a [⟨f, span⟩] b := by
  have hFits : Fits span.start f.nodes span.stop := by
    rw [hNodes]
    exact Fits.nil hLe
  exact (Holds.of_fits hFits hStart hStop).fits hForm

/- So may one of a lexeme that was taken. -/
theorem Took.leaf
    {f : Form Node}
    {s' : ParseState}
    (hTook : Took l s s')
    (hNodes : f.nodes = [])
    (hForm : Node.isError ⟨f, l.span⟩ = false) :
    Fits s.reach [⟨f, l.span⟩] s'.reach :=
  Fits.leaf hNodes hForm hTook.start hTook.le
    (Nat.le_of_eq hTook.reach_eq.symm)

namespace Proceeds

------------------------------------------------------------
-- Numbers
------------------------------------------------------------

/- The digits of a number go from its first to its last. -/
theorem number :
    Proceeds (laid nodeOf s.reach) Parse.number s := by
  apply bind_rest
  have hTake := numberParts_eq_take s.rest
  cases hParts : numberParts s.rest with
  | nil => exact laid_of_containsError (errorNode _)
  | cons l ls =>
      rw [hParts, List.length_cons] at hTake
      apply of_placed
      intro hPlaced
      rcases hPlaced.split (ls.length + 1) with ⟨b, hTaken, _⟩
      rw [← hTake.1, List.map_cons] at hTaken
      apply (skip (ls.length + 1)).bind
      intro _ s₁ hEq _ _
      have hState : s.advance (ls.length + 1) = s₁ :=
        congrArg Prod.snd hEq
      rw [hState] at hTaken
      simp only
      split
      · apply poison.bind
        intro _ s₂ _ _ _
        exact pure (Fits.of_hasError
          ((hasError_nodeOf _).mpr (containsError_failure _ _)))
      · cases hForm : numberForm? (l :: ls) with
        | none => exact laid_of_containsError (failure _ _ _)
        | some form =>
            apply pure
            have hFirst := hTaken.of_mem List.mem_cons_self
            have hLast :
                ∃ x ∈ l.span :: ls.map Lexeme.span,
                  coveringSpan l ls = l.span.merge x := by
              cases hLast : ls.getLast? with
              | none =>
                  exact ⟨l.span, List.mem_cons_self,
                    by simp [coveringSpan, hLast]⟩
              | some m =>
                  refine ⟨m.span, ?_,
                    by simp [coveringSpan, hLast]⟩
                  exact List.mem_cons_of_mem _
                    (List.mem_map_of_mem
                      (List.mem_of_getLast? hLast))
            rcases hLast with ⟨x, hMem, hSpan⟩
            have hX := hTaken.of_mem hMem
            rw [hSpan]
            have hBounds :
                s.reach ≤ (l.span.merge x).start ∧
                  (l.span.merge x).start ≤
                    (l.span.merge x).stop ∧
                  (l.span.merge x).stop ≤ s₁.reach := by
              rw [Span.start_merge, Span.stop_merge]
              omega
            rcases numberForm?_cases hForm with
                ⟨i, rfl⟩ | ⟨y, rfl⟩ <;>
              exact Fits.leaf rfl rfl hBounds.1 hBounds.2.1
                hBounds.2.2

------------------------------------------------------------
-- Sigils
------------------------------------------------------------

theorem sigilModifiers
    (span : Span)
    (hSpan : span.start ≤ span.stop)
    (hReach : span.stop ≤ s.reach) :
    Proceeds (fun r s' => Spanned span r.2 s'.reach)
      (Parse.sigilModifiers span) s := by
  apply bind_peek
  cases hRest : s.rest with
  | nil => exact pure ⟨rfl, Nat.le_refl _, hReach⟩
  | cons l ls =>
      simp only [List.head?_cons]
      split
      · apply bind_skip_one hRest
        intro s₁ _ _ _ hTook
        have hStart := hTook.start
        have hStop := hTook.le
        have hPlace := hTook.reach_eq
        apply pure
        refine ⟨?_, ?_, ?_⟩ <;>
          simp only [Span.start_merge, Span.stop_merge] <;>
          omega
      · exact pure ⟨rfl, Nat.le_refl _, hReach⟩

theorem sigilBody
    {tilde : Span}
    (hExpr : Orderly expr)
    (hTilde : tilde.start ≤ tilde.stop)
    (hReach : tilde.stop ≤ s.reach)
    (name : String) :
    Proceeds (laid nodeOf tilde.start)
      (Parse.sigilBody expr tilde name) s := by
  apply bind_peek
  split
  · rename_i hPromoter
    rcases exists_of_head?_any hPromoter with ⟨l, ls, hRest, _⟩
    apply (text hExpr hRest).bind
    rintro ⟨t, body⟩ s₁ _ hText hQuotes
    have hHolds := hQuotes.holds.behind_mark hTilde hReach
    have hStart := hQuotes.start
    have hLe := hQuotes.le
    rcases hQuotes.spanned with ⟨hFirst, hSecond, hThird⟩
    simp only at hFirst hSecond hThird
    apply (sigilModifiers (tilde.merge body)
      (by rw [Span.start_merge, Span.stop_merge]; omega)
      (by rw [Span.stop_merge]; omega)).bind
    rintro ⟨modifiers, span⟩ s₂ _ _
      ⟨hSame, hStretched, hPlace⟩
    simp only at hSame hStretched hPlace
    rw [Span.start_merge] at hSame
    apply pure
    apply Holds.fits _ rfl
    intro hNone
    rcases hHolds hNone with ⟨hBegin, hLaid, _⟩
    simp only [Span.start_merge] at hBegin hLaid
    exact ⟨by omega, hLaid.mono (by omega) hStretched, hPlace⟩
  · exact laid_of_containsError (wantedNode _)

theorem sigil
    (hExpr : Orderly expr)
    (hRest : s.rest = l :: ls) :
    Proceeds (laid nodeOf s.reach) (Parse.sigil expr) s := by
  apply bind_currentSpan_of_cons hRest
  apply bind_skip_one hRest
  intro s₁ hRest₁ _ _ hTook
  apply bind_peek
  rw [hRest₁]
  cases ls with
  | nil => exact laid_of_containsError (wantedNode _)
  | cons m ms =>
      simp only [List.head?_cons]
      split
      · apply bind_skip_one hRest₁
        intro s₂ _ _ hOnward _
        have hReach := hOnward.reach
        rw [hTook.reach_eq] at hReach
        apply (sigilBody hExpr hTook.le hReach m.text).mono
        intro n s₃ _ _ hNode
        exact Fits.mono hNode hTook.start (Nat.le_refl _)
      · exact laid_of_containsError (wantedNode _)

------------------------------------------------------------
-- Characters and atoms
------------------------------------------------------------

theorem character
    (hRest : s.rest = l :: ls) :
    Proceeds (laid nodeOf s.reach) Parse.character s := by
  apply bind_currentSpan_of_cons hRest
  apply bind_skip_one hRest
  intro s₁ hRest₁ _ _ hMark
  apply bind_peek
  rw [hRest₁]
  cases ls with
  | nil => exact laid_of_containsError (wantedNode _)
  | cons m ms =>
      simp only [List.head?_cons]
      split
      · apply bind_skip_one hRest₁
        intro s₂ _ _ _ hTook
        unfold Parse.characterValue
        split
        · have hFirst := hMark.start
          have hSecond := hMark.le
          have hThird := hMark.reach_eq
          have hStart := hTook.start
          have hStop := hTook.le
          have hPlace := hTook.reach_eq
          apply pure
          apply Fits.leaf rfl rfl <;>
            simp only [Span.start_merge, Span.stop_merge] <;>
            omega
        · exact laid_of_containsError (failure _ _ _)
      · exact laid_of_containsError (wantedNode _)

theorem atom
    (hExpr : Orderly expr)
    (hRest : s.rest = l :: ls) :
    Proceeds (laid nodeOf s.reach) (Parse.atom expr) s := by
  apply bind_currentSpan_of_cons hRest
  apply bind_skip_one hRest
  intro s₁ hRest₁ _ _ hColon
  have hFirst := hColon.start
  have hSecond := hColon.le
  have hThird := hColon.reach_eq
  apply bind_peek
  rw [hRest₁]
  cases ls with
  | nil => exact laid_of_containsError (wantedNode _)
  | cons m ms =>
      simp only [List.head?_cons]
      split
      · apply bind_skip_one hRest₁
        intro s₂ _ _ _ hTook
        have hStart := hTook.start
        have hStop := hTook.le
        have hPlace := hTook.reach_eq
        apply pure
        apply Fits.leaf rfl rfl <;>
          simp only [Span.start_merge, Span.stop_merge] <;>
          omega
      · split
        · apply (text hExpr hRest₁).bind
          rintro ⟨t, span⟩ s₂ _ _ hQuotes
          apply pure
          have hHolds := hQuotes.holds.behind_mark hSecond
            (Nat.le_of_eq hThird.symm)
          exact Fits.mono (hHolds.fits rfl) hFirst (Nat.le_refl _)
        · exact laid_of_containsError (wantedNode _)

------------------------------------------------------------
-- Keys
------------------------------------------------------------

theorem bareKey
    (hRest : s.rest = l :: ls) :
    Proceeds
      (fun key s' => Fits l.span.start [key] s'.reach ∧
        l.span.stop ≤ s'.reach)
      (Parse.bareKey l) s := by
  apply bind_skip_one hRest
  intro s₁ _ _ _ hTook
  have hLe := hTook.le
  have hReach := hTook.reach_eq
  apply (eat .colon).bind
  intro colon s₂ _ hOnward hColon
  have hPlace := hOnward.reach
  cases colon with
  | none =>
      apply pure
      exact ⟨Fits.leaf rfl rfl (Nat.le_refl _) hLe (by omega),
        by omega⟩
  | some colon =>
      have hFound := hColon colon rfl
      have hStart := hFound.start
      have hStop := hFound.le
      have hEnd := hFound.reach_eq
      apply pure
      refine ⟨?_, by omega⟩
      apply Fits.leaf rfl rfl <;>
        simp only [Span.start_merge, Span.stop_merge] <;>
        omega

theorem quotedKey
    (hExpr : Orderly expr)
    (hRest : s.rest = l :: ls) :
    Proceeds
      (fun key s' => Fits l.span.start key.toList s'.reach ∧
        l.span.stop ≤ s'.reach)
      (Parse.quotedKey expr) s := by
  apply (text hExpr hRest).bind
  rintro ⟨t, span⟩ s₁ _ _ hQuotes
  have hLe := hQuotes.le
  have hHolds : Holds l.span.start span t.nodes s₁.reach :=
    { hQuotes with start := Nat.le_refl _ : Quotes _ _ _ _ }.holds
  rcases hQuotes.spanned with ⟨hFirst, hSecond, hThird⟩
  simp only at hFirst hSecond hThird
  apply (expect .colon .keyColon).bind
  rintro (e | colon) s₂ _ hOnward hColon
  · have hPlace := hOnward.reach
    apply pure
    exact ⟨Fits.nil (by omega), by omega⟩
  · have hFound : Took colon s₁ s₂ := hColon
    have hStart := hFound.start
    have hStop := hFound.le
    have hEnd := hFound.reach_eq
    apply pure
    refine ⟨?_, by omega⟩
    apply Holds.fits _ rfl
    intro hNone
    rcases hHolds hNone with ⟨_, hLaid, _⟩
    rw [Span.start_merge, Span.stop_merge]
    refine ⟨by omega, ?_, by omega⟩
    exact hLaid.mono (by omega) (by omega)

theorem keywordKey
    (hExpr : Orderly expr)
    (hRest : s.rest = l :: ls)
    (hAhead : ElixirReader.keywordAhead s.rest = true) :
    Proceeds
      (fun key s' => Fits l.span.start key.toList s'.reach ∧
        l.span.stop ≤ s'.reach)
      (Parse.keywordKey expr) s := by
  apply bind_peek
  rw [hRest]
  simp only [List.head?_cons]
  split
  · apply (bareKey hRest).bind
    intro key s₁ _ _ hKey
    exact pure hKey
  · apply bind_rest
    rw [if_pos hAhead]
    exact quotedKey hExpr hRest

end Proceeds

------------------------------------------------------------
-- Pairs
------------------------------------------------------------

/-
  The pairs that start with a lexeme are laid behind every
  offset in the span before them, which they stretch.
-/
def PairsLaid
    (first : Lexeme)
    (span : Span)
    (r : List (Node × Node) × Span)
    (s' : ParseState) : Prop :=
  ∀ a,
    a ≤ first.span.start → span.start ≤ a → a ≤ span.stop →
      span.stop ≤ s'.reach →
        Stretched a span r.2 (pairNodes r) s'.reach

namespace Proceeds

theorem pairsAfter
    {span : Span}
    {key value : Node}
    {b : Nat}
    (hKey : Fits l.span.start [key] b)
    (hValue : Fits b [value] s.reach)
    (hNext : ∀ m ms s' span, s'.rest = m :: ms →
      ElixirReader.keywordAhead s'.rest = true →
        Proceeds (PairsLaid m span)
          (pairsFor expr context k span) s') :
    Proceeds (PairsLaid l span)
      (ElixirReader.pairsAfter expr context k
        (span.merge value.span) key value) s := by
  -- With no error the span is stretched to the end of the value.
  have hPair :
      ∀ c, c ≤ l.span.start → ¬ HasError [key, value] →
        Laid c [key, value] value.span.stop ∧
          c ≤ value.span.start ∧
          value.span.start ≤ value.span.stop ∧
          value.span.stop ≤ s.reach := by
    intro c hC hNone
    have hLaid := (Fits.cons hKey hValue) hNone
    rcases Laid.cons_iff_exists.mp hLaid with
      ⟨d, hFirst, hSecond⟩
    rcases Laid.singleton_iff.mp hSecond with
      ⟨hStart, hStop, hLaminar⟩
    have hBefore := hFirst.le
    have hLe := (Laid.cons_iff.mp hSecond).2.1
    refine ⟨?_, by omega, hLe, hStop⟩
    refine Laid.cons_iff_exists.mpr
      ⟨d, hFirst.mono hC (Nat.le_refl _), ?_⟩
    exact Laid.singleton_iff.mpr
      ⟨hStart, Nat.le_refl _, hLaminar⟩
  apply bind_rest
  cases hSeparator : pairSeparator? s.rest with
  | none =>
      apply pure
      intro c hC hSpan hInside hLast hNone
      rcases hPair c hC hNone with ⟨hLaid, hStart, hLe, hStop⟩
      simp only [Span.start_merge, Span.stop_merge]
      refine ⟨by omega, hLaid.mono (Nat.le_refl _) (by omega),
        by omega⟩
  | some m =>
      have hAhead := (take_of_pairSeparator? hSeparator).2.2.2
      apply (skip m).bind
      intro _ s₁ hEq hOnward _
      have hState : s.advance m = s₁ := congrArg Prod.snd hEq
      subst hState
      rcases exists_of_keywordAhead
          (s := s.advance m) hAhead with
        ⟨next, more, hRest, _⟩
      apply of_placed
      intro hPlaced
      have hStart := (took_of_cons hPlaced hRest).start
      have hGap := hOnward.reach
      apply (hNext next more (s.advance m) _ hRest hAhead).bind
      rintro ⟨pairs, last⟩ s₂ _ hOnward' hPairs
      have hGap' := hOnward'.reach
      apply pure
      intro c hC hSpan hInside hLast hNone
      have hSplit : pairNodes ((key, value) :: pairs, last) =
          [key, value] ++ pairNodes (pairs, last) := rfl
      rw [hSplit, hasError_append, not_or] at hNone
      rcases hPair c hC hNone.1 with ⟨hLaid, hFirst, hLe, hStop⟩
      have hMore := hPairs value.span.stop (by omega)
        (by rw [Span.start_merge]; omega)
        (by rw [Span.stop_merge]; omega)
        (by rw [Span.stop_merge]; omega) hNone.2
      rw [Span.start_merge] at hMore
      rw [hSplit]
      refine ⟨?_, Laid.append_iff.mpr ⟨_, hLaid, hMore.2.1⟩,
        hMore.2.2⟩
      have hSame := hMore.1
      simp only at hSame ⊢
      omega

theorem pairsFor
    (hExpr : Orderly expr)
    (span : Span)
    (hRest : s.rest = l :: ls)
    (hAhead : ElixirReader.keywordAhead s.rest = true) :
    Proceeds
      (fun r s' => PairsLaid l span r s' ∧
        (k ≠ 0 → l.span.stop ≤ s'.reach))
      (Parse.pairsFor expr context k span) s := by
  induction k generalizing s span l ls with
  | zero =>
      apply cutOff
      intro s' _
      refine ⟨?_, fun hNe => absurd rfl hNe⟩
      intro c _ _ hInside hLast _
      exact ⟨rfl, Laid.nil hInside, hLast⟩
  | succ k ih =>
      rw [pairsFor_succ]
      apply (keywordKey hExpr hRest hAhead).bind
      rintro (_ | key) s₁ _ _ ⟨hKey, hReach⟩
      · apply pure
        refine ⟨?_, fun _ => hReach⟩
        intro c _ _ hInside hLast _
        exact ⟨rfl, Laid.nil hInside, hLast⟩
      · apply skipLineEnds.bind
        intro _ s₂ _ hSkip _
        have hGap := hSkip.reach
        apply (hExpr 0 context s₂).bind
        intro value s₃ _ hTaken hValue
        have hGap' := hTaken.reach
        have hPairs : Proceeds (PairsLaid l span)
            (ElixirReader.pairsAfter expr context k
              (span.merge value.span) key value) s₃ := by
          apply pairsAfter (hKey.mono (Nat.le_refl _) hGap)
            hValue
          intro m ms s' span hRest' hAhead'
          exact (ih span hRest' hAhead').mono
            fun _ _ _ _ hBoth => hBoth.1
        apply hPairs.mono
        intro r s₄ _ hOnward hLaid
        have hGap'' := hOnward.reach
        exact ⟨hLaid, fun _ => by omega⟩

theorem keywords
    (hExpr : Orderly expr)
    (hAhead : ElixirReader.keywordAhead s.rest = true) :
    Proceeds (laid nodeOf s.reach) (Parse.keywords expr context)
      s := by
  rcases exists_of_keywordAhead hAhead with ⟨l, ls, hRest, _⟩
  apply of_placed
  intro hPlaced
  have hTook := took_of_cons hPlaced hRest
  apply bind_currentSpan_of_cons hRest
  apply bind_rest
  apply (pairsFor hExpr l.span hRest hAhead).bind
  rintro ⟨pairs, span⟩ s₁ _ _ ⟨hPairs, hReach⟩
  have hStretched := hPairs l.span.start (Nat.le_refl _)
    (Nat.le_refl _) hTook.le (hReach (Nat.succ_ne_zero _))
  have hHolds := hStretched.holds (Nat.le_refl _)
  apply pure
  exact Fits.mono (Holds.fits (f := .keywords pairs) hHolds rfl)
    hTook.start (Nat.le_refl _)

end Proceeds

end ElixirReader
