import ElixirReader.Proofs.Diagnosis.Texts

/-
  This file follows fair errors through numbers, sigils,
  characters, atoms, and the pairs of keywords. A number takes
  all the digits that touch it, so faulty digits are never left
  for another complaint.

  Key definitions include:
    * `keyed`

  Main declarations:
    * `Watches.number`
    * `Watches.sigil`
    * `Watches.character`
    * `Watches.atom`
    * `Watches.keywords`
-/

namespace ElixirReader

open Parse

variable {all ms : List Lexeme}
variable {l : Lexeme}
variable {k : Nat}
variable {s : ParseState}
variable {expr : ExpressionParser}
variable {context : Context}

------------------------------------------------------------
-- Numbers
------------------------------------------------------------

/- What follows a number is not a part that touches it. -/
theorem not_touches_of_numberParts
    {ls ns : List Lexeme}
    {m : Lexeme}
    (hParts : numberParts ls = l :: ms)
    (hRest : ls.drop (ms.length + 1) = m :: ns) :
    (m.kind.isNumberPart && !m.spaced) = false := by
  cases ls with
  | nil => cases hParts
  | cons first ls =>
      simp only [numberParts] at hParts
      split at hParts
      · rcases List.cons.inj hParts with ⟨_, rfl⟩
        generalize hTouches : (fun l' : Lexeme =>
          l'.kind.isNumberPart && !l'.spaced) = touches at hRest
        have hSplit := List.takeWhile_append_dropWhile
          (p := touches) (l := ls)
        rw [List.drop_succ_cons] at hRest
        nth_rewrite 2 [← hSplit] at hRest
        rw [List.drop_left] at hRest
        have hHead := List.head?_dropWhile_not touches ls
        rw [hRest, ← hTouches] at hHead
        simpa using hHead
      · cases hParts

/- The last of the lexemes that a number takes. -/
theorem exists_last_of_numberParts
    (hWatched : Watched all s)
    (hParts : numberParts s.rest = l :: ms) :
    ∃ p ∈ l :: ms,
      p.kind.isNumberPart = true ∧
        Behind all p (s.rest.drop (ms.length + 1)) := by
  have hTake := (numberParts_eq_take s.rest).1
  rw [hParts, List.length_cons] at hTake
  have hSplit :=
    List.take_append_drop (ms.length + 1) s.rest
  rw [← hTake] at hSplit
  cases hLast : (l :: ms).getLast? with
  | none => cases List.getLast?_eq_none_iff.mp hLast
  | some p =>
      rcases List.getLast?_eq_some_iff.mp hLast with
        ⟨front, hFront⟩
      refine ⟨p, List.mem_of_getLast? hLast, ?_, ?_⟩
      · have hMem : p ∈ numberParts s.rest := by
          rw [hParts]
          exact List.mem_of_getLast? hLast
        exact isNumberPart_of_mem_numberParts hMem
      · rw [hFront, List.append_assoc] at hSplit
        exact @Watched.behind_advance all p s _ front hWatched
          hSplit.symm

/- Behind a number in order anything may be expected. -/
theorem settled_of_numberParts
    (hWatched : Watched all s)
    (hParts : numberParts s.rest = l :: ms)
    (hClean : ¬ (l :: ms).any (·.kind.isFaulty) = true) :
    Settled all (s.rest.drop (ms.length + 1)) := by
  rcases exists_last_of_numberParts hWatched hParts with
    ⟨p, hMem, hPart, hBehind⟩
  have hOrder : p.kind.isFaulty = false := by
    rw [Bool.eq_false_iff]
    exact fun hFaulty =>
      hClean (List.any_eq_true.mpr ⟨p, hMem, hFaulty⟩)
  rcases hBehind.split with ⟨front, hSplit⟩
  refine ⟨⟨?_, ?_⟩, ?_⟩
  · intro m ns hRest
    rw [Bool.eq_false_iff]
    intro hBad
    have hTouches := not_touches_of_numberParts hParts hRest
    have hNumbered := hBehind.scanned.numbered
    rw [hSplit, hRest, ← List.singleton_append,
      ← List.append_assoc] at hNumbered
    rw [Kind.isNumberPart_of_isBadNumber hBad,
      (hNumbered.exists_before hBad).1] at hTouches
    cases hTouches
  · intro hNil m hLast
    rw [hSplit, hNil, List.getLast?_concat] at hLast
    cases hLast
    exact hOrder
  · intro m ns _ _
    refine ⟨front, p, hSplit, ?_⟩
    generalize p.kind = kind at hPart
    cases kind <;> first | rfl | cases hPart

theorem Kind.isApart_of_settles
    {k : Kind}
    (hSettles : k.settles = true) :
    k.isApart = true := by
  unfold Kind.settles at hSettles
  simp only [Bool.and_eq_true] at hSettles
  exact hSettles.1

/- A key that is there, or an error that was noted. -/
def keyed
    (all : List Lexeme) : Option Node → ParseState → Prop
| some _, s' => Live s' → Ready all s'.rest
| none, s' => s'.poisoned = true

namespace Watches

theorem number
    (hRest : s.rest = l :: ms)
    (hPart : l.kind.isNumberPart = true) :
    Watches all (reaches (Settled all)) Parse.number s := by
  apply bind_rest
  cases hParts : numberParts s.rest with
  | nil =>
      rw [hRest] at hParts
      simp [numberParts, hPart] at hParts
  | cons first more =>
      apply of_watched
      intro hWatched
      apply bind_skip
      simp only
      split
      · exact reaches_of_noted (poison.bind fun _ _ => pure)
      · rename_i hClean
        cases numberForm? (first :: more) with
        | some form =>
            apply pure
            exact fun _ =>
              settled_of_numberParts hWatched hParts hClean
        | none =>
            apply reaches_of_noted
            apply failure_of_covers
            apply Covers.merge
            have hTake := (numberParts_eq_take s.rest).1
            have hMem : first ∈ numberParts s.rest := by
              rw [hParts]
              exact List.mem_cons_self
            rw [hTake] at hMem
            refine .of_mem
              (hWatched.rest.mem (List.mem_of_mem_take hMem)) ?_
            rw [Bool.eq_false_iff]
            intro hFaulty
            apply hClean
            rw [List.any_cons, hFaulty, Bool.true_or]

------------------------------------------------------------
-- Sigils
------------------------------------------------------------

/- A complaint where anything may be expected. -/
theorem reaches_wantedNode
    {place : List Lexeme → Prop}
    (wanted : Wanted)
    (hSettled : Live s → Settled all s.rest) :
    Watches all (reaches place) (Parse.wantedNode wanted) s :=
  reaches_of_noted (wantedNode wanted hSettled)

theorem sigilModifiers
    (span : Span)
    (hSettled : Live s → Settled all s.rest) :
    Watches all (reaches (Settled all))
      (Parse.sigilModifiers span) s := by
  apply bind_peek
  cases hRest : s.rest with
  | nil => exact pure hSettled
  | cons l ms =>
      simp only [List.head?_cons]
      split
      · rename_i hKind
        apply bind_skip_one hRest
        intro s₁ _ hBehind
        apply pure
        intro _
        apply hBehind.settled
        rw [hKind.1]
        rfl
      · exact pure hSettled

theorem sigilBody
    (hExpr : Careful all expr)
    (tilde : Span)
    (name : String)
    (hSettled : Live s → Settled all s.rest) :
    Watches all (reaches (Settled all))
      (Parse.sigilBody expr tilde name) s := by
  apply bind_peek
  split
  · rename_i hPromoter
    rcases exists_of_head?_any hPromoter with
      ⟨l, ms, hRest, hKind⟩
    have hApart : l.kind.isApart = true := by
      generalize l.kind = kind at hKind
      cases kind <;> first | rfl | cases hKind
    apply (text hExpr hRest hApart).bind
    rintro ⟨t, body⟩ s₁ ⟨_, hText⟩
    apply (sigilModifiers _ hText).bind
    intro modifiers s₂ hEnd
    exact pure hEnd
  · exact reaches_wantedNode _ hSettled

theorem sigil
    (hExpr : Careful all expr)
    (hRest : s.rest = l :: ms)
    (hSettles : l.kind.settles = true) :
    Watches all (reaches (Settled all)) (Parse.sigil expr) s := by
  apply bind_currentSpan_of_cons hRest
  apply bind_skip_one hRest
  intro s₁ _ hBehind
  have hSettled : Live s₁ → Settled all s₁.rest :=
    fun _ => hBehind.settled hSettles
  apply bind_peek
  cases hNext : s₁.rest with
  | nil => exact reaches_wantedNode _ hSettled
  | cons m ns =>
      simp only [List.head?_cons]
      split
      · rename_i hKind
        apply bind_skip_one hNext
        intro s₂ _ hBehind₂
        apply sigilBody hExpr
        intro _
        apply hBehind₂.settled
        generalize m.kind = kind at hKind
        cases kind <;> first | rfl | cases hKind
      · exact reaches_wantedNode _ hSettled

------------------------------------------------------------
-- Characters and atoms
------------------------------------------------------------

theorem character
    (hRest : s.rest = l :: ms)
    (hSettles : l.kind.settles = true) :
    Watches all (reaches (Settled all)) Parse.character s := by
  apply bind_currentSpan_of_cons hRest
  apply bind_skip_one hRest
  intro s₁ _ hBehind
  have hSettled : Live s₁ → Settled all s₁.rest :=
    fun _ => hBehind.settled hSettles
  have hMark := hBehind.covers (Kind.isApart_of_settles hSettles)
  apply bind_peek
  cases hNext : s₁.rest with
  | nil => exact reaches_wantedNode _ hSettled
  | cons m ns =>
      simp only [List.head?_cons]
      split
      · rename_i hKind
        apply bind_skip_one hNext
        intro s₂ _ hBehind₂
        unfold Parse.characterValue
        split
        · apply pure
          intro _
          apply hBehind₂.settled
          rw [hKind.1]
          rfl
        · apply reaches_of_noted
          exact failure_of_covers _ _ (hMark.merge m.span)
      · exact reaches_wantedNode _ hSettled

theorem isApart_of_isQuotePromoter
    {kind : Kind}
    (hKind : isQuotePromoter kind = true) :
    kind.isApart = true := by
  cases kind <;> first | rfl | cases hKind

theorem atom
    (hExpr : Careful all expr)
    (hRest : s.rest = l :: ms)
    (hSettles : l.kind.settles = true) :
    Watches all (reaches (Settled all)) (Parse.atom expr) s := by
  apply bind_currentSpan_of_cons hRest
  apply bind_skip_one hRest
  intro s₁ _ hBehind
  have hSettled : Live s₁ → Settled all s₁.rest :=
    fun _ => hBehind.settled hSettles
  apply bind_peek
  cases hNext : s₁.rest with
  | nil => exact reaches_wantedNode _ hSettled
  | cons m ns =>
      simp only [List.head?_cons]
      split
      · rename_i hKind
        apply bind_skip_one hNext
        intro s₂ _ hBehind₂
        apply pure
        intro _
        apply hBehind₂.settled
        rw [hKind.1]
        rfl
      · split
        · rename_i hKind
          apply (text hExpr hNext
            (isApart_of_isQuotePromoter hKind.1)).bind
          rintro ⟨t, span⟩ s₂ ⟨_, hText⟩
          exact pure hText
        · exact reaches_wantedNode _ hSettled

------------------------------------------------------------
-- Keyword pairs
------------------------------------------------------------

theorem bareKey
    (hRest : s.rest = l :: ms)
    (hApart : l.kind.isApart = true) :
    Watches all (reaches (Ready all)) (Parse.bareKey l) s := by
  apply bind_skip_one hRest
  intro s₁ _ hBehind
  apply bind_eat
  · intro colon s₂ hKind hBehind₂
    apply pure
    intro _
    apply hBehind₂.ready
    rw [hKind]
    rfl
  · intro _
    exact pure fun _ => hBehind.ready hApart

theorem quotedKey
    (hExpr : Careful all expr)
    (hRest : s.rest = l :: ms)
    (hApart : l.kind.isApart = true) :
    Watches all (keyed all) (Parse.quotedKey expr) s := by
  apply (text hExpr hRest hApart).bind
  rintro ⟨t, span⟩ s₁ ⟨_, hText⟩
  apply (expect .colon .keyColon hText).bind
  rintro (e | colon) s₂ hFound
  · exact pure hFound
  · apply pure
    intro _
    apply hFound.2.ready
    rw [hFound.1]
    rfl

theorem keywordKey
    (hExpr : Careful all expr)
    (hAhead : keywordAhead s.rest = true) :
    Watches all (keyed all) (Parse.keywordKey expr) s := by
  rcases exists_of_keywordAhead hAhead with
    ⟨l, ms, hRest, hKind⟩
  have hApart : l.kind.isApart = true := by
    rcases hKind with hKind | ⟨f, hKind, _⟩ <;>
      (rw [hKind]; rfl)
  apply bind_peek
  rw [hRest]
  simp only [List.head?_cons]
  split
  · apply (bareKey hRest hApart).bind
    intro key s₁ hReady
    exact pure hReady
  · apply bind_rest
    rw [if_pos hAhead]
    exact quotedKey hExpr hRest hApart

theorem pairsAfter
    (span : Span)
    (key value : Node)
    (hSettled : Live s → Settled all s.rest)
    (hNext : ∀ s' span, keywordAhead s'.rest = true →
      Watches all (reaches (Settled all))
        (pairsFor expr context k span) s') :
    Watches all (reaches (Settled all))
      (ElixirReader.pairsAfter expr context k span key value)
      s := by
  apply bind_rest
  cases hSeparator : pairSeparator? s.rest with
  | none => exact pure hSettled
  | some m =>
      have hAhead := (take_of_pairSeparator? hSeparator).2.2.2
      apply bind_skip m
      apply (hNext (s.advance m) span hAhead).bind
      intro pairs s₁ hEnd
      exact pure hEnd

theorem pairsFor
    (hExpr : Careful all expr)
    (span : Span)
    (hAhead : keywordAhead s.rest = true) :
    Watches all (reaches (Settled all))
      (Parse.pairsFor expr context k span) s := by
  induction k generalizing s span with
  | zero => exact reaches_cutOff
  | succ k ih =>
      rw [pairsFor_succ]
      apply (keywordKey hExpr hAhead).bind
      rintro (_ | key) s₁ hKey
      · exact reaches_of_noted (pure hKey)
      · apply (skipLineEnds_ready hKey).bind
        intro _ s₂ hReady
        apply (hExpr 0 context s₂ hReady).bind
        intro value s₃ hSettled
        exact pairsAfter _ key value hSettled
          fun s' span hMore => ih span hMore

theorem keywords
    (hExpr : Careful all expr)
    (hAhead : keywordAhead s.rest = true) :
    Watches all (reaches (Settled all))
      (Parse.keywords expr context) s := by
  apply bind_currentSpan
  apply bind_rest
  apply (pairsFor hExpr _ hAhead).bind
  rintro ⟨pairs, span⟩ s₁ hEnd
  exact pure hEnd

end Watches

end ElixirReader
