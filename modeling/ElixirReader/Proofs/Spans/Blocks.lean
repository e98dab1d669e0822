import ElixirReader.Proofs.Errors.Blocks
import ElixirReader.Proofs.Spans.Containers

/-
  This file follows places through the bodies of blocks. The
  guard of a clause is taken out of the operation that the
  head ends in, so the operation has to hold its operands in
  order.

  Key definitions include:
    * `SectionsLaid`

  Main declarations:
    * `Fits.splitGuard`
    * `Proceeds.clauseOrStatement`
    * `Proceeds.bodyFor`
    * `Proceeds.doBlock`
    * `Proceeds.fn`
-/

namespace ElixirReader

open Parse

variable {a k : Nat}
variable {l : Lexeme}
variable {ls : List Lexeme}
variable {s : ParseState}
variable {expr : ExpressionParser}
variable {stop : Kind → Bool}

------------------------------------------------------------
-- Heads of clauses
------------------------------------------------------------

/- The operands of a guarded head lie where the head does. -/
theorem Laid.splitGuard
    {head : List Node}
    {b : Nat}
    (hHead : Laid a head b) :
    Laid a
      ((Parse.splitGuard head).1 ++
        (Parse.splitGuard head).2.toList) b := by
  unfold Parse.splitGuard
  split
  · rename_i operator left right operatorSpan span hLast
    split
    · rcases List.getLast?_eq_some_iff.mp hLast with ⟨ns, rfl⟩
      rcases append_iff.mp hHead with ⟨c, hFront, hOperation⟩
      rcases singleton_iff.mp hOperation with
        ⟨hStart, hStop, hLaminar⟩
      have hOperands : Laid c [left, right] b :=
        (isLaminar_mk.mp hLaminar).mono hStart hStop
      simp only [List.dropLast_concat, Option.toList_some,
        List.append_assoc]
      exact append_iff.mpr ⟨c, hFront, hOperands⟩
    · simpa using hHead
  · simpa using hHead

theorem Fits.splitGuard
    {head : List Node}
    {b : Nat}
    (hHead : Fits a head b) :
    Fits a
      ((Parse.splitGuard head).1 ++
        (Parse.splitGuard head).2.toList) b := by
  intro hNone
  rw [hasError_splitGuard] at hNone
  exact (hHead hNone).splitGuard

/- A clause that has no body yet lies where its head does. -/
theorem Fits.clause
    {head : List Node}
    {guard : Option Node}
    {b : Nat}
    (hHead : Fits a (head ++ guard.toList) b)
    (arrow : Span) :
    Fits a (Clause.nodes ⟨head, guard, [], arrow⟩) b := by
  simpa [Clause.nodes] using hHead

theorem Fits.clause_of_containsError
    {e : Node}
    {b : Nat}
    (hError : e.containsError = true)
    (head : List Node)
    (guard : Option Node)
    (arrow : Span) :
    Fits a (Clause.nodes ⟨head ++ [e], guard, [], arrow⟩) b := by
  apply Fits.of_hasError
  simp [Clause.nodes, hError]

namespace Proceeds

theorem finishHead
    {head : List Node}
    {guard : Option Node}
    (hHead : Fits a (head ++ guard.toList) s.reach) :
    Proceeds (laid Clause.nodes a) (Parse.finishHead head guard)
      s := by
  unfold Parse.finishHead
  cases guard with
  | some g =>
      apply (expect (.operator .stab) .arrow).bind
      rintro (e | arrow) s₁ _ hOnward hFound
      · exact pure (Fits.clause_of_containsError hFound _ _ _)
      · exact pure ((Fits.clause hHead arrow.span).mono
          (Nat.le_refl a) hOnward.reach)
  | none =>
      have hBare : Fits a head s.reach := by
        simpa using hHead
      have hSplit := hBare.splitGuard
      rcases hPair : Parse.splitGuard head with ⟨front, guard⟩
      rw [hPair] at hSplit
      apply (expect (.operator .stab) .arrow).bind
      rintro (e | arrow) s₁ _ hOnward hFound
      · exact pure (Fits.clause_of_containsError hFound _ _ _)
      · exact pure ((Fits.clause hSplit arrow.span).mono
          (Nat.le_refl a) hOnward.reach)

theorem headGuard
    (hExpr : Orderly expr) :
    Proceeds (laid Option.toList s.reach)
      (Parse.headGuard expr) s := by
  apply (eat (.operator .whenWord)).bind
  intro word s₁ _ hWord _
  cases word with
  | none => exact pure (Fits.nil hWord.reach)
  | some _ =>
      apply skipLineEnds.bind
      intro _ s₂ _ hSkip _
      apply (hExpr _ .statement s₂).bind
      intro guard s₃ _ _ hGuard
      exact pure (Fits.mono hGuard (hWord.trans hSkip).reach
        (Nat.le_refl _))

theorem parenthesizedHead
    (hExpr : Orderly expr)
    (hRest : s.rest = l :: ls) :
    Proceeds (laid Clause.nodes s.reach)
      (Parse.parenthesizedHead expr) s := by
  apply (enclosed hExpr hRest .parenthesis).bind
  rintro ⟨head, span⟩ s₁ _ _ hHead
  apply (headGuard hExpr).bind
  intro guard s₂ _ _ hGuard
  exact finishHead ((Holds.inside hHead).append hGuard)

theorem headItemsFor
    (hExpr : Orderly expr) :
    Proceeds (laid nodesOf s.reach)
      (Parse.headItemsFor expr k) s := by
  induction k generalizing s with
  | zero =>
      exact cutOff fun s' hSame =>
        .nil (Nat.le_of_eq hSame.symm)
  | succ k ih =>
      apply (eat .comma).bind
      intro comma s₁ _ hComma _
      cases comma with
      | none => exact pure (Fits.nil hComma.reach)
      | some _ =>
          apply skipLineEnds.bind
          intro _ s₂ _ hSkip _
          have hGap := (hComma.trans hSkip).reach
          apply bind_rest
          split
          · rename_i hAhead
            apply (keywords hExpr hAhead).bind
            intro pairs s₃ _ _ hPairs
            exact pure (Fits.mono hPairs hGap (Nat.le_refl _))
          · apply (hExpr 0 .container s₂).bind
            intro item s₃ _ _ hItem
            apply ih.bind
            intro more s₄ _ _ hMore
            exact pure ((Fits.cons hItem hMore).mono hGap
              (Nat.le_refl _))

------------------------------------------------------------
-- Clauses and statements
------------------------------------------------------------

theorem openClauseOrStatement
    (hExpr : Orderly expr) :
    Proceeds (laid itemNodes s.reach)
      (Parse.openClauseOrStatement expr) s := by
  apply (hExpr 0 .statement s).bind
  intro first s₁ _ _ hFirst
  apply bind_isAt
  apply bind_isAt
  split
  · apply bind_rest
    apply (headItemsFor hExpr).bind
    intro more s₂ _ _ hMore
    have hHead : Fits s.reach
        ((first :: more) ++ (none : Option Node).toList)
        s₂.reach := by
      simpa using Fits.cons hFirst hMore
    apply (finishHead hHead).bind
    intro c s₃ _ _ hClause
    exact pure hClause
  · exact pure hFirst

theorem clauseOrStatement
    (hExpr : Orderly expr) :
    Proceeds (laid itemNodes s.reach)
      (Parse.clauseOrStatement expr) s := by
  apply (eat (.operator .stab)).bind
  intro arrow s₁ _ hStab _
  cases arrow with
  | some arrow => exact pure (Fits.nil hStab.reach)
  | none =>
      apply bind_rest
      apply bind_isAt
      split
      · rename_i hHead
        simp only [Bool.and_eq_true] at hHead
        rcases exists_of_isAt hHead.1 with ⟨l, ls, hRest, _⟩
        apply (parenthesizedHead hExpr hRest).bind
        intro c s₂ _ _ hClause
        exact pure (Fits.mono hClause hStab.reach
          (Nat.le_refl _))
      · apply (openClauseOrStatement hExpr).mono
        intro item s₂ _ _ hItem
        exact Fits.mono hItem hStab.reach (Nat.le_refl _)

------------------------------------------------------------
-- Bodies
------------------------------------------------------------

theorem checkFirstClause
    {c : Clause Node}
    (hClause : Fits a c.nodes s.reach)
    (expressions : List Node)
    (clauses : List (Clause Node)) :
    Proceeds (laid Clause.nodes a)
      (Parse.checkFirstClause expressions clauses c) s := by
  unfold Parse.checkFirstClause
  split
  · apply (failure _ c.arrow c.arrow).bind
    intro e s₁ _ _ hError
    apply pure
    apply Fits.of_hasError
    simp [Clause.nodes, hError]
  · exact pure hClause

/-
  The items of a body lie one behind the other. Where a first
  clause pushes out the expressions before it, what is left is
  still in order.
-/
theorem bodyFor
    (hExpr : Orderly expr)
    {expressions : List Node}
    {clauses : List (Clause Node)}
    (hBefore :
      Fits a (bodyOf expressions clauses).nodes s.reach)
    (hOffset : a ≤ s.reach) :
    Proceeds (laid Body.nodes a)
      (Parse.bodyFor expr stop k expressions clauses) s := by
  induction k generalizing s expressions clauses with
  | zero =>
      apply cutOff
      intro s' hSame
      exact hBefore.mono (Nat.le_refl a)
        (Nat.le_of_eq hSame.symm)
  | succ k ih =>
      apply skipSeparators.bind
      intro _ s₁ _ hSkip _
      have hSeen :
          Fits a (bodyOf expressions clauses).nodes s₁.reach :=
        hBefore.mono (Nat.le_refl a) hSkip.reach
      have hGap := hSkip.reach
      apply bind_peek
      split
      · exact pure hSeen
      · apply bind_rest
        apply (clauseOrStatement hExpr).bind
        rintro (c | node) s₂ _ hItem hLaid
        · have hClause : Fits s₁.reach c.nodes s₂.reach := hLaid
          apply (checkFirstClause hClause expressions
            clauses).bind
          intro c' s₃ _ hChecked hClause'
          apply (recover s₁.rest).bind
          intro _ s₄ _ hRecover _
          have hEnd := (hChecked.trans hRecover).reach
          have hLater := hItem.reach
          apply ih _ (by omega)
          have hNodes :
              (bodyOf expressions (clauses ++ [c'])).nodes =
                clauses.flatMap Clause.nodes ++ c'.nodes := by
            simp [bodyOf, Body.nodes]
          rw [hNodes]
          have hFront : Fits a (clauses.flatMap Clause.nodes)
              s₁.reach := by
            cases clauses with
            | nil => exact Fits.nil (by omega)
            | cons c cs => exact hSeen
          exact hFront.append
            (Fits.mono hClause' (Nat.le_refl _) hRecover.reach)
        · have hNode : Fits s₁.reach [node] s₂.reach := hLaid
          apply (finishStatement s₁.rest).bind
          intro trailing s₃ _ hFinish hTrailing
          have hWhole := Fits.withTrailing hNode hFinish.reach
            hTrailing
          have hLater := (hItem.trans hFinish).reach
          cases clauses with
          | nil => exact ih (hSeen.append hWhole) (by omega)
          | cons c cs =>
              have hNodes :
                  (bodyOf expressions (Clause.pushLast
                      (withTrailing node trailing)
                      (c :: cs))).nodes =
                    (c :: cs).flatMap Clause.nodes ++
                      [withTrailing node trailing] := by
                rw [← nodes_pushLast _ (List.cons_ne_nil c cs)]
                cases cs <;> rfl
              apply ih _ (by omega)
              rw [hNodes]
              exact hSeen.append hWhole

theorem body
    (hExpr : Orderly expr) :
    Proceeds (laid Body.nodes s.reach) (Parse.body expr stop)
      s := by
  apply bind_rest
  apply isolated
    (P := fun (b : Body Node) c => Fits s.reach b.nodes c)
  exact bodyFor hExpr (Fits.nil (Nat.le_refl _))
    (Nat.le_refl _)

end Proceeds

------------------------------------------------------------
-- Do blocks
------------------------------------------------------------

/- Sections lie behind an offset, up to the end of the block. -/
def SectionsLaid
    (a : Nat)
    (opened : Span)
    (r : List (Section Node) × Span)
    (s' : ParseState) : Prop :=
  Stretched a opened r.2 (sectionNodes r) s'.reach

namespace Proceeds

theorem unendedSection
    {b : Body Node}
    (opened : Span)
    (name : String)
    (hProper : b.IsProper) :
    Proceeds (SectionsLaid a opened)
      (Parse.unendedSection opened name b) s := by
  apply (failure _ opened opened).bind
  intro e s₁ _ _ hError
  apply bind_previousSpan
  apply pure
  intro hNone
  exfalso
  apply hNone
  simp [sectionNodes, Section.nodes, nodes_push e hProper,
    hError]

theorem sectionsFor
    (hExpr : Orderly expr)
    {opened : Span}
    (name : String)
    (hOpened : opened.start ≤ opened.stop)
    (hReach : opened.stop ≤ s.reach)
    (hBound : s.rest.length < k) :
    Proceeds (SectionsLaid s.reach opened)
      (Parse.sectionsFor expr opened k name) s := by
  induction k generalizing s name with
  | zero => omega
  | succ k ih =>
      rw [sectionsFor_succ]
      apply (body hExpr).bind
      intro b s₁ hEq hBody hNodes
      have hProper : b.IsProper := by
        have hAll :
            (Parse.body expr Kind.endsBlock s).1.IsProper :=
          isProper_body s
        rw [hEq] at hAll
        exact hAll
      have hLess := hBody.rest.length_le
      have hGap := hBody.reach
      apply bind_peek
      cases sectionCase s₁ with
      | unended hNext =>
          rw [sectionEnd_of_unended hNext]
          exact unendedSection opened name hProper
      | ended l ls hRest hKind =>
          rw [sectionEnd_of_ended hRest hKind]
          apply bind_skip_one hRest
          intro s₂ _ _ _ hTook
          have hStart := hTook.start
          have hStop := hTook.le
          have hPlace := hTook.reach_eq
          apply pure
          intro hNone
          have hOnly :
              sectionNodes ([⟨name, b⟩], opened.merge l.span) =
                b.nodes := by
            simp [sectionNodes, Section.nodes]
          rw [hOnly] at hNone ⊢
          have hLaid := hNodes hNone
          simp only [Span.start_merge, Span.stop_merge]
          refine ⟨by omega, ?_, by omega⟩
          exact hLaid.mono (Nat.le_refl _) (by omega)
      | further l ls hRest hKind hEnds =>
          rw [sectionEnd_of_further hRest hKind hEnds]
          apply bind_skip_one hRest
          intro s₂ hRest₂ _ hWord _
          have hLater := hWord.reach
          have hShorter : s₂.rest.length < k := by
            rw [hRest₂]
            rw [hRest, List.length_cons] at hLess
            omega
          apply (ih l.text (by omega) hShorter).bind
          rintro ⟨more, span⟩ s₃ _ _ hMore
          apply pure
          intro hNone
          have hSplit :
              sectionNodes (⟨name, b⟩ :: more, span) =
                b.nodes ++ sectionNodes (more, span) := rfl
          rw [hSplit, hasError_append, not_or] at hNone
          rcases hMore hNone.2 with ⟨hSame, hLaid, hEnd⟩
          rw [hSplit]
          refine ⟨hSame, ?_, hEnd⟩
          refine Laid.append_iff.mpr
            ⟨s₂.reach, ?_, hLaid⟩
          exact (hNodes hNone.1).mono (Nat.le_refl _) hLater

theorem doBlock
    (hExpr : Orderly expr)
    (hRest : s.rest = l :: ls) :
    Proceeds
      (fun b s' => Holds s.reach b.span b.nodes s'.reach)
      (Parse.doBlock expr) s := by
  apply bind_currentSpan_of_cons hRest
  apply bind_skip_one hRest
  intro s₁ _ _ _ hTook
  have hReach := hTook.reach_eq
  apply bind_rest
  apply (sectionsFor hExpr "do" hTook.le
    (Nat.le_of_eq hReach.symm) (Nat.lt_succ_self _)).bind
  rintro ⟨sections, span⟩ s₂ _ _ hSections
  apply pure
  have hOpened : l.span.start ≤ s₁.reach := by
    rw [hReach]
    exact hTook.le
  have hHolds := Stretched.holds hSections hOpened
  exact hHolds.mono hTook.start (Nat.le_refl _)

------------------------------------------------------------
-- Anonymous functions
------------------------------------------------------------

theorem fn
    (hExpr : Orderly expr)
    (hRest : s.rest = l :: ls) :
    Proceeds (laid nodeOf s.reach) (Parse.fn expr) s := by
  apply bind_currentSpan_of_cons hRest
  apply bind_skip_one hRest
  intro s₁ _ _ _ hTook
  apply (body hExpr).bind
  intro b s₂ hEq _ hBody
  have hProper : b.IsProper := by
    have hAll :
        (Parse.body expr (· == .word .end) s₁).1.IsProper :=
      isProper_body s₁
    rw [hEq] at hAll
    exact hAll
  have hItems : Fits l.span.stop (b.nodes ++ []) s₂.reach := by
    rw [← hTook.reach_eq, List.append_nil]
    exact hBody
  apply (close .blockEnd b.nodes hTook.le hItems).bind
  rintro ⟨trailing, span⟩ s₃ _ _ hHeld
  have hFold := nodes_foldl_push trailing hProper
  simp only
  cases hAll : trailing.foldl (fun b e => b.push e) b with
  | expressions ns => exact laid_of_containsError (failure _ _ _)
  | clauses cs =>
      rw [hAll] at hFold
      have hNodes : (Form.fn cs).nodes = b.nodes ++ trailing :=
        hFold
      apply pure
      apply Holds.fits _ rfl
      rw [hNodes]
      exact Holds.mono hHeld hTook.start (Nat.le_refl _)

end Proceeds

end ElixirReader
