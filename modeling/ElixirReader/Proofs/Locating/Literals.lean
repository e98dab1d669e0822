import ElixirReader.Proofs.Building.Constructs
import ElixirReader.Proofs.Locating.Noting

/-
  This file follows spans through literals: numbers, texts,
  sigils, characters, atoms, and the pairs of keywords. A
  literal starts at its first lexeme, so an error in it is not
  noted behind that.

  Main declarations:
    * `Locates.number`
    * `Locates.text`
    * `Locates.sigil`
    * `Locates.atom`
    * `Locates.keywords`
-/

namespace ElixirReader

open Parse

variable {P : Span → Prop}
variable {s : ParseState}
variable {expr : ExpressionParser}
variable {context : Context}

/- A merged span does not start behind its first part. -/
theorem Span.start_merge_le
    (x y : Span) :
    (x.merge y).start ≤ x.start := by
  rw [start_merge]
  exact Nat.min_le_left _ _

/- Nor before it, if the other part starts later. -/
theorem ParseState.Admits.merge
    {x y : Span}
    (hAdmits : s.Admits x)
    (hLater : x.start ≤ y.start) :
    s.Admits (x.merge y) := by
  have hStart : (x.merge y).start = x.start := by
    rw [Span.start_merge]
    exact Nat.min_eq_left hLater
  unfold Admits
  rw [hStart]
  exact hAdmits

namespace Locates

------------------------------------------------------------
-- Numbers
------------------------------------------------------------

section Leaves

variable [Merges P]

/- The span of a number goes from its first to its last digits. -/
theorem coveringSpan
    {l : Lexeme}
    {ls : List Lexeme}
    (hAll : ∀ m ∈ l :: ls, P m.span)
    (hSorted : ∀ m ∈ ls, l.span.start ≤ m.span.start) :
    P (Parse.coveringSpan l ls) ∧
      ∀ s : ParseState, s.Admits l.span →
        s.Admits (Parse.coveringSpan l ls) := by
  unfold Parse.coveringSpan
  cases hLast : ls.getLast? with
  | none =>
      have hSpan := hAll l List.mem_cons_self
      exact ⟨Merges.merge hSpan hSpan,
        fun _ hAdmits => hAdmits.merge (Nat.le_refl _)⟩
  | some m =>
      have hMem := List.mem_of_getLast? hLast
      exact ⟨Merges.merge (hAll l List.mem_cons_self)
          (hAll m (List.mem_cons_of_mem _ hMem)),
        fun _ hAdmits => hAdmits.merge (hSorted m hMem)⟩

theorem number :
    Locates P (fun n _ => Located P n) Parse.number s := by
  apply of_inOrder
  intro hOrder
  apply bind_rest
  have hTake := (numberParts_eq_take s.rest).1
  cases hParts : numberParts s.rest with
  | nil => exact (errorNode _).mono fun _ _ hE => hE.1
  | cons l ls =>
      rw [hParts] at hTake
      have hSub : (l :: ls).Sublist s.rest :=
        hTake ▸ List.take_sublist _ _
      obtain ⟨hSpan, hCovers⟩ := coveringSpan
        (fun m hM => hOrder.rest m (hSub.subset hM))
        (List.pairwise_cons.mp (hOrder.sorted.sublist hSub)).1
      have hHead : s.rest.head? = some l := by
        unfold numberParts at hParts
        split at hParts
        · cases hParts
        · rename_i hRest
          split at hParts
          · cases hParts
            rw [hRest]
            rfl
          · cases hParts
      have hEq : s.currentSpan = l.span := by
        simp [ParseState.currentSpan, hHead]
      have hAdmits := hCovers s (hEq ▸ hOrder.admits_currentSpan)
      apply bind_skip
      intro s₁ _ hStill
      dsimp only
      split
      · apply poison.bind
        intro _ s₂ _ _
        exact pure (located_failure _ hSpan)
      · split
        · rename_i form hForm
          apply pure
          rcases numberForm?_cases hForm with ⟨_, rfl⟩ | ⟨_, rfl⟩
          · exact .mk hSpan rfl allThroughout_nil
          · exact .mk hSpan rfl allThroughout_nil
        · exact (failure hSpan hSpan (.inl (hStill _ hAdmits))).mono
            fun _ _ hE => hE.1

theorem character :
    Locates P (fun n _ => Located P n) Parse.character s := by
  apply bind_currentSpan
  intro hMark hAdmits
  apply bind_skip
  intro s₁ hFront hStill
  apply bind_peek
  · exact (wantedNode _).mono fun _ _ hE => hE.1
  · intro l hSpan _ hHead
    have hMerged := Merges.merge hMark hSpan
    have hLater : s.currentSpan.start ≤ l.span.start := by
      rw [← ParseState.front_of_head? hHead]
      exact hFront
    dsimp only
    split
    · apply bind_skip
      intro s₂ _ hStill'
      have hAdmits' := (hStill' _ (hStill _ hAdmits)).merge hLater
      unfold characterValue
      split
      · exact pure (.mk hMerged rfl allThroughout_nil)
      · exact (failure hMerged hMerged (.inl hAdmits')).mono
          fun _ _ hE => hE.1
    · exact (wantedNode _).mono fun _ _ hE => hE.1

end Leaves

------------------------------------------------------------
-- Texts
------------------------------------------------------------

section Texts

variable [Merges P]
variable (hExpr : ∀ precedence context s,
  Locates P (fun n _ => Located P n) (expr precedence context) s)

omit [Merges P] in
theorem heredocStart :
    Locates P whatever Parse.heredocStart s := by
  apply bind_rest
  dsimp only
  split
  · apply poison.bind
    intro _ s₁ _ _
    exact skip _
  · exact skip _

theorem interpolationEnd
    {opened : Span}
    (hOpened : P opened) :
    Locates P (fun x _ => P x) (Parse.interpolationEnd opened) s := by
  apply (eat _).bind
  intro found s₁ _ hFound
  cases found with
  | some l => exact pure (Merges.merge hOpened (hFound l rfl).1)
  | none =>
      apply poison.bind
      intro _ s₂ _ _
      apply bind_previousSpan
      intro x hX
      exact pure (Merges.merge hOpened hX)

include hExpr

theorem interpolation
    {opened : Span}
    (hOpened : P opened) :
    Locates P (fun n _ => Located P n)
      (Parse.interpolation expr opened) s := by
  apply (skip 1).bind
  intro _ s₁ _ _
  apply (statementList hExpr).bind
  intro nodes s₂ _ hNodes
  apply (interpolationEnd hOpened).bind
  intro span s₃ _ hSpan
  exact pure (.mk hSpan rfl hNodes)

/- What is read of a literal only stretches its span. -/
theorem segmentsFor
    {span : Span}
    (n : Nat)
    (hSpan : P span) :
    Locates P
      (fun i _ => AllLocated P (insideNodes i) ∧ P i.span ∧
        i.span.start ≤ span.start)
      (Parse.segmentsFor expr n span) s := by
  induction n generalizing span s with
  | zero =>
      apply cutOff.bind
      intro _ s₁ _ _
      exact pure ⟨allThroughout_nil, hSpan, Nat.le_refl _⟩
  | succ n ih =>
      apply bind_peek
      · exact pure ⟨allThroughout_nil, hSpan, Nat.le_refl _⟩
      · intro l hL _ _
        dsimp only
        split
        · rename_i segment hPlain
          apply (skip 1).bind
          intro _ s₁ _ _
          apply (ih (Merges.merge hSpan hL)).bind
          rintro i s₂ _ ⟨hNodes, hInside, hStart⟩
          refine pure ⟨?_, hInside,
            Nat.le_trans hStart (Span.start_merge_le _ _)⟩
          change AllLocated P (segment.nodes ++ insideNodes i)
          rw [nodes_plainSegment? hPlain]
          exact hNodes
        · split
          · apply (interpolation hExpr hL).bind
            intro node s₁ _ hNode
            apply (ih (Merges.merge hSpan hNode.span)).bind
            rintro i s₂ _ ⟨hNodes, hInside, hStart⟩
            refine pure ⟨?_, hInside,
              Nat.le_trans hStart (Span.start_merge_le _ _)⟩
            change AllLocated P ([node] ++ insideNodes i)
            simpa [hNode] using hNodes
          · split
            · apply (skip 1).bind
              intro _ s₁ _ _
              exact pure ⟨allThroughout_nil, Merges.merge hSpan hL,
                Span.start_merge_le _ _⟩
            · exact pure ⟨allThroughout_nil, hSpan, Nat.le_refl _⟩

/- A text starts at its promoter. -/
theorem text :
    Locates P
      (fun t s' => AllLocated P (textNodes t) ∧ P t.2 ∧
        t.2.start ≤ s'.front)
      (Parse.text expr) s := by
  apply bind_currentSpan
  intro hStart hAdmits
  have hBody (kind : TextKind) (heredoc : Bool) (s₁ : ParseState)
      (hFront : s.front ≤ s₁.front) :
      Locates P
        (fun t s' => AllLocated P (textNodes t) ∧ P t.2 ∧
          t.2.start ≤ s'.front)
        (do
          let i ← Parse.segmentsFor expr
            ((← Parse.rest).length + 1) s.currentSpan
          if !i.closed then
            Parse.poison
          return textOf kind heredoc i) s₁ := by
    apply bind_rest
    apply (segmentsFor hExpr _ hStart).bind
    rintro i s₂ hFront' ⟨hNodes, hSpan, hLe⟩
    have hText (s₃ : ParseState) (hFront'' : s₂.front ≤ s₃.front) :
        AllLocated P (textNodes (textOf kind heredoc i)) ∧
          P (textOf kind heredoc i).2 ∧
          (textOf kind heredoc i).2.start ≤ s₃.front := by
      rw [textNodes_textOf]
      refine ⟨hNodes, hSpan, ?_⟩
      exact Nat.le_trans hLe (Nat.le_trans hAdmits.1
        (Nat.le_trans hFront (Nat.le_trans hFront' hFront'')))
    cases i.closed with
    | false =>
        apply poison.bind
        intro _ s₃ hFront'' _
        exact pure (hText s₃ hFront'')
    | true => exact pure (hText s₂ (Nat.le_refl _))
  apply bind_peek_any
  intro next
  rcases promoterText next with ⟨kind, _ | _⟩
  · apply (skip 1).bind
    intro _ s₁ hFront _
    exact hBody kind false s₁ hFront
  · apply (skip 1).bind
    intro _ s₁ hFront _
    apply heredocStart.bind
    intro _ s₂ hFront' _
    exact hBody kind true s₂ (Nat.le_trans hFront hFront')

theorem textNode :
    Locates P (fun n _ => Located P n) (Parse.textNode expr) s := by
  apply (text hExpr).bind
  rintro ⟨t, span⟩ s₁ _ ⟨hNodes, hSpan, _⟩
  exact pure (.mk hSpan rfl hNodes)

omit hExpr in
theorem sigilModifiers
    {span : Span}
    (hSpan : P span) :
    Locates P (fun r _ => P r.2) (Parse.sigilModifiers span) s := by
  apply bind_peek
  · exact pure hSpan
  · intro l hL _ _
    dsimp only
    split
    · apply (skip 1).bind
      intro _ s₁ _ _
      exact pure (Merges.merge hSpan hL)
    · exact pure hSpan

theorem sigilBody
    {tilde : Span}
    (name : String)
    (hTilde : P tilde) :
    Locates P (fun n _ => Located P n)
      (Parse.sigilBody expr tilde name) s := by
  apply bind_peek
  · exact (wantedNode _).mono fun _ _ hE => hE.1
  · intro l _ _ _
    split
    · apply (text hExpr).bind
      rintro ⟨t, body⟩ s₁ _ ⟨hNodes, hBody, _⟩
      apply (sigilModifiers (Merges.merge hTilde hBody)).bind
      rintro ⟨modifiers, span⟩ s₂ _ hSpan
      exact pure (.mk hSpan rfl hNodes)
    · exact (wantedNode _).mono fun _ _ hE => hE.1

theorem sigil :
    Locates P (fun n _ => Located P n) (Parse.sigil expr) s := by
  apply bind_currentSpan
  intro hTilde _
  apply (skip 1).bind
  intro _ s₁ _ _
  apply bind_peek
  · exact (wantedNode _).mono fun _ _ hE => hE.1
  · intro l _ _ _
    dsimp only
    split
    · apply (skip 1).bind
      intro _ s₂ _ _
      exact sigilBody hExpr l.text hTilde
    · exact (wantedNode _).mono fun _ _ hE => hE.1

theorem atom :
    Locates P (fun n _ => Located P n) (Parse.atom expr) s := by
  apply bind_currentSpan
  intro hColon _
  apply (skip 1).bind
  intro _ s₁ _ _
  apply bind_peek
  · exact (wantedNode _).mono fun _ _ hE => hE.1
  · intro l hL _ _
    dsimp only
    split
    · apply (skip 1).bind
      intro _ s₂ _ _
      exact pure (.mk (Merges.merge hColon hL) rfl allThroughout_nil)
    · split
      · apply (text hExpr).bind
        rintro ⟨t, span⟩ s₂ _ ⟨hNodes, hSpan, _⟩
        exact pure (.mk (Merges.merge hColon hSpan) rfl hNodes)
      · exact (wantedNode _).mono fun _ _ hE => hE.1

------------------------------------------------------------
-- Keyword pairs
------------------------------------------------------------

omit hExpr in
theorem bareKey
    {l : Lexeme}
    (hL : P l.span) :
    Locates P (fun n _ => Located P n) (Parse.bareKey l) s := by
  apply (skip 1).bind
  intro _ s₁ _ _
  apply (eat .colon).bind
  intro colon s₂ _ hColon
  cases colon with
  | some m =>
      exact pure (.mk (Merges.merge hL (hColon m rfl).1) rfl
        allThroughout_nil)
  | none => exact pure (.mk hL rfl allThroughout_nil)

theorem quotedKey :
    Locates P (located P Option.toList) (Parse.quotedKey expr) s := by
  apply (text hExpr).bind
  rintro ⟨t, span⟩ s₁ _ ⟨hNodes, hSpan, _⟩
  apply (expect .colon .keyColon).bind
  rintro (e | colon) s₂ _ hFound
  · exact pure allThroughout_nil
  · have hKey : Located P ⟨.quotedAtom t, span.merge colon.span⟩ :=
      .mk (Merges.merge hSpan hFound.1) rfl hNodes
    exact pure (by simpa [located] using hKey)

theorem keywordKey :
    Locates P (located P Option.toList) (Parse.keywordKey expr) s := by
  apply bind_peek
  · exact pure allThroughout_nil
  · intro l hL hAdmits _
    dsimp only
    split
    · apply (bareKey hL).bind
      intro key s₁ _ hKey
      exact pure (by simpa [located] using hKey)
    · apply bind_rest
      split
      · exact quotedKey hExpr
      · apply (report _ hL hAdmits).bind
        intro _ s₁ _ _
        exact pure allThroughout_nil

theorem pairsFor
    {span : Span}
    (n : Nat)
    (hSpan : P span) :
    Locates P (fun r _ => AllLocated P (pairNodes r) ∧ P r.2)
      (Parse.pairsFor expr context n span) s := by
  induction n generalizing span s with
  | zero =>
      apply cutOff.bind
      intro _ s₁ _ _
      exact pure ⟨allThroughout_nil, hSpan⟩
  | succ n ih =>
      apply (keywordKey hExpr).bind
      intro key s₁ _ hKey
      cases key with
      | none => exact pure ⟨allThroughout_nil, hSpan⟩
      | some key =>
          have hKey : Located P key := hKey key List.mem_cons_self
          apply skipLineEnds.bind
          intro _ s₂ _ _
          apply (hExpr 0 context s₂).bind
          intro value s₃ _ hValue
          have hMerged := Merges.merge hSpan hValue.span
          apply bind_rest
          dsimp only
          split
          · exact pure ⟨by simp [pairNodes, hKey, hValue], hMerged⟩
          · apply (skip _).bind
            intro _ s₄ _ _
            apply (ih hMerged).bind
            rintro ⟨pairs, last⟩ s₅ _ ⟨hPairs, hLast⟩
            refine pure ⟨?_, hLast⟩
            change AllLocated P ([key, value] ++ pairNodes (pairs, last))
            simpa [hKey, hValue] using hPairs

theorem keywords :
    Locates P (fun n _ => Located P n)
      (Parse.keywords expr context) s := by
  apply bind_currentSpan
  intro hStart _
  apply bind_rest
  apply (pairsFor hExpr _ hStart).bind
  rintro ⟨pairs, span⟩ s₁ _ ⟨hPairs, hSpan⟩
  exact pure (.mk hSpan rfl hPairs)

end Texts

end Locates

end ElixirReader
