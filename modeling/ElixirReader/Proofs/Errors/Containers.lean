import ElixirReader.Proofs.Errors.Literals
import ElixirReader.Proofs.Parser.Containers

/-
  This file follows errors through what stands between
  brackets: elements, statements in parentheses, maps and
  structs. What stands in for a missing bracket is put behind
  the elements.

  Key definitions include:
    * `nodesWithSpan`
    * `eitherNode`

  Main declarations:
    * `Reads.enclosed`
    * `Reads.parenthesized`
    * `Reads.mapBody`
    * `Reads.structOrMap`
-/

namespace ElixirReader

open Parse

variable {n k : Nat}
variable {l : Lexeme}
variable {ls : List Lexeme}
variable {s : ParseState}
variable {expr : ExpressionParser}
variable {context : Context}

------------------------------------------------------------
-- Views
------------------------------------------------------------

/- Trees that come with the span of all of them. -/
def nodesWithSpan
    (r : List Node × Span) : List Node :=
  r.1

/- The tree that was read, or that stands in for it. -/
def eitherNode : Except Node Node → List Node
| .ok n => [n]
| .error e => [e]

@[simp] theorem nodesWithSpan_mk
    (ns : List Node)
    (span : Span) :
    nodesWithSpan (ns, span) = ns :=
  rfl

/- A lexeme of a kind comes next if one is seen there. -/
theorem exists_of_isAt
    {kind : Kind}
    (hAt : s.rest.head?.any (·.kind == kind) = true) :
    ∃ l ls, s.rest = l :: ls ∧ l.kind = kind := by
  rcases exists_of_head?_any hAt with ⟨l, ls, hRest, hKind⟩
  exact ⟨l, ls, hRest, eq_of_beq hKind⟩

namespace Reads

------------------------------------------------------------
-- Elements
------------------------------------------------------------

theorem lastItem
    (hExpr : Candid n expr)
    (hAhead : ElixirReader.keywordAhead s.rest = true) :
    Reads [] [] [] nodesOf (Parse.lastItem expr) s := by
  apply (keywords hExpr hAhead).bind
  intro pairs s₁ _
  have hSkip : Reads [] [] [] noNodes Parse.skipLineEnds s₁ :=
    skipLineEnds
  apply hSkip.bind_silent
  intro _ s₂ _
  have hComma : Reads [] [] [] noNodes (Parse.eat .comma) s₂ :=
    eat rfl rfl
  apply hComma.bind_silent
  intro _ s₃ _
  apply pure
  simp

theorem itemsFor
    (hExpr : Candid n expr)
    (closer : Kind) :
    Reads [] [] [] nodesOf (Parse.itemsFor expr closer k)
      s := by
  induction k generalizing s with
  | zero =>
      have hPure : Reads [] [] [] nodesOf
          (Pure.pure [] : Parse (List Node)) s :=
        pure (by simp)
      exact hPure.cutOff
  | succ k ih =>
      have hSkip : Reads [] [] [] noNodes Parse.skipLineEnds
        s := skipLineEnds
      apply hSkip.bind_silent
      intro _ s₁ _
      apply bind_peek
      split
      · exact pure (by simp)
      · apply bind_rest
        split
        · rename_i hAhead
          exact lastItem hExpr hAhead
        · apply (hExpr.reads 0 .container s₁).bind
          intro item s₂ _
          have hSkip' : Reads [] [] [] noNodes
            Parse.skipLineEnds s₂ := skipLineEnds
          apply hSkip'.bind_silent
          intro _ s₃ _
          have hComma : Reads [] [] [] noNodes
            (Parse.eat .comma) s₃ := eat rfl rfl
          apply hComma.bind_silent
          intro comma s₄ _
          cases comma with
          | none => exact pure (by simp)
          | some _ =>
              apply ih.bind
              intro more s₅ _
              exact pure (by simp)

theorem items
    (hExpr : Candid n expr)
    (closer : Kind) :
    Reads [] [] [] nodesOf (Parse.items expr closer) s :=
  bind_rest (itemsFor hExpr closer)

theorem close
    {closer : Closer}
    {d : Delimiter}
    (opened : Span)
    (items : List Node)
    (hCloser : closer.kind.closer? = some d)
    (hUnframed : d.isUnframed = true) :
    Reads [d] [] items nodesWithSpan
      (Parse.close closer opened items) s := by
  apply (expectClosing opened hCloser hUnframed).bind
  rintro (e | l) s' _
  · apply bind_previousSpan
    intro span
    exact pure (by simp)
  · exact pure (by simp)

theorem enclosed
    {b : Bracket}
    (hExpr : Candid n expr)
    (hRest : s.rest = l :: ls)
    (hOpening : l.kind = .opening b) :
    Reads [] [] [] nodesWithSpan (Parse.enclosed expr b) s := by
  apply bind_currentSpan
  intro opened
  apply bind_skip_opening hRest
    (show l.kind.opener? = some (.bracket b) by
      rw [hOpening]; rfl) rfl
  intro s₁ _
  have hItems : Reads [] [] [] nodesOf
    (Parse.items expr (.closing b)) s₁ := items hExpr _
  apply (hItems.inside rfl).bind
  intro found s₂ _
  exact close opened found rfl rfl

theorem container
    {b : Bracket}
    {form : List Node → Form Node}
    (hExpr : Candid n expr)
    (hRest : s.rest = l :: ls)
    (hOpening : l.kind = .opening b)
    (hForm : ∀ ns span,
      Node.isError ⟨form ns, span⟩ = false ∧
        (form ns).nodes = ns) :
    Reads [] [] [] nodeOf (Parse.container expr b form) s := by
  apply (enclosed hExpr hRest hOpening).bind
  rintro ⟨found, span⟩ s' _
  apply pure
  rw [hasError_nodeOf, containsError_mk _ (hForm found span).1,
    (hForm found span).2]
  rfl

end Reads

------------------------------------------------------------
-- Parentheses
------------------------------------------------------------

theorem containsError_unwrap
    (span : Span)
    (ns : List Node) :
    (unwrap span ns).containsError = true ↔ HasError ns := by
  rcases ns with _ | ⟨n, _ | ⟨m, ns⟩⟩
  · exact containsError_mk span rfl
  · simp [unwrap]
  · exact containsError_mk span rfl

namespace Reads

theorem parenthesized
    (hExpr : Candid n expr)
    (hRest : s.rest = l :: ls)
    (hOpening : l.kind = .opening .parenthesis) :
    Reads [] [] [] nodeOf (Parse.parenthesized expr) s := by
  apply bind_currentSpan
  intro opened
  apply bind_skip_opening hRest
    (show l.kind.opener? = some (.bracket .parenthesis) by
      rw [hOpening]; rfl) rfl
  intro s₁ _
  have hStatements : Reads [] [] [] nodesOf
      (Parse.statements expr (· == .closing .parenthesis)) s₁ :=
    statements hExpr
  apply (hStatements.inside rfl).bind
  intro body s₂ _
  have hClose : Reads [.bracket .parenthesis] [] body
      nodesWithSpan
      (Parse.close (.bracket .parenthesis) opened body) s₂ :=
    close opened body rfl rfl
  apply hClose.bind_seen
  rintro ⟨body, span⟩ s₃ _
  apply pure
  rw [hasError_nodeOf, containsError_unwrap]
  rfl

end Reads

------------------------------------------------------------
-- Maps
------------------------------------------------------------

theorem containsError_extendAlias
    (receiver : Node)
    (segment : Lexeme) :
    (extendAlias receiver segment).containsError =
      receiver.containsError := by
  rcases receiver with ⟨form, span⟩
  rw [Bool.eq_iff_iff]
  cases form with
  | «alias» base segments =>
      rw [extendAlias, containsError_mk _ rfl,
        containsError_mk _ rfl]
      rfl
  | _ =>
      rw [extendAlias, containsError_mk _ rfl]
      · simp [Form.nodes]
      · intro base segments hEq
        cases hEq

namespace Reads

theorem entriesAfter
    (hExpr : Candid n expr)
    (first : Node) :
    Reads [] [] [first] Entries.nodes
      (Parse.entriesAfter expr first) s := by
  have hComma : Reads [] [] [] noNodes (Parse.eat .comma) s :=
    eat rfl rfl
  apply hComma.bind_silent
  intro comma s₁ _
  cases comma with
  | none => exact pure (by simp [Entries.nodes])
  | some _ =>
      have hItems : Reads [] [] [] nodesOf
        (Parse.items expr (.closing .curly)) s₁ := items hExpr _
      apply hItems.bind
      intro more s₂ _
      exact pure (by simp [Entries.nodes])

theorem entriesFrom
    (hExpr : Candid n expr) :
    Reads [] [] [] Entries.nodes (Parse.entriesFrom expr) s := by
  apply (hExpr.reads _ .container s).bind
  intro first s₁ _
  have hSkip : Reads [] [] [] noNodes Parse.skipLineEnds s₁ :=
    skipLineEnds
  apply hSkip.bind_silent
  intro _ s₂ _
  have hPipe : Reads [] [] [] noNodes
    (Parse.eat (.operator .pipe)) s₂ := eat rfl rfl
  apply hPipe.bind_silent
  intro pipe s₃ _
  cases pipe with
  | none => exact entriesAfter hExpr first
  | some _ =>
      have hItems : Reads [] [] [] nodesOf
        (Parse.items expr (.closing .curly)) s₃ := items hExpr _
      apply hItems.bind
      intro more s₄ _
      exact pure (by simp [Entries.nodes])

theorem entries
    (hExpr : Candid n expr) :
    Reads [] [] [] Entries.nodes (Parse.entries expr) s := by
  have hSkip : Reads [] [] [] noNodes Parse.skipLineEnds s :=
    skipLineEnds
  apply hSkip.bind_silent
  intro _ s₁ _
  apply bind_rest
  split
  · exact entriesFrom hExpr
  · have hItems : Reads [] [] [] nodesOf
      (Parse.items expr (.closing .curly)) s₁ := items hExpr _
    apply hItems.bind
    intro more s₂ _
    exact pure (by simp [Entries.nodes])

theorem mapBody
    (hExpr : Candid n expr)
    (hRest : s.rest = l :: ls)
    (hOpening : l.kind = .opening .curly) :
    Reads [] [] [] (fun r => r.1.nodes) (Parse.mapBody expr)
      s := by
  apply bind_currentSpan
  intro opened
  apply bind_skip_opening hRest
    (show l.kind.opener? = some (.bracket .curly) by
      rw [hOpening]; rfl) rfl
  intro s₁ _
  have hEntries : Reads [] [] [] Entries.nodes
    (Parse.entries expr) s₁ := entries hExpr
  apply (hEntries.inside rfl).bind
  rintro ⟨update, found⟩ s₂ _
  have hClose : Reads [.bracket .curly] [] found nodesWithSpan
      (Parse.close (.bracket .curly) opened found) s₂ :=
    close opened found rfl rfl
  -- The base of an update is not among what is closed.
  apply (hClose.carry update.toList).bind_seen
  rintro ⟨found, span⟩ s₃ _
  exact pure (by simp [Entries.nodes])

end Reads

------------------------------------------------------------
-- Structs
------------------------------------------------------------

theorem exists_of_segmentAhead?
    {segment : Lexeme}
    (hSegment : segmentAhead? ls = some segment) :
    ∃ dot back, ls = dot :: segment :: back ∧
      dot.kind = .dot ∧ segment.kind = .alias := by
  unfold segmentAhead? at hSegment
  split at hSegment
  · split at hSegment
    · rename_i hKinds
      cases hSegment
      exact ⟨_, _, rfl, hKinds⟩
    · cases hSegment
  · cases hSegment

namespace Reads

theorem structSegments
    (name : Node) :
    Reads [] [] [name] nodeOf (Parse.structSegments k name)
      s := by
  induction k generalizing s name with
  | zero =>
      have hPure : Reads [] [] [name] nodeOf
          (Pure.pure name : Parse Node) s :=
        pure (by simp)
      exact hPure.cutOff
  | succ k ih =>
      rw [structSegments_succ]
      apply bind_rest
      cases hSegment : segmentAhead? s.rest with
      | none => exact pure (by simp)
      | some segment =>
          rcases exists_of_segmentAhead? hSegment with
            ⟨dot, back, hRest, hDot, hAlias⟩
          have hKinds : ∀ l ∈ s.rest.take 2,
              l.kind.isFlat = true ∧
                l.kind.isComplete = true := by
            intro l hMem
            rw [hRest, List.take_succ_cons, List.take_succ_cons,
              List.take_zero, List.mem_cons,
              List.mem_singleton] at hMem
            rcases hMem with rfl | rfl
            · rw [hDot]
              exact ⟨rfl, rfl⟩
            · rw [hAlias]
              exact ⟨rfl, rfl⟩
          apply bind_skip fun l hMem => (hKinds l hMem).1
          · intro _
            left
            intro l hMem
            exact Lexeme.isUnfinished_of_isComplete
              (hKinds l hMem).2
          · apply (ih (extendAlias name segment)).congr_seen
            simp [containsError_extendAlias]

theorem structAttribute
    (mark : Lexeme)
    (hRest : s.rest = l :: ls)
    (hKind : l.kind = .operator .atSign) :
    Reads [] [] [] eitherNode (Parse.structAttribute mark)
      s := by
  apply bind_skip_flat hRest (by rw [hKind]; rfl)
    (.inl (Lexeme.isUnfinished_of_isComplete (by rw [hKind]; rfl)))
  intro s₁ _
  have hName : Reads [] [] [] exceptOf
      (Parse.expect .identifier .attributeName) s₁ :=
    expect _ rfl rfl
  apply hName.bind
  rintro (e | l) s₂ _
  · exact pure (by simp [eitherNode])
  · have hName : Node.containsError
        ⟨.unary mark.text ⟨.identifier l.text, l.span⟩,
          mark.span.merge l.span⟩ = false := rfl
    exact pure (by simp [eitherNode, hName])

theorem structHead :
    Reads [] [] [] eitherNode Parse.structHead s := by
  apply bind_peek
  cases hRest : s.rest with
  | nil =>
      have hError : Reads [] [] [] nodeOf
        (Parse.errorNode .unexpectedEnd) s := errorNode _
      apply hError.bind
      intro e s' _
      exact pure (by simp [eitherNode])
  | cons l ls =>
      simp only [List.head?_cons]
      split
      · rename_i hKind
        apply bind_skip_flat hRest (by rw [hKind]; rfl)
          (.inl (Lexeme.isUnfinished_of_isComplete
            (by rw [hKind]; rfl)))
        intro s' _
        apply pure
        rw [eitherNode, hasError_cons, containsError_mk _ rfl]
        simp [Form.nodes]
      · rename_i hKind
        apply bind_skip_flat hRest (by rw [hKind]; rfl)
          (.inl (Lexeme.isUnfinished_of_isComplete
            (by rw [hKind]; rfl)))
        intro s' _
        apply pure
        rw [eitherNode, hasError_cons, containsError_mk _ rfl]
        simp [Form.nodes]
      · rename_i hKind
        exact structAttribute l hRest hKind
      · have hWanted : Reads [] [] [] nodeOf
          (Parse.wantedNode .structName) s := wantedNode _
        apply hWanted.bind
        intro e s' _
        exact pure (by simp [eitherNode])

theorem structName :
    Reads [] [] [] nodeOf Parse.structName s := by
  apply structHead.bind_seen
  rintro (e | name) s₁ _
  · exact pure (by simp [eitherNode])
  · exact bind_rest (structSegments name)

theorem structOrMap
    (hExpr : Candid n expr)
    (hRest : s.rest = l :: ls)
    (hKind : l.kind = .operator .struct) :
    Reads [] [] [] nodeOf (Parse.structOrMap expr) s := by
  apply bind_currentSpan
  intro percent
  apply bind_skip_flat hRest (by rw [hKind]; rfl)
    (.inl (Lexeme.isUnfinished_of_isComplete (by rw [hKind]; rfl)))
  intro s₁ _
  apply bind_isAt
  split
  · rename_i hAt
    rcases exists_of_isAt hAt with
      ⟨m, ms, hRest', hOpening⟩
    apply (mapBody hExpr hRest' hOpening).bind
    rintro ⟨body, span⟩ s₂ _
    apply pure
    rw [hasError_nodeOf, containsError_mk _ rfl]
    rfl
  · apply structName.bind
    intro name s₂ _
    apply bind_isAt
    split
    · rename_i hAt
      rcases exists_of_isAt hAt with
        ⟨m, ms, hRest', hOpening⟩
      apply (mapBody hExpr hRest' hOpening).bind
      rintro ⟨body, span⟩ s₃ _
      apply pure
      rw [hasError_nodeOf, containsError_mk _ rfl]
      simp [Form.nodes]
    · exact wantedNode _

end Reads

end ElixirReader
