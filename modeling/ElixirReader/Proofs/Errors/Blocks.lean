import ElixirReader.Proofs.Errors.Containers
import ElixirReader.Proofs.Parser.Blocks

/-
  This file follows errors through the bodies of blocks. A
  clause behind expressions pushes them out of the body, but
  holds an error then.

  Key definitions include:
    * `itemNodes`
    * `Body.IsProper`
    * `sectionNodes`

  Main declarations:
    * `Reads.clauseOrStatement`
    * `Reads.bodyFor`
    * `Reads.doBlock`
    * `Reads.fn`
-/

namespace ElixirReader

open Parse

variable {n k : Nat}
variable {l : Lexeme}
variable {ls : List Lexeme}
variable {s s' : ParseState}
variable {expr : ExpressionParser}
variable {stop : Kind → Bool}

------------------------------------------------------------
-- Heads of clauses
------------------------------------------------------------

/- Taking the guard out of a head loses no tree. -/
theorem hasError_splitGuard
    (head : List Node) :
    HasError ((splitGuard head).1 ++ (splitGuard head).2.toList) ↔
      HasError head := by
  unfold splitGuard
  split
  · rename_i operator left right operatorSpan span hLast
    split
    · rcases List.getLast?_eq_some_iff.mp hLast with ⟨ns, rfl⟩
      have hGuarded := containsError_mk
        (f := .binary operator left right operatorSpan) span rfl
      simp [hGuarded, Form.nodes]
    · simp
  · simp

namespace Reads

theorem finishHead
    (head : List Node)
    (guard : Option Node) :
    Reads [] [] (head ++ guard.toList) Clause.nodes
      (Parse.finishHead head guard) s := by
  have hArrow : Reads [] [] [] exceptOf
      (Parse.expect (.operator .stab) .arrow) s :=
    expect _ rfl rfl
  unfold Parse.finishHead
  cases guard with
  | some g =>
      apply hArrow.bind
      rintro (e | arrow) s' _
      · exact pure (by simp [Clause.nodes, or_comm])
      · exact pure (by simp [Clause.nodes])
  | none =>
      rcases hSplit : splitGuard head with ⟨front, guard⟩
      have hSeen : HasError (head ++ (none : Option Node).toList) ↔
          HasError (front ++ guard.toList) := by
        have hSame := hasError_splitGuard head
        rw [hSplit] at hSame
        simpa using hSame.symm
      simp only
      apply Reads.congr_seen _ hSeen
      apply hArrow.bind
      rintro (e | arrow) s' _
      · exact pure (by simp [Clause.nodes, or_comm])
      · exact pure (by simp [Clause.nodes])

theorem headGuard
    (hExpr : Candid n expr) :
    Reads [] [] [] Option.toList (Parse.headGuard expr) s := by
  have hWhen : Reads [] [] [] noNodes
    (Parse.eat (.operator .whenWord)) s := eat rfl rfl
  apply hWhen.bind_silent
  intro word s₁ _
  cases word with
  | none => exact pure (by simp)
  | some _ =>
      have hSkip : Reads [] [] [] noNodes Parse.skipLineEnds
        s₁ := skipLineEnds
      apply hSkip.bind_silent
      intro _ s₂ _
      apply (hExpr.reads _ .statement s₂).bind
      intro guard s₃ _
      exact pure (by simp)

theorem parenthesizedHead
    (hExpr : Candid n expr)
    (hRest : s.rest = l :: ls)
    (hOpening : l.kind = .opening .parenthesis) :
    Reads [] [] [] Clause.nodes (Parse.parenthesizedHead expr)
      s := by
  apply (enclosed hExpr hRest hOpening).bind
  rintro ⟨head, span⟩ s₁ _
  apply (headGuard hExpr).bind
  intro guard s₂ _
  exact finishHead head guard

theorem headItemsFor
    (hExpr : Candid n expr) :
    Reads [] [] [] nodesOf (Parse.headItemsFor expr k) s := by
  induction k generalizing s with
  | zero =>
      have hPure : Reads [] [] [] nodesOf
          (Pure.pure [] : Parse (List Node)) s :=
        pure (by simp)
      exact hPure.cutOff
  | succ k ih =>
      have hComma : Reads [] [] [] noNodes (Parse.eat .comma) s :=
        eat rfl rfl
      apply hComma.bind_silent
      intro comma s₁ _
      cases comma with
      | none => exact pure (by simp)
      | some _ =>
          have hSkip : Reads [] [] [] noNodes
            Parse.skipLineEnds s₁ := skipLineEnds
          apply hSkip.bind_silent
          intro _ s₂ _
          apply bind_rest
          split
          · rename_i hAhead
            apply (keywords hExpr hAhead).bind
            intro pairs s₃ _
            exact pure (by simp)
          · apply (hExpr.reads 0 .container s₂).bind
            intro item s₃ _
            apply ih.bind
            intro more s₄ _
            exact pure (by simp)

end Reads

------------------------------------------------------------
-- Clauses and statements
------------------------------------------------------------

/- The trees in an item of a body. -/
def itemNodes : Item → List Node
| .clause c => c.nodes
| .expression n => [n]

namespace Reads

theorem openClauseOrStatement
    (hExpr : Candid n expr) :
    Reads [] [] [] itemNodes (Parse.openClauseOrStatement expr)
      s := by
  apply (hExpr.reads 0 .statement s).bind
  intro first s₁ _
  apply bind_isAt
  apply bind_isAt
  split
  · apply bind_rest
    have hMore : Reads [] [] [] nodesOf
        (Parse.headItemsFor expr (s₁.rest.length + 1)) s₁ :=
      headItemsFor hExpr
    apply hMore.bind
    intro more s₂ _
    have hHead : Reads [] [] (first :: more) Clause.nodes
        (Parse.finishHead (first :: more) none) s₂ :=
      (finishHead (first :: more) none).congr_seen (by simp)
    apply hHead.bind_seen
    intro c s₃ _
    exact pure (by simp [itemNodes])
  · exact pure (by simp [itemNodes])

theorem clauseOrStatement
    (hExpr : Candid n expr) :
    Reads [] [] [] itemNodes (Parse.clauseOrStatement expr)
      s := by
  have hStab : Reads [] [] [] noNodes
    (Parse.eat (.operator .stab)) s := eat rfl rfl
  apply hStab.bind_silent
  intro arrow s₁ _
  cases arrow with
  | some arrow =>
      exact pure (by simp [itemNodes, Clause.nodes])
  | none =>
      apply bind_rest
      apply bind_isAt
      split
      · rename_i hHead
        simp only [Bool.and_eq_true] at hHead
        rcases exists_of_isAt hHead.1 with
          ⟨l, ls, hRest, hOpening⟩
        apply (parenthesizedHead hExpr hRest hOpening).bind
        intro c s₂ _
        exact pure (by simp [itemNodes])
      · exact openClauseOrStatement hExpr

end Reads

------------------------------------------------------------
-- Bodies
------------------------------------------------------------

/- A body with clauses has at least one. -/
def Body.IsProper
    (b : Body Node) : Prop :=
  b ≠ .clauses []

theorem isProper_bodyOf
    (expressions : List Node)
    (clauses : List (Clause Node)) :
    (bodyOf expressions clauses).IsProper := by
  unfold bodyOf Body.IsProper
  cases clauses <;> simp

/- What is put behind the last clause comes last of all. -/
theorem nodes_pushLast
    (node : Node)
    {clauses : List (Clause Node)}
    (hClauses : clauses ≠ []) :
    (Clause.pushLast node clauses).flatMap Clause.nodes =
      clauses.flatMap Clause.nodes ++ [node] := by
  induction clauses with
  | nil => exact absurd rfl hClauses
  | cons c cs ih =>
      cases cs with
      | nil => simp [Clause.pushLast, Clause.nodes]
      | cons c' cs =>
          have hMore := ih (List.cons_ne_nil c' cs)
          rw [Clause.pushLast, List.flatMap_cons, hMore]
          · simp
          · intro hNil
            cases hNil

theorem nodes_push
    (node : Node)
    {b : Body Node}
    (hProper : b.IsProper) :
    (b.push node).nodes = b.nodes ++ [node] := by
  cases b with
  | expressions ns => rfl
  | clauses cs =>
      apply nodes_pushLast
      rintro rfl
      exact hProper rfl

theorem Body.IsProper.push
    {b : Body Node}
    (node : Node)
    (hProper : b.IsProper) :
    (b.push node).IsProper := by
  cases b with
  | expressions ns => simp [Body.push, IsProper]
  | clauses cs =>
      rcases cs with _ | ⟨c, _ | ⟨c', cs⟩⟩
      · exact absurd rfl hProper
      · simp [Body.push, IsProper, Clause.pushLast]
      · simp [Body.push, IsProper, Clause.pushLast]

theorem nodes_foldl_push
    (trailing : List Node)
    {b : Body Node}
    (hProper : b.IsProper) :
    (trailing.foldl (fun b e => b.push e) b).nodes =
      b.nodes ++ trailing := by
  induction trailing generalizing b with
  | nil => simp
  | cons e es ih =>
      rw [List.foldl_cons, ih (hProper.push e),
        nodes_push e hProper]
      simp

/- Every body is made of expressions, or of clauses. -/
theorem isProper_bodyFor
    (expressions : List Node)
    (clauses : List (Clause Node)) :
    (bodyFor expr stop k expressions clauses s).1.IsProper := by
  induction k generalizing expressions clauses s with
  | zero => exact isProper_bodyOf _ _
  | succ k ih =>
      rw [bodyFor_succ]
      split
      · exact isProper_bodyOf _ _
      · rw [Parse.bind_apply]
        rcases (clauseOrStatement expr (skipSeparators s).2).1
          with c | node
        · rw [bodyItem_clause]
          exact ih _ _
        · rw [bodyItem, Parse.bind_apply]
          split
          · exact ih _ _
          · exact ih _ _

theorem isProper_body
    (s : ParseState) :
    (body expr stop s).1.IsProper := by
  change (bodyFor expr stop (s.rest.length + 1) [] []
    { s with poisoned := false }).1.IsProper
  exact isProper_bodyFor [] []

namespace Reads

theorem recover
    (start : List Lexeme) :
    Reads [] [] [] noNodes (Parse.recover stop start) s := by
  have hEq := recover_apply stop start s
  rcases moves_recovered 0 stop start s with ⟨taken, hMoves⟩
  have hErrors : (recovered stop start s).errors = s.errors := by
    unfold recovered
    split <;> rfl
  refine ⟨?_, ?_, ?_, ?_⟩
  · rw [hEq]
    exact ⟨taken, hMoves.rest.symm⟩
  · rw [hEq]
    exact hMoves.errors
  · rw [hEq]
    rintro _ (hSeen | hSome)
    · exact hSeen
    · exact absurd hErrors hSome
  · intro trailing fs _ hCalm _
    have hSame : recovered stop start s = s := by
      unfold recovered
      rw [if_neg (by simp [hCalm.poisoned])]
    rw [hEq, hSame]
    exact ⟨hCalm, ⟨[], rfl, Balances.nil []⟩, fun h => h⟩

/- A clause behind expressions holds an error. -/
theorem checkFirstClause
    (expressions : List Node)
    (clauses : List (Clause Node))
    (c : Clause Node) :
    Reads [] [] ((bodyOf expressions clauses).nodes ++ c.nodes)
      (fun c => (bodyOf expressions (clauses ++ [c])).nodes)
      (Parse.checkFirstClause expressions clauses c) s := by
  unfold Parse.checkFirstClause
  split
  · rename_i hFirst
    have hFailure : Reads [] []
        ((bodyOf expressions clauses).nodes ++ c.nodes) nodeOf
        (Parse.failure (.unexpectedToken "->") c.arrow c.arrow)
        s := failure _ _ _
    apply hFailure.bind_seen
    intro e s' hEq
    cases hEq
    apply pure
    simp [bodyOf, Body.nodes, Clause.nodes]
  · rename_i hFirst
    apply pure
    cases clauses with
    | nil =>
        have hNil : expressions = [] := by
          simpa using hFirst
        simp [bodyOf, Body.nodes, hNil]
    | cons c' cs => simp [bodyOf, Body.nodes]

theorem bodyFor
    (hExpr : Candid n expr)
    (expressions : List Node)
    (clauses : List (Clause Node)) :
    Reads [] [] (bodyOf expressions clauses).nodes Body.nodes
      (Parse.bodyFor expr stop k expressions clauses) s := by
  induction k generalizing s expressions clauses with
  | zero =>
      have hPure : Reads [] [] (bodyOf expressions clauses).nodes
          Body.nodes
          (Pure.pure (bodyOf expressions clauses) :
            Parse (Body Node)) s :=
        pure (by simp)
      exact hPure.cutOff
  | succ k ih =>
      have hSkip : Reads [] [] [] noNodes Parse.skipSeparators
        s := skipSeparators
      apply hSkip.bind_silent
      intro _ s₁ hEq
      have hStarts := @starts_skipSeparators s stop
      rw [hEq] at hStarts
      apply bind_peek
      cases hEnds : endsAt stop s₁.rest.head? with
      | true => exact pure (by simp)
      | false =>
          apply bind_rest
          apply (clauseOrStatement hExpr).bind
          rintro (c | node) s₂ hItem
          · apply (checkFirstClause expressions clauses
              c).bind_seen
            intro c' s₃ _
            apply (recover s₁.rest).bind_silent
            intro _ s₄ _
            exact ih expressions (clauses ++ [c'])
          · have hRun : Run Setting.any n true
                (Parse.clauseOrStatement expr)
                (Parse.clauseOrStatement expr) s₁ :=
              Run.clauseOrStatement hExpr.toSound
            rcases hRun.takes with ⟨taken, hTakes⟩
            rw [hItem] at hTakes
            apply (finishStatement hTakes.toMoves
              (hStarts hEnds)).bind
            intro trailing s₃ _
            cases clauses with
            | nil =>
                apply (ih (expressions ++
                  [withTrailing node trailing]) []).congr_seen
                simp [bodyOf, Body.nodes, itemNodes,
                  hasError_withTrailing]
            | cons c cs =>
                apply (ih expressions (Clause.pushLast
                  (withTrailing node trailing)
                  (c :: cs))).congr_seen
                have hPush := nodes_pushLast
                  (withTrailing node trailing)
                  (List.cons_ne_nil c cs)
                have hBody :
                    (bodyOf expressions (Clause.pushLast
                        (withTrailing node trailing)
                        (c :: cs))).nodes =
                      (Clause.pushLast
                        (withTrailing node trailing)
                        (c :: cs)).flatMap Clause.nodes := by
                  cases cs <;> rfl
                rw [hBody, hPush]
                simp [bodyOf, Body.nodes, itemNodes,
                  hasError_withTrailing]

theorem body
    (hExpr : Candid n expr) :
    Reads [] [] [] Body.nodes (Parse.body expr stop) s :=
  bind_rest (isolated (bodyFor hExpr [] []))

end Reads

------------------------------------------------------------
-- Do blocks
------------------------------------------------------------

/- The trees in sections that come with their span. -/
def sectionNodes
    (r : List (Section Node) × Span) : List Node :=
  r.1.flatMap Section.nodes

namespace Reads

theorem unendedSection
    {ds es : Nest}
    (opened : Span)
    (name : String)
    {b : Body Node}
    (hProper : b.IsProper) :
    Reads ds es b.nodes sectionNodes
      (Parse.unendedSection opened name b) s := by
  have hFailure : Reads ds es [] nodeOf
      (Parse.failure (.missingTerminator "end" opened.line)
        opened opened) s := failure _ _ _
  apply hFailure.bind
  intro e s' _
  apply bind_previousSpan
  intro span
  apply pure
  simp [sectionNodes, Section.nodes, nodes_push e hProper]

theorem sectionsFor
    (hExpr : Candid n expr)
    (opened : Span)
    (name : String)
    (hBound : s.rest.length < k) :
    Reads [.block] [] [] sectionNodes
      (Parse.sectionsFor expr opened k name) s := by
  induction k generalizing s name with
  | zero => omega
  | succ k ih =>
      have hBody : Reads [] [] [] Body.nodes
        (Parse.body expr Kind.endsBlock) s := body hExpr
      rw [sectionsFor_succ]
      apply (hBody.inside rfl).bind
      intro b s₁ hEq
      have hProper : b.IsProper := by
        have hAll :
            (Parse.body expr Kind.endsBlock s).1.IsProper :=
          isProper_body s
        rw [hEq] at hAll
        exact hAll
      have hLess : s₁.rest.length ≤ s.rest.length := by
        have hSuffix := hBody.rest
        rw [hEq] at hSuffix
        exact hSuffix.length_le
      apply bind_peek
      cases sectionCase s₁ with
      | unended hNext =>
          rw [sectionEnd_of_unended hNext]
          exact unendedSection opened name hProper
      | ended l ls hRest hKind =>
          rw [sectionEnd_of_ended hRest hKind]
          have hEnd : Reads [.block] [] [] noNodes
              (Parse.skip 1) s₁ :=
            skip_closing hRest (by rw [hKind]; rfl) rfl
          apply hEnd.bind_silent
          intro _ s₂ _
          exact pure (by simp [sectionNodes, Section.nodes])
      | further l ls hRest hKind hEnds =>
          rw [sectionEnd_of_further hRest hKind hEnds]
          have hPlain := isPlain_of_endsBlock hEnds hKind
          have hTake := ParseState.take_one hRest
          have hWord : Reads [] [] [] noNodes (Parse.skip 1)
              s₁ := by
            apply skip
            intro m hMem
            rw [hTake.1, List.mem_singleton] at hMem
            rw [hMem]
            refine ⟨Kind.isFlat_of_isPlain hPlain, ?_⟩
            cases hKind' : l.kind <;> rw [hKind'] at hEnds <;>
              first | rfl | cases hEnds
          apply (hWord.inside rfl).bind_silent
          intro _ s₂ hSkip
          cases hSkip
          apply (ih l.text (by
            rw [hTake.2]
            rw [hRest, List.length_cons] at hLess
            omega)).bind
          rintro ⟨more, span⟩ s₃ _
          exact pure (by simp [sectionNodes, Section.nodes])

theorem doBlock
    (hExpr : Candid n expr)
    (hRest : s.rest = l :: ls)
    (hKind : l.kind = .word .do) :
    Reads [] [] [] DoBlock.nodes (Parse.doBlock expr) s := by
  apply bind_currentSpan
  intro opened
  apply bind_skip_opening hRest
    (show l.kind.opener? = some .block by rw [hKind]; rfl) rfl
  intro s₁ _
  apply bind_rest
  apply (sectionsFor hExpr opened "do" (Nat.lt_succ_self _)).bind
  rintro ⟨sections, span⟩ s₂ _
  exact pure (by simp [sectionNodes, DoBlock.nodes])

------------------------------------------------------------
-- Anonymous functions
------------------------------------------------------------

theorem fn
    (hExpr : Candid n expr)
    (hRest : s.rest = l :: ls)
    (hKind : l.kind = .word .fn) :
    Reads [] [] [] nodeOf (Parse.fn expr) s := by
  apply bind_currentSpan
  intro opened
  apply bind_skip_opening hRest
    (show l.kind.opener? = some .block by rw [hKind]; rfl) rfl
  intro s₁ _
  have hBody : Reads [] [] [] Body.nodes
    (Parse.body expr (· == .word .end)) s₁ := body hExpr
  apply (hBody.inside rfl).bind
  intro b s₂ hEq
  have hProper : b.IsProper := by
    have hAll :
        (Parse.body expr (· == .word .end) s₁).1.IsProper :=
      isProper_body s₁
    rw [hEq] at hAll
    exact hAll
  have hClose : Reads [.block] [] [] nodesWithSpan
      (Parse.close .blockEnd opened []) s₂ :=
    close opened [] rfl rfl
  apply hClose.bind
  rintro ⟨trailing, span⟩ s₃ _
  have hFold := nodes_foldl_push trailing hProper
  simp only
  cases hAll : trailing.foldl (fun b e => b.push e) b with
  | expressions ns => exact failure _ _ _
  | clauses cs =>
      apply pure
      rw [hAll] at hFold
      have hNodes : (Form.fn cs).nodes = b.nodes ++ trailing :=
        hFold
      rw [hasError_nodeOf, containsError_mk _ rfl, hNodes]
      rfl

end Reads

end ElixirReader
