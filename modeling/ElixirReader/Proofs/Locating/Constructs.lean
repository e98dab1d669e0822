import ElixirReader.Proofs.Locating.Literals

/-
  This file follows spans through brackets and blocks. What is
  opened is kept in mind until it is closed, and at the end of
  the source the complaint goes back there.

  Main declarations:
    * `Locates.enclosed`
    * `Locates.structOrMap`
    * `Locates.clauseOrStatement`
    * `Locates.body`
    * `Locates.doBlock`
    * `Locates.fn`
-/

namespace ElixirReader

open Parse

variable {P : Span → Prop}
variable {s : ParseState}
variable {expr : ExpressionParser}
variable {stop : Kind → Bool}

------------------------------------------------------------
-- Trees that are put together
------------------------------------------------------------

/- An alias goes through its last segment. -/
theorem located_extendAlias
    [Merges P]
    {receiver : Node}
    {segment : Lexeme}
    (hReceiver : Located P receiver)
    (hSegment : P segment.span) :
    Located P (extendAlias receiver segment) := by
  have hChildren := allThroughout_extendAlias segment hReceiver
  have hSpan := Merges.merge hReceiver.span hSegment
  rcases receiver with ⟨form, span⟩
  cases form <;> exact .mk hSpan rfl hChildren

/- What goes behind the last body leaves the arrows. -/
theorem arrows_pushLast
    (node : Node)
    (clauses : List (Clause Node)) :
    (Clause.pushLast node clauses).map Clause.arrow =
      clauses.map Clause.arrow := by
  induction clauses with
  | nil => rfl
  | cons c cs ih =>
      cases cs with
      | nil => rfl
      | cons c' cs => exact congrArg (c.arrow :: ·) ih

theorem marks_push
    (node : Node)
    (b : Body Node) :
    (b.push node).marks = b.marks := by
  cases b with
  | expressions ns => rfl
  | clauses cs => exact arrows_pushLast node cs

theorem marks_foldl_push
    (b : Body Node)
    (trailing : List Node) :
    (trailing.foldl (fun b e => b.push e) b).marks = b.marks := by
  induction trailing generalizing b with
  | nil => rfl
  | cons e es ih => exact (ih _).trans (marks_push e b)

/- The trees and the arrows of a clause. -/
structure Clause.IsLocated
    (P : Span → Prop)
    (c : Clause Node) : Prop where
  nodes : AllLocated P c.nodes
  arrow : P c.arrow

/- The trees and the arrows of a body. -/
structure Body.IsLocated
    (P : Span → Prop)
    (b : Body Node) : Prop where
  nodes : AllLocated P b.nodes
  marks : ∀ x ∈ b.marks, P x

theorem Body.IsLocated.push
    {b : Body Node}
    {node : Node}
    (hBody : b.IsLocated P)
    (hNode : Located P node) :
    (b.push node).IsLocated P := by
  refine ⟨allThroughout_push hNode hBody.nodes, ?_⟩
  rw [marks_push]
  exact hBody.marks

theorem isLocated_bodyOf
    {expressions : List Node}
    {clauses : List (Clause Node)}
    (hExpressions : AllLocated P expressions)
    (hClauses : AllLocated P (clauses.flatMap Clause.nodes))
    (hArrows : ∀ x ∈ clauses.map Clause.arrow, P x) :
    (bodyOf expressions clauses).IsLocated P := by
  refine ⟨allThroughout_bodyOf hExpressions hClauses, ?_⟩
  unfold bodyOf
  split
  · exact List.forall_mem_nil _
  · exact hArrows

/- The trees and the arrows of some sections. -/
structure SectionsAreLocated
    (P : Span → Prop)
    (sections : List (Section Node)) : Prop where
  nodes : AllLocated P (sections.flatMap Section.nodes)
  marks : ∀ x ∈ sections.flatMap fun s => s.body.marks, P x

/- One more section, whose body is located. -/
theorem SectionsAreLocated.cons
    {b : Body Node}
    {sections : List (Section Node)}
    (name : String)
    (hBody : b.IsLocated P)
    (hSections : SectionsAreLocated P sections) :
    SectionsAreLocated P (⟨name, b⟩ :: sections) := by
  constructor
  · rw [List.flatMap_cons]
    exact (allThroughout_append _ _).mpr ⟨hBody.nodes, hSections.nodes⟩
  · rw [List.flatMap_cons]
    exact List.forall_mem_append.mpr ⟨hBody.marks, hSections.marks⟩

theorem sectionsAreLocated_nil :
    SectionsAreLocated P [] :=
  ⟨allThroughout_nil, by simp⟩

/- A do block has the spans of its sections, and its own. -/
structure DoBlock.IsLocated
    (P : Span → Prop)
    (b : DoBlock Node) : Prop where
  nodes : AllLocated P b.nodes
  marks : ∀ x ∈ b.marks, P x

namespace Locates

------------------------------------------------------------
-- Elements between brackets
------------------------------------------------------------

section Brackets

variable [Merges P]
variable (hExpr : ∀ precedence context s,
  Locates P (fun n _ => Located P n) (expr precedence context) s)

include hExpr

theorem lastItem :
    Locates P (fun ns _ => AllLocated P ns) (Parse.lastItem expr)
      s := by
  apply (keywords hExpr).bind
  intro pairs s₁ _ hPairs
  apply skipLineEnds.bind
  intro _ s₂ _ _
  apply (eat .comma).bind
  intro _ s₃ _ _
  exact pure (by simpa using hPairs)

theorem itemsFor
    (closer : Kind)
    (n : Nat)
    (s : ParseState) :
    Locates P (fun ns _ => AllLocated P ns)
      (Parse.itemsFor expr closer n) s := by
  induction n generalizing s with
  | zero =>
      apply cutOff.bind
      intro _ s₁ _ _
      exact pure allThroughout_nil
  | succ n ih =>
      apply skipLineEnds.bind
      intro _ s₁ _ _
      apply bind_peek
      · exact pure allThroughout_nil
      · intro l _ _ _
        split
        · exact pure allThroughout_nil
        · apply bind_rest
          split
          · exact lastItem hExpr
          · apply (hExpr _ _ _).bind
            intro item s₂ _ hItem
            apply skipLineEnds.bind
            intro _ s₃ _ _
            apply (eat .comma).bind
            rintro (_ | _) s₄ _ _
            · exact pure (by simpa using hItem)
            · apply (ih s₄).bind
              intro more s₅ _ hMore
              exact pure ((allThroughout_cons _ _).mpr ⟨hItem, hMore⟩)

theorem items
    (closer : Kind) :
    Locates P (fun ns _ => AllLocated P ns) (Parse.items expr closer)
      s :=
  bind_rest (itemsFor hExpr closer _ _)

theorem enclosed
    (bracket : Bracket) :
    Locates P (fun r _ => AllLocated P r.1 ∧ P r.2)
      (Parse.enclosed expr bracket) s := by
  apply bind_currentSpan
  intro hOpened hAdmits
  apply (skip 1).bind
  intro _ s₁ hFront _
  apply (items hExpr _).bind
  intro found s₂ hFront' hFound
  exact close _ hOpened
    (Nat.le_trans hAdmits.1 (Nat.le_trans hFront hFront')) hFound

theorem container
    {form : List Node → Form Node}
    (bracket : Bracket)
    (hMarks : ∀ ns, (form ns).marks = [])
    (hNodes : ∀ ns, (form ns).nodes = ns) :
    Locates P (fun n _ => Located P n)
      (Parse.container expr bracket form) s := by
  apply (enclosed hExpr bracket).bind
  rintro ⟨found, span⟩ s₁ _ ⟨hFound, hSpan⟩
  apply pure
  apply Located.mk hSpan (hMarks found)
  rw [hNodes]
  exact hFound

theorem parenthesized :
    Locates P (fun n _ => Located P n) (Parse.parenthesized expr)
      s := by
  apply bind_currentSpan
  intro hOpened hAdmits
  apply (skip 1).bind
  intro _ s₁ hFront _
  apply (statementList hExpr).bind
  intro body s₂ hFront' hBody
  apply (close _ hOpened
    (Nat.le_trans hAdmits.1 (Nat.le_trans hFront hFront')) hBody).bind
  rintro ⟨body, span⟩ s₃ _ ⟨hBody, hSpan⟩
  apply pure
  rcases body with _ | ⟨n, _ | ⟨n', ns⟩⟩
  · exact .mk hSpan rfl hBody
  · exact hBody n List.mem_cons_self
  · exact .mk hSpan rfl hBody

------------------------------------------------------------
-- Maps
------------------------------------------------------------

theorem entriesAfter
    {first : Node}
    (hFirst : Located P first) :
    Locates P (fun e _ => AllLocated P e.nodes)
      (Parse.entriesAfter expr first) s := by
  apply (eat .comma).bind
  rintro (_ | _) s₁ _ _
  · exact pure ((allThroughout_cons _ _).mpr
      ⟨hFirst, allThroughout_nil⟩)
  · apply (items hExpr _).bind
    intro found s₂ _ hFound
    exact pure ((allThroughout_cons _ _).mpr ⟨hFirst, hFound⟩)

theorem entriesFrom :
    Locates P (fun e _ => AllLocated P e.nodes)
      (Parse.entriesFrom expr) s := by
  apply (hExpr _ _ _).bind
  intro first s₁ _ hFirst
  apply skipLineEnds.bind
  intro _ s₂ _ _
  apply (eat _).bind
  rintro (_ | _) s₃ _ _
  · exact entriesAfter hExpr hFirst
  · apply (items hExpr _).bind
    intro found s₄ _ hFound
    exact pure ((allThroughout_cons _ _).mpr ⟨hFirst, hFound⟩)

theorem entries :
    Locates P (fun e _ => AllLocated P e.nodes) (Parse.entries expr)
      s := by
  apply skipLineEnds.bind
  intro _ s₁ _ _
  apply bind_rest
  split
  · exact entriesFrom hExpr
  · apply (items hExpr _).bind
    intro found s₂ _ hFound
    exact pure hFound

theorem mapBody :
    Locates P (fun r _ => AllLocated P r.1.nodes ∧ P r.2)
      (Parse.mapBody expr) s := by
  apply bind_currentSpan
  intro hOpened hAdmits
  apply (skip 1).bind
  intro _ s₁ hFront _
  apply (entries hExpr).bind
  rintro ⟨update, found⟩ s₂ hFront' hEntries
  have hBoth := (allThroughout_append _ _).mp hEntries
  apply (close _ hOpened
    (Nat.le_trans hAdmits.1 (Nat.le_trans hFront hFront'))
    hBoth.2).bind
  rintro ⟨found, span⟩ s₃ _ ⟨hFound, hSpan⟩
  exact pure ⟨(allThroughout_append _ _).mpr ⟨hBoth.1, hFound⟩, hSpan⟩

omit hExpr in
theorem structSegments
    {name : Node}
    (n : Nat)
    (hName : Located P name) :
    Locates P (fun n _ => Located P n) (Parse.structSegments n name)
      s := by
  induction n generalizing name s with
  | zero =>
      apply cutOff.bind
      intro _ s₁ _ _
      exact pure hName
  | succ n ih =>
      apply of_inOrder
      intro hOrder
      apply bind_rest
      split
      · rename_i dot segment ls hRest
        have hSegment : P segment.span :=
          hOrder.rest segment (by simp [hRest])
        split
        · apply (skip 2).bind
          intro _ s₁ _ _
          exact ih (located_extendAlias hName hSegment)
        · exact pure hName
      · exact pure hName

omit hExpr in
theorem structAttribute
    {mark : Lexeme}
    (hMark : P mark.span) :
    Locates P (fun r _ => AllLocated P (eitherNode r))
      (Parse.structAttribute mark) s := by
  apply (skip 1).bind
  intro _ s₁ _ _
  apply (expect _ _).bind
  rintro (e | l) s₂ _ hFound
  · exact pure (by simpa [eitherNode] using hFound.1)
  · have hName : Located P ⟨.identifier l.text, l.span⟩ :=
      .mk hFound.1 rfl allThroughout_nil
    have hWhole : Located P ⟨.unary mark.text
        ⟨.identifier l.text, l.span⟩, mark.span.merge l.span⟩ :=
      .mk (Merges.merge hMark hFound.1) rfl (by
        simpa [Form.nodes] using hName)
    exact pure (by simpa [eitherNode] using hWhole)

omit hExpr in
theorem structHead :
    Locates P (fun r _ => AllLocated P (eitherNode r))
      Parse.structHead s := by
  have hLeaf {f : Form Node} {span : Span} (hMarks : f.marks = [])
      (hNodes : f.nodes = []) (hSpan : P span) :
      AllLocated P [⟨f, span⟩] := by
    have hLocated : Located P ⟨f, span⟩ :=
      .mk hSpan hMarks (by simp [hNodes])
    simpa using hLocated
  apply bind_peek
  · apply (errorNode _).bind
    intro e s₁ _ hE
    exact pure (by simpa [eitherNode] using hE.1)
  · intro l hSpan _ _
    dsimp only
    split
    · apply (skip 1).bind
      intro _ s₁ _ _
      exact pure (hLeaf rfl rfl hSpan)
    · apply (skip 1).bind
      intro _ s₁ _ _
      exact pure (hLeaf rfl rfl hSpan)
    · exact structAttribute hSpan
    · apply (wantedNode _).bind
      intro e s₁ _ hE
      exact pure (by simpa [eitherNode] using hE.1)

omit hExpr in
theorem structName :
    Locates P (fun n _ => Located P n) Parse.structName s := by
  apply structHead.bind
  rintro (e | name) s₁ _ hHead
  · exact pure (hHead e List.mem_cons_self)
  · exact bind_rest
      (structSegments _ (hHead name List.mem_cons_self))

theorem structOrMap :
    Locates P (fun n _ => Located P n) (Parse.structOrMap expr)
      s := by
  apply bind_currentSpan
  intro hPercent _
  apply (skip 1).bind
  intro _ s₁ _ _
  apply bind_isAt
  rintro (_ | _)
  · apply structName.bind
    intro name s₂ _ hName
    apply bind_isAt
    rintro (_ | _)
    · exact (wantedNode _).mono fun _ _ hE => hE.1
    · apply (mapBody hExpr).bind
      rintro ⟨body, span⟩ s₃ _ ⟨hBody, hSpan⟩
      exact pure (.mk (Merges.merge hPercent hSpan) rfl
        ((allThroughout_cons _ _).mpr ⟨hName, hBody⟩))
  · apply (mapBody hExpr).bind
    rintro ⟨body, span⟩ s₂ _ ⟨hBody, hSpan⟩
    exact pure (.mk (Merges.merge hPercent hSpan) rfl hBody)

end Brackets

------------------------------------------------------------
-- Heads of clauses
------------------------------------------------------------

/- The arrow may get an error, if the clause is out of place. -/
def finished
    (P : Span → Prop)
    (c : Clause Node)
    (s : ParseState) : Prop :=
  c.IsLocated P ∧ s.Admits c.arrow

/- A head with its arrow, or with what stands in for one. -/
theorem finished_arrow
    {head : List Node}
    {guard : Option Node}
    {arrow : Lexeme}
    (hHead : AllLocated P (head ++ guard.toList))
    (hArrow : IsAdmitted P arrow s) :
    finished P ⟨head, guard, [], arrow.span⟩ s :=
  ⟨⟨Builds.allThroughout_clause _ hHead, hArrow.1⟩, hArrow.2⟩

theorem finished_headed
    {head : List Node}
    {guard : Option Node}
    {e : Node}
    (hHead : AllLocated P (head ++ guard.toList))
    (hError : Located P e ∧ s.Admits e.span) :
    finished P ⟨head ++ [e], guard, [], e.span⟩ s :=
  ⟨⟨Builds.allThroughout_headed _ hHead hError.1, hError.1.span⟩,
    hError.2⟩

theorem finishHead
    {head : List Node}
    {guard : Option Node}
    (hHead : AllLocated P (head ++ guard.toList)) :
    Locates P (finished P) (Parse.finishHead head guard) s := by
  cases guard with
  | some g =>
      apply (expect _ _).bind
      rintro (e | arrow) s₁ _ hFound
      · exact pure (finished_headed hHead hFound)
      · exact pure (finished_arrow hHead hFound)
  | none =>
      have hBare : AllLocated P head := by
        simpa using hHead
      have hSplit := allThroughout_splitGuard hBare
      apply (expect _ _).bind
      rintro (e | arrow) s₁ _ hFound
      · exact pure (finished_headed hSplit hFound)
      · exact pure (finished_arrow hSplit hFound)

theorem checkFirstClause
    {c : Clause Node}
    (expressions : List Node)
    (clauses : List (Clause Node))
    (hC : finished P c s) :
    Locates P (fun c _ => c.IsLocated P)
      (Parse.checkFirstClause expressions clauses c) s := by
  obtain ⟨hLocated, hAdmits⟩ := hC
  unfold Parse.checkFirstClause
  split
  · apply (failure hLocated.arrow hLocated.arrow (.inl hAdmits)).bind
    rintro e s₁ _ ⟨hE, -⟩
    refine pure ⟨?_, hLocated.arrow⟩
    have hAll : AllLocated P (c.nodes ++ [e]) := by
      simp [hLocated.nodes, hE]
    simpa [Clause.nodes] using hAll
  · exact pure hLocated

/- The complaint is about the opening, and not where it ends. -/
theorem unendedSection
    [Merges P]
    {opened : Span}
    {b : Body Node}
    (name : String)
    (hOpened : P opened)
    (hStart : opened.start ≤ s.front)
    (hBody : b.IsLocated P) :
    Locates P (fun r _ => SectionsAreLocated P r.1 ∧ P r.2)
      (Parse.unendedSection opened name b) s := by
  apply (failure hOpened hOpened (.inr ⟨rfl, hStart⟩)).bind
  rintro e s₁ _ ⟨hE, -⟩
  apply bind_previousSpan
  intro x hX
  exact pure ⟨.cons name (hBody.push hE) sectionsAreLocated_nil,
    Merges.merge hOpened hX⟩

section Blocks

variable [Merges P]
variable (hExpr : ∀ precedence context s,
  Locates P (fun n _ => Located P n) (expr precedence context) s)

include hExpr

omit [Merges P] in
theorem headGuard :
    Locates P (located P Option.toList) (Parse.headGuard expr) s := by
  apply (eat _).bind
  rintro (_ | _) s₁ _ _
  · exact pure allThroughout_nil
  · apply skipLineEnds.bind
    intro _ s₂ _ _
    apply (hExpr _ _ _).bind
    intro g s₃ _ hG
    exact pure (by simpa [located] using hG)

theorem parenthesizedHead :
    Locates P (finished P) (Parse.parenthesizedHead expr) s := by
  apply (enclosed hExpr .parenthesis).bind
  rintro ⟨head, span⟩ s₁ _ ⟨hHead, _⟩
  apply (headGuard hExpr).bind
  intro guard s₂ _ hGuard
  exact finishHead ((allThroughout_append _ _).mpr ⟨hHead, hGuard⟩)

theorem headItemsFor
    (n : Nat)
    (s : ParseState) :
    Locates P (fun ns _ => AllLocated P ns)
      (Parse.headItemsFor expr n) s := by
  induction n generalizing s with
  | zero =>
      apply cutOff.bind
      intro _ s₁ _ _
      exact pure allThroughout_nil
  | succ n ih =>
      apply (eat .comma).bind
      rintro (_ | _) s₁ _ _
      · exact pure allThroughout_nil
      · apply skipLineEnds.bind
        intro _ s₂ _ _
        apply bind_rest
        split
        · apply (keywords hExpr).bind
          intro pairs s₃ _ hPairs
          exact pure (by simpa using hPairs)
        · apply (hExpr _ _ _).bind
          intro item s₃ _ hItem
          apply (ih s₃).bind
          intro more s₄ _ hMore
          exact pure ((allThroughout_cons _ _).mpr ⟨hItem, hMore⟩)

/- A clause whose arrow was just read, or an expression. -/
def itemLocated
    (P : Span → Prop) : Item → ParseState → Prop
| .clause c, s => finished P c s
| .expression n, _ => Located P n

theorem openClauseOrStatement :
    Locates P (itemLocated P) (Parse.openClauseOrStatement expr)
      s := by
  apply (hExpr _ _ _).bind
  intro first s₁ _ hFirst
  apply bind_isAt
  intro isComma
  apply bind_isAt
  intro isStab
  split
  · apply bind_rest
    apply (headItemsFor hExpr _ _).bind
    intro more s₂ _ hMore
    have hHead : AllLocated P
        (first :: more ++ (none : Option Node).toList) := by
      simp [hFirst, hMore]
    apply (finishHead hHead).bind
    intro c s₃ _ hC
    exact pure hC
  · exact pure hFirst

theorem clauseOrStatement :
    Locates P (itemLocated P) (Parse.clauseOrStatement expr) s := by
  apply (eat _).bind
  rintro (_ | arrow) s₁ _ hFound
  · apply bind_rest
    apply bind_isAt
    intro isHead
    split
    · apply (parenthesizedHead hExpr).bind
      intro c s₂ _ hC
      exact pure hC
    · exact openClauseOrStatement hExpr
  · obtain ⟨hSpan, hAdmits⟩ := hFound arrow rfl
    exact pure ⟨⟨allThroughout_nil, hSpan⟩, hAdmits⟩

------------------------------------------------------------
-- Bodies
------------------------------------------------------------

theorem bodyFor
    {expressions : List Node}
    {clauses : List (Clause Node)}
    (n : Nat)
    (hExpressions : AllLocated P expressions)
    (hClauses : AllLocated P (clauses.flatMap Clause.nodes))
    (hArrows : ∀ x ∈ clauses.map Clause.arrow, P x) :
    Locates P (fun b _ => b.IsLocated P)
      (Parse.bodyFor expr stop n expressions clauses) s := by
  induction n generalizing expressions clauses s with
  | zero =>
      apply cutOff.bind
      intro _ s₁ _ _
      exact pure (isLocated_bodyOf hExpressions hClauses hArrows)
  | succ n ih =>
      apply skipSeparators.bind
      intro _ s₁ _ _
      have hEnd := isLocated_bodyOf hExpressions hClauses hArrows
      apply bind_peek
      · exact pure hEnd
      · intro l _ _ _
        split
        · exact pure hEnd
        · apply bind_rest
          apply (clauseOrStatement hExpr).bind
          rintro (c | node) s₂ _ hItem
          · apply (checkFirstClause expressions clauses hItem).bind
            intro c s₃ _ hC
            apply recover.bind
            intro _ s₄ _ _
            apply ih hExpressions
            · simpa [hC.nodes] using hClauses
            · rw [List.map_append]
              exact List.forall_mem_append.mpr
                ⟨hArrows, List.forall_mem_singleton.mpr hC.arrow⟩
          · apply finishStatement.bind
            intro e s₃ _ hE
            have hWhole := withTrailing hItem hE
            dsimp only
            split
            · exact ih (by simpa [hWhole] using hExpressions)
                hClauses hArrows
            · apply ih hExpressions
                (allThroughout_pushLast hWhole hClauses)
              rw [arrows_pushLast]
              exact hArrows

theorem body
    (s : ParseState) :
    Locates P (fun b _ => b.IsLocated P) (Parse.body expr stop) s :=
  bind_rest (isolated fun _ =>
    bodyFor hExpr _ allThroughout_nil allThroughout_nil (by simp))

theorem sectionsFor
    {opened : Span}
    (n : Nat)
    (name : String)
    (hOpened : P opened)
    (hStart : opened.start ≤ s.front) :
    Locates P (fun r _ => SectionsAreLocated P r.1 ∧ P r.2)
      (Parse.sectionsFor expr opened n name) s := by
  induction n generalizing name s with
  | zero =>
      apply cutOff.bind
      intro _ s₁ _ _
      exact pure ⟨sectionsAreLocated_nil, hOpened⟩
  | succ n ih =>
      apply (body hExpr s).bind
      intro b s₁ hFront hBody
      have hStart₁ := Nat.le_trans hStart hFront
      apply bind_peek
      · exact unendedSection name hOpened hStart₁ hBody
      · intro l hSpan _ _
        dsimp only
        split
        · apply (skip 1).bind
          intro _ s₂ _ _
          exact pure ⟨.cons name hBody sectionsAreLocated_nil,
            Merges.merge hOpened hSpan⟩
        · split
          · apply (skip 1).bind
            intro _ s₂ hFront' _
            apply (ih l.text (Nat.le_trans hStart₁ hFront')).bind
            rintro ⟨more, span⟩ s₃ _ ⟨hMore, hSpan⟩
            exact pure ⟨.cons name hBody hMore, hSpan⟩
          · exact unendedSection name hOpened hStart₁ hBody

theorem doBlock :
    Locates P (fun b _ => b.IsLocated P) (Parse.doBlock expr) s := by
  apply bind_currentSpan
  intro hOpened hAdmits
  apply (skip 1).bind
  intro _ s₁ hFront _
  apply bind_rest
  apply (sectionsFor hExpr _ "do" hOpened
    (Nat.le_trans hAdmits.1 hFront)).bind
  rintro ⟨sections, span⟩ s₂ _ ⟨hSections, hSpan⟩
  exact pure ⟨hSections.nodes,
    List.forall_mem_cons.mpr ⟨hSpan, hSections.marks⟩⟩

/- The complaint about a body without clauses is at the `fn`. -/
theorem fn :
    Locates P (fun n _ => Located P n) (Parse.fn expr) s := by
  apply bind_currentSpan
  intro hOpened hAdmits
  apply (skip 1).bind
  intro _ s₁ hFront _
  apply (body hExpr s₁).bind
  intro b s₂ hFront' hBody
  have hStart :=
    Nat.le_trans hAdmits.1 (Nat.le_trans hFront hFront')
  apply (close .blockEnd hOpened hStart allThroughout_nil).bind
  rintro ⟨trailing, span⟩ s₃ hFront'' ⟨hTrailing, hSpan⟩
  have hAll := allThroughout_foldl_push hBody.nodes hTrailing
  have hMarks := marks_foldl_push b trailing
  dsimp only
  split
  · rename_i cs hClauses
    rw [hClauses] at hAll hMarks
    have hArrows : ∀ x ∈ (Body.clauses cs).marks, P x := by
      rw [hMarks]
      exact hBody.marks
    exact pure (located_iff.mpr ⟨hSpan, hArrows, hAll⟩)
  · apply (failure hOpened hSpan (.inr ⟨rfl,
      Nat.le_trans hStart hFront''⟩)).mono
    exact fun _ _ hE => hE.1

end Blocks

end Locates

end ElixirReader
