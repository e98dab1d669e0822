import ElixirReader.Proofs.Building.Parts

/-
  This file follows what holds of trees through literals,
  brackets and blocks. None of these extends what was read
  before, so what they give starts anew.

  Main declarations:
    * `Builds.text`
    * `Builds.keywords`
    * `Builds.enclosed`
    * `Builds.structOrMap`
    * `Builds.doBlock`
-/

namespace ElixirReader

open Parse

variable {m n : Nat}
variable {L : Node → Prop}
variable {V : Context → Node → Prop}
variable {expr : ExpressionParser}
variable {context : Context}
variable {stop : Kind → Bool}

------------------------------------------------------------
-- Trees that are put together
------------------------------------------------------------

/- The name of an alias is put into it, and the base is kept. -/
theorem allThroughout_extendAlias
    {receiver : Node}
    (segment : Lexeme)
    (hReceiver : receiver.Throughout L) :
    AllThroughout L (extendAlias receiver segment).children := by
  rcases receiver with ⟨form, span⟩
  cases form with
  | «alias» base segments => exact (Node.throughout_iff.mp hReceiver).2
  | _ =>
      change AllThroughout L [_]
      exact (allThroughout_cons _ _).mpr
        ⟨hReceiver, allThroughout_nil⟩

theorem Sustains.throughout_extendAlias
    (hV : Sustains L V)
    {receiver : Node}
    (segment : Lexeme)
    (hReceiver : receiver.Throughout L) :
    (extendAlias receiver segment).Throughout L := by
  have hChildren := allThroughout_extendAlias segment hReceiver
  refine Node.throughout_iff.mpr ⟨?_, hChildren⟩
  rcases receiver with ⟨form, span⟩
  cases form <;> exact hV.here _ rfl

/- A guard is taken out of an operation. -/
theorem allThroughout_splitGuard
    {head : List Node}
    (hHead : AllThroughout L head) :
    AllThroughout L ((splitGuard head).1 ++
      (splitGuard head).2.toList) := by
  unfold splitGuard
  split
  · rename_i operator left right at' span hLast
    split
    · rcases List.getLast?_eq_some_iff.mp hLast with ⟨ns, rfl⟩
      rw [allThroughout_append] at hHead
      have hBelow := (Node.throughout_iff.mp
        (hHead.2 _ List.mem_cons_self)).2
      have hSides : AllThroughout L [left, right] := hBelow
      simp only [allThroughout_cons, allThroughout_nil, and_true] at hSides
      simp [hHead.1, hSides]
    · simpa using hHead
  · simpa using hHead

/- A node goes behind a body, if there is a place for it. -/
theorem allThroughout_pushLast
    {node : Node}
    {clauses : List (Clause Node)}
    (hNode : node.Throughout L)
    (hClauses : AllThroughout L (clauses.flatMap Clause.nodes)) :
    AllThroughout L
      ((Clause.pushLast node clauses).flatMap Clause.nodes) := by
  by_cases hNil : clauses = []
  · rw [hNil]
    exact allThroughout_nil
  · rw [nodes_pushLast node hNil]
    simpa [hNode] using hClauses

theorem allThroughout_push
    {node : Node}
    {b : Body Node}
    (hNode : node.Throughout L)
    (hBody : AllThroughout L b.nodes) :
    AllThroughout L (b.push node).nodes := by
  cases b with
  | expressions ns =>
      exact (allThroughout_append _ _).mpr ⟨hBody, by simpa using hNode⟩
  | clauses cs => exact allThroughout_pushLast hNode hBody

theorem allThroughout_foldl_push
    {b : Body Node}
    {trailing : List Node}
    (hBody : AllThroughout L b.nodes)
    (hTrailing : AllThroughout L trailing) :
    AllThroughout L (trailing.foldl (fun b e => b.push e) b).nodes := by
  induction trailing generalizing b with
  | nil => exact hBody
  | cons e es ih =>
      rw [allThroughout_cons] at hTrailing
      exact ih (allThroughout_push hTrailing.1 hBody) hTrailing.2

theorem allThroughout_bodyOf
    {expressions : List Node}
    {clauses : List (Clause Node)}
    (hExpressions : AllThroughout L expressions)
    (hClauses : AllThroughout L (clauses.flatMap Clause.nodes)) :
    AllThroughout L (bodyOf expressions clauses).nodes := by
  unfold bodyOf
  split
  · exact hExpressions
  · exact hClauses

namespace Builds

section Texts

variable [∀ precedence context, Retains (expr precedence context)]
variable (hV : Sustains L V)
variable (hExpr : ∀ precedence context,
  Builds m (V context) (expr precedence context))

include hV hExpr

omit [∀ precedence context,
  Retains (expr precedence context)] in
theorem throughout
    (precedence : Nat)
    (context : Context) :
    Builds m (Node.Throughout L) (expr precedence context) :=
  (hExpr precedence context).mono fun _ => hV.all

------------------------------------------------------------
-- Texts
------------------------------------------------------------

theorem interpolation
    (opened : Span) :
    Builds m (Node.Throughout L) (Parse.interpolation expr opened) := by
  apply bind_any
  intro _
  apply (statementList hV hExpr).bind
  intro nodes hNodes
  apply bind_any
  intro span
  exact pure (hV.throughout (f := .block nodes) span rfl hNodes)

theorem segmentsFor
    (span : Span) :
    Builds m (fun i => AllThroughout L (insideNodes i))
      (Parse.segmentsFor expr n span) := by
  induction n generalizing span with
  | zero => exact bind_any fun _ => pure allThroughout_nil
  | succ n ih =>
      apply bind_any
      intro next
      cases next with
      | none => exact pure allThroughout_nil
      | some l =>
          dsimp only
          split
          · rename_i segment hPlain
            apply bind_any
            intro _
            apply (ih _).bind
            intro i hI
            apply pure
            change AllThroughout L (segment.nodes ++ insideNodes i)
            rw [nodes_plainSegment? hPlain]
            exact hI
          · split
            · apply (interpolation hV hExpr _).bind
              intro node hNode
              apply (ih _).bind
              intro i hI
              apply pure
              change AllThroughout L ([node] ++ insideNodes i)
              simpa [hNode] using hI
            · split
              · exact bind_any fun _ => pure allThroughout_nil
              · exact pure allThroughout_nil

theorem text :
    Builds m (fun t => AllThroughout L (textNodes t))
      (Parse.text expr) := by
  have hBody : ∀ kind heredoc span,
      Builds m (fun t => AllThroughout L (textNodes t)) (do
        let i ← Parse.segmentsFor expr
          ((← Parse.rest).length + 1) span
        if !i.closed then
          Parse.poison
        return textOf kind heredoc i) := by
    intro kind heredoc span
    apply bind_any
    intro ls
    apply (segmentsFor hV hExpr span).bind
    intro i hI
    have hText : AllThroughout L (textNodes (textOf kind heredoc i)) := by
      rw [textNodes_textOf]
      exact hI
    cases i.closed with
    | false => exact bind_any fun _ => pure hText
    | true => exact pure hText
  apply bind_any
  intro start
  apply bind_any
  intro next
  rcases promoterText next with ⟨kind, _ | _⟩
  · apply bind_any
    intro _
    exact hBody kind false start
  · apply bind_any
    intro _
    apply bind_any
    intro _
    exact hBody kind true start

theorem textNode :
    Builds m (Node.IsAnew L) (Parse.textNode expr) := by
  apply (text hV hExpr).bind
  rintro ⟨t, span⟩ hT
  exact pure (hV.isAnew (f := .text t) span rfl hT)

theorem sigilBody
    (tilde : Span)
    (name : String) :
    Builds m (Node.IsAnew L)
      (Parse.sigilBody expr tilde name) := by
  apply bind_any
  intro next
  split
  · apply (text hV hExpr).bind
    rintro ⟨t, body⟩ hT
    apply bind_any
    rintro ⟨modifiers, span⟩
    exact pure (hV.isAnew (f := .sigil name t modifiers) span rfl hT)
  · exact wantedNode hV _

theorem sigil :
    Builds m (Node.IsAnew L) (Parse.sigil expr) := by
  apply bind_any
  intro tilde
  apply bind_any
  intro _
  apply bind_any
  intro next
  cases next with
  | none => exact wantedNode hV _
  | some l =>
      dsimp only
      split
      · exact bind_any fun _ => sigilBody hV hExpr tilde l.text
      · exact wantedNode hV _

theorem atom :
    Builds m (Node.IsAnew L) (Parse.atom expr) := by
  apply bind_any
  intro colon
  apply bind_any
  intro _
  apply bind_any
  intro next
  cases next with
  | none => exact wantedNode hV _
  | some l =>
      dsimp only
      split
      · exact bind_any fun _ => pure
          (hV.isAnew (f := .atom l.text) _ rfl allThroughout_nil)
      · split
        · apply (text hV hExpr).bind
          rintro ⟨t, span⟩ hT
          exact pure (hV.isAnew (f := .quotedAtom t) _ rfl hT)
        · exact wantedNode hV _

------------------------------------------------------------
-- Keyword pairs
------------------------------------------------------------

theorem keywordKey :
    Builds m (fun key => AllThroughout L key.toList)
      (Parse.keywordKey expr) := by
  have hLeaf : ∀ (name : String) (span : Span),
      AllThroughout L [⟨.atom name, span⟩] := by
    intro name span
    simpa using
      hV.throughout (f := .atom name) span rfl allThroughout_nil
  apply bind_any
  intro next
  cases next with
  | none => exact pure allThroughout_nil
  | some l =>
      dsimp only
      split
      · have hBare : Builds m (fun key => AllThroughout L [key])
            (Parse.bareKey l) := by
          apply bind_any
          intro _
          apply bind_any
          intro colon
          cases colon <;> exact pure (hLeaf _ _)
        apply hBare.bind
        intro key hKey
        exact pure hKey
      · apply bind_any
        intro ls
        split
        · apply (text hV hExpr).bind
          rintro ⟨t, span⟩ hT
          apply bind_any
          intro colon
          cases colon with
          | error e => exact pure allThroughout_nil
          | ok l =>
              have hKey := hV.throughout (f := .quotedAtom t)
                (span.merge l.span) rfl hT
              exact pure (by simpa using hKey)
        · exact bind_any fun _ => pure allThroughout_nil

theorem pairsFor
    (span : Span) :
    Builds m
      (fun r => ∀ p ∈ r.1, p.1.Throughout L ∧ V context p.2)
      (Parse.pairsFor expr context n span) := by
  induction n generalizing span with
  | zero => exact bind_any fun _ => pure (List.forall_mem_nil _)
  | succ n ih =>
      apply (keywordKey hV hExpr).bind
      intro key hKey
      cases key with
      | none => exact pure (List.forall_mem_nil _)
      | some key =>
          have hKey : key.Throughout L := hKey key List.mem_cons_self
          apply bind_any
          intro _
          apply (hExpr 0 context).bind
          intro value hValue
          apply bind_any
          intro ls
          cases pairSeparator? ls with
          | none =>
              exact pure (List.forall_mem_singleton.mpr
                ⟨hKey, hValue⟩)
          | some i =>
              apply bind_any
              intro _
              apply (ih _).bind
              rintro ⟨pairs, last⟩ hPairs
              exact pure (List.forall_mem_cons.mpr
                ⟨⟨hKey, hValue⟩, hPairs⟩)

theorem keywords :
    Builds m (Opens L V context) (Parse.keywords expr context) := by
  apply bind_any
  intro start
  apply bind_any
  intro ls
  apply (pairsFor hV hExpr start).bind
  rintro ⟨pairs, span⟩ hPairs
  exact pure (.keywords span hPairs)

theorem throughout_keywords :
    Builds m (Node.Throughout L) (Parse.keywords expr context) :=
  (keywords hV hExpr).mono fun _ hOpens =>
    hV.all (hV.opens hOpens)

------------------------------------------------------------
-- Elements between brackets
------------------------------------------------------------

theorem itemsFor
    (closer : Kind) :
    Builds m (AllThroughout L) (Parse.itemsFor expr closer n) := by
  induction n with
  | zero => exact bind_any fun _ => pure allThroughout_nil
  | succ n ih =>
      apply bind_any
      intro _
      apply bind_any
      intro next
      split
      · exact pure allThroughout_nil
      · apply bind_any
        intro ls
        split
        · apply (throughout_keywords hV hExpr).bind
          intro pairs hPairs
          apply bind_any
          intro _
          apply bind_any
          intro _
          exact pure (by simpa using hPairs)
        · apply (throughout hV hExpr 0 .container).bind
          intro item hItem
          apply bind_any
          intro _
          apply bind_any
          intro comma
          cases comma with
          | none => exact pure (by simpa using hItem)
          | some _ =>
              apply ih.bind
              intro more hMore
              exact pure ((allThroughout_cons _ _).mpr ⟨hItem, hMore⟩)

theorem items
    (closer : Kind) :
    Builds m (AllThroughout L) (Parse.items expr closer) := by
  apply bind_any
  intro ls
  exact itemsFor hV hExpr closer

theorem enclosed
    (bracket : Bracket) :
    Builds m (fun r => AllThroughout L (nodesWithSpan r))
      (Parse.enclosed expr bracket) := by
  apply bind_any
  intro opened
  apply bind_any
  intro _
  apply (items hV hExpr _).bind
  intro found hFound
  exact close hV _ opened hFound

theorem container
    {form : List Node → Form Node}
    (bracket : Bracket)
    (hClosed : ∀ ns, (form ns).isClosed = true)
    (hNodes : ∀ ns, (form ns).nodes = ns) :
    Builds m (Node.IsAnew L)
      (Parse.container expr bracket form) := by
  apply (enclosed hV hExpr bracket).bind
  rintro ⟨found, span⟩ hFound
  apply pure
  apply hV.isAnew span (hClosed found)
  rw [hNodes]
  exact hFound

/-
  Behind an opening parenthesis. What is between parentheses
  may be a tree by itself.
-/
theorem parenthesized
    (opened : Span) :
    Builds m (Node.Throughout L) (do
      let body ← Parse.statements expr
        (· == .closing .parenthesis)
      let (body, span) ← Parse.close (.bracket .parenthesis)
        opened body
      return unwrap span body) := by
  apply (statementList hV hExpr).bind
  intro body hBody
  apply (close hV _ opened hBody).bind
  rintro ⟨body, span⟩ hBody
  apply pure
  rcases body with _ | ⟨n, _ | ⟨n', ns⟩⟩
  · exact hV.throughout (f := .block []) span rfl hBody
  · exact hBody n List.mem_cons_self
  · exact hV.throughout (f := .block (n :: n' :: ns)) span rfl hBody

------------------------------------------------------------
-- Maps
------------------------------------------------------------

theorem entries :
    Builds m (fun e => AllThroughout L e.nodes)
      (Parse.entries expr) := by
  apply bind_any
  intro _
  apply bind_any
  intro ls
  split
  · apply (throughout hV hExpr (Precedence.pipe + 1) .container).bind
    intro first hFirst
    apply bind_any
    intro _
    apply bind_any
    intro pipe
    cases pipe with
    | some _ =>
        apply (items hV hExpr _).bind
        intro found hFound
        exact pure ((allThroughout_cons _ _).mpr ⟨hFirst, hFound⟩)
    | none =>
        apply bind_any
        intro comma
        cases comma with
        | none => exact pure ((allThroughout_cons _ _).mpr
            ⟨hFirst, allThroughout_nil⟩)
        | some _ =>
            apply (items hV hExpr _).bind
            intro found hFound
            exact pure ((allThroughout_cons _ _).mpr ⟨hFirst, hFound⟩)
  · apply (items hV hExpr _).bind
    intro found hFound
    exact pure hFound

theorem mapBody :
    Builds m (fun r => AllThroughout L r.1.nodes)
      (Parse.mapBody expr) := by
  apply bind_any
  intro opened
  apply bind_any
  intro _
  apply (entries hV hExpr).bind
  rintro ⟨update, found⟩ hEntries
  have hBoth := (allThroughout_append _ _).mp hEntries
  apply (close hV _ opened hBoth.2).bind
  rintro ⟨found, span⟩ hFound
  exact pure ((allThroughout_append _ _).mpr ⟨hBoth.1, hFound⟩)

end Texts

------------------------------------------------------------
-- Parts without expressions
------------------------------------------------------------

section Heads

variable (hV : Sustains L V)

include hV

theorem structSegments
    {name : Node}
    (hName : name.Throughout L) :
    Builds m (Node.Throughout L) (Parse.structSegments n name) := by
  induction n generalizing name with
  | zero => exact bind_any fun _ => pure hName
  | succ n ih =>
      apply bind_any
      intro ls
      split
      · split
        · apply bind_any
          intro _
          exact ih (hV.throughout_extendAlias _ hName)
        · exact pure hName
      · exact pure hName

theorem structHead :
    Builds m (fun r => AllThroughout L (eitherNode r))
      Parse.structHead := by
  have hLeaf : ∀ (f : Form Node) (span : Span),
      f.isPlain = true → f.nodes = [] →
        AllThroughout L [⟨f, span⟩] := by
    intro f span hPlain hNodes
    simpa using hV.throughout span hPlain
      (by rw [hNodes]; exact allThroughout_nil)
  apply bind_any
  intro next
  cases next with
  | none =>
      apply (errorNode hV _).bind
      intro e hE
      exact pure (by simpa [eitherNode] using hE.all)
  | some l =>
      dsimp only
      split
      · exact bind_any fun _ => pure (hLeaf _ _ rfl rfl)
      · exact bind_any fun _ => pure (hLeaf _ _ rfl rfl)
      · apply bind_any
        intro _
        apply (expect hV _ _).bind
        intro r hR
        cases r with
        | ok name =>
            have hName := hLeaf (.identifier name.text) name.span
              rfl rfl
            have hUnary := hV.throughout
              (f := .unary l.text ⟨.identifier name.text, name.span⟩)
              (l.span.merge name.span) rfl hName
            exact pure (by simpa [eitherNode] using hUnary)
        | error e =>
            exact pure (by simpa [eitherNode] using hR e rfl)
      · apply (wantedNode hV _).bind
        intro e hE
        exact pure (by simpa [eitherNode] using hE.all)

theorem structName :
    Builds m (Node.Throughout L) Parse.structName := by
  apply (structHead hV).bind
  intro r hR
  have hNode : ∀ n, eitherNode r = [n] → n.Throughout L := by
    intro n hEq
    exact hR n (by simp [hEq])
  cases r with
  | error e => exact pure (hNode e rfl)
  | ok name =>
      apply bind_any
      intro ls
      exact structSegments hV (hNode name rfl)

omit hV in
theorem allThroughout_clause
    {head : List Node}
    {guard : Option Node}
    (span : Span)
    (hHead : AllThroughout L (head ++ guard.toList)) :
    AllThroughout L (Clause.nodes ⟨head, guard, [], span⟩) := by
  simpa [Clause.nodes] using hHead

omit hV in
/- What stands in for an arrow goes behind the head. -/
theorem allThroughout_headed
    {head : List Node}
    {guard : Option Node}
    {e : Node}
    (span : Span)
    (hHead : AllThroughout L (head ++ guard.toList))
    (hError : e.Throughout L) :
    AllThroughout L (Clause.nodes ⟨head ++ [e], guard, [], span⟩) := by
  rw [allThroughout_append] at hHead
  simp [Clause.nodes, hHead, hError]

/- The arrow of a clause, or what stands in for it. -/
theorem finishHead
    {head : List Node}
    {guard : Option Node}
    (hHead : AllThroughout L (head ++ guard.toList)) :
    Builds m (fun c => AllThroughout L c.nodes)
      (Parse.finishHead head guard) := by
  cases guard with
  | some g =>
      apply (expect hV (.operator .stab) .arrow).bind
      rintro (e | arrow) hFound
      · exact pure (allThroughout_headed _ hHead (hFound e rfl))
      · exact pure (allThroughout_clause _ hHead)
  | none =>
      have hBare : AllThroughout L head := by
        simpa using hHead
      have hSplit := allThroughout_splitGuard hBare
      apply (expect hV (.operator .stab) .arrow).bind
      rintro (e | arrow) hFound
      · exact pure (allThroughout_headed _ hSplit (hFound e rfl))
      · exact pure (allThroughout_clause _ hSplit)

theorem checkFirstClause
    {c : Clause Node}
    (expressions : List Node)
    (clauses : List (Clause Node))
    (hC : AllThroughout L c.nodes) :
    Builds m (fun c => AllThroughout L c.nodes)
      (Parse.checkFirstClause expressions clauses c) := by
  unfold Parse.checkFirstClause
  split
  · apply (failure hV _ _ _).bind
    intro e hE
    apply pure
    have hAll : AllThroughout L (c.nodes ++ [e]) := by
      simp [hC, hE.all]
    simpa [Clause.nodes] using hAll
  · exact pure hC

theorem unendedSection
    {b : Body Node}
    (opened : Span)
    (name : String)
    (hBody : AllThroughout L b.nodes) :
    Builds m (fun r => AllThroughout L (sectionNodes r))
      (Parse.unendedSection opened name b) := by
  apply (failure hV _ _ _).bind
  intro e hE
  apply bind_any
  intro previous
  apply pure
  have hPushed := allThroughout_push hE.all hBody
  simpa [sectionNodes, Section.nodes] using hPushed

end Heads

section Blocks

variable [∀ precedence context, Retains (expr precedence context)]
variable (hV : Sustains L V)
variable (hExpr : ∀ precedence context,
  Builds m (V context) (expr precedence context))

include hV hExpr

theorem structOrMap :
    Builds m (Node.IsAnew L) (Parse.structOrMap expr) := by
  apply bind_any
  intro percent
  apply bind_any
  intro _
  apply bind_any
  intro isMap
  cases isMap with
  | true =>
      apply (mapBody hV hExpr).bind
      rintro ⟨body, span⟩ hBody
      exact pure (hV.isAnew (f := .map body) _ rfl hBody)
  | false =>
      apply (structName hV).bind
      intro name hName
      apply bind_any
      intro isStruct
      cases isStruct with
      | true =>
          apply (mapBody hV hExpr).bind
          rintro ⟨body, span⟩ hBody
          exact pure (hV.isAnew (f := .struct name body) _ rfl
            ((allThroughout_cons _ _).mpr ⟨hName, hBody⟩))
      | false => exact wantedNode hV _

------------------------------------------------------------
-- Heads of clauses
------------------------------------------------------------

theorem parenthesizedHead :
    Builds m (fun c => AllThroughout L c.nodes)
      (Parse.parenthesizedHead expr) := by
  apply (enclosed hV hExpr .parenthesis).bind
  rintro ⟨head, span⟩ hHead
  have hGuard : Builds m (fun g => AllThroughout L g.toList)
      (Parse.headGuard expr) := by
    apply bind_any
    intro word
    cases word with
    | none => exact pure allThroughout_nil
    | some _ =>
        apply bind_any
        intro _
        apply (throughout hV hExpr Precedence.whenGuard .statement).bind
        intro g hG
        exact pure (by simpa using hG)
  apply hGuard.bind
  intro guard hG
  exact finishHead hV ((allThroughout_append _ _).mpr ⟨hHead, hG⟩)

theorem headItemsFor :
    Builds m (AllThroughout L) (Parse.headItemsFor expr n) := by
  induction n with
  | zero => exact bind_any fun _ => pure allThroughout_nil
  | succ n ih =>
      apply bind_any
      intro comma
      cases comma with
      | none => exact pure allThroughout_nil
      | some _ =>
          apply bind_any
          intro _
          apply bind_any
          intro ls
          split
          · apply (throughout_keywords hV hExpr).bind
            intro pairs hPairs
            exact pure (by simpa using hPairs)
          · apply (throughout hV hExpr 0 .container).bind
            intro item hItem
            apply ih.bind
            intro more hMore
            exact pure ((allThroughout_cons _ _).mpr ⟨hItem, hMore⟩)

theorem clauseOrStatement :
    Builds m (fun i => AllThroughout L (itemNodes i))
      (Parse.clauseOrStatement expr) := by
  apply bind_any
  intro stab
  cases stab with
  | some arrow => exact pure allThroughout_nil
  | none =>
      apply bind_any
      intro ls
      apply bind_any
      intro isHead
      split
      · apply (parenthesizedHead hV hExpr).bind
        intro c hC
        exact pure hC
      · apply (throughout hV hExpr 0 .statement).bind
        intro first hFirst
        apply bind_any
        intro isComma
        apply bind_any
        intro isStab
        split
        · apply bind_any
          intro ls
          apply (headItemsFor hV hExpr).bind
          intro more hMore
          have hHead :
              AllThroughout L
                (first :: more ++ (none : Option Node).toList) := by
            simp [hFirst, hMore]
          apply (finishHead hV hHead).bind
          intro c hC
          exact pure hC
        · exact pure (by simpa [itemNodes] using hFirst)

------------------------------------------------------------
-- Bodies
------------------------------------------------------------

theorem bodyFor
    {expressions : List Node}
    {clauses : List (Clause Node)}
    (hExpressions : AllThroughout L expressions)
    (hClauses : AllThroughout L (clauses.flatMap Clause.nodes)) :
    Builds m (fun b => AllThroughout L b.nodes)
      (Parse.bodyFor expr stop n expressions clauses) := by
  induction n generalizing expressions clauses with
  | zero =>
      exact bind_any fun _ =>
        pure (allThroughout_bodyOf hExpressions hClauses)
  | succ n ih =>
      apply bind_any
      intro _
      apply bind_any
      intro next
      split
      · exact pure (allThroughout_bodyOf hExpressions hClauses)
      · apply bind_any
        intro start
        apply (clauseOrStatement hV hExpr).bind
        intro item hItem
        cases item with
        | clause c =>
            apply (checkFirstClause hV expressions clauses
              hItem).bind
            intro c hC
            apply bind_any
            intro _
            have hMore : AllThroughout L
                ((clauses ++ [c]).flatMap Clause.nodes) := by
              simpa [hC] using hClauses
            exact ih hExpressions hMore
        | expression node =>
            apply (finishStatement hV start).bind
            intro e hE
            have hNode : node.Throughout L := hItem node (by
              simp [itemNodes])
            have hWhole := withTrailing hV hNode hE
            dsimp only
            split
            · have hMore : AllThroughout L
                  (expressions ++ [Parse.withTrailing node e]) := by
                simpa [hWhole] using hExpressions
              exact ih hMore hClauses
            · exact ih hExpressions (allThroughout_pushLast hWhole hClauses)

theorem body :
    Builds m (fun b => AllThroughout L b.nodes)
      (Parse.body expr stop) := by
  apply bind_any
  intro ls
  exact (bodyFor hV hExpr allThroughout_nil allThroughout_nil).isolated

theorem sectionsFor
    (opened : Span)
    (name : String) :
    Builds m (fun r => AllThroughout L (sectionNodes r))
      (Parse.sectionsFor expr opened n name) := by
  induction n generalizing name with
  | zero => exact bind_any fun _ => pure allThroughout_nil
  | succ n ih =>
      apply (body hV hExpr).bind
      intro b hBody
      apply bind_any
      intro next
      cases next with
      | none => exact unendedSection hV opened name hBody
      | some l =>
          dsimp only
          split
          · apply bind_any
            intro _
            exact pure (by
              simpa [sectionNodes, Section.nodes] using hBody)
          · split
            · apply bind_any
              intro _
              apply (ih l.text).bind
              rintro ⟨more, span⟩ hMore
              apply pure
              change AllThroughout L
                (b.nodes ++ sectionNodes (more, span))
              exact (allThroughout_append _ _).mpr ⟨hBody, hMore⟩
            · exact unendedSection hV opened name hBody

theorem doBlock :
    Builds m (fun b => AllThroughout L b.nodes)
      (Parse.doBlock expr) := by
  apply bind_any
  intro opened
  apply bind_any
  intro _
  apply bind_any
  intro ls
  apply (sectionsFor hV hExpr opened "do").bind
  rintro ⟨sections, span⟩ hSections
  exact pure hSections

theorem fn :
    Builds m (Node.IsAnew L) (Parse.fn expr) := by
  apply bind_any
  intro opened
  apply bind_any
  intro _
  apply (body hV hExpr).bind
  intro b hBody
  apply (close hV .blockEnd opened allThroughout_nil).bind
  rintro ⟨trailing, span⟩ hTrailing
  have hAll := allThroughout_foldl_push hBody hTrailing
  dsimp only
  split
  · rename_i cs hBody'
    rw [hBody'] at hAll
    exact pure (hV.isAnew (f := .fn cs) span rfl hAll)
  · exact failure hV _ _ _

end Blocks

end Builds

end ElixirReader
