import ElixirReader.Proofs.Quote.Bodies

/-
  This file shows how clauses are read, with their heads and
  arrows and a body of their own; and what do blocks and
  functions make of the bodies in them.

  Key definitions include:
    * `IsHead`
    * `ReadsClause`
    * `ReadsBody`
    * `SpellsSections`

  Main declarations:
    * `readsClause`
    * `readsBody_statements`
    * `readsBody_clauses`
    * `SpellsSections.readsBlock`
    * `readsChain_fn`
-/

namespace ElixirReader

open Parse

variable {n height k : Nat}
variable {t : Term}
variable {ts : List Term}
variable {l : Lexeme}
variable {ls lead behind back more : List Lexeme}
variable {stop : Kind → Bool}

------------------------------------------------------------
-- Heads of clauses
------------------------------------------------------------

variable {items : List Term}
variable {trees : List (OperatorTree Term Sign)}
variable {pairs : List (String × OperatorTree Term Sign)}
variable {arrow : Lexeme}

theorem endsElements_arrow
    {context : Context}
    (hArrow : arrow.kind = .operator .stab) :
    EndsElements context (arrow :: more) :=
  .inr (.inl hArrow)

/- There are no more elements behind a first one than lexemes. -/
theorem Continues.length_le
    {es : List Element}
    (hBehind :
      Continues .comma (Element.IsSpelled .container) es behind) :
    es.length ≤ behind.length := by
  rcases hBehind with
    ⟨rfl, rfl⟩ | ⟨comma, ls, rfl, _, _, hElements⟩
  · exact Nat.le_refl 0
  · have hLength :=
      hElements.length_le fun _ _ hItem => hItem.ne_nil
    exact Nat.le_succ_of_le hLength

/- The elements of a head behind the first one, up to the arrow. -/
theorem yields_headItemsFor
    (hBehind :
      Continues .comma (Element.IsSpelled .container)
        (Element.all trees pairs) behind)
    (hTrees : ∀ t ∈ trees, t.Ordered Sign.binding)
    (hPairs : ∀ p ∈ pairs, p.2.Ordered Sign.binding)
    (hArrow : arrow.kind = .operator .stab)
    (hBound : trees.length < k) :
    Yields TooDeep (headItemsFor (expression n height) k)
      (behind ++ arrow :: more) (arrow :: more)
      (AreElements trees pairs) := by
  have hEnds : EndsElements .container (arrow :: more) :=
    endsElements_arrow hArrow
  induction trees generalizing behind k with
  | nil =>
      cases k with
      | zero => cases hBound
      | succ k =>
          unfold headItemsFor
          rcases hBehind with
            ⟨hNil, rfl⟩ | ⟨comma, ls, rfl, hComma, hSome, hElements⟩
          · have hPairs' : pairs = [] := by
              simpa [Element.all, Element.ofPairs] using hNil
            refine (steps_eat_none ?_).bind ?_
            · rintro m ⟨⟩
              rw [hArrow]
              exact Kind.noConfusion
            · rw [hPairs']
              exact .pure .nil
          · have hPairs' : pairs ≠ [] := by
              rintro rfl
              exact hSome rfl
            rcases beginsPair_of_pairs (arrow :: more) hElements
                hPairs' with
              ⟨⟨l, rest, rfl, hBegins⟩, hAhead⟩
            have hNoLineEnd :
                ∀ m ∈ (l :: rest ++ arrow :: more).head?,
                  m.kind ≠ .endOfLine := by
              rintro _ ⟨⟩
              exact (Kind.not_of_beginsPair hBegins).1
            refine (steps_eat hComma).bind
              ((steps_skipLineEnds hNoLineEnd).bind
                (steps_rest.bind ?_))
            rw [hAhead, if_pos rfl]
            exact (yields_keywords hElements hPairs' hPairs
              hEnds).bind (fun _ => .pure _) fun _ hNodes =>
                .pure hNodes
  | cons tree trees ih =>
      cases k with
      | zero => cases hBound
      | succ k =>
          rcases hBehind with
            ⟨hNil, _⟩ | ⟨comma, ls, rfl, hComma, hSome, hElements⟩
          · cases hNil
          · rcases hElements.exists_append with
              ⟨first, rest, rfl, hFirst, hRest⟩
            have hEnd :
                EndsElement .container (rest ++ arrow :: more) :=
              endsElement_append hRest hEnds
            rw [List.cons_append, List.append_assoc]
            unfold headItemsFor
            refine (steps_eat hComma).bind
              ((steps_skipLineEnds
                (ne_endOfLine_of_spells hFirst)).bind
                  (steps_rest.bind ?_))
            rw [keywordAhead_of_spells hFirst hEnd.follows,
              if_neg Bool.false_ne_true]
            refine (hEnd.yields 0 hFirst
              (hTrees tree List.mem_cons_self)
              (fun _ _ => Nat.zero_le _)).bind
              (fun _ => (grows_headItemsFor n height k).bind
                fun _ => .pure _) ?_
            intro node hMeans
            refine (ih hRest
              (fun t hMember =>
                hTrees t (List.mem_cons_of_mem tree hMember))
              (Nat.lt_of_succ_lt_succ hBound)).bind
              (fun _ => .pure _) ?_
            intro nodes hNodes
            exact .pure (.cons _ _ _ _ _ hMeans hNodes)

/- No term of some is a guard with what it guards. -/
def Unguarded
    (items : List Term) : Prop :=
  ∀ t ∈ items, ∀ left right, t ≠ .operation "when" [left, right]

/- Without guards there is none to split from a head. -/
theorem AreElements.splitGuard_eq
    {nodes : List Node}
    (hElements : AreElements (leaves items) pairs nodes)
    (hUnguarded : Unguarded items) :
    splitGuard nodes = (nodes, none) := by
  have hNodes :
      ∀ node ∈ nodes, ∀ left right at' span,
        node ≠ ⟨.binary "when" left right at', span⟩ := by
    generalize hTrees : leaves items = trees at hElements
    induction hElements generalizing items with
    | nil => simp
    | pairs pairs nodes span hSome hPairs =>
        intro node hMember left right at' span'
        rw [List.mem_singleton.mp hMember]
        simp
    | cons tree trees pairs node nodes hFirst hRest ih =>
        cases items with
        | nil => cases hTrees
        | cons t items =>
            cases hTrees
            intro node' hMember left right at' span
            rcases List.mem_cons.mp hMember with rfl | hMember
            · rintro rfl
              apply hUnguarded t List.mem_cons_self
                (left.quote .none) (right.quote .none)
              have hQuote := Node.Denotes.quote_eq hFirst
              rw [Node.quote_binary _ _ _ _ (by decide)] at hQuote
              rw [← hQuote]
              rfl
            · exact ih
                (fun u hU => hUnguarded u (List.mem_cons_of_mem t hU))
                rfl node' hMember left right at' span
  unfold splitGuard
  cases hLast : nodes.getLast? with
  | none => rfl
  | some node =>
      have hNode := hNodes node (List.mem_of_getLast? hLast)
      rcases node with ⟨form, span⟩
      cases form with
      | binary operator left right at' =>
          have hOther : operator ≠ "when" := by
            rintro rfl
            exact hNode left right at' span rfl
          simp [hOther]
      | _ => rfl

/- An expression that is an operand with what it is read as. -/
theorem Yields.expression
    {context : Context}
    {Result : Node → Prop}
    (precedence : Nat)
    (hOperand : ∀ n height,
      Yields TooDeep (operand (Parse.expression n) height context) ls
        more Result)
    (hBelow : BindsBelow precedence more) :
    Yields TooDeep (Parse.expression n height precedence context) ls
      more Result := by
  cases n with
  | zero => exact yields_errorNode fun _ => rfl
  | succ n =>
      cases height with
      | zero => exact yields_errorNode fun _ => rfl
      | succ height =>
          apply Yields.nested
          refine (hOperand n height).bind (fun node => ?_) ?_
          · exact grows_folds n height precedence context node
          · exact fun node hNode =>
              (OperatorGrammar.steps_folds node hBelow).yields hNode

theorem steps_finishHead
    {nodes : List Node}
    (hSplit : splitGuard nodes = (nodes, none))
    (hArrow : arrow.kind = .operator .stab) :
    Steps (finishHead nodes none) (arrow :: more) more
      ⟨nodes, none, [], arrow.span⟩ := by
  unfold finishHead
  rw [hSplit]
  exact (steps_expect .arrow hArrow).trans (steps_pure _)

/- The clause of a head, which has no body yet. -/
def IsHead
    (trees : List (OperatorTree Term Sign))
    (pairs : List (String × OperatorTree Term Sign))
    (i : Item) : Prop :=
  ∃ nodes at',
    i = .clause ⟨nodes, none, [], at'⟩ ∧
      AreElements trees pairs nodes

/- An expression makes a head with the elements behind it. -/
theorem yields_openHead
    {First : Node → Prop}
    (hFirst :
      Yields TooDeep (expression n height 0 .statement) ls
        (behind ++ arrow :: more) First)
    (hBehind :
      Continues .comma (Element.IsSpelled .container)
        (Element.all trees pairs) behind)
    (hTrees : ∀ t ∈ trees, t.Ordered Sign.binding)
    (hPairs : ∀ p ∈ pairs, p.2.Ordered Sign.binding)
    (hArrow : arrow.kind = .operator .stab)
    {allPairs : List (String × OperatorTree Term Sign)}
    (hAll : ∀ node nodes,
      First node →
        AreElements trees pairs nodes →
          AreElements (leaves items) allPairs (node :: nodes))
    (hUnguarded : Unguarded items) :
    Yields TooDeep (openClauseOrStatement (expression n height)) ls
      more (IsHead (leaves items) allPairs) := by
  have hAhead :
      ((behind ++ arrow :: more).head?.any (·.kind == .comma) ||
        (behind ++ arrow :: more).head?.any
          (·.kind == .operator .stab)) = true := by
    rcases hBehind with
      ⟨_, rfl⟩ | ⟨comma, rest, rfl, hComma, _, _⟩
    · simp [hArrow]
    · simp [hComma]
  have hBound :
      trees.length < (behind ++ arrow :: more).length + 1 := by
    have hLength := hBehind.length_le
    rw [Element.all, List.length_append, List.length_map]
      at hLength
    rw [List.length_append]
    omega
  unfold openClauseOrStatement
  refine hFirst.bind (grows_headBehind n height) ?_
  intro node hNode
  refine (steps_isAt _).bind ((steps_isAt _).bind ?_)
  rw [hAhead, if_pos rfl]
  refine steps_rest.bind ?_
  refine (yields_headItemsFor hBehind hTrees hPairs hArrow hBound).bind
    (fun _ => (grows_finishHead _ none).bind fun _ => .pure _) ?_
  intro nodes hNodes
  have hElements := hAll node nodes hNode hNodes
  exact (steps_finishHead (hElements.splitGuard_eq hUnguarded)
    hArrow).bind (.pure ⟨_, _, rfl, hElements⟩)

theorem AreElements.eq_nil
    {nodes : List Node}
    (hNodes : AreElements [] [] nodes) :
    nodes = [] := by
  cases hNodes with
  | nil => rfl
  | pairs _ _ _ hSome => exact absurd rfl hSome

/- The first element of a head is read as a statement. -/
theorem yields_firstItem
    {tree : OperatorTree Term Sign}
    (hFirst : (Element.expression tree).IsSpelled .statement ls)
    (hTree : tree.Ordered Sign.binding)
    (hBehind :
      Continues .comma (Element.IsSpelled .container)
        (Element.all trees pairs) behind)
    (hArrow : arrow.kind = .operator .stab) :
    Yields TooDeep (expression n height 0 .statement)
      (ls ++ (behind ++ arrow :: more)) (behind ++ arrow :: more)
      (Means tree) := by
  have hEnd : EndsElement .statement (behind ++ arrow :: more) :=
    endsElement_append hBehind (endsElements_arrow hArrow)
  exact hEnd.yields 0 hFirst hTree fun _ _ => Nat.zero_le _

/- Pairs alone are read as a statement too. -/
theorem yields_firstPairs
    (hElements :
      Separated .comma (Element.IsSpelled .statement)
        (Element.ofPairs pairs) ls)
    (hSome : pairs ≠ [])
    (hPairs : ∀ p ∈ pairs, p.2.Ordered Sign.binding)
    (hArrow : arrow.kind = .operator .stab) :
    Yields TooDeep (expression n height 0 .statement)
      (ls ++ arrow :: more) (arrow :: more)
      (fun node => AreElements [] pairs [node]) := by
  have hEnds : EndsElements .statement (arrow :: more) :=
    endsElements_arrow hArrow
  rcases beginsPair_of_pairs (arrow :: more) hElements hSome with
    ⟨⟨l, rest, rfl, hBegins⟩, hAhead⟩
  apply Yields.expression 0
  · intro n height
    have hKeywords :
        Yields TooDeep (keywords (Parse.expression n height) .statement)
          (l :: rest ++ arrow :: more) (arrow :: more)
          (fun node => AreElements [] pairs [node]) :=
      yields_keywords hElements hSome hPairs hEnds
    have hPrimary :
        Yields TooDeep
          (primaryAt (Parse.expression n height) .statement l)
          (l :: rest ++ arrow :: more) (arrow :: more)
          (fun node => AreElements [] pairs [node]) := by
      rcases Kind.of_beginsPair hBegins with hKind | hKind
      · simpa only [primaryAt, hKind] using hKeywords
      · simp only [primaryAt, hKind]
        unfold promoterOperand
        refine steps_rest.bind ?_
        rwa [hAhead, if_pos rfl]
    have hStarts : l.kind.startsPrimary = true := by
      rcases Kind.of_beginsPair hBegins with hKind | hKind <;>
        (rw [hKind]
         rfl)
    exact Yields.primaryOperand (sound_expression n) hPrimary hStarts
      hEnds.endsElement.follows
  · exact hEnds.endsElement.bindsBelow 0

------------------------------------------------------------
-- Whole heads
------------------------------------------------------------

/-
  The elements of a head, each with its surroundings: what comes
  first is read as a statement, be it an item or a run of pairs,
  and what is behind it as elements.
-/
def headElements
    (items : List Term)
    (keys : List (String × Term)) : List (Context × Element) :=
  match items with
  | [] => (Element.ofPairs (leafPairs keys)).map (.statement, ·)
  | t :: items =>
      (.statement, .expression (.leaf t)) ::
        (Element.all (leaves items) (leafPairs keys)).map
          (.container, ·)

theorem map_snd_headElements
    (items : List Term)
    (keys : List (String × Term)) :
    (headElements items keys).map (·.2) =
      Element.all (leaves items) (leafPairs keys) := by
  cases items with
  | nil => simp [headElements, leaves, Element.all]
  | cons t items => simp [headElements, leaves, Element.all]

/- The elements of a head, with an arrow behind them. -/
structure SpellsHead
    (items : List Term)
    (keys : List (String × Term))
    (ls : List Lexeme) : Prop where
  elements :
    Separated .comma (fun e => e.2.IsSpelled e.1)
      (headElements items keys) ls
  some : headElements items keys ≠ []
  unguarded : Unguarded items
  begins : ls.head?.any (·.kind.beginsItem) = true

/- What is read in front of the body of a clause. -/
def OpensClause
    (head : List Term)
    (i : Item) : Prop :=
  ∃ nodes at',
    i = .clause ⟨nodes, none, [], at'⟩ ∧
      Node.quoteAll .none nodes = head

/- Lexemes are read as the head of a clause and its arrow. -/
structure ReadsHead
    (head : List Term)
    (ls : List Lexeme) : Prop where
  begins : ls.head?.any (·.kind.startsLine) = true
  reads : ∀ n height more,
    Yields TooDeep (clauseOrStatement (expression n height))
      (ls ++ more) more (OpensClause head)

theorem ReadsHead.length_pos
    {head : List Term}
    (hHead : ReadsHead head ls) :
    0 < ls.length := by
  rcases exists_of_head?_any hHead.begins with ⟨l, rest, rfl, _⟩
  exact Nat.succ_pos _

theorem readsHead_arrow
    (hArrow : arrow.kind = .operator .stab) :
    ReadsHead [] [arrow] := by
  refine ⟨by simp [hArrow, Kind.startsLine], ?_⟩
  intro n height more
  unfold clauseOrStatement
  exact (steps_eat hArrow).bind (.pure ⟨[], _, rfl, rfl⟩)

variable {keys : List (String × Term)}

theorem argumentTerms_leaves
    (items : List Term)
    (keys : List (String × Term)) :
    argumentTerms (leaves items) (leafPairs keys) =
      items ++ Term.keywordsOf (keys.map Term.keyed) := by
  rw [argumentTerms, term_leaves, pairTerms_leafPairs]

theorem SpellsHead.yields
    (hHead : SpellsHead items keys ls)
    (hArrow : arrow.kind = .operator .stab) :
    Yields TooDeep (openClauseOrStatement (expression n height))
      (ls ++ arrow :: more) more
      (IsHead (leaves items) (leafPairs keys)) := by
  have hPairs : ∀ p ∈ leafPairs keys, p.2.Ordered Sign.binding :=
    fun _ hMember => ordered_of_mem_leafPairs hMember
  rcases hHead with ⟨hElements, hSome, hUnguarded, _⟩
  cases items with
  | nil =>
      have hPairs' : leafPairs keys ≠ [] := by
        rintro hNil
        rw [headElements, hNil] at hSome
        exact hSome rfl
      have hNone :
          ∀ p ∈ ([] : List (String × OperatorTree Term Sign)),
            p.2.Ordered Sign.binding := by
        simp
      exact yields_openHead
        (yields_firstPairs hElements.of_map hPairs' hPairs hArrow)
        (.inl ⟨rfl, rfl⟩) (by simp) hNone hArrow
        (fun _ _ hNode hNodes => hNodes.eq_nil ▸ hNode)
        hUnguarded
  | cons t items =>
      rcases hElements.exists_append with
        ⟨first, behind, rfl, hFirst, hBehind⟩
      rw [List.append_assoc]
      exact yields_openHead
        (yields_firstItem hFirst True.intro hBehind.of_map hArrow)
        hBehind.of_map
        (fun _ hMember => ordered_of_mem_leaves hMember) hPairs
        hArrow
        (fun node nodes hNode hNodes =>
          .cons _ _ _ _ _ hNode hNodes) hUnguarded

theorem SpellsHead.readsHead
    (hHead : SpellsHead items keys ls)
    (hArrow : arrow.kind = .operator .stab) :
    ReadsHead (items ++ Term.keywordsOf (keys.map Term.keyed))
      (ls ++ [arrow]) := by
  rcases exists_of_head?_any hHead.begins with
    ⟨l, rest, rfl, hBegins⟩
  refine ⟨Kind.startsLine_of_beginsItem hBegins, ?_⟩
  intro n height more
  rw [List.append_assoc]
  apply ((hHead.yields hArrow).clauseOrStatement hBegins).mono
  rintro _ ⟨nodes, at', rfl, hNodes⟩
  refine ⟨nodes, at', rfl, ?_⟩
  rw [hNodes.quoteAll_arguments]
  exact argumentTerms_leaves items keys

------------------------------------------------------------
-- Clauses
------------------------------------------------------------

/-
  Lexemes are read as a clause behind others, and what goes on
  with one more clause goes on behind them.
-/
structure ReadsClause
    (t : Term)
    (ls : List Lexeme) : Prop where
  begins : ls.head?.any (·.kind.startsLine) = true
  reads : ∀ n height k stop lead behind back clauses Result,
    IsLead lead →
      StopsAtWords stop →
        EndsStatement stop behind →
          (∀ k' clauses',
            k ≤ k' →
              clauses' ≠ [] →
                Node.quoteClauses .none clauses' =
                    Node.quoteClauses .none clauses ++ [t] →
                  Yields TooDeep
                    (bodyFor (expression n height) stop k' []
                      clauses') behind back Result) →
            Yields TooDeep
              (bodyFor (expression n height) stop (k + ls.length)
                [] clauses) (lead ++ (ls ++ behind)) back Result

theorem Clause.pushLast_append
    (node : Node)
    (clauses : List (Clause Node))
    (c : Clause Node) :
    Clause.pushLast node (clauses ++ [c]) =
      clauses ++ [{ c with body := c.body ++ [node] }] := by
  induction clauses with
  | nil => rfl
  | cons first clauses ih =>
      cases clauses with
      | nil => rfl
      | cons second clauses =>
          change first :: Clause.pushLast node
            (second :: clauses ++ [c]) = _
          rw [ih]
          rfl

theorem Node.quoteClauses_append
    (clauses : List (Clause Node))
    (c : Clause Node) :
    Node.quoteClauses .none (clauses ++ [c]) =
      Node.quoteClauses .none clauses ++
        Node.quoteClauses .none [c] := by
  induction clauses with
  | nil => rfl
  | cons first clauses ih =>
      rcases first with ⟨head, guard, body, arrow⟩
      rw [List.cons_append, Node.quoteClauses, ih]
      rfl

/- What the statements of a clause are added to. -/
def bodyBehind
    (clauses : List (Clause Node))
    (head : List Node)
    (at' : Span)
    (nodes : List Node) : List Node × List (Clause Node) :=
  ([], clauses ++ [⟨head, none, nodes, at'⟩])

theorem pushed_bodyBehind
    (clauses : List (Clause Node))
    (head : List Node)
    (at' : Span)
    (nodes : List Node)
    (node : Node) :
    pushed node (bodyBehind clauses head at' nodes) =
      bodyBehind clauses head at' (nodes ++ [node]) := by
  have hSome :
      (clauses ++ [Clause.mk head none nodes at']).isEmpty =
        false := by
    simp
  rw [pushed, bodyBehind, hSome, if_neg Bool.false_ne_true,
    Clause.pushLast_append]
  rfl

/- The first clause complains about expressions only. -/
theorem steps_checkFirstClause
    (clauses : List (Clause Node))
    (c : Clause Node) :
    Steps (checkFirstClause [] clauses c) ls ls c := by
  unfold checkFirstClause
  rw [List.isEmpty_nil, Bool.not_true, Bool.and_false,
    if_neg Bool.false_ne_true]
  exact steps_pure c

/- Nothing is skipped where no error was noted. -/
theorem steps_recover
    (start : List Lexeme) :
    Steps (recover stop start) ls ls () := by
  intro s hStands
  rw [recover_apply, recovered, hStands.poisoned,
    if_neg Bool.false_ne_true]
  exact ⟨rfl, hStands⟩

theorem clauseBody_of_ne_nil
    (hSome : ts ≠ []) :
    Construct.clauseBody ts = .block ts := by
  cases ts with
  | nil => exact absurd rfl hSome
  | cons t ts => rfl

/- A head opens a clause behind others. -/
theorem ReadsHead.bodyFor
    {head : List Term}
    {clauses : List (Clause Node)}
    {Result : Body Node → Prop}
    (hHead : ReadsHead head ls)
    (hLead : IsLead lead)
    (hWords : StopsAtWords stop)
    (hGoes : ∀ nodes at',
      Node.quoteAll .none nodes = head →
        Yields TooDeep
          (bodyFor (expression n height) stop k []
            (clauses ++ [⟨nodes, none, [], at'⟩]))
          more back Result) :
    Yields TooDeep
      (Parse.bodyFor (expression n height) stop (k + 1) [] clauses)
      (lead ++ (ls ++ more)) back Result := by
  have hItem := hHead.reads n height more
  rcases exists_of_head?_any
    (head?_any_append more hHead.begins) with
    ⟨l, rest, hAll, hStarts⟩
  rw [hAll] at hItem ⊢
  have hGoesOn : endsAt stop (l :: rest).head? = false :=
    hWords.eq_false hStarts
  unfold Parse.bodyFor
  refine (hLead.steps_skipSeparators ?_).bind (steps_peek.bind ?_)
  · rintro m ⟨⟩
    exact (Kind.of_startsLine hStarts).1
  rw [hGoesOn, if_neg Bool.false_ne_true]
  refine steps_rest.bind (hItem.bind
    (fun _ => grows_bodyItem _ _ _ _ _ _ _ _) ?_)
  rintro _ ⟨nodes, at', rfl, hNodes⟩
  exact (steps_checkFirstClause clauses _).bind
    ((steps_recover _).bind (hGoes nodes at' hNodes))

/- A head and the statements behind its arrow are a clause. -/
theorem ReadsHead.readsClause
    {head : List Term}
    {statements : List Lexeme}
    (hHead : ReadsHead head ls)
    (hLines : Separated .endOfLine IsStatement ts statements)
    (hSome : ts ≠ []) :
    ReadsClause (.operation "->" [.list head, .block ts])
      (ls ++ statements) := by
  refine ⟨head?_any_append _ hHead.begins, ?_⟩
  intro n height k stop lead behind back clauses Result hLead hWords
    hEnds hGoes
  have hLength :
      ts.length ≤ statements.length :=
    hLines.length_le fun _ _ hStatement => hStatement.ne_nil
  have hPositive : 0 < ls.length := hHead.length_pos
  have hBound :
      k + (ls ++ statements).length =
        k + (ls.length + statements.length - ts.length - 1) +
          ts.length + 1 := by
    rw [List.length_append]
    omega
  rw [hBound, List.append_assoc]
  apply hHead.bodyFor hLead hWords
  intro nodes at' hNodes
  apply yields_bodyFor_statements (bodyBehind clauses nodes at') []
    (pushed_bodyBehind clauses nodes at') (.inl rfl) hLines hSome
    hWords hEnds
  intro body hBody
  apply hGoes
  · omega
  · simp [bodyBehind]
  · rw [List.nil_append, bodyBehind, Node.quoteClauses_append,
      Node.quoteClauses, hNodes, hBody, Construct.clause,
      clauseBody_of_ne_nil hSome]
    rfl

theorem Separated.startsClause
    (hClauses : Separated .endOfLine ReadsClause ts ls)
    (hSome : ts ≠ []) :
    ∃ l rest, ls = l :: rest ∧ l.kind.startsLine = true :=
  exists_of_head?_any
    (hClauses.begins hSome fun _ _ hClause => hClause.begins)

/-
  Clauses on lines of their own are added to a body one by one.
  The induction is on the clauses that are left.
-/
theorem yields_bodyFor_clauses
    {Result : Body Node → Prop}
    (clauses : List (Clause Node))
    (hLead : IsLead lead)
    (hClauses : Separated .endOfLine ReadsClause ts ls)
    (hSome : ts ≠ [])
    (hWords : StopsAtWords stop)
    (hEnds : EndsStatement stop behind)
    (hGoes : ∀ k' clauses',
      k ≤ k' →
        clauses' ≠ [] →
          Node.quoteClauses .none clauses' =
              Node.quoteClauses .none clauses ++ ts →
            Yields TooDeep
              (bodyFor (expression n height) stop k' [] clauses')
              behind back Result) :
    Yields TooDeep
      (bodyFor (expression n height) stop (k + ls.length) []
        clauses) (lead ++ (ls ++ behind)) back Result := by
  induction ts generalizing ls lead clauses k with
  | nil => exact absurd rfl hSome
  | cons t ts ih =>
      rcases hClauses.exists_append with
        ⟨first, rest, rfl, hFirst, hRest⟩
      rcases hRest with
        ⟨rfl, rfl⟩ | ⟨line, more, rfl, hLine, hMore, hClauses'⟩
      · rw [List.append_nil]
        exact hFirst.reads n height k stop lead behind back clauses
          Result hLead hWords hEnds hGoes
      · rcases hClauses'.startsClause hMore with
          ⟨m, others, rfl, hStarts⟩
        have hEnds' :
            EndsStatement stop (line :: (m :: others) ++ behind) :=
          endsStatement_line hLine (Kind.of_startsLine hStarts).2.2.1
        have hBound :
            k + (first ++ line :: m :: others).length =
              k + (others.length + 2) + first.length := by
          simp only [List.length_append, List.length_cons]
          omega
        rw [hBound, List.append_assoc]
        apply hFirst.reads n height _ stop lead _ back clauses Result
          hLead hWords hEnds'
        intro k' clauses' hLe _ hQuote
        have hLeft :
            k' = k' - (others.length + 1) +
              (m :: others).length := by
          rw [List.length_cons]
          omega
        rw [hLeft]
        apply ih clauses' (.inr ⟨line, rfl, hLine⟩) hClauses' hMore
        intro k'' clauses'' hLe' hSome' hQuote'
        apply hGoes k'' clauses'' (by omega) hSome'
        rw [hQuote', hQuote, List.append_assoc]
        rfl

------------------------------------------------------------
-- Bodies
------------------------------------------------------------

/- The term of a body: a block, or a list of clauses. -/
def Body.term : Body Node → Term
| .expressions nodes => .block (Node.quoteAll .none nodes)
| .clauses cs => .list (Node.quoteClauses .none cs)

/- Lexemes are read as a body, up to where it stops. -/
def ReadsBody
    (Result : Body Node → Prop)
    (ls : List Lexeme) : Prop :=
  ∀ n height stop lead back,
    IsLead lead →
      StopsAtWords stop →
        EndsBody stop back →
          Yields TooDeep (body (expression n height) stop)
            (ls ++ (lead ++ back)) back Result

theorem readsBody_nil :
    ReadsBody (·.term = .block []) [] := by
  intro n height stop lead back hLead _ hEnds
  unfold body
  refine steps_rest.bind (Yields.isolated ?_)
  exact (hEnds.steps_bodyFor [] [] hLead (Nat.succ_pos _)).yields rfl

theorem readsBody_statements
    (hLines : Separated .endOfLine IsStatement ts ls)
    (hSome : ts ≠ []) :
    ReadsBody (·.term = .block ts) ls := by
  intro n height stop lead back hLead hWords hEnds
  have hLength : ts.length ≤ ls.length :=
    hLines.length_le fun _ _ hStatement => hStatement.ne_nil
  have hBound :
      (ls ++ (lead ++ back)).length + 1 =
        ls.length - ts.length + (lead ++ back).length + 1 +
          ts.length := by
    rw [List.length_append]
    omega
  unfold body
  refine steps_rest.bind (Yields.isolated ?_)
  rw [hBound]
  apply yields_bodyFor_statements (fun nodes => (nodes, [])) []
    (fun _ _ => rfl) (.inl rfl) hLines hSome hWords
    (hEnds.endsStatement hLead)
  intro nodes hNodes
  refine (hEnds.steps_bodyFor _ [] hLead (Nat.succ_pos _)).yields ?_
  change Term.block (Node.quoteAll .none nodes) = _
  rw [hNodes]

/- A body of clauses, with the terms of the clauses. -/
def ClausesOf
    (ts : List Term)
    (b : Body Node) : Prop :=
  ∃ clauses,
    b = .clauses clauses ∧ Node.quoteClauses .none clauses = ts

theorem readsBody_clauses
    (hClauses : Separated .endOfLine ReadsClause ts ls)
    (hSome : ts ≠ []) :
    ReadsBody (ClausesOf ts) ls := by
  intro n height stop lead back hLead hWords hEnds
  have hBound :
      (ls ++ (lead ++ back)).length + 1 =
        (lead ++ back).length + 1 + ls.length := by
    rw [List.length_append]
    omega
  unfold body
  refine steps_rest.bind (Yields.isolated ?_)
  rw [hBound]
  apply yields_bodyFor_clauses [] (.inl rfl) hClauses hSome hWords
    (hEnds.endsStatement hLead)
  intro k clauses hLe hSome' hQuote
  refine (hEnds.steps_bodyFor [] clauses hLead
    (Nat.lt_of_lt_of_le (Nat.succ_pos _) hLe)).yields ?_
  refine ⟨clauses, ?_, hQuote⟩
  rw [bodyOf, List.isEmpty_eq_false_iff.mpr hSome',
    if_neg Bool.false_ne_true]

theorem ReadsBody.mono
    {Result Result' : Body Node → Prop}
    (hReads : ReadsBody Result ls)
    (hResult : ∀ b, Result b → Result' b) :
    ReadsBody Result' ls :=
  fun n height stop lead back hLead hWords hEnds =>
    (hReads n height stop lead back hLead hWords hEnds).mono hResult

------------------------------------------------------------
-- Sections
------------------------------------------------------------

/-
  The bodies of sections, each behind the word that opens it,
  up to the end of the block. The first word is in front.
-/
inductive SpellsSections :
    String → List (String × Term) → List Lexeme → Prop where
| last
    (name : String)
    (t : Term)
    (ls lead : List Lexeme)
    (closed : Lexeme)
    (hBody : ReadsBody (·.term = t) ls)
    (hLead : IsLead lead)
    (hEnd : closed.kind = .word .end) :
    SpellsSections name [(name, t)] (ls ++ (lead ++ [closed]))
| cons
    (name : String)
    (t : Term)
    (sections : List (String × Term))
    (ls lead more : List Lexeme)
    (l : Lexeme)
    (hBody : ReadsBody (·.term = t) ls)
    (hLead : IsLead lead)
    (hWord : l.kind.endsBlock = true)
    (hMore : l.kind ≠ .word .end)
    (hSections : SpellsSections l.text sections more) :
    SpellsSections name ((name, t) :: sections)
      (ls ++ (lead ++ l :: more))

theorem Node.quoteSections_cons
    (name : String)
    (b : Body Node)
    (sections : List (Section Node)) :
    Node.quoteSections .none (⟨name, b⟩ :: sections) =
      Term.keyed (name, b.term) ::
        Node.quoteSections .none sections := by
  cases b <;> rfl

theorem stopsAtWords_endsBlock :
    StopsAtWords Kind.endsBlock :=
  fun _ hStop => hStop

/- There are no more sections than lexemes. -/
theorem SpellsSections.length_le
    {name : String}
    {sections : List (String × Term)}
    (hSections : SpellsSections name sections ls) :
    sections.length ≤ ls.length := by
  induction hSections with
  | last =>
      simp only [List.length_append, List.length_cons]
      omega
  | cons name t sections ls lead more l _ _ _ _ _ ih =>
      simp only [List.length_append, List.length_cons]
      omega

theorem SpellsSections.yields
    {name : String}
    {sections : List (String × Term)}
    (opened : Span)
    (hSections : SpellsSections name sections ls)
    (hBound : sections.length ≤ k) :
    Yields TooDeep
      (sectionsFor (expression n height) opened k name)
      (ls ++ more) more
      (fun r =>
        Node.quoteSections .none r.1 = sections.map Term.keyed) := by
  induction hSections generalizing k with
  | last name t ls lead closed hBody hLead hEnd =>
      cases k with
      | zero => exact absurd hBound (by simp)
      | succ k =>
          have hEnds : EndsBody Kind.endsBlock (closed :: more) :=
            ⟨closed, more, rfl, by rw [hEnd]; exact ⟨rfl, rfl⟩⟩
          have hAssoc :
              ls ++ (lead ++ [closed]) ++ more =
                ls ++ (lead ++ closed :: more) := by
            simp
          rw [hAssoc]
          unfold sectionsFor
          refine (hBody n height _ lead _ hLead
            stopsAtWords_endsBlock hEnds).bind
            (fun b => grows_sectionBehind n height k opened _ b) ?_
          intro b hTerm
          refine steps_peek.bind ?_
          simp only [List.head?_cons, hEnd, if_true]
          refine (steps_skip_one closed).bind (.pure ?_)
          rw [Node.quoteSections_cons, hTerm]
          rfl
  | cons name t sections ls lead behind l hBody hLead hWord hMore
      hSections ih =>
      cases k with
      | zero => exact absurd hBound (by simp)
      | succ k =>
          have hEnds :
              EndsBody Kind.endsBlock (l :: (behind ++ more)) :=
            ⟨l, _, rfl, hWord, hWord⟩
          have hAssoc :
              ls ++ (lead ++ l :: behind) ++ more =
                ls ++ (lead ++ l :: (behind ++ more)) := by
            simp
          rw [hAssoc]
          unfold sectionsFor
          refine (hBody n height _ lead _ hLead
            stopsAtWords_endsBlock hEnds).bind
            (fun b => grows_sectionBehind n height k opened _ b) ?_
          intro b hTerm
          refine steps_peek.bind ?_
          simp only [List.head?_cons, hMore, if_false, hWord, if_true]
          refine (steps_skip_one l).bind ((ih
            (Nat.le_of_succ_le_succ hBound)).bind
            (fun _ => .pure _) ?_)
          intro r hRest
          apply Yields.pure
          rw [Node.quoteSections_cons, hTerm, hRest]
          rfl

/- The sections of a block behind the word that opens it. -/
theorem SpellsSections.readsBlock
    {opened : Lexeme}
    {sections : List (String × Term)}
    (hOpened : opened.kind = .word .do)
    (hSections : SpellsSections "do" sections ls) :
    ReadsBlock (.list (sections.map Term.keyed)) (opened :: ls) := by
  refine ⟨by simp [hOpened], ?_⟩
  intro n height more
  have hBound : sections.length ≤ (ls ++ more).length + 1 := by
    have hLength := hSections.length_le
    rw [List.length_append]
    omega
  unfold doBlock
  refine (steps_currentSpan opened).bind
    ((steps_skip_one opened).bind (steps_rest.bind ?_))
  refine (hSections.yields opened.span hBound).bind
    (fun _ => .pure _) ?_
  intro r hQuote
  exact .pure (by rw [hQuote])

------------------------------------------------------------
-- Functions
------------------------------------------------------------

/- Clauses between `fn` and `end`. -/
theorem readsChain_fn
    {context : Context}
    {opened closed : Lexeme}
    (hOpened : opened.kind = .word .fn)
    (hBody : ReadsBody (ClausesOf ts) ls)
    (hLead : IsLead lead)
    (hClosed : closed.kind = .word .end) :
    ReadsChain context (·.Denotes (.operation "fn" ts))
      (opened :: (ls ++ (lead ++ [closed]))) := by
  apply readsChain_of_primary (by rw [hOpened]; rfl)
  intro n height more _
  have hEnds : EndsBody (· == .word .end) (closed :: more) :=
    ⟨closed, more, rfl, by rw [hClosed]; exact ⟨rfl, rfl⟩⟩
  have hWords : StopsAtWords (· == Kind.word .end) := by
    intro k hStop
    rw [beq_iff_eq.mp hStop]
    rfl
  have hAssoc :
      ls ++ (lead ++ [closed]) ++ more =
        ls ++ (lead ++ closed :: more) := by
    simp
  rw [hAssoc]
  simp only [primaryAt, hOpened]
  change Yields TooDeep (fn (expression n height)) _ _ _
  unfold fn
  refine (steps_currentSpan opened).bind
    ((steps_skip_one opened).bind ?_)
  refine (hBody n height _ lead _ hLead hWords hEnds).bind
    (fun b => (grows_close _ opened.span []).bind fun r => ?_) ?_
  · rcases r with ⟨trailing, span⟩
    simp only
    split
    · exact .pure _
    · exact grows_failure _ _ _
  rintro _ ⟨clauses, rfl, hQuote⟩
  have hClose :
      Steps (Parse.close .blockEnd opened.span []) (closed :: more) more
        ([], opened.span.merge closed.span) :=
    steps_close opened.span [] hClosed
  refine hClose.bind (.pure ?_)
  refine .of_quote ?_ rfl
  change Construct.form .none _ "fn" (Node.quoteClauses .none clauses) = _
  rw [hQuote]
  rfl

end ElixirReader
