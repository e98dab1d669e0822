import ElixirReader.Proofs.Quote.Chains
import ElixirReader.Proofs.Quote.Data

/-
  This file shows how the bodies of blocks are read: statements
  on a line each, or clauses with a head, an arrow and a body of
  their own; and what do blocks and functions make of them.

  Key definitions include:
    * `EndsStatement`
    * `IsStatement`
    * `ReadsClause`
    * `ReadsBody`
    * `SpellsSections`

  Main declarations:
    * `yields_bodyFor_statements`
    * `readsClause`
    * `readsBody_statements`
    * `readsBody_clauses`
    * `readsBlock`
    * `readsChain_fn`
-/

namespace ElixirReader

open Parse

variable {n height k : Nat}
variable {t : Term}
variable {ts : List Term}
variable {l m : Lexeme}
variable {ls lead behind back more : List Lexeme}
variable {stop : Kind → Bool}

------------------------------------------------------------
-- Ends of statements
------------------------------------------------------------

/- What an element starts with: the key of a pair, or a chain. -/
def Kind.beginsItem
    (k : Kind) : Bool :=
  k.beginsPair || k.beginsChain

/- What a line starts with: a statement, or the head of a clause. -/
def Kind.startsLine : Kind → Bool
| operator .stab => true
| k => k.beginsItem

theorem Kind.of_startsLine
    {k : Kind}
    (hStarts : k.startsLine = true) :
    isSeparator k = false ∧ k.endsBlock = false ∧
      k.bindsNothing = true ∧ k ≠ .opening .parenthesis := by
  cases k with
  | word w =>
      cases w <;> first | exact ⟨rfl, rfl, rfl, Kind.noConfusion⟩ |
        cases hStarts
  | operator o =>
      cases o <;> first | exact ⟨rfl, rfl, rfl, Kind.noConfusion⟩ |
        cases hStarts
  | _ => first | exact ⟨rfl, rfl, rfl, Kind.noConfusion⟩ |
      cases hStarts

theorem Kind.beginsItem_of_beginsChain
    {k : Kind}
    (hBegins : k.beginsChain = true) :
    k.beginsItem = true := by
  rw [beginsItem, hBegins, Bool.or_true]

theorem Kind.beginsItem_of_beginsPair
    {k : Kind}
    (hBegins : k.beginsPair = true) :
    k.beginsItem = true := by
  rw [beginsItem, hBegins, Bool.true_or]

theorem Kind.startsLine_of_beginsItem
    {k : Kind}
    (hBegins : k.beginsItem = true) :
    k.startsLine = true := by
  cases k with
  | operator o => cases hBegins
  | _ => exact hBegins

/- An item is neither an arrow nor in parentheses. -/
theorem Kind.of_beginsItem
    {k : Kind}
    (hBegins : k.beginsItem = true) :
    k ≠ .operator .stab ∧ k ≠ .opening .parenthesis := by
  constructor <;>
    (rintro rfl
     cases hBegins)

/- Statements stop at no words but those that end blocks. -/
def StopsAtWords
    (stop : Kind → Bool) : Prop :=
  ∀ k, stop k = true → k.endsBlock = true

theorem StopsAtWords.eq_false
    {k : Kind}
    (hWords : StopsAtWords stop)
    (hStarts : k.startsLine = true) :
    stop k = false := by
  rw [Bool.eq_false_iff]
  intro hStop
  have hEnds := hWords k hStop
  rw [(Kind.of_startsLine hStarts).2.1] at hEnds
  cases hEnds

/- What comes next ends a statement in a body. -/
structure EndsStatement
    (stop : Kind → Bool)
    (ls : List Lexeme) : Prop where
  follows : Follows .statement ls
  below : BindsBelow 0 ls
  stops : Stops stop ls
  head : ∀ l ∈ ls.head?,
    l.kind ≠ .comma ∧ l.kind ≠ .operator .stab

theorem endsStatement_nil :
    EndsStatement stop [] :=
  ⟨.ending, bindsBelow_nil 0, True.intro, by simp⟩

theorem Kind.exists_word_of_endsBlock
    {k : Kind}
    (hEnds : k.endsBlock = true) :
    k.followsOperand = true ∧ ∃ w, k = .word w := by
  cases k with
  | word w =>
      refine ⟨?_, w, rfl⟩
      cases w <;> first | rfl | cases hEnds
  | _ => cases hEnds

theorem endsStatement_word
    (hWord : l.kind.endsBlock = true)
    (hStop : stop l.kind = true) :
    EndsStatement stop (l :: ls) := by
  rcases Kind.exists_word_of_endsBlock hWord with
    ⟨hFollows, w, hKind⟩
  refine ⟨.kind l ls hFollows, bindsBelow_of_head? ?_, ?_, ?_⟩
  · rw [hKind]
    rfl
  · exact Bool.or_eq_true_iff.mpr (.inr hStop)
  · rintro m ⟨⟩
    rw [hKind]
    exact ⟨Kind.noConfusion, Kind.noConfusion⟩

theorem endsStatement_line
    (hLine : l.kind = .endOfLine)
    (hNext : m.kind.bindsNothing = true) :
    EndsStatement stop (l :: m :: ls) := by
  refine ⟨.kind l _ (by rw [hLine]; rfl),
    bindsBelow_line hLine hNext, ?_, ?_⟩
  · exact Bool.or_eq_true_iff.mpr (.inl (by rw [hLine]; rfl))
  · rintro m' ⟨⟩
    rw [hLine]
    exact ⟨Kind.noConfusion, Kind.noConfusion⟩

/- The end of a line, or nothing. -/
def IsLead
    (lead : List Lexeme) : Prop :=
  lead = [] ∨ ∃ l, lead = [l] ∧ l.kind = .endOfLine

theorem IsLead.steps_skipSeparators
    (hLead : IsLead lead)
    (hHead : ∀ l ∈ ls.head?, isSeparator l.kind = false) :
    Steps skipSeparators (lead ++ ls) ls () := by
  rcases hLead with rfl | ⟨l, rfl, hLine⟩
  · exact ElixirReader.steps_skipSeparators hHead
  · intro s hStands
    have hNone : runLength isSeparator ls = 0 :=
      runLength_eq_zero hHead
    have hOne : runLength isSeparator s.rest = 1 := by
      have hSeparator : isSeparator l.kind = true := by
        rw [hLine]
        rfl
      rw [hStands.rest]
      change runLength isSeparator (l :: ls) = 1
      rw [runLength] at hNone ⊢
      rw [List.takeWhile_cons, hSeparator, if_pos rfl,
        List.length_cons, hNone]
    change () = () ∧
      Stands ls (s.advance (runLength isSeparator s.rest))
    rw [hOne]
    exact (steps_skip_one l) s hStands

/- A body ends at a word at which it stops. -/
def EndsBody
    (stop : Kind → Bool)
    (back : List Lexeme) : Prop :=
  ∃ l rest,
    back = l :: rest ∧ l.kind.endsBlock = true ∧
      stop l.kind = true

/- A line end in front of the end of a body ends a statement too. -/
theorem EndsBody.endsStatement
    (hEnds : EndsBody stop back)
    (hLead : IsLead lead) :
    EndsStatement stop (lead ++ back) := by
  rcases hEnds with ⟨l, rest, rfl, hWord, hStop⟩
  rcases hLead with rfl | ⟨line, rfl, hLine⟩
  · exact endsStatement_word hWord hStop
  · refine endsStatement_line hLine ?_
    rcases (Kind.exists_word_of_endsBlock hWord).2 with ⟨w, hKind⟩
    rw [hKind]
    rfl

/- Where a body ends, nothing is added to it. -/
theorem EndsBody.steps_bodyFor
    {expr : ExpressionParser}
    (expressions : List Node)
    (clauses : List (Clause Node))
    (hEnds : EndsBody stop back)
    (hLead : IsLead lead)
    (hPositive : 0 < k) :
    Steps (bodyFor expr stop k expressions clauses) (lead ++ back)
      back (bodyOf expressions clauses) := by
  rcases hEnds with ⟨l, rest, rfl, hWord, hStop⟩
  rcases Nat.exists_eq_succ_of_ne_zero (Nat.ne_of_gt hPositive) with
    ⟨j, rfl⟩
  rcases (Kind.exists_word_of_endsBlock hWord).2 with ⟨w, hKind⟩
  have hEnd : endsAt stop (l :: rest).head? = true := hStop
  unfold bodyFor
  refine (hLead.steps_skipSeparators ?_).trans (steps_peek.trans ?_)
  · rintro m ⟨⟩
    rw [hKind]
    rfl
  · rw [hEnd, if_pos rfl]
    exact steps_pure _

------------------------------------------------------------
-- Statements
------------------------------------------------------------

/- A chain alone on its line is a statement. -/
def IsStatement
    (t : Term)
    (ls : List Lexeme) : Prop :=
  ReadsChain .statement (·.Denotes t) ls

theorem IsStatement.exists_cons
    (hStatement : IsStatement t ls) :
    ∃ l rest, ls = l :: rest ∧ l.kind.beginsChain = true :=
  exists_of_head?_any hStatement.begins

theorem IsStatement.ne_nil
    (hStatement : IsStatement t ls) :
    ls ≠ [] := by
  rcases hStatement.exists_cons with ⟨l, rest, rfl, _⟩
  exact List.cons_ne_nil l rest

theorem IsStatement.yields
    (n height : Nat)
    (hStatement : IsStatement t ls)
    (hEnds : EndsStatement stop more) :
    Yields TooDeep (expression n height 0 .statement) (ls ++ more)
      more (·.Denotes t) :=
  hStatement.readsOperand.expression n height 0 hEnds.follows
    hEnds.below

/- What starts with an item has no head in parentheses. -/
theorem Yields.clauseOrStatement
    {Result : Item → Prop}
    (hItem :
      Yields TooDeep (openClauseOrStatement (expression n height))
        (l :: ls) back Result)
    (hBegins : l.kind.beginsItem = true) :
    Yields TooDeep (Parse.clauseOrStatement (expression n height))
      (l :: ls) back Result := by
  rcases Kind.of_beginsItem hBegins with ⟨hArrow, hOther⟩
  have hParenthesis :
      (l :: ls).head?.any (·.kind == .opening .parenthesis) =
        false := by
    simpa using hOther
  unfold Parse.clauseOrStatement
  refine (steps_eat_none (by rintro m ⟨⟩; exact hArrow)).bind
    (steps_rest.bind ((steps_isAt _).bind ?_))
  rw [hParenthesis, Bool.false_and, if_neg Bool.false_ne_true]
  exact hItem

/- A statement is no head of a clause. -/
theorem IsStatement.yields_item
    (n height : Nat)
    (hStatement : IsStatement t ls)
    (hEnds : EndsStatement stop more) :
    Yields TooDeep (clauseOrStatement (expression n height))
      (ls ++ more) more
      (fun i => ∃ node, i = .expression node ∧ node.Denotes t) := by
  have hNot : ∀ kind : Kind,
      (kind = .comma ∨ kind = .operator .stab) →
        more.head?.any (·.kind == kind) = false := by
    intro kind hKind
    cases more with
    | nil => rfl
    | cons m more =>
        have hHead := hEnds.head m rfl
        rcases hKind with rfl | rfl
        · simpa using hHead.1
        · simpa using hHead.2
  have hFirst :
      Yields TooDeep (openClauseOrStatement (expression n height))
        (ls ++ more) more
        (fun i => ∃ node, i = .expression node ∧ node.Denotes t) := by
    unfold openClauseOrStatement
    refine (hStatement.yields n height hEnds).bind
      (grows_headBehind n height) ?_
    intro node hNode
    refine (steps_isAt _).bind ((steps_isAt _).bind ?_)
    rw [hNot _ (.inl rfl), hNot _ (.inr rfl), Bool.or_self,
      if_neg Bool.false_ne_true]
    exact .pure ⟨node, rfl, hNode⟩
  rcases hStatement.exists_cons with ⟨l, rest, rfl, hBegins⟩
  exact hFirst.clauseOrStatement
    (Kind.beginsItem_of_beginsChain hBegins)

/- What a statement adds to a body that is being read. -/
def pushed
    (node : Node)
    (read : List Node × List (Clause Node)) :
    List Node × List (Clause Node) :=
  if read.2.isEmpty then (read.1 ++ [node], read.2)
  else (read.1, Clause.pushLast node read.2)

theorem yields_bodyFor_statement
    {Result : Body Node → Prop}
    (read : List Node × List (Clause Node))
    (hLead : IsLead lead)
    (hStatement : IsStatement t ls)
    (hWords : StopsAtWords stop)
    (hEnds : EndsStatement stop behind)
    (hGoes : ∀ node,
      node.Denotes t →
        Yields TooDeep
          (bodyFor (expression n height) stop k
            (pushed node read).1 (pushed node read).2)
          behind back Result) :
    Yields TooDeep
      (bodyFor (expression n height) stop (k + 1) read.1 read.2)
      (lead ++ (ls ++ behind)) back Result := by
  have hItem :=
    hStatement.yields_item n height hEnds
  rcases hStatement.exists_cons with ⟨l, rest, rfl, hBegins⟩
  have hStarts := Kind.startsLine_of_beginsItem
    (Kind.beginsItem_of_beginsChain hBegins)
  have hGoesOn :
      endsAt stop (l :: rest ++ behind).head? = false :=
    hWords.eq_false hStarts
  have hLess :
      behind.length < (l :: rest ++ behind).length := by
    simp only [List.cons_append, List.length_cons,
      List.length_append]
    omega
  unfold bodyFor
  refine (hLead.steps_skipSeparators ?_).bind (steps_peek.bind ?_)
  · rintro m ⟨⟩
    exact (Kind.of_startsLine hStarts).1
  rw [hGoesOn, if_neg Bool.false_ne_true]
  refine steps_rest.bind (hItem.bind
    (fun _ => grows_bodyItem _ _ _ _ _ _ _ _) ?_)
  rintro _ ⟨node, rfl, hNode⟩
  refine (steps_finishStatement hEnds.stops hLess).bind ?_
  have hNext := hGoes node hNode
  unfold pushed at hNext
  change Yields TooDeep (if read.2.isEmpty = true then _ else _) _ _ _
  split
  · rename_i hEmpty
    rwa [if_pos hEmpty] at hNext
  · rename_i hEmpty
    rwa [if_neg hEmpty] at hNext

theorem Separated.startsLine
    (hLines : Separated .endOfLine IsStatement ts ls)
    (hSome : ts ≠ []) :
    ∃ l rest, ls = l :: rest ∧ l.kind.startsLine = true := by
  rcases exists_of_head?_any
      (hLines.begins hSome fun _ _ hStatement => hStatement.begins) with
    ⟨l, rest, rfl, hBegins⟩
  exact ⟨l, rest, rfl, Kind.startsLine_of_beginsItem
    (Kind.beginsItem_of_beginsChain hBegins)⟩

/-
  Statements on a line each are added to a body one by one.
  `wrap` says what has been read when some nodes have been; the
  induction is on the statements that are left.
-/
theorem yields_bodyFor_statements
    {Result : Body Node → Prop}
    (wrap : List Node → List Node × List (Clause Node))
    (done : List Node)
    (hWrap : ∀ nodes node,
      pushed node (wrap nodes) = wrap (nodes ++ [node]))
    (hLead : IsLead lead)
    (hLines : Separated .endOfLine IsStatement ts ls)
    (hSome : ts ≠ [])
    (hWords : StopsAtWords stop)
    (hEnds : EndsStatement stop behind)
    (hGoes : ∀ nodes,
      Node.quoteAll .none nodes = ts →
        Yields TooDeep
          (bodyFor (expression n height) stop k
            (wrap (done ++ nodes)).1 (wrap (done ++ nodes)).2)
          behind back Result) :
    Yields TooDeep
      (bodyFor (expression n height) stop (k + ts.length)
        (wrap done).1 (wrap done).2)
      (lead ++ (ls ++ behind)) back Result := by
  induction ts generalizing ls lead done with
  | nil => exact absurd rfl hSome
  | cons t ts ih =>
      rcases hLines.exists_append with
        ⟨first, rest, rfl, hFirst, hRest⟩
      rw [List.append_assoc]
      rcases hRest with
        ⟨rfl, rfl⟩ | ⟨line, more, rfl, hLine, hMore, hLines'⟩
      · refine yields_bodyFor_statement (wrap done) hLead hFirst
          hWords (by simpa using hEnds) ?_
        intro node hNode
        rw [hWrap]
        refine hGoes [node] ?_
        rw [Node.quoteAll, hNode.quote_eq]
        rfl
      · rcases hLines'.startsLine hMore with
          ⟨m, more, rfl, hStarts⟩
        have hEnds' :
            EndsStatement stop (line :: (m :: more) ++ behind) :=
          endsStatement_line hLine (Kind.of_startsLine hStarts).2.2.1
        rw [List.length_cons, ← Nat.add_assoc]
        refine yields_bodyFor_statement (wrap done) hLead hFirst
          hWords hEnds' ?_
        intro node hNode
        rw [hWrap]
        refine ih (done ++ [node]) (.inr ⟨line, rfl, hLine⟩) hLines'
          hMore ?_
        intro nodes hNodes
        rw [List.append_assoc]
        refine hGoes (node :: nodes) ?_
        rw [Node.quoteAll, hNode.quote_eq, hNodes]

------------------------------------------------------------
-- Documents
------------------------------------------------------------

/- Statements on a line each, up to the end of a document. -/
theorem yields_statementsFor_lines
    (hLead : IsLead lead)
    (hLines : Separated .endOfLine IsStatement ts ls)
    (hBound : ts.length < k) :
    Yields TooDeep
      (statementsFor (expression n height) isTopLevelEnd k)
      (lead ++ ls) []
      (fun nodes => Node.quoteAll .none nodes = ts) := by
  induction ts generalizing ls lead k with
  | nil =>
      rcases Nat.exists_eq_succ_of_ne_zero
        (Nat.ne_of_gt hBound) with ⟨k, rfl⟩
      cases hLines
      unfold statementsFor
      exact (hLead.steps_skipSeparators (by simp)).bind
        (steps_peek.bind (.pure rfl))
  | cons t ts ih =>
      rcases Nat.exists_eq_succ_of_ne_zero
        (Nat.ne_of_gt (Nat.zero_lt_of_lt hBound)) with ⟨k, rfl⟩
      rcases hLines.exists_append with
        ⟨first, rest, rfl, hFirst, hRest⟩
      have hEnds : EndsStatement isTopLevelEnd rest := by
        rcases hRest with
          ⟨_, rfl⟩ | ⟨line, more, rfl, hLine, hMore, hLines'⟩
        · exact endsStatement_nil
        · rcases hLines'.startsLine hMore with
            ⟨m, more, rfl, hStarts⟩
          exact endsStatement_line hLine
            (Kind.of_startsLine hStarts).2.2.1
      have hNode :=
        hFirst.yields n height hEnds
      have hNext :
          Yields TooDeep
            (statementsFor (expression n height) isTopLevelEnd k)
            rest []
            (fun nodes => Node.quoteAll .none nodes = ts) := by
        have hBound' := Nat.lt_of_succ_lt_succ hBound
        rcases hRest with
          ⟨rfl, rfl⟩ | ⟨line, more, rfl, hLine, _, hLines'⟩
        · exact ih (.inl rfl) .nil hBound'
        · exact ih (.inr ⟨line, rfl, hLine⟩) hLines' hBound'
      rcases hFirst.exists_cons with ⟨l, others, rfl, hBegins⟩
      have hLess : rest.length < (l :: others ++ rest).length := by
        simp only [List.cons_append, List.length_cons,
          List.length_append]
        omega
      unfold statementsFor
      refine (hLead.steps_skipSeparators ?_).bind
        (steps_peek.bind ?_)
      · rintro m ⟨⟩
        exact (Kind.of_startsLine (Kind.startsLine_of_beginsItem
          (Kind.beginsItem_of_beginsChain hBegins))).1
      · change Yields TooDeep (statement _ _ >>= _) _ _ _
        refine (hNode.statement hEnds.stops hLess
          (grows_finishStatement _ _)).bind (fun _ => ?_) ?_
        · exact (Reads.grows fun _ => Reads.statementsFor
            (candid_expression n height)).bind fun _ => .pure _
        intro node hDenotes
        refine hNext.bind (fun _ => .pure _) ?_
        intro nodes hNodes
        refine .pure ?_
        rw [Node.quoteAll, hDenotes.quote_eq, hNodes]

/- A document of statements on a line each is their block. -/
theorem yields_statements_lines
    (hLines : Separated .endOfLine IsStatement ts ls) :
    Yields TooDeep (statements topLevelExpression isTopLevelEnd) ls
      [] (fun nodes => .block (Node.quoteAll .none nodes) =
        Term.block ts) := by
  have hLength : ts.length ≤ ls.length :=
    hLines.length_le fun _ _ hStatement => hStatement.ne_nil
  refine steps_rest.bind (Yields.isolated ?_)
  apply Yields.mono (yields_statementsFor_lines (.inl rfl) hLines
    (Nat.lt_succ_of_le hLength))
  intro nodes hNodes
  rw [hNodes]

end ElixirReader
