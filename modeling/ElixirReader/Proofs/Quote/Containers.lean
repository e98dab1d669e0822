import ElixirReader.Proofs.Quote.Elements

/-
  This file shows which terms lists, tuples and maps are read
  as, by the elements between their brackets.

  Key definitions include:
    * `Sign.association`
    * `entryTree`
    * `AreEntries`

  Main declarations:
    * `readsOperand_list`
    * `readsOperand_tuple`
    * `yields_entries`
    * `readsOperand_map`
-/

namespace ElixirReader

open Parse

variable {n height : Nat}
variable {context : Context}
variable {ls more : List Lexeme}
variable {opened closed : Lexeme}
variable {b : Bracket}
variable {t : Term}
variable {trees : List (OperatorTree Term Sign)}
variable {pairs : List (String × OperatorTree Term Sign)}

------------------------------------------------------------
-- Lists and tuples
------------------------------------------------------------

/- Elements with the brackets around them. -/
theorem yields_enclosed
    (hElements :
      Separated .comma (Element.IsSpelled .container) (Element.all trees pairs) ls)
    (hTrees : ∀ t ∈ trees, t.Ordered Sign.binding)
    (hPairs : ∀ p ∈ pairs, p.2.Ordered Sign.binding)
    (hClosed : closed.kind = .closing b) :
    Yields TooDeep (enclosed (expression n height) b)
      (opened :: (ls ++ closed :: more)) more
      (fun r => AreElements trees pairs r.1) := by
  unfold enclosed
  refine (steps_currentSpan opened).bind
    ((steps_skip_one opened).bind ?_)
  refine (yields_items hElements hTrees hPairs hClosed).bind
    (grows_close _ _) ?_
  intro nodes hNodes
  exact (steps_close opened.span nodes hClosed).yields hNodes

/- What brackets hold is an operand, by what it is quoted to. -/
theorem readsOperand_container
    {form : List Node → Form Node}
    (hBracket : ∀ expr,
      bracketOperand expr b = container expr b form)
    (hOpened : opened.kind = .opening b)
    (hElements :
      Separated .comma (Element.IsSpelled .container) (Element.all trees pairs) ls)
    (hTrees : ∀ t ∈ trees, t.Ordered Sign.binding)
    (hPairs : ∀ p ∈ pairs, p.2.Ordered Sign.binding)
    (hClosed : closed.kind = .closing b)
    (hForm : ∀ nodes span,
      AreElements trees pairs nodes →
        (⟨form nodes, span⟩ : Node).Denotes t) :
    ReadsOperand context t (opened :: (ls ++ [closed])) := by
  constructor
  · change opened.kind.beginsOperand = true
    rw [hOpened]
    rfl
  · intro more _
    exact keywordAhead_of_beginsOperand (by rw [hOpened]; rfl)
      (by rw [hOpened]; exact Kind.noConfusion)
  · intro n height more hFollows
    have hAssoc :
        opened :: (ls ++ [closed]) ++ more =
          opened :: (ls ++ closed :: more) := by
      simp
    rw [hAssoc]
    apply Yields.primaryOperand (sound_expression n) _
      (by rw [hOpened]; rfl) hFollows
    simp only [primaryAt, hOpened]
    rw [hBracket]
    refine (yields_enclosed hElements hTrees hPairs hClosed).bind
      (fun _ => .pure _) ?_
    rintro ⟨nodes, span⟩ hNodes
    exact .pure (hForm nodes span hNodes)

/- A list, with pairs behind its other elements. -/
theorem readsOperand_list
    (hOpened : opened.kind = .opening .square)
    (hElements :
      Separated .comma (Element.IsSpelled .container) (Element.all trees pairs) ls)
    (hTrees : ∀ t ∈ trees, t.Ordered Sign.binding)
    (hPairs : ∀ p ∈ pairs, p.2.Ordered Sign.binding)
    (hClosed : closed.kind = .closing .square) :
    ReadsOperand context
      (.list (trees.map (·.term) ++ pairTerms pairs))
      (opened :: (ls ++ [closed])) := by
  apply readsOperand_container (fun _ => rfl) hOpened hElements
    hTrees hPairs hClosed
  intro nodes span hNodes
  apply Node.Denotes.of_quote _ rfl
  change Term.list (Node.quoteElements .none nodes) = _
  rw [hNodes.quoteElements_eq]

/- A tuple; one of two elements has no name. -/
theorem readsOperand_tuple
    (hOpened : opened.kind = .opening .curly)
    (hElements :
      Separated .comma (Element.IsSpelled .container) (Element.all trees []) ls)
    (hTrees : ∀ t ∈ trees, t.Ordered Sign.binding)
    (hClosed : closed.kind = .closing .curly) :
    ReadsOperand context
      (Construct.tuple .none Span.none (trees.map (·.term)))
      (opened :: (ls ++ [closed])) := by
  apply readsOperand_container (fun _ => rfl) hOpened hElements
    hTrees (by simp) hClosed
  intro nodes span hNodes
  apply Node.Denotes.of_quote _ rfl
  change Construct.tuple .none span (Node.quoteAll .none nodes) = _
  rw [hNodes.quoteAll_eq]
  rfl

------------------------------------------------------------
-- Maps
------------------------------------------------------------

/- The arrow between the key and the value of an entry. -/
def Sign.association : Sign :=
  .named "=>" ⟨80, .right⟩ (by decide)

/- An entry of a map, as the operation that it looks like. -/
def entryTree
    (key value : Term) : OperatorTree Term Sign :=
  .node .association (.leaf key) (.leaf value)

/- The entries of a map by their keys and values. -/
def entryTrees
    (entries : List (Term × Term)) :
    List (OperatorTree Term Sign) :=
  entries.map fun e => entryTree e.1 e.2

variable {entries : List (Term × Term)}

theorem ordered_entryTree
    (key value : Term) :
    (entryTree key value).Ordered Sign.binding := by
  refine ⟨?_, ?_, True.intro, True.intro⟩ <;>
    (intro o hRoot; cases hRoot)

/- Entries with arrows and pairs with colons are both entries. -/
theorem AreElements.quoteEntries_eq
    {nodes : List Node}
    (hElements : AreElements (entryTrees entries) pairs nodes) :
    Node.quoteEntries .none nodes =
      entries.map (fun e => .pair e.1 e.2) ++ pairTerms pairs := by
  induction entries generalizing nodes with
  | nil =>
      cases hElements with
      | nil => rfl
      | pairs _ _ span _ hPairs => simp [Node.quoteEntries, hPairs]
  | cons e entries ih =>
      cases hElements with
      | cons _ _ _ node nodes hFirst hRest =>
          rcases hFirst with
            ⟨key, value, at', span, rfl, hKey, hValue⟩
          have hKeyTerm := Node.Denotes.quote_eq hKey
          have hValueTerm := Node.Denotes.quote_eq hValue
          have hName : Sign.association.name = "=>" := rfl
          rw [Node.quoteEntries, if_pos hName, hKeyTerm,
            hValueTerm, ih hRest]
          rfl

theorem ordered_of_mem_entryTrees
    {tree : OperatorTree Term Sign}
    (hMember : tree ∈ entryTrees entries) :
    tree.Ordered Sign.binding := by
  rcases List.mem_map.mp hMember with ⟨e, _, rfl⟩
  exact ordered_entryTree e.1 e.2

/- The entries of a map that is no update of another one. -/
def AreEntries
    (entries : List (Term × Term))
    (pairs : List (String × OperatorTree Term Sign))
    (e : Entries Node) : Prop :=
  e.update = none ∧
    AreElements (entryTrees entries) pairs e.entries

theorem grows_entriesAfter
    {expr : ExpressionParser}
    (hExpr : Sound n expr)
    (first : Node) :
    Grows (entriesAfter expr first) := by
  refine (grows_eat _).bind fun comma => ?_
  cases comma with
  | none => exact .pure _
  | some comma =>
      exact ((Grows.silent fun _ => rfl).bind fun _ =>
        grows_itemsFor hExpr _ _).bind fun _ => .pure _

/- What is behind the first entry, up to the closing curly. -/
theorem yields_entriesAfter
    {e : Term × Term}
    {first : Node}
    {behind : List Lexeme}
    (hFirst : Means (entryTree e.1 e.2) first)
    (hBehind :
      Continues .comma (Element.IsSpelled .container)
        (Element.all (entryTrees entries) pairs) behind)
    (hPairs : ∀ p ∈ pairs, p.2.Ordered Sign.binding)
    (hClosed : closed.kind = .closing .curly) :
    Yields TooDeep (entriesAfter (expression n height) first)
      (behind ++ closed :: more) (closed :: more)
      (AreEntries (e :: entries) pairs) := by
  unfold entriesAfter
  rcases hBehind with
    ⟨hLast, rfl⟩ | ⟨comma, rest, rfl, hComma, _, hRest⟩
  · have hNil : entries = [] ∧ pairs = [] := by
      simpa [Element.all, entryTrees, Element.ofPairs] using hLast
    refine (steps_eat_none
      (ne_of_closing hClosed Kind.noConfusion)).bind
        (.pure ⟨rfl, ?_⟩)
    rw [hNil.1, hNil.2]
    exact .cons _ _ _ _ _ hFirst .nil
  · refine (steps_eat hComma).bind ?_
    refine (yields_items hRest
      (fun _ => ordered_of_mem_entryTrees)
      hPairs hClosed).bind (fun _ => .pure _) ?_
    intro nodes hNodes
    exact .pure ⟨rfl, .cons _ _ _ _ _ hFirst hNodes⟩

/- Entries of which the first has an arrow. -/
theorem yields_entriesFrom
    {e : Term × Term}
    (hElements :
      Separated .comma (Element.IsSpelled .container)
        (Element.all (entryTrees (e :: entries)) pairs) ls)
    (hPairs : ∀ p ∈ pairs, p.2.Ordered Sign.binding)
    (hClosed : closed.kind = .closing .curly) :
    Yields TooDeep (entriesFrom (expression n height))
      (ls ++ closed :: more) (closed :: more)
      (AreEntries (e :: entries) pairs) := by
  rcases hElements.exists_append with
    ⟨ls, behind, rfl, hSpells, hBehind⟩
  have hEnds : EndsElement .container (behind ++ closed :: more) :=
    endsElement_append hBehind (endsElements_closing hClosed)
  have hTight :
      ∀ o ∈ (entryTree e.1 e.2).root?,
        Precedence.pipe + 1 ≤ o.binding.precedence := by
    intro o hRoot
    cases hRoot
    decide
  unfold entriesFrom
  rw [List.append_assoc]
  refine (hEnds.yields (Precedence.pipe + 1) hSpells
    (ordered_entryTree e.1 e.2) hTight).bind (fun first => ?_) ?_
  · refine (Grows.silent fun _ => rfl).bind fun _ =>
      (grows_eat _).bind fun pipe => ?_
    cases pipe with
    | none =>
        exact grows_entriesAfter (sound_expression n height) first
    | some pipe =>
        exact ((Grows.silent fun _ => rfl).bind fun _ =>
          grows_itemsFor (sound_expression n height) _ _).bind
            fun _ => .pure _
  · intro first hMeans
    have hNoPipe :
        ∀ l ∈ (behind ++ closed :: more).head?,
          l.kind ≠ .operator .pipe :=
      hEnds.kind_ne Kind.noConfusion (fun _ => Kind.noConfusion)
      (by decide) Kind.noConfusion
    exact (steps_skipLineEnds hEnds.ne_endOfLine).bind
      ((steps_eat_none hNoPipe).bind
        (yields_entriesAfter hMeans hBehind hPairs hClosed))

/- An entry with an arrow comes first. -/
theorem entryAhead_of_entry
    (more : List Lexeme)
    {e : Term × Term}
    (hElements :
      Separated .comma (Element.IsSpelled .container)
        (Element.all (entryTrees (e :: entries)) pairs) ls)
    (hClosed : closed.kind = .closing .curly) :
    entryAhead (ls ++ closed :: more) = true ∧
      ∀ m ∈ (ls ++ closed :: more).head?, m.kind ≠ .endOfLine := by
  rcases hElements.exists_append with
    ⟨ls, behind, rfl, hSpells, hBehind⟩
  have hEnds : EndsElement .container (behind ++ closed :: more) :=
    endsElement_append hBehind (endsElements_closing hClosed)
  rw [List.append_assoc]
  refine ⟨?_, ne_endOfLine_of_spells hSpells⟩
  unfold entryAhead
  rw [endsAt_of_spells hSpells,
    keywordAhead_of_spells hSpells hEnds.follows]
  rfl

/- Pairs alone are no entries with arrows. -/
theorem entryAhead_of_pairs
    (more : List Lexeme)
    (hElements :
      Separated .comma (Element.IsSpelled .container) (Element.ofPairs pairs) ls)
    (hClosed : closed.kind = .closing .curly) :
    entryAhead (ls ++ closed :: more) = false ∧
      ∀ m ∈ (ls ++ closed :: more).head?, m.kind ≠ .endOfLine := by
  cases pairs with
  | nil =>
      cases hElements
      have hEnds : EndsElement .container (closed :: more) :=
        (endsElements_closing hClosed).endsElement
      exact ⟨by simp [entryAhead, endsAt, hClosed],
        hEnds.ne_endOfLine⟩
  | cons p pairs =>
      rcases beginsPair_of_pairs (closed :: more) hElements
          (List.cons_ne_nil p pairs) with
        ⟨⟨l, rest, rfl, hBegins⟩, hAhead⟩
      refine ⟨by rw [entryAhead, hAhead, Bool.not_true,
        Bool.and_false], ?_⟩
      rintro _ ⟨⟩
      exact (Kind.not_of_beginsPair hBegins).1

/- The entries of a map, up to the closing curly. -/
theorem yields_entries
    (hElements :
      Separated .comma (Element.IsSpelled .container)
        (Element.all (entryTrees entries) pairs) ls)
    (hPairs : ∀ p ∈ pairs, p.2.Ordered Sign.binding)
    (hClosed : closed.kind = .closing .curly) :
    Yields TooDeep (Parse.entries (expression n height))
      (ls ++ closed :: more) (closed :: more)
      (AreEntries entries pairs) := by
  unfold Parse.entries
  cases entries with
  | nil =>
      rcases entryAhead_of_pairs more hElements hClosed with
        ⟨hAhead, hNoLineEnd⟩
      refine (steps_skipLineEnds hNoLineEnd).bind
        (steps_rest.bind ?_)
      rw [hAhead, if_neg Bool.false_ne_true]
      refine (yields_items hElements (by simp [entryTrees]) hPairs
        hClosed).bind (fun _ => .pure _) ?_
      exact fun nodes hNodes => .pure ⟨rfl, hNodes⟩
  | cons e entries =>
      rcases entryAhead_of_entry more hElements hClosed with
        ⟨hAhead, hNoLineEnd⟩
      refine (steps_skipLineEnds hNoLineEnd).bind
        (steps_rest.bind ?_)
      rw [hAhead, if_pos rfl]
      exact yields_entriesFrom hElements hPairs hClosed

/- A map; its entries are written with arrows or with colons. -/
theorem readsOperand_map
    {mark : Lexeme}
    (hMark : mark.kind = .operator .struct)
    (hOpened : opened.kind = .opening .curly)
    (hElements :
      Separated .comma (Element.IsSpelled .container)
        (Element.all (entryTrees entries) pairs) ls)
    (hPairs : ∀ p ∈ pairs, p.2.Ordered Sign.binding)
    (hClosed : closed.kind = .closing .curly) :
    ReadsOperand context
      (Construct.map .none Span.none none
        (entries.map (fun e => .pair e.1 e.2) ++ pairTerms pairs))
      (mark :: opened :: (ls ++ [closed])) := by
  constructor
  · change mark.kind.beginsOperand = true
    rw [hMark]
    rfl
  · intro more _
    exact keywordAhead_of_beginsOperand (by rw [hMark]; rfl)
      (by rw [hMark]; decide)
  · intro n height more hFollows
    have hAssoc :
        mark :: opened :: (ls ++ [closed]) ++ more =
          mark :: opened :: (ls ++ closed :: more) := by
      simp
    rw [hAssoc]
    apply Yields.primaryOperand (sound_expression n) _
      (by rw [hMark]; rfl) hFollows
    simp only [primaryAt, hMark]
    have hBody :
        Yields TooDeep (mapBody (expression n height))
          (opened :: (ls ++ closed :: more)) more
          (fun r => AreEntries entries pairs r.1) := by
      unfold mapBody
      refine (steps_currentSpan opened).bind
        ((steps_skip_one opened).bind ?_)
      refine (yields_entries hElements hPairs hClosed).bind
        (fun e => (grows_close _ _ _).bind fun _ => .pure _) ?_
      rintro ⟨update, nodes⟩ hEntries
      exact (steps_close opened.span nodes hClosed).bind
        (.pure hEntries)
    unfold structOrMap
    refine (steps_currentSpan mark).bind
      ((steps_skip_one mark).bind ((steps_isAt _).bind ?_))
    have hAt :
        (opened :: (ls ++ closed :: more)).head?.any
          (·.kind == .opening .curly) = true := by
      simp [hOpened]
    rw [hAt, if_pos rfl]
    refine hBody.bind (fun _ => .pure _) ?_
    rintro ⟨⟨update, nodes⟩, span⟩ ⟨hNone, hNodes⟩
    have hUpdate : update = none := hNone
    subst hUpdate
    apply Yields.pure
    apply Node.Denotes.of_quote _ rfl
    change Construct.map .none _ none
      (Node.quoteEntries .none nodes) = _
    rw [AreElements.quoteEntries_eq hNodes]
    rfl

end ElixirReader
