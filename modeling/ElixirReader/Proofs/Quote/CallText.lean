import ElixirReader.Proofs.Quote.BlockLayout

/-
  This file shows how calls and blocks are written: which of
  the forms of a call is chosen, and what its text is made of.

  Key definitions include:
    * `IsLocalName`
    * `Written.isItem`

  Main declarations:
    * `Written.arguments_itemTerms`
    * `Written.invocation_closed`
    * `Written.invocation_block`
    * `Term.text_call`
    * `Term.text_remote`
    * `Term.text_clause`
-/

namespace ElixirReader

open Written

variable {t : Term}
variable {ts items args : List Term}
variable {pairs sections : List (String × Term)}
variable {name : String}

------------------------------------------------------------
-- Items and pairs
------------------------------------------------------------

/- Whether a written term is no list, and so no run of pairs. -/
def Written.isItem : Written → Bool
| .list _ _ => false
| _ => true

theorem Written.keyword?_eq_none
    {w : Written}
    (hItem : w.isItem = true) :
    w.keyword? = none ∧ w.sections? = none := by
  cases w with
  | list text items => cases hItem
  | _ => exact ⟨rfl, rfl⟩

theorem written_list
    (ts : List Term) :
    (Term.list ts).written =
      .list (Written.listText (ts.map Term.written))
        (ts.map Term.written) := by
  rw [← Term.writtenAll_eq_map]
  rfl

theorem areKeyed_map_keyed
    (hSome : pairs ≠ []) :
    Written.areKeyed ((pairs.map Term.keyed).map Term.written) =
      true := by
  have hAll :
      ((pairs.map Term.keyed).map Term.written).all
        Written.isKeyed = true :=
    List.all_eq_true.mpr fun _ => isKeyed_of_mem_keyed
  rw [Written.areKeyed, hAll, Bool.and_true]
  simpa using hSome

/- The items of a list of pairs, as keywords. -/
theorem keyword?_keyed
    (hSome : pairs ≠ []) :
    (Term.list (pairs.map Term.keyed)).written.keyword? =
      some ((pairs.map Term.keyed).map Term.written) := by
  rw [written_list]
  exact if_pos (areKeyed_map_keyed hSome)

theorem mapM_keyed?
    (pairs : List (String × Term)) :
    ((pairs.map Term.keyed).map Term.written).mapM Written.keyed? =
      some (pairs.map fun p => (p.1, p.2.written)) := by
  induction pairs with
  | nil => rfl
  | cons p pairs ih =>
      rw [List.map_cons, List.map_cons, List.mapM_cons, ih]
      rfl

/- The sections of a list of pairs, if the first is `do`. -/
theorem sections?_keyed
    (pairs : List (String × Term)) :
    (Term.list (pairs.map Term.keyed)).written.sections? =
      if pairs.head?.any (·.1 == "do") then
        some (pairs.map fun p => (p.1, p.2.written))
      else none := by
  rw [written_list]
  change (((pairs.map Term.keyed).map Term.written).mapM
    Written.keyed?).filter _ = _
  rw [mapM_keyed?]
  cases pairs with
  | nil => rfl
  | cons p pairs => simp [Option.filter]

theorem itemTerms_nil
    (items : List Term) :
    itemTerms items [] = items :=
  List.append_nil items

theorem itemTerms_of_ne_nil
    (items : List Term)
    (hSome : pairs ≠ []) :
    itemTerms items pairs =
      items ++ [.list (pairs.map Term.keyed)] := by
  rw [itemTerms, Term.keywordsOf, if_neg]
  simpa using hSome

/- A list of pairs is written as them in brackets. -/
theorem text_keyed
    (pairs : List (String × Term)) :
    (Term.list (pairs.map Term.keyed)).written.text =
      ['['] ++ itemsText [] pairs ++ [']'] := by
  have hTail :
      Written.keyedTail
          ([] ++ (pairs.map Term.keyed).map Term.written) =
        (pairs.map Term.keyed).map Term.written :=
    Written.keyedTail_append fun _ => isKeyed_of_mem_keyed
  have hText := Written.listText_append hTail
  rw [List.nil_append] at hText
  rw [written_list, Written.text, hText, itemsText,
    ← Written.sequence_map]
  rfl

/- Arguments are written as items, and pairs behind them. -/
theorem Written.arguments_itemTerms
    (hItems : ∀ t ∈ items, t.written.isItem = true) :
    Written.arguments ((itemTerms items pairs).map Term.written) =
      itemsText items pairs := by
  unfold Written.arguments itemsText
  rw [← Written.sequence_map]
  by_cases hSome : pairs = []
  · subst hSome
    have hNone :
        ((items.map Term.written).getLast?.bind Written.keyword?) =
          none := by
      rw [List.getLast?_map, Option.bind_eq_none_iff]
      intro w hLast
      rcases Option.map_eq_some_iff.mp hLast with ⟨t, hMember, rfl⟩
      exact (Written.keyword?_eq_none
        (hItems t (List.mem_of_getLast? hMember))).1
    rw [itemTerms_nil, hNone]
    rfl
  · rw [itemTerms_of_ne_nil items hSome, List.map_append,
      List.map_singleton, List.getLast?_concat, Option.bind_some,
      keyword?_keyed hSome, List.dropLast_concat]

/- Without a block at their end, arguments are in parentheses. -/
theorem Written.invocation_closed
    (text : List Char)
    (hItems : ∀ t ∈ items, t.written.isItem = true)
    (hDo : pairs.head?.all (·.1 != "do") = true) :
    Written.invocation text false
        ((itemTerms items pairs).map Term.written) =
      text ++ (['('] ++ itemsText items pairs ++ [')']) := by
  have hNone :
      ((itemTerms items pairs).map Term.written).getLast?.bind
        Written.sections? = none := by
    by_cases hSome : pairs = []
    · subst hSome
      rw [itemTerms_nil, List.getLast?_map, Option.bind_eq_none_iff]
      intro w hLast
      rcases Option.map_eq_some_iff.mp hLast with ⟨t, hMember, rfl⟩
      exact (Written.keyword?_eq_none
        (hItems t (List.mem_of_getLast? hMember))).2
    · rw [itemTerms_of_ne_nil items hSome, List.map_append,
        List.map_singleton, List.getLast?_concat, Option.bind_some,
        sections?_keyed, if_neg]
      cases pairs with
      | nil => exact absurd rfl hSome
      | cons p pairs => simpa using hDo
  rw [Written.invocation, hNone, Bool.false_and,
    if_neg Bool.false_ne_true, Written.arguments_itemTerms hItems]
  rfl

/- The text of a block is that of its sections. -/
theorem Written.doBlock_eq
    (body : Term)
    (sections : List (String × Term)) :
    Written.doBlock ((("do", body) :: sections).map fun p =>
        (p.1, p.2.written)) =
      " do".toList ++
        sectionsText (Written.bodyText body.written) sections := by
  have hSections : ∀ body : Term,
      Written.sectionBody body.written ++
          ((sections.map fun p => (p.1, p.2.written)).flatMap
            Written.laterSection ++ "\nend".toList) =
        sectionsText (Written.bodyText body.written) sections := by
    induction sections with
    | nil => exact fun _ => rfl
    | cons p sections ih =>
        intro body
        rw [sectionsText, ← ih p.2]
        simp only [List.map_cons, List.flatMap_cons,
          Written.laterSection, List.append_assoc]
        rfl
  rw [← hSections body]
  simp [Written.doBlock]

/- A block behind the arguments takes their parentheses away. -/
theorem Written.invocation_block
    (text : List Char)
    (bare : Bool)
    (body : Term)
    (sections : List (String × Term))
    (args : List Term) :
    Written.invocation text bare
        ((args ++ [Term.list ((("do", body) :: sections).map
          Term.keyed)]).map Term.written) =
      text ++ (Written.beforeDo (args.map Term.written) ++
        (" do".toList ++
          sectionsText (Written.bodyText body.written) sections)) := by
  have hDo :
      (("do", body) :: sections).head?.any (·.1 == "do") = true := by
    simp
  rw [Written.invocation, List.map_append, List.map_singleton,
    List.getLast?_concat, Option.bind_some, sections?_keyed,
    if_pos hDo, List.dropLast_concat, ← Written.doBlock_eq,
    ← List.append_assoc]

theorem Written.beforeDo_itemTerms
    (hItems : ∀ t ∈ items, t.written.isItem = true)
    (hSome : Element.all (leaves items) (leafPairs pairs) ≠ []) :
    Written.beforeDo ((itemTerms items pairs).map Term.written) =
      [' '] ++ itemsText items pairs := by
  have hFilled := itemTerms_ne_nil hSome
  rw [Written.beforeDo, if_neg, Written.arguments_itemTerms hItems]
  · rfl
  · simpa using hFilled

------------------------------------------------------------
-- Calls by a name
------------------------------------------------------------

/- A name that may be called by itself, and is no construct. -/
structure IsLocalName
    (name : String) : Prop where
  called : IsCallName name.toList
  unreserved : reservedWord? name = none
  notBlock : name ≠ "__block__"
  notAlias : name ≠ "__aliases__"

theorem IsLocalName.ne
    {other : String}
    (hName : IsLocalName name)
    (hOther :
      Literal.isIdentifier other.toList = false ∨
        (reservedWord? other).isSome = true) :
    name ≠ other := by
  rintro rfl
  rcases hOther with hOther | hOther
  · rw [hName.called.identifier] at hOther
    cases hOther
  · rw [hName.unreserved] at hOther
    cases hOther

theorem IsLocalName.construct?_eq
    (ws : List Written)
    (hName : IsLocalName name) :
    Written.construct? name ws = none := by
  have hOther :
      ∀ n ∈ ["\x7b\x7d", "%\x7b\x7d", "<<>>", "fn", "..", "@", "&",
          "%", "->"],
        name ≠ n := by
    have hAll :
        ∀ n ∈ ["\x7b\x7d", "%\x7b\x7d", "<<>>", "fn", "..", "@",
            "&", "%", "->"],
          Literal.isIdentifier n.toList = false ∨
            (reservedWord? n).isSome = true := by
      decide
    exact fun n hMember => hName.ne (hAll n hMember)
  simp only [List.forall_mem_cons, List.not_mem_nil,
    false_implies, implies_true, and_true] at hOther
  have hContainer : Written.container? name ws = none := by
    simp [Written.container?, hOther, hName.notBlock, hName.notAlias]
  rcases ws with _ | ⟨w, _ | ⟨w', _ | ⟨w'', ws⟩⟩⟩ <;>
    simp [Written.construct?, hContainer, Written.mark?,
      Written.pair?, hOther]

theorem IsLocalName.binding?_eq
    (hName : IsLocalName name) :
    OperatorName.binding? name = none := by
  have hAll :
      ∀ level ∈ OperatorName.levels, ∀ n ∈ level.2,
        Literal.isIdentifier n.toList = false ∨
          (reservedWord? n).isSome = true := by
    decide
  rw [OperatorName.binding?, Option.map_eq_none_iff,
    List.find?_eq_none]
  intro level hLevel hContains
  have hMember : name ∈ level.2 := by simpa using hContains
  exact hName.ne (hAll level hLevel name hMember) rfl

theorem IsLocalName.operator?_eq
    (ws : List Written)
    (hName : IsLocalName name) :
    Written.operator? name ws = none ∧
      Written.operatorPrecedence? name ws = none := by
  have hNot : name ≠ "not" := hName.ne (.inr rfl)
  have hStep : name ≠ "..//" :=
    hName.ne (.inl (by decide))
  have hUnary : OperatorName.isUnary name = false := by
    have hAll :
        ∀ n ∈ OperatorName.unaryNames,
          Literal.isIdentifier n.toList = false ∨
            (reservedWord? n).isSome = true := by
      decide
    rw [Bool.eq_false_iff]
    intro hContains
    have hMember : name ∈ OperatorName.unaryNames := by
      simpa [OperatorName.isUnary] using hContains
    exact hName.ne (hAll name hMember) rfl
  rcases ws with _ | ⟨w, _ | ⟨w', _ | ⟨w'', _ | ⟨v, ws⟩⟩⟩⟩ <;>
    simp [Written.operator?, Written.operatorPrecedence?, hNot,
      hStep, hUnary, hName.binding?_eq]

namespace Term

/- A call by a name is an invocation, unless it is a sigil. -/
theorem text_call
    (hName : IsLocalName name)
    (hSigil : Written.sigil? name (args.map written) = none) :
    (operation name args).written.text =
      Written.invocation name.toList false (args.map written) := by
  rw [text_operation, Written.namedCall, hName.construct?_eq,
    (hName.operator?_eq _).1, hSigil, Written.callee,
    if_pos hName.called.identifier]
  rfl

theorem precedence?_call
    (args : List Term)
    (hName : IsLocalName name) :
    (operation name args).written.precedence? = none := by
  rw [precedence?_operation, (hName.operator?_eq _).2]

------------------------------------------------------------
-- Calls behind a dot
------------------------------------------------------------

theorem written_dotted
    (sides : List Term)
    (metadata args : List Term) :
    (dotted sides (.list metadata) args).written =
      .tuple
        (Written.callText (operation "." sides).written
          (list metadata).written (metadata.map written)
          (list args).written)
        [(operation "." sides).written, (list metadata).written,
          (list args).written] := by
  rw [← writtenAll_eq_map]
  rfl

/- What is on both sides of a dot decides how a call is written. -/
theorem text_dotted
    (sides : List Term)
    (metadata args : List Term) :
    (dotted sides (.list metadata) args).written.text =
      Written.dottedCall (operation "." sides).written
        (sides.map written) (metadata.map written)
        (args.map written) := by
  rw [written_dotted, ← writtenAll_eq_map, ← writtenAll_eq_map,
    ← writtenAll_eq_map]
  rfl

theorem precedence?_dotted
    (sides : List Term)
    (metadata args : List Term) :
    (dotted sides (.list metadata) args).written.precedence? =
      none := by
  rw [written_dotted]
  rfl

theorem isItem_dotted
    (sides : List Term)
    (metadata args : List Term) :
    (dotted sides (.list metadata) args).written.isItem = true := by
  rw [written_dotted]
  rfl

theorem tightOperand_eq
    (hTight : t.written.precedence? = none) :
    Written.tightOperand t.written = t.written.text := by
  rw [Written.tightOperand, hTight]
  rfl

/- A call of a function that is a value. -/
theorem text_anonymous
    (args : List Term)
    (hTight : t.written.precedence? = none) :
    (anonymous t args).written.text =
      Written.invocation (t.written.text ++ ['.']) false
        (args.map written) := by
  unfold anonymous
  rw [text_dotted]
  change Written.invocation (Written.tightOperand t.written ++ _)
    false _ = _
  rw [tightOperand_eq hTight]
  rfl

/- A name behind a dot, as it is written. -/
theorem text_dottedName
    (metadata args : List Term)
    (hTight : t.written.precedence? = none)
    (hReceiver : t.written.isAtom "Elixir.Access" = false)
    (hBraces : name ≠ "\x7b\x7d") :
    (dotted [t, .atom name] (.list metadata) args).written.text =
      Written.invocation
        (t.written.text ++ (['.'] ++ Written.dottedName name))
        (Written.isBare (metadata.map written))
        (args.map written) := by
  have hLookup :
      Written.lookup? t.written (.atom name) (args.map written) =
        none := by
    rcases args.map written with _ | ⟨w, _ | ⟨w', _ | ⟨w'', ws⟩⟩⟩ <;>
      simp [Written.lookup?, hReceiver]
  rw [text_dotted]
  change (if name = "\x7b\x7d" then _ else
    (Written.lookup? t.written (.atom name)
      (args.map written)).getD _) = _
  rw [if_neg hBraces, hLookup, Option.getD_none, Written.remoteCall,
    tightOperand_eq hTight, List.append_assoc]
  rfl

/- The value under a key. -/
theorem text_access
    (key : Term)
    (hTight : t.written.precedence? = none) :
    (access t key).written.text =
      t.written.text ++ (['['] ++ key.written.text ++ [']']) := by
  unfold access
  rw [text_dotted]
  change Written.tightOperand t.written ++ "[".toList ++
    key.written.text ++ "]".toList = _
  rw [tightOperand_eq hTight]
  simp

------------------------------------------------------------
-- Aliases
------------------------------------------------------------

/- The parts of an alias have dots between them. -/
theorem text_aliases
    (parts : List Term) :
    (operation "__aliases__" parts).written.text =
      ".".toList.intercalate
        (parts.map fun t => Written.aliasPart t.written) := by
  rw [text_operation, Written.namedCall]
  change Option.getD (some (".".toList.intercalate
    ((parts.map written).map Written.aliasPart))) _ = _
  rw [List.map_map]
  rfl

theorem text_aliases_append
    (parts : List Term)
    (name : String)
    (hSome : parts ≠ []) :
    (operation "__aliases__" (parts ++ [.atom name])).written.text =
      (operation "__aliases__" parts).written.text ++
        (['.'] ++ name.toList) := by
  rw [text_aliases, text_aliases, List.map_append,
    List.map_singleton]
  induction parts with
  | nil => exact absurd rfl hSome
  | cons t parts ih =>
      cases parts with
      | nil => simp [written, Written.aliasPart]
      | cons u parts =>
          simp only [List.map_cons, List.cons_append,
            List.intercalate_cons_cons] at ih ⊢
          rw [ih (List.cons_ne_nil u parts)]
          simp

------------------------------------------------------------
-- Clauses and functions
------------------------------------------------------------

/- The text of an arrow between a head and a body. -/
theorem text_arrow
    (head : List Term)
    (body : Term) :
    (operation "->" [.list head, body]).written.text =
      Written.clause (head.map written) body.written := by
  rw [text_operation, List.map_cons, List.map_singleton,
    written_list]
  rfl

/- A clause with items that carry no guard. -/
theorem text_clause
    (body : Term)
    (hItems : ∀ t ∈ items, t.written.isItem = true)
    (hUnguarded : ∀ t ∈ items, t.written.argsOf? "when" = none) :
    (operation "->" [.list (itemTerms items pairs), body]).written.text
      =
      headText items pairs ++
        Written.behindArrow (Written.bodyText body.written) := by
  have hNone :
      ∀ t ∈ itemTerms items pairs,
        t.written.argsOf? "when" = none := by
    intro t hMember
    rcases List.mem_append.mp hMember with hMember | hMember
    · exact hUnguarded t hMember
    · unfold keywordsOf at hMember
      split at hMember
      · cases hMember
      · rw [List.mem_singleton.mp hMember, written_list]
        rfl
  have hHead :
      Written.head ((itemTerms items pairs).map written) =
        Written.arguments ((itemTerms items pairs).map written) := by
    generalize itemTerms items pairs = terms at hNone
    rcases terms with _ | ⟨t, _ | ⟨u, terms⟩⟩
    · rfl
    · simp [Written.head, hNone t List.mem_cons_self]
    · rfl
  have hText :
      Written.arguments ((itemTerms items pairs).map written) ++
          Written.arrow ((itemTerms items pairs).map written) =
        headText items pairs := by
    rw [Written.arguments_itemTerms hItems, headText, Written.arrow]
    split
    · rename_i hEmpty
      have hTerms : itemTerms items pairs = [] := by
        simpa using hEmpty
      have hNoElements :
          Element.all (leaves items) (leafPairs pairs) = [] := by
        by_contra hSome
        exact itemTerms_ne_nil hSome hTerms
      rw [if_pos hNoElements, itemsText, hNoElements]
      rfl
    · rename_i hFilled
      rw [if_neg]
      · rfl
      · intro hNoElements
        apply hFilled
        cases items with
        | nil =>
            cases pairs with
            | nil => rfl
            | cons p pairs => cases hNoElements
        | cons t items => cases hNoElements
  rw [text_arrow, Written.clause, hHead, hText]

/- A clause alone in a function is written as everywhere else. -/
theorem onlyClause_eq
    (head : List Term)
    (body : Term) :
    Written.onlyClause
        (operation "->" [.list head, body]).written =
      (operation "->" [.list head, body]).written.text := by
  rw [text_arrow]
  have hParts :
      Written.clauseParts?
          (operation "->" [.list head, body]).written =
        some (head.map written, body.written) := by
    rw [← writtenAll_eq_map]
    rfl
  rw [Written.onlyClause, hParts]

theorem isClause_operation
    (args : List Term) :
    Written.isClause (operation "->" args).written = true := by
  rfl

/- A function is in one line, or its clauses are below. -/
theorem text_fn
    (hClauses : ∀ t ∈ ts,
      Written.onlyClause t.written = t.written.text) :
    (operation "fn" ts).written.text =
        "fn ".toList ++ Written.lines (ts.map fun t => t.written.text)
          ++ " end".toList ∨
      (operation "fn" ts).written.text =
        "fn\n".toList ++
          Written.indent
            (Written.lines (ts.map fun t => t.written.text)) ++
          "\nend".toList := by
  have hText :
      (operation "fn" ts).written.text =
        Written.function (ts.map written) := by
    rw [text_operation]
    rfl
  have hTall :
      Written.tallFunction (ts.map written) =
        "fn\n".toList ++
          Written.indent
            (Written.lines (ts.map fun t => t.written.text)) ++
          "\nend".toList := by
    rw [Written.tallFunction, List.map_map]
    rfl
  rw [hText, ← hTall]
  rcases ts with _ | ⟨t, _ | ⟨u, ts⟩⟩
  · exact .inr rfl
  · rw [List.map_singleton, Written.function]
    split
    · exact .inr rfl
    · rw [hClauses t List.mem_cons_self]
      exact .inl (by simp [Written.lines])
  · exact .inr rfl

theorem precedence?_fn
    (ts : List Term) :
    (operation "fn" ts).written.precedence? = none := by
  rw [precedence?_operation]
  rcases ts with _ | ⟨t, _ | ⟨u, _ | ⟨v, _ | ⟨w, ts⟩⟩⟩⟩ <;> rfl

------------------------------------------------------------
-- Bodies
------------------------------------------------------------

/- A block of statements is written with a line for each. -/
theorem text_block
    (ts : List Term) :
    (block ts).written.text =
      Written.lines (ts.map fun t => t.written.text) := by
  have hLines : ∀ ts : List Term,
      (blockOf ts).written.text =
        Written.lines (ts.map fun t => t.written.text) := by
    intro ts
    change (operation "__block__" ts).written.text = _
    rw [text_operation]
    change Written.lines ((ts.map written).map Written.text) = _
    rw [List.map_map]
    rfl
  rcases ts with _ | ⟨t, _ | ⟨u, ts⟩⟩
  · exact hLines []
  · simp [block, Written.lines]
  · exact hLines _

/- The body of a block is no list. -/
theorem bodyText_block
    (hItems : ∀ t ∈ ts, t.written.isItem = true) :
    Written.bodyText (block ts).written = (block ts).written.text := by
  have hItem : (block ts).written.isItem = true := by
    rcases ts with _ | ⟨t, _ | ⟨u, ts⟩⟩
    · rfl
    · exact hItems t List.mem_cons_self
    · rfl
  generalize (block ts).written = w at hItem
  cases w with
  | list text items => cases hItem
  | _ => rfl

/- Clauses are written on lines of their own. -/
theorem bodyText_clauses
    (hClauses : ∀ t ∈ ts, Written.isClause t.written = true)
    (hSome : ts ≠ []) :
    Written.bodyText (Term.list ts).written =
      Written.lines (ts.map fun t => t.written.text) := by
  have hAll : (ts.map written).all Written.isClause = true := by
    rw [List.all_map]
    exact List.all_eq_true.mpr hClauses
  have hFilled : (ts.map written).isEmpty = false := by
    simpa using hSome
  rw [written_list, Written.bodyText, hAll, hFilled]
  simp only [Bool.not_false, Bool.and_true, if_true, List.map_map]
  rfl

end Term

end ElixirReader
