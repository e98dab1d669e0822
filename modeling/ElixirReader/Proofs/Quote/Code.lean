import ElixirReader.Proofs.Quote.CallText

/-
  This file shows that code of calls and blocks is read as it
  is written: variables, aliases, calls by a name, behind a dot
  and of values, access, keyword arguments, do blocks, functions
  and clauses, nested in each other. Blocks of several
  statements are written as bare lines, so they are read back
  only where a body stands.

  Key definitions include:
    * `Role`
    * `IsCode`
    * `LaysCode`

  Main declarations:
    * `IsCode.laysRole`
    * `quoteSource_render_code`
-/

namespace ElixirReader

open Parse Written

------------------------------------------------------------
-- Code
------------------------------------------------------------

/-
  What a term is part of the code as: an expression in
  surroundings that allow so much, the arguments of a call, the
  body of a block, the head of a clause, a clause, or the
  sections of a do block. `mayDo` says whether the first key of
  arguments may be `do`, which makes a block of them at the end
  of a call.
-/
inductive Role where
| expression (context : Context)
| arguments (context : Context) (mayDo : Bool)
| body
| head
| clause
| block

/- The terms that are code of calls and blocks, by their roles. -/
inductive IsCode : Role → Term → Prop where
| ofName
    (context : Context)
    (name : String)
    (hName :
      (tokenize name).1.map (fun t => (t.kind, t.text)) =
        [(.identifier, name)]) :
    IsCode (.expression context) (.ofName name)
| nil
    (context : Context) :
    IsCode (.expression context) .nil
| «alias»
    (context : Context)
    (name : String)
    (names : List String)
    (hNames : ∀ n ∈ name :: names,
      Literal.isAliasSegment n.toList = true) :
    IsCode (.expression context)
      (.operation "__aliases__" ((name :: names).map .atom))
| qualified
    (context : Context)
    (base : Term)
    (name : String)
    (names : List String)
    (hBase : IsCode (.expression context) base)
    (hOther : ∀ parts, base ≠ .operation "__aliases__" parts)
    (hNames : ∀ n ∈ name :: names,
      Literal.isAliasSegment n.toList = true) :
    IsCode (.expression context)
      (.operation "__aliases__" (base :: (name :: names).map .atom))
| call
    (context : Context)
    (name : String)
    (args : List Term)
    (hName : IsLocalName name)
    (hArgs : IsCode (.arguments .container false) (.list args))
    (hSigil : Written.sigil? name (args.map Term.written) = none) :
    IsCode (.expression context) (.operation name args)
| field
    (context : Context)
    (receiver : Term)
    (name : String)
    (hReceiver : IsCode (.expression context) receiver)
    (hName : IsDottedName name) :
    IsCode (.expression context) (.field receiver name)
| remote
    (context : Context)
    (receiver : Term)
    (name : String)
    (args : List Term)
    (hReceiver : IsCode (.expression context) receiver)
    (hName : IsDottedName name)
    (hArgs : IsCode (.arguments .container false) (.list args)) :
    IsCode (.expression context) (.remote receiver name args)
| anonymous
    (context : Context)
    (function : Term)
    (args : List Term)
    (hFunction : IsCode (.expression context) function)
    (hArgs : IsCode (.arguments .container false) (.list args)) :
    IsCode (.expression context) (.anonymous function args)
| access
    (context : Context)
    (subject key : Term)
    (hSubject : IsCode (.expression context) subject)
    (hKey : IsCode (.expression .container) key) :
    IsCode (.expression context) (.access subject key)
| accessPairs
    (context : Context)
    (subject : Term)
    (pairs : List (String × Term))
    (hSubject : IsCode (.expression context) subject)
    (hSome : pairs ≠ [])
    (hKeys : ∀ p ∈ pairs, p.1.toList.all Literal.isVisible = true)
    (hValues : ∀ p ∈ pairs, IsCode (.expression .container) p.2) :
    IsCode (.expression context)
      (.access subject (.list (pairs.map Term.keyed)))
| callBlock
    (context : Context)
    (name : String)
    (args : List Term)
    (block : Term)
    (hName : IsLocalName name)
    (hArgs : IsCode (.arguments .argument true) (.list args))
    (hMany : context.manyArguments = true ∨ args.length ≤ 1)
    (hBlock : IsCode .block block)
    (hBlocks : context.doBlocks = true)
    (hSigil :
      Written.sigil? name ((args ++ [block]).map Term.written) =
        none) :
    IsCode (.expression context) (.operation name (args ++ [block]))
| remoteBlock
    (context : Context)
    (receiver : Term)
    (name : String)
    (args : List Term)
    (block : Term)
    (hReceiver : IsCode (.expression context) receiver)
    (hName : IsDottedName name)
    (hArgs : IsCode (.arguments .argument true) (.list args))
    (hMany : context.manyArguments = true ∨ args.length ≤ 1)
    (hBlock : IsCode .block block)
    (hBlocks : context.doBlocks = true) :
    IsCode (.expression context)
      (.remote receiver name (args ++ [block]))
| fn
    (context : Context)
    (clauses : List Term)
    (hSome : clauses ≠ [])
    (hClauses : ∀ t ∈ clauses, IsCode .clause t) :
    IsCode (.expression context) (.operation "fn" clauses)
| arguments
    (context : Context)
    (mayDo : Bool)
    (items : List Term)
    (pairs : List (String × Term))
    (hItems : ∀ t ∈ items, IsCode (.expression context) t)
    (hKeys : ∀ p ∈ pairs, p.1.toList.all Literal.isVisible = true)
    (hValues : ∀ p ∈ pairs, IsCode (.expression context) p.2)
    (hDo :
      mayDo = true ∨ pairs.head?.all (·.1 != "do") = true) :
    IsCode (.arguments context mayDo) (.list (itemTerms items pairs))
| statements
    (ts : List Term)
    (hStatements : ∀ t ∈ ts, IsCode (.expression .statement) t) :
    IsCode .body (.block ts)
| clauses
    (ts : List Term)
    (hSome : ts ≠ [])
    (hClauses : ∀ t ∈ ts, IsCode .clause t) :
    IsCode .body (.list ts)
| pairsHead
    (pairs : List (String × Term))
    (hKeys : ∀ p ∈ pairs, p.1.toList.all Literal.isVisible = true)
    (hValues : ∀ p ∈ pairs, IsCode (.expression .statement) p.2) :
    IsCode .head (.list (itemTerms [] pairs))
| itemsHead
    (first : Term)
    (args : List Term)
    (hFirst : IsCode (.expression .statement) first)
    (hArgs : IsCode (.arguments .container true) (.list args)) :
    IsCode .head (.list (first :: args))
| clause
    (head ts : List Term)
    (hHead : IsCode .head (.list head))
    (hSome : ts ≠ [])
    (hStatements : ∀ t ∈ ts, IsCode (.expression .statement) t) :
    IsCode .clause (.operation "->" [.list head, .block ts])
| block
    (body : Term)
    (sections : List (String × Term))
    (hBody : IsCode .body body)
    (hNames : ∀ p ∈ sections, p.1 ∈ sectionNames)
    (hSections : ∀ p ∈ sections, IsCode .body p.2) :
    IsCode .block
      (.list ((("do", body) :: sections).map Term.keyed))

------------------------------------------------------------
-- Layouts
------------------------------------------------------------

variable {t : Term}
variable {context : Context}

/- An expression is laid out as a chain, and as no other form. -/
structure LaysCode
    (context : Context)
    (t : Term) : Prop where
  chain : LaysChain context (·.Denotes t) t.written.text
  tight : t.written.precedence? = none
  item : t.written.isItem = true
  unguarded : t.written.argsOf? "when" = none
  receiver : t.written.isAtom "Elixir.Access" = false
  part : Written.aliasPart t.written = t.written.text

/- The arguments that some terms are, laid out. -/
structure LaysArguments
    (context : Context)
    (mayDo : Bool)
    (args items : List Term)
    (pairs : List (String × Term)) : Prop where
  terms_eq : args = itemTerms items pairs
  lays : LaysItems context items pairs
  item : ∀ t ∈ items, t.written.isItem = true
  unguarded : ∀ t ∈ items, t.written.argsOf? "when" = none
  noDo : mayDo = true ∨ pairs.head?.all (·.1 != "do") = true

/- The sections of a do block that a term stands for, laid out. -/
structure LaysSections
    (t body : Term)
    (sections : List (String × Term)) : Prop where
  term_eq : t = .list ((("do", body) :: sections).map Term.keyed)
  lays : LaysBlock t
    (" do".toList ++ sectionsText (bodyText body.written) sections)

/- The elements that the head of a clause has, laid out. -/
structure LaysElements
    (args items : List Term)
    (pairs : List (String × Term)) : Prop where
  terms_eq : args = itemTerms items pairs
  lays : LaysHead items pairs
  item : ∀ t ∈ items, t.written.isItem = true
  unguarded : ∀ t ∈ items, t.written.argsOf? "when" = none

structure LaysClause
    (t : Term) : Prop where
  lays : LaysText t.written.text (ReadsClause t)
  isClause : Written.isClause t.written = true
  only : Written.onlyClause t.written = t.written.text

/- A term is laid out in its role. -/
def LaysRole : Role → Term → Prop
| .expression context, t => LaysCode context t
| .arguments context mayDo, t =>
    ∃ args items pairs,
      t = .list args ∧ LaysArguments context mayDo args items pairs
| .body, t => LaysSection t
| .head, t =>
    ∃ args items pairs, t = .list args ∧ LaysElements args items pairs
| .clause, t => LaysClause t
| .block, t => ∃ body sections, LaysSections t body sections

------------------------------------------------------------
-- Expressions
------------------------------------------------------------

variable {ts items args : List Term}
variable {pairs sections : List (String × Term)}
variable {name : String}
variable {block body : Term}
variable {mayDo : Bool}

/- What is written as an operation, by the text of its chain. -/
theorem laysCode_operation
    (hChain : LaysChain context (·.Denotes (.operation name args))
      (Term.operation name args).written.text)
    (hTight :
      (Term.operation name args).written.precedence? = none)
    (hOther : name ≠ "when") :
    LaysCode context (.operation name args) := by
  refine ⟨hChain, hTight, rfl, ?_, rfl, rfl⟩
  rw [Written.argsOf?, Term.named?_operation]
  exact if_neg hOther

/- What is written as a call behind a dot. -/
theorem laysCode_dotted
    {sides metadata : List Term}
    (hChain :
      LaysChain context
        (·.Denotes (.dotted sides (.list metadata) args))
        (Term.dotted sides (.list metadata) args).written.text) :
    LaysCode context (.dotted sides (.list metadata) args) := by
  refine ⟨hChain, Term.precedence?_dotted sides metadata args,
    Term.isItem_dotted sides metadata args, ?_, ?_, ?_⟩ <;>
  · rw [Term.written_dotted]
    rfl

theorem laysCode_ofName
    (hName : IsVariableName name.toList) :
    LaysCode context (.ofName name) :=
  ⟨laysChain_variable hName, rfl, rfl, rfl, rfl, rfl⟩

theorem laysCode_nil :
    LaysCode context .nil :=
  ⟨laysChain_nil, rfl, rfl, rfl, by decide, by decide⟩

theorem precedence?_aliases
    (parts : List Term) :
    (Term.operation "__aliases__" parts).written.precedence? =
      none := by
  rw [Term.precedence?_operation]
  rcases parts with _ | ⟨t, _ | ⟨u, _ | ⟨v, _ | ⟨w, ts⟩⟩⟩⟩ <;>
    rfl

/- Segments are put behind an alias one by one. -/
theorem laysChain_segments
    {base : Option Term}
    {segments : List String}
    (names : List String)
    (hChain : LaysChain context (IsAliasNode base segments)
      (Term.operation "__aliases__"
        (base.toList ++ segments.map .atom)).written.text)
    (hSome : segments ≠ [])
    (hNames : ∀ n ∈ names,
      Literal.isAliasSegment n.toList = true) :
    LaysChain context (IsAliasNode base (segments ++ names))
      (Term.operation "__aliases__"
        (base.toList ++ (segments ++ names).map .atom)).written.text
      := by
  induction names generalizing segments with
  | nil => simpa using hChain
  | cons name names ih =>
      have hSplit : segments ++ name :: names =
          segments ++ [name] ++ names := by
        simp
      have hFilled : base.toList ++ segments.map Term.atom ≠ [] := by
        simp [hSome]
      have hText :=
        Term.text_aliases_append
          (base.toList ++ segments.map Term.atom) name hFilled
      rw [hSplit]
      apply ih ?_ (by simp)
        (fun n hMember => hNames n (List.mem_cons_of_mem name hMember))
      rw [List.map_append, List.map_singleton, ← List.append_assoc,
        hText]
      apply hChain.suffix (laysSuffix_alias
        (hNames name List.mem_cons_self) ?_)
      rintro node l hNode rfl
      exact hNode.extendAlias l

theorem laysCode_alias
    (names : List String)
    (hNames : ∀ n ∈ name :: names,
      Literal.isAliasSegment n.toList = true) :
    LaysCode context
      (.operation "__aliases__" ((name :: names).map .atom)) := by
  have hFirst :
      LaysChain context (IsAliasNode none [name])
        (Term.operation "__aliases__"
          ((none : Option Term).toList ++
            [name].map Term.atom)).written.text := by
    have hText :
        (Term.operation "__aliases__"
          ((none : Option Term).toList ++
            [name].map Term.atom)).written.text = name.toList := by
      rw [Term.text_aliases]
      simp [Term.written, Written.aliasPart]
    rw [hText]
    exact laysChain_alias (hNames name List.mem_cons_self)
  have hAll :=
    laysChain_segments names hFirst (List.cons_ne_nil name [])
      (fun n hMember => hNames n (List.mem_cons_of_mem name hMember))
  exact laysCode_operation (hAll.mono fun _ hNode => hNode.denotes)
    (precedence?_aliases _) (by decide)

theorem LaysCode.qualified
    (names : List String)
    (hBase : LaysCode context t)
    (hOther : ∀ parts, t ≠ .operation "__aliases__" parts)
    (hNames : ∀ n ∈ name :: names,
      Literal.isAliasSegment n.toList = true) :
    LaysCode context
      (.operation "__aliases__" (t :: (name :: names).map .atom)) := by
  have hFirst :
      LaysChain context (IsAliasNode (some t) [name])
        (Term.operation "__aliases__"
          ((some t).toList ++ [name].map Term.atom)).written.text := by
    have hText :
        (Term.operation "__aliases__"
          ((some t).toList ++ [name].map Term.atom)).written.text =
          t.written.text ++ (['.'] ++ name.toList) := by
      have hAppend :=
        Term.text_aliases_append [t] name (List.cons_ne_nil t [])
      have hAlone :
          (Term.operation "__aliases__" [t]).written.text =
            t.written.text := by
        rw [Term.text_aliases, ← hBase.part]
        simp
      rw [← hAlone]
      exact hAppend
    rw [hText]
    apply hBase.chain.suffix (laysSuffix_alias
      (hNames name List.mem_cons_self) ?_)
    rintro node l hNode rfl
    exact hNode.extendAlias l hOther
  have hAll :=
    laysChain_segments names hFirst (List.cons_ne_nil name [])
      (fun n hMember => hNames n (List.mem_cons_of_mem name hMember))
  exact laysCode_operation (hAll.mono fun _ hNode => hNode.denotes)
    (precedence?_aliases _) (by decide)

------------------------------------------------------------
-- Calls
------------------------------------------------------------

theorem isVariableName_of_isLocalName
    (hName : IsLocalName name) :
    IsVariableName name.toList :=
  hName.called.isVariableName hName.unreserved

theorem LaysArguments.laysCode
    (hArgs : LaysArguments .container false args items pairs)
    (hName : IsLocalName name)
    (hSigil : Written.sigil? name (args.map Term.written) = none) :
    LaysCode context (.operation name args) := by
  have hDo := hArgs.noDo.resolve_left Bool.false_ne_true
  apply laysCode_operation ?_ (Term.precedence?_call args hName)
    (hName.ne (.inr rfl))
  rw [Term.text_call hName hSigil]
  rcases hArgs with ⟨rfl, hLays, hItem, _, _⟩
  rw [Written.invocation_closed name.toList hItem hDo]
  exact hLays.laysCall.laysChain (isVariableName_of_isLocalName hName)

theorem LaysCode.field
    (hReceiver : LaysCode context t)
    (hName : IsDottedName name) :
    LaysCode context (.field t name) := by
  apply laysCode_dotted
  rw [Term.text_dottedName _ _ hReceiver.tight hReceiver.receiver
    hName.ne_braces]
  exact hReceiver.chain.suffix hName.laysName.laysSuffix_field

theorem LaysCode.remote
    (hReceiver : LaysCode context t)
    (hName : IsDottedName name)
    (hArgs : LaysArguments .container false args items pairs) :
    LaysCode context (.remote t name args) := by
  have hDo := hArgs.noDo.resolve_left Bool.false_ne_true
  apply laysCode_dotted
  rw [Term.text_dottedName _ _ hReceiver.tight hReceiver.receiver
    hName.ne_braces]
  rcases hArgs with ⟨rfl, hLays, hItem, _, _⟩
  change LaysChain _ _ (Written.invocation _ false _)
  rw [Written.invocation_closed _ hItem hDo, List.append_assoc,
    List.append_assoc]
  exact hReceiver.chain.suffix
    (hLays.laysCall.laysSuffix hName.laysName)

theorem LaysCode.anonymous
    (hFunction : LaysCode context t)
    (hArgs : LaysArguments .container false args items pairs) :
    LaysCode context (.anonymous t args) := by
  have hDo := hArgs.noDo.resolve_left Bool.false_ne_true
  have hText := Term.text_anonymous args hFunction.tight
  apply laysCode_dotted
  change LaysChain _ _ (Term.anonymous t args).written.text
  rw [hText]
  rcases hArgs with ⟨rfl, hLays, hItem, _, _⟩
  rw [Written.invocation_closed _ hItem hDo, List.append_assoc]
  exact hFunction.chain.suffix hLays.laysSuffix

theorem LaysCode.access
    {key : Term}
    (hSubject : LaysCode context t)
    (hKey : LaysKey key key.written.text) :
    LaysCode context (.access t key) := by
  have hText := Term.text_access key hSubject.tight
  apply laysCode_dotted
  change LaysChain _ _ (Term.access t key).written.text
  rw [hText]
  exact hSubject.chain.suffix hKey.laysSuffix

------------------------------------------------------------
-- Calls with blocks
------------------------------------------------------------

/- Bare arguments, if any, and a block behind them. -/
theorem LaysSections.laysCall
    (hBlock : LaysSections block body sections)
    (hArgs : LaysArguments .argument true args items pairs)
    (hMany : context.manyArguments = true ∨ args.length ≤ 1)
    (hBlocks : context.doBlocks = true) :
    LaysCall context (args ++ [block])
      (Written.beforeDo (args.map Term.written) ++
        (" do".toList ++
          sectionsText (bodyText body.written) sections)) := by
  rcases hArgs with ⟨rfl, hLays, hItem, _, _⟩
  by_cases hNone :
      Element.all (leaves items) (leafPairs pairs) = []
  · have hEmpty : itemTerms items pairs = [] := by
      cases items with
      | nil =>
          cases pairs with
          | nil => rfl
          | cons p pairs => cases hNone
      | cons t items => cases hNone
    rw [hEmpty]
    exact hBlock.lays.laysCall hBlocks
  · rw [Written.beforeDo_itemTerms hItem hNone]
    exact hBlock.lays.laysCall_open hLays hNone hMany hBlocks

theorem LaysSections.laysCode
    (hBlock : LaysSections block body sections)
    (hArgs : LaysArguments .argument true args items pairs)
    (hMany : context.manyArguments = true ∨ args.length ≤ 1)
    (hBlocks : context.doBlocks = true)
    (hName : IsLocalName name)
    (hSigil :
      Written.sigil? name ((args ++ [block]).map Term.written) =
        none) :
    LaysCode context (.operation name (args ++ [block])) := by
  have hCall := hBlock.laysCall hArgs hMany hBlocks
  apply laysCode_operation ?_ (Term.precedence?_call _ hName)
    (hName.ne (.inr rfl))
  rw [Term.text_call hName hSigil, hBlock.term_eq,
    Written.invocation_block, ← hBlock.term_eq]
  exact hCall.laysChain (isVariableName_of_isLocalName hName)

theorem LaysCode.remoteBlock
    (hReceiver : LaysCode context t)
    (hName : IsDottedName name)
    (hArgs : LaysArguments .argument true args items pairs)
    (hMany : context.manyArguments = true ∨ args.length ≤ 1)
    (hBlock : LaysSections block body sections)
    (hBlocks : context.doBlocks = true) :
    LaysCode context (.remote t name (args ++ [block])) := by
  have hCall := hBlock.laysCall hArgs hMany hBlocks
  apply laysCode_dotted
  rw [Term.text_dottedName _ _ hReceiver.tight hReceiver.receiver
    hName.ne_braces, hBlock.term_eq, Written.invocation_block,
    ← hBlock.term_eq, List.append_assoc, List.append_assoc]
  exact hReceiver.chain.suffix (hCall.laysSuffix hName.laysName)

------------------------------------------------------------
-- Clauses and bodies
------------------------------------------------------------

theorem laysCode_fn
    (hClauses : ∀ t ∈ ts, LaysClause t)
    (hSome : ts ≠ []) :
    LaysCode context (.operation "fn" ts) := by
  have hText :=
    laysText_clauses (fun t hMember => (hClauses t hMember).lays)
      hSome
  apply laysCode_operation ?_ (Term.precedence?_fn ts) (by decide)
  rcases Term.text_fn fun t hMember => (hClauses t hMember).only with
    hShort | hTall
  · rw [hShort]
    exact laysChain_function hText
  · rw [hTall]
    exact laysChain_tallFunction hText

/- Pairs may be all that a head consists of, or nothing at all. -/
theorem laysElements_pairs
    (hPairs : LaysItems .statement [] pairs) :
    LaysElements (itemTerms [] pairs) [] pairs :=
  ⟨rfl, hPairs.laysHead, by simp, by simp⟩

theorem LaysArguments.laysElements
    (hArgs : LaysArguments .container mayDo args items pairs)
    (hFirst : LaysCode .statement t) :
    LaysElements (t :: args) (t :: items) pairs := by
  rcases hArgs with ⟨rfl, hLays, hItem, hUnguarded, _⟩
  refine ⟨rfl, hLays.laysHead_cons hFirst.chain, ?_, ?_⟩
  · exact List.forall_mem_cons.mpr ⟨hFirst.item, hItem⟩
  · exact List.forall_mem_cons.mpr ⟨hFirst.unguarded, hUnguarded⟩

/- Statements, with a line for each. -/
theorem laysSection_statements
    (hStatements : ∀ t ∈ ts, LaysCode .statement t) :
    LaysSection (.block ts) := by
  have hItems : ∀ t ∈ ts, t.written.isItem = true :=
    fun t hMember => (hStatements t hMember).item
  rw [LaysSection, Term.bodyText_block hItems, Term.text_block]
  exact laysBody_statements
    fun t hMember => (hStatements t hMember).chain

theorem laysSection_clauses
    (hClauses : ∀ t ∈ ts, LaysClause t)
    (hSome : ts ≠ []) :
    LaysSection (.list ts) := by
  have hAll : ∀ t ∈ ts, Written.isClause t.written = true :=
    fun t hMember => (hClauses t hMember).isClause
  rw [LaysSection, Term.bodyText_clauses hAll hSome]
  exact laysBody_clauses
    (fun t hMember => (hClauses t hMember).lays) hSome

theorem unguarded_of_argsOf?
    (hNone : ∀ t ∈ items, t.written.argsOf? "when" = none) :
    Unguarded items := by
  rintro _ hMember left right rfl
  have hGuard := hNone _ hMember
  rw [Written.argsOf?, Term.named?_operation] at hGuard
  cases hGuard

theorem LaysElements.laysClause
    {head : List Term}
    (hHead : LaysElements head items pairs)
    (hStatements : ∀ t ∈ ts, LaysCode .statement t)
    (hSome : ts ≠ []) :
    LaysClause (.operation "->" [.list head, .block ts]) := by
  have hItems : ∀ t ∈ ts, t.written.isItem = true :=
    fun t hMember => (hStatements t hMember).item
  refine ⟨?_, Term.isClause_operation _, Term.onlyClause_eq _ _⟩
  rcases hHead with ⟨rfl, hLays, hItem, hUnguarded⟩
  have hBody := laysText_statements
    (fun t hMember => (hStatements t hMember).chain) hSome
  rw [Term.text_clause (.block ts) hItem hUnguarded,
    Term.bodyText_block hItems, Term.text_block]
  exact laysText_clause hLays (unguarded_of_argsOf? hUnguarded)
    hBody hSome

------------------------------------------------------------
-- All code
------------------------------------------------------------

/- Code is laid out in its role, by induction on the code. -/
theorem IsCode.laysRole
    {role : Role}
    (hCode : IsCode role t) :
    LaysRole role t := by
  induction hCode with
  | ofName context name hName =>
      exact laysCode_ofName (isVariableName_of_tokenize hName)
  | nil context => exact laysCode_nil
  | «alias» context name names hNames =>
      exact laysCode_alias names hNames
  | qualified context base name names _ hOther hNames ih =>
      exact ih.qualified names hOther hNames
  | call context name args hName _ hSigil ih =>
      rcases ih with ⟨_, items, pairs, hEq, hArgs⟩
      cases hEq
      exact hArgs.laysCode hName hSigil
  | field context receiver name _ hName ih => exact ih.field hName
  | remote context receiver name args _ hName _ ihReceiver ihArgs =>
      rcases ihArgs with ⟨_, items, pairs, hEq, hArgs⟩
      cases hEq
      exact ihReceiver.remote hName hArgs
  | anonymous context function args _ _ ihFunction ihArgs =>
      rcases ihArgs with ⟨_, items, pairs, hEq, hArgs⟩
      cases hEq
      exact ihFunction.anonymous hArgs
  | access context subject key _ _ ihSubject ihKey =>
      exact ihSubject.access ihKey.chain.laysKey
  | accessPairs context subject pairs _ hSome hKeys _ ihSubject
      ihValues =>
      apply ihSubject.access
      rw [text_keyed]
      exact LaysItems.laysKey ⟨by simp, hKeys,
        fun p hMember => (ihValues p hMember).chain⟩
  | callBlock context name args block hName _ hMany _ hBlocks hSigil
      ihArgs ihBlock =>
      rcases ihArgs with ⟨_, items, pairs, hEq, hArgs⟩
      rcases ihBlock with ⟨body, sections, hBlock⟩
      cases hEq
      exact hBlock.laysCode hArgs hMany hBlocks hName hSigil
  | remoteBlock context receiver name args block _ hName _ hMany _
      hBlocks ihReceiver ihArgs ihBlock =>
      rcases ihArgs with ⟨_, items, pairs, hEq, hArgs⟩
      rcases ihBlock with ⟨body, sections, hBlock⟩
      cases hEq
      exact ihReceiver.remoteBlock hName hArgs hMany hBlock hBlocks
  | fn context clauses hSome _ ih => exact laysCode_fn ih hSome
  | arguments context mayDo items pairs _ hKeys _ hDo ihItems
      ihValues =>
      exact ⟨_, items, pairs, rfl, rfl,
        ⟨fun t hMember => (ihItems t hMember).chain, hKeys,
          fun p hMember => (ihValues p hMember).chain⟩,
        fun t hMember => (ihItems t hMember).item,
        fun t hMember => (ihItems t hMember).unguarded, hDo⟩
  | statements ts _ ih => exact laysSection_statements ih
  | clauses ts hSome _ ih => exact laysSection_clauses ih hSome
  | pairsHead pairs hKeys _ ihValues =>
      have hPairs : LaysItems .statement [] pairs :=
        ⟨by simp, hKeys, fun p hMember => (ihValues p hMember).chain⟩
      exact ⟨_, [], pairs, rfl, laysElements_pairs hPairs⟩
  | itemsHead first args _ _ ihFirst ihArgs =>
      rcases ihArgs with ⟨_, items, pairs, hEq, hArgs⟩
      cases hEq
      exact ⟨_, first :: items, pairs, rfl, hArgs.laysElements ihFirst⟩
  | clause head ts _ hSome _ ihHead ihStatements =>
      rcases ihHead with ⟨_, items, pairs, hEq, hHead⟩
      cases hEq
      exact hHead.laysClause ihStatements hSome
  | block body sections _ hNames _ ihBody ihSections =>
      exact ⟨body, sections, rfl,
        laysBlock_sections ihBody hNames ihSections⟩

/-
  Statements of code that are written out and read again are the
  same, and there is no error, unless they are nested too deeply.
-/
theorem quoteSource_render_code
    (ts : List Term)
    (hCode : ∀ t ∈ ts, IsCode (.expression .statement) t)
    (hShallow :
      ∀ e ∈ (quoteSource .none (Term.block ts).render).2,
        ¬ e.IsTooDeep) :
    quoteSource .none (Term.block ts).render =
      (Term.block ts, []) := by
  have hLays : ∀ t ∈ ts,
      LaysChain .statement (·.Denotes t) t.written.text :=
    fun t hMember =>
      have hLaysCode : LaysCode .statement t :=
        (hCode t hMember).laysRole
      hLaysCode.chain
  cases ts with
  | nil => decide
  | cons t ts =>
      have hSome : t :: ts ≠ [] := List.cons_ne_nil t ts
      have hText :
          (Term.block (t :: ts)).render.toList =
            Written.lines ((t :: ts).map fun t => t.written.text) := by
        rw [← Term.text_block]
        exact String.toList_ofList
      have hMark :
          (Term.block (t :: ts)).render.toList.head? ≠
            some Lexer.byteOrderMark := by
        intro hHead
        have hStarts :=
          head?_intercalate "\n".toList
            (ts.map fun t => t.written.text)
            (hLays t List.mem_cons_self).starts
        rw [Written.lines, List.map_cons] at hText
        rw [← hText, hHead, Option.any_some] at hStarts
        exact absurd hStarts (by decide +kernel)
      have hLines := (laysText_statements hLays hSome).lays 0
      rw [deepened_zero, ← hText] at hLines
      exact quoteSource_of_statements hMark
        ((hLines.lexes .initial [] rfl True.intro).mono
          fun _ _ h => h.2)
        (fun _ => yields_statements_lines) hShallow

/- A call with a block, a function and clauses. -/
theorem quoteSource_render_code_block :
    let function : Term :=
      .operation "fn"
        [.operation "->" [.list [.ofName "x"], .block [.ofName "y"]]]
    let lookup : Term :=
      .access
        (.remote (.operation "__aliases__" [.atom "Baz"]) "qux"
          [.ofName "a", .list [.keyed ("k", .ofName "c")]])
        (.ofName "d")
    let clause : Term :=
      .operation "->" [.list [.ofName "z"], .block [.nil]]
    let block : Term :=
      .list ([("do", .block [lookup, .anonymous (.ofName "e") []]),
        ("else", .list [clause])].map Term.keyed)
    let t : Term :=
      .remote (.ofName "foo") "bar" ([.ofName "a", function] ++ [block])
    t.render =
        "foo.bar a, fn x -> y end do\n  Baz.qux(a, k: c)[d]\n"
          ++ "  e.()\nelse\n  z -> nil\nend" ∧
      quoteSource .none t.render = (t, []) := by
  intro function lookup clause block t
  have hText :
      t.render =
        "foo.bar a, fn x -> y end do\n  Baz.qux(a, k: c)[d]\n"
          ++ "  e.()\nelse\n  z -> nil\nend" := by
    decide +kernel
  have hName : ∀ name ∈ ["foo", "a", "x", "y", "c", "d", "e", "z"],
      ∀ context, IsCode (.expression context) (.ofName name) := by
    have hTokens : ∀ name ∈ ["foo", "a", "x", "y", "c", "d", "e", "z"],
        (tokenize name).1.map (fun t => (t.kind, t.text)) =
          [(.identifier, name)] := by
      decide +kernel
    exact fun name hMember context =>
      .ofName context name (hTokens name hMember)
  have hCalled : ∀ name ∈ ["bar", "qux"], IsDottedName name := by
    have hAll : ∀ name ∈ ["bar", "qux"],
        Literal.isIdentifier name.toList = true ∧
          '@' ∉ name.toList := by
      decide
    exact fun name hMember =>
      .identifier ⟨(hAll name hMember).1, (hAll name hMember).2⟩
  have hArguments :
      ∀ context mayDo,
        IsCode (.arguments context mayDo) (.list []) := by
    intro context mayDo
    apply IsCode.arguments context mayDo [] [] <;> simp
  have hClause : ∀ name ∈ ["foo", "a", "x", "y", "c", "d", "e", "z"],
      ∀ result, IsCode (.expression .statement) result →
        IsCode .clause
          (.operation "->" [.list [.ofName name], .block [result]]) := by
    intro name hMember result hResult
    apply IsCode.clause [.ofName name] [result]
    · exact .itemsHead _ [] (hName name hMember .statement)
        (hArguments .container true)
    · simp
    · simpa using hResult
  have hFunction : IsCode (.expression .argument) function := by
    apply IsCode.fn .argument _ (by simp)
    simpa using hClause "x" (by simp) _ (hName "y" (by simp) _)
  have hLookup : IsCode (.expression .statement) lookup := by
    apply IsCode.access
    · apply IsCode.remote
      · exact .alias .statement "Baz" [] (by decide)
      · exact hCalled "qux" (by simp)
      · apply IsCode.arguments .container false [.ofName "a"]
          [("k", .ofName "c")]
        · simpa using hName "a" (by simp) .container
        · decide +kernel
        · simpa using hName "c" (by simp) .container
        · decide
    · exact hName "d" (by simp) .container
  have hApplied :
      IsCode (.expression .statement) (.anonymous (.ofName "e") []) :=
    .anonymous .statement _ [] (hName "e" (by simp) _)
      (hArguments .container false)
  have hBlock : IsCode .block block := by
    apply IsCode.block _ [("else", .list [clause])]
    · apply IsCode.statements
      simpa using ⟨hLookup, hApplied⟩
    · decide
    · have hElse : IsCode .body (.list [clause]) := by
        apply IsCode.clauses _ (by simp)
        simpa using hClause "z" (by simp) _ (.nil .statement)
      simpa using hElse
  have hCode : IsCode (.expression .statement) t := by
    apply IsCode.remoteBlock .statement _ _ [.ofName "a", function]
    · exact hName "foo" (by simp) .statement
    · exact hCalled "bar" (by simp)
    · apply IsCode.arguments .argument true [.ofName "a", function] []
      · simpa using ⟨hName "a" (by simp) .argument, hFunction⟩
      · simp
      · simp
      · simp
    · exact .inl rfl
    · exact hBlock
    · rfl
  refine ⟨hText, ?_⟩
  apply quoteSource_render_code [t] (by simpa using hCode)
  change ∀ e ∈ (quoteSource .none t.render).2, ¬ e.IsTooDeep
  rw [hText]
  decide +kernel

/- A block among arguments loses the parentheses that it needs. -/
theorem quoteSource_render_enclosed :
    let t : Term :=
      .operation "foo" [.block [.ofName "a", .ofName "b"]]
    quoteSource .none "foo((a; b))" = (t, []) ∧
      t.render = "foo(a\nb)" ∧
      (quoteSource .none t.render).2.map SourceError.message =
        ["expected ')', got 'b' at line 2, column 1"] ∧
      quoteSource .none t.render ≠ (t, []) := by
  decide +kernel

end ElixirReader
