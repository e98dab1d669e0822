import ElixirReader.Proofs.Lexer.Chains
import ElixirReader.Proofs.Quote.Containers
import ElixirReader.Proofs.Quote.Growth
import ElixirReader.Proofs.Quote.Operations

/-
  This file shows how chains are read: a name or a call, and
  behind it dots with names, arguments in parentheses, and keys
  in brackets. A chain is read up to a place where it may still
  go on; what is read then is folded into a larger chain, or
  ends it.

  Key definitions include:
    * `EndsCall`
    * `ReadsChain`
    * `ReadsCall`
    * `ReadsName`
    * `Term.keywordsOf`
    * `IsAliasNode`

  Main declarations:
    * `ReadsChain.suffix`
    * `ReadsChain.readsOperand`
    * `AreArguments.readsCall`
    * `readsCall_block`
    * `readsChain_call`
    * `ReadsChain.remote`
    * `ReadsChain.anonymous`
    * `ReadsChain.access`
-/

namespace ElixirReader

open Parse

variable {n height : Nat}
variable {context : Context}
variable {P Q : Node → Prop}
variable {t : Term}
variable {args : List Term}
variable {l opened closed : Lexeme}
variable {ls more body : List Lexeme}

------------------------------------------------------------
-- Chains
------------------------------------------------------------

/- What comes next makes no call of the name in front. -/
structure EndsCall
    (context : Context)
    (ls : List Lexeme) : Prop where
  argument : argumentAhead ls = false
  head : ∀ l ∈ ls.head?,
    l.kind ≠ .opening .parenthesis ∧
      (context.doBlocks = true → l.kind ≠ .word .do)

theorem Follows.endsCall
    (hFollows : Follows context ls) :
    EndsCall context ls :=
  ⟨hFollows.argumentAhead_eq, fun l hHead =>
    ⟨(hFollows.head?_ne l hHead).2.2 .parenthesis,
      (hFollows.head?_ne l hHead).2.1⟩⟩

theorem endsCall_dot
    (hKind : l.kind = .dot) :
    EndsCall context (l :: ls) := by
  constructor
  · simp [argumentAhead, hKind, Kind.startsArgument,
      Kind.isNumberPart]
  · rintro _ ⟨⟩
    rw [hKind]
    exact ⟨Kind.noConfusion, fun _ => Kind.noConfusion⟩

theorem endsCall_square
    (hKind : l.kind = .opening .square)
    (hTouches : l.spaced = false) :
    EndsCall context (l :: ls) := by
  constructor
  · simp [argumentAhead, hTouches]
  · rintro _ ⟨⟩
    rw [hKind]
    exact ⟨by simp, fun _ => Kind.noConfusion⟩

/- The kinds that chains start with. -/
def Kind.beginsChain : Kind → Bool
| identifier => true
| .alias => true
| word .fn => true
| word .nil => true
| _ => false

theorem Kind.of_beginsChain
    {k : Kind}
    (hBegins : k.beginsChain = true) :
    k.startsPrimary = true ∧ k.beginsOperand = true ∧
      k ≠ .promoter .string .quoted := by
  cases k with
  | word w => cases w <;> first | exact ⟨rfl, rfl, Kind.noConfusion⟩ |
      cases hBegins
  | _ => first | exact ⟨rfl, rfl, Kind.noConfusion⟩ | cases hBegins

/-
  Lexemes are read as a node, and what goes on behind them with
  any suffixes goes on with that node.
-/
structure ReadsChain
    (context : Context)
    (P : Node → Prop)
    (ls : List Lexeme) : Prop where
  begins : ls.head?.any (·.kind.beginsChain) = true
  reads : ∀ n height more back Result,
    EndsCall context more →
      (∀ height node,
        P node →
          Yields TooDeep
            (suffixes (expression n) context height node) more
            back Result) →
        Yields TooDeep (operand (expression n) height context)
          (ls ++ more) back Result

theorem ReadsChain.mono
    (hReads : ReadsChain context P ls)
    (hSame : ∀ node, P node → Q node) :
    ReadsChain context Q ls :=
  ⟨hReads.begins, fun n height more back Result hEnds hGoes =>
    hReads.reads n height more back Result hEnds
      fun height node hNode => hGoes height node (hSame node hNode)⟩

/- A chain starts with what is read without any suffixes. -/
theorem readsChain_of_primary
    (hBegins : l.kind.beginsChain = true)
    (hPrimary : ∀ n height more,
      EndsCall context more →
        Yields TooDeep (primaryAt (expression n height) context l)
          (l :: (ls ++ more)) more P) :
    ReadsChain context P (l :: ls) := by
  refine ⟨hBegins, ?_⟩
  intro n height more back Result hEnds hGoes
  unfold operand
  refine steps_peek.bind ?_
  change Yields TooDeep
    (operandAt (expression n) height context l) _ _ _
  rw [operandAt_of_startsPrimary _ _ _
    (Kind.of_beginsChain hBegins).1]
  unfold suffixed
  refine Yields.bind
    (steps_peek.bind (hPrimary n height more hEnds)) ?_ ?_
  · exact fun node => grows_suffixes n height context node
  · exact fun node hNode => hGoes height node hNode

/- A chain goes on with a suffix. -/
theorem ReadsChain.suffix
    (kind : SuffixKind)
    {suffix : List Lexeme}
    (hReads : ReadsChain context P ls)
    (hAhead : ∀ more,
      suffixAhead? (suffix ++ more) = some kind ∧
        EndsCall context (suffix ++ more))
    (hSuffix : ∀ n height more node,
      P node →
        EndsCall context more →
          Yields TooDeep
            (withSuffix (expression n height) context node kind)
            (suffix ++ more) more Q) :
    ReadsChain context Q (ls ++ suffix) := by
  refine ⟨?_, ?_⟩
  · cases ls with
    | nil => exact absurd hReads.begins Bool.false_ne_true
    | cons l ls => exact hReads.begins
  intro n height more back Result hEnds hGoes
  rw [List.append_assoc]
  apply hReads.reads n height _ back Result (hAhead more).2
  intro height node hNode
  cases height with
  | zero =>
      unfold suffixes
      refine steps_rest.bind ?_
      rw [(hAhead more).1]
      exact yields_errorNode fun _ => rfl
  | succ height =>
      unfold suffixes
      refine steps_rest.bind ?_
      rw [(hAhead more).1]
      refine (hSuffix n height more node hNode hEnds).bind
        ?_ ?_
      · exact fun larger => grows_suffixes n height context larger
      · exact fun larger hLarger => hGoes height larger hLarger

/- A chain with a term is an operand. -/
theorem ReadsChain.readsOperand
    (hReads : ReadsChain context (·.Denotes t) ls) :
    ReadsOperand context t ls := by
  cases ls with
  | nil => exact absurd hReads.begins Bool.false_ne_true
  | cons l ls =>
      rcases Kind.of_beginsChain hReads.begins with
        ⟨_, hBegins, hText⟩
      refine ⟨hBegins, ?_, ?_⟩
      · exact fun more _ =>
          keywordAhead_of_beginsOperand hBegins hText
      · intro n height more hFollows
        apply hReads.reads n height more more _ hFollows.endsCall
        exact fun height node hNode =>
          (hFollows.steps_suffixes node).yields hNode

------------------------------------------------------------
-- Arguments
------------------------------------------------------------

/- The pairs at the end of the arguments of a call, if any. -/
def Term.keywordsOf
    (pairs : List Term) : List Term :=
  if pairs.isEmpty then [] else [.list pairs]

variable {trees : List (OperatorTree Term Sign)}
variable {pairs : List (String × OperatorTree Term Sign)}

/- As arguments, pairs are a list of their own. -/
theorem AreElements.quoteAll_arguments
    {nodes : List Node}
    (hElements : AreElements trees pairs nodes) :
    Node.quoteAll .none nodes =
      trees.map (·.term) ++ Term.keywordsOf (pairTerms pairs) := by
  induction hElements with
  | nil => rfl
  | pairs pairs nodes span hSome hPairs =>
      have hTerms : (pairTerms pairs).isEmpty = false := by
        cases pairs with
        | nil => exact absurd rfl hSome
        | cons p pairs => rfl
      simp [Node.quoteAll, Node.quote, Term.keywordsOf, hPairs,
        hTerms]
  | cons tree trees pairs node nodes hFirst _ ih =>
      rw [Node.quoteAll, hFirst.quote_eq, ih]
      rfl

/- The terms of the arguments and the block of a call. -/
def Suffix.terms
    (s : Suffix) : List Term :=
  Node.quoteAll .none s.arguments ++
    (s.doBlock.map fun b =>
      Term.list (Node.quoteSections .none b.sections)).toList

theorem Suffix.quote_call
    (target : Target Node)
    (start : Span)
    (s : Suffix) :
    (s.call target start).quote .none =
      Construct.call .none (start.merge s.last)
        (Node.quoteTarget .none target) s.parentheses s.terms := by
  rcases s with ⟨arguments, parentheses, doBlock, last⟩
  cases doBlock with
  | none => simp [Suffix.call, Suffix.terms, Node.quote]
  | some b => rfl

/-
  Lexemes behind a name make a call of it, with terms as its
  arguments.
-/
def ReadsCall
    (context : Context)
    (args : List Term)
    (ls : List Lexeme) : Prop :=
  ∀ n height more,
    EndsCall context more →
      Yields TooDeep (callSuffix (expression n height) context)
        (ls ++ more) more
        (fun s => ∃ suffix,
          s = some suffix ∧ suffix.terms = args ∧
            (suffix.parentheses = true ∨ args ≠ []))

/- Elements in parentheses, which touch what is before them. -/
structure AreArguments
    (trees : List (OperatorTree Term Sign))
    (pairs : List (String × OperatorTree Term Sign))
    (ls : List Lexeme) : Prop where
  applied :
    IsApplied (Element.IsSpelled .container) .parenthesis
      (Element.all trees pairs) ls
  trees : ∀ t ∈ trees, t.Ordered Sign.binding
  pairs : ∀ p ∈ pairs, p.2.Ordered Sign.binding

/- The terms of arguments. -/
def argumentTerms
    (trees : List (OperatorTree Term Sign))
    (pairs : List (String × OperatorTree Term Sign)) : List Term :=
  trees.map (·.term) ++ Term.keywordsOf (pairTerms pairs)

/- Where no call is made there are no arguments. -/
theorem EndsCall.steps_callSuffix
    (expr : ExpressionParser)
    (hEnds : EndsCall context ls) :
    Steps (callSuffix expr context) ls ls none := by
  have hOpening :
      ls.head?.any (fun m =>
        m.kind == .opening .parenthesis && !m.spaced) =
          false := by
    cases ls with
    | nil => rfl
    | cons m ls => simp [(hEnds.head m rfl).1]
  have hDo :
      (context.doBlocks &&
        ls.head?.any (·.kind == .word .do)) = false := by
    cases ls with
    | nil => simp
    | cons m ls => simpa using (hEnds.head m rfl).2
  have hArguments : Steps (callArguments expr context) ls ls none := by
    unfold callArguments
    refine steps_rest.trans ?_
    rw [hOpening, hEnds.argument, hDo]
    exact steps_pure none
  unfold callSuffix
  exact hArguments.trans (steps_pure none)

/- Where no block follows, none is attached. -/
theorem EndsCall.steps_attachDo
    (expr : ExpressionParser)
    (s : Suffix)
    (hEnds : EndsCall context ls) :
    Steps (attachDo expr context s) ls ls s := by
  unfold attachDo
  refine (steps_isAt (.word .do)).trans ?_
  rw [if_neg]
  · exact steps_pure s
  · cases ls with
    | nil => simp
    | cons m ls => simpa using (hEnds.head m rfl).2

/- Arguments make a call with the block that is attached. -/
theorem Yields.callSuffix
    {mid : List Lexeme}
    {First Result : Option Suffix → Prop}
    (hArguments :
      Yields TooDeep (callArguments (expression n height) context) ls
        mid First)
    (hGoes : ∀ r, First r → ∃ s, r = some s ∧
      Yields TooDeep (attachDo (expression n height) context s) mid
        more (fun s' => Result (some s'))) :
    Yields TooDeep (callSuffix (expression n height) context) ls more
      Result := by
  unfold Parse.callSuffix
  refine hArguments.bind ?_ ?_
  · rintro (_ | s)
    · exact .pure none
    · exact (grows_attachDo n height context s).bind
        fun _ => .pure _
  · intro r hFirst
    rcases hGoes r hFirst with ⟨s, rfl, hAttached⟩
    exact hAttached.bind (fun _ => .pure _) fun _ hResult =>
      .pure hResult

/- Arguments that touch a name make a call of it. -/
theorem AreArguments.readsCall
    (hArguments : AreArguments trees pairs ls) :
    ReadsCall context (argumentTerms trees pairs) ls := by
  intro n height more hEnds
  rcases hArguments with
    ⟨⟨opened, body, closed, rfl, hOpened, hTouches, hClosed,
      hElements⟩, hTrees, hPairs⟩
  have hAssoc :
      opened :: (body ++ [closed]) ++ more =
        opened :: (body ++ closed :: more) := by
    simp
  have hOpening :
      (opened :: (body ++ closed :: more)).head?.any (fun m =>
        m.kind == .opening .parenthesis && !m.spaced) = true := by
    simp [hOpened, hTouches]
  have hBody :
      Yields TooDeep (callArguments (expression n height) context)
        (opened :: (body ++ closed :: more)) more
        (fun s => ∃ nodes last,
          s = some ⟨nodes, true, none, last⟩ ∧
            AreElements trees pairs nodes) := by
    unfold callArguments parenthesizedSuffix
    refine steps_rest.bind ?_
    rw [hOpening, if_pos rfl]
    refine Yields.bind ?_ (fun _ => .pure _)
      (fun s hNodes => .pure hNodes)
    refine (yields_enclosed hElements hTrees hPairs hClosed).bind
      (fun _ => .pure _) ?_
    exact fun r hNodes => .pure ⟨r.1, r.2, rfl, hNodes⟩
  rw [hAssoc]
  refine hBody.callSuffix ?_
  rintro _ ⟨nodes, last, rfl, hNodes⟩
  refine ⟨_, rfl, (hEnds.steps_attachDo _ _).yields ?_⟩
  refine ⟨_, rfl, ?_, .inl rfl⟩
  simp [Suffix.terms, hNodes.quoteAll_arguments, argumentTerms]

------------------------------------------------------------
-- Blocks behind arguments
------------------------------------------------------------

/- Lexemes are read as a do block, with a term for its sections. -/
structure ReadsBlock
    (t : Term)
    (ls : List Lexeme) : Prop where
  begins : ls.head?.any (·.kind == .word .do) = true
  reads : ∀ n height more,
    Yields TooDeep (doBlock (expression n height)) (ls ++ more) more
      (fun b => Term.list (Node.quoteSections .none b.sections) = t)

theorem ReadsBlock.yields_attachDo
    (hBlock : ReadsBlock t ls)
    (hBlocks : context.doBlocks = true)
    (s : Suffix)
    (hNone : s.doBlock = none) :
    Yields TooDeep (attachDo (expression n height) context s)
      (ls ++ more) more
      (fun s' => s'.terms = s.terms ++ [t]) := by
  unfold attachDo
  refine (steps_isAt (.word .do)).bind ?_
  rw [hBlocks, head?_any_append more hBlock.begins]
  change Yields TooDeep (doBlock _ >>= _) _ _ _
  refine (hBlock.reads n height more).bind (fun _ => .pure _) ?_
  intro b hSections
  apply Yields.pure
  simp [Suffix.terms, hNone, hSections]

/- A block alone makes a call of the name in front. -/
theorem ReadsBlock.readsCall
    (hBlock : ReadsBlock t ls)
    (hBlocks : context.doBlocks = true) :
    ReadsCall context [t] ls := by
  intro n height more hEnds
  have hArguments :
      Yields TooDeep (callArguments (expression n height) context)
        (ls ++ more) (ls ++ more)
        (fun s => ∃ last, s = some (Suffix.bare last)) := by
    rcases exists_of_head?_any hBlock.begins with
      ⟨l, rest, rfl, hDo⟩
    have hKind : l.kind = .word .do := by simpa using hDo
    have hArgument : argumentAhead (l :: rest ++ more) = false := by
      simp [argumentAhead, hKind, Kind.startsArgument,
        Kind.startsLiteral]
    unfold callArguments
    refine steps_rest.bind ?_
    rw [hArgument]
    simp only [List.cons_append, List.head?_cons, Option.any_some,
      hKind, hBlocks]
    exact (steps_currentSpan l).bind (.pure ⟨_, rfl⟩)
  refine hArguments.callSuffix ?_
  rintro _ ⟨last, rfl⟩
  refine ⟨_, rfl, (hBlock.yields_attachDo hBlocks (Suffix.bare last)
    rfl).mono ?_⟩
  intro s hTerms
  exact ⟨s, rfl, hTerms, .inr (List.cons_ne_nil _ _)⟩

/- At the first of some elements no line ends. -/
theorem ne_endOfLine_of_elements
    {es : List Element}
    (hElements : Separated .comma (Element.IsSpelled context) es ls)
    (hSome : es ≠ []) :
    ∀ m ∈ (ls ++ more).head?, m.kind ≠ .endOfLine := by
  cases es with
  | nil => exact absurd rfl hSome
  | cons e es =>
      rcases hElements.exists_append with
        ⟨first, behind, rfl, hSpelled, _⟩
      rw [List.append_assoc]
      cases e with
      | expression tree => exact ne_endOfLine_of_spells hSpelled
      | pair key value =>
          rcases hSpelled.exists_opensPair with
            ⟨keys, values, rfl, _, hOpens⟩
          rcases exists_of_head?_any (hOpens .none []).begins with
            ⟨l, rest, rfl, hBegins⟩
          rintro _ ⟨⟩
          exact (Kind.not_of_beginsPair hBegins).1

/- The arguments of a call without parentheses, up to their end. -/
theorem yields_argumentsFor
    {k : Nat}
    (hElements :
      Separated .comma (Element.IsSpelled .argument)
        (Element.all trees pairs) ls)
    (hSome : argumentTerms trees pairs ≠ [])
    (hTrees : ∀ t ∈ trees, t.Ordered Sign.binding)
    (hPairs : ∀ p ∈ pairs, p.2.Ordered Sign.binding)
    (hMany :
      context.manyArguments = true ∨
        (argumentTerms trees pairs).length ≤ 1)
    (hEnds : EndsElements .argument more)
    (hBound : trees.length < k) :
    Yields TooDeep (argumentsFor (expression n height) context k)
      (ls ++ more) more (AreElements trees pairs) := by
  have hComma :
      more.head?.any (·.kind == .comma) = false := by
    cases more with
    | nil => rfl
    | cons l more =>
        rcases hEnds with ⟨b, hKind⟩ | hKind | ⟨hKind, _⟩ <;>
          simp [hKind]
  induction trees generalizing ls k with
  | nil =>
      cases k with
      | zero => cases hBound
      | succ k =>
          have hPairs' : pairs ≠ [] := by
            rintro rfl
            exact hSome rfl
          unfold argumentsFor
          refine steps_rest.bind ?_
          rw [(beginsPair_of_pairs more hElements hPairs').2,
            if_pos rfl]
          exact (yields_keywords hElements hPairs' hPairs hEnds).bind
            (fun _ => .pure _) fun node hNodes => .pure hNodes
  | cons tree trees ih =>
      cases k with
      | zero => cases hBound
      | succ k =>
          rcases hElements.exists_append with
            ⟨first, behind, rfl, hSpells, hBehind⟩
          have hEnd : EndsElement .argument (behind ++ more) :=
            endsElement_append hBehind hEnds
          rw [List.append_assoc]
          unfold argumentsFor
          refine steps_rest.bind ?_
          rw [keywordAhead_of_spells hSpells hEnd.follows,
            if_neg Bool.false_ne_true]
          refine (hEnd.yields 0 hSpells
            (hTrees tree List.mem_cons_self)
            (fun _ _ => Nat.zero_le _)).bind
            (fun node => grows_argumentsBehind n height k context
              node) ?_
          intro node hMeans
          refine (steps_isAt .comma).bind ?_
          rcases hBehind with
            ⟨hLast, rfl⟩ | ⟨comma, rest, rfl, hKind, hMore, hRest⟩
          · have hNil : trees = [] ∧ pairs = [] := by
              simpa [Element.ofPairs] using hLast
            rw [List.nil_append, hComma, Bool.and_false,
              if_neg Bool.false_ne_true, hNil.1, hNil.2]
            exact .pure (.cons _ _ _ _ _ hMeans .nil)
          · have hSome' : argumentTerms trees pairs ≠ [] := by
              intro hNil
              apply hMore
              simp [argumentTerms, Term.keywordsOf, pairTerms]
                at hNil
              simp [Element.ofPairs, hNil.1, hNil.2]
            have hContext : context.manyArguments = true := by
              rcases hMany with hMany | hLength
              · exact hMany
              · have hPositive := List.length_pos_iff.mpr hSome'
                simp only [argumentTerms, List.map_cons,
                  List.cons_append, List.length_cons] at hLength
                rw [argumentTerms] at hPositive
                omega
            have hAt :
                (comma :: rest ++ more).head?.any
                  (·.kind == .comma) = true := by
              simp [hKind]
            have hNoLineEnd :
                ∀ m ∈ (rest ++ more).head?, m.kind ≠ .endOfLine :=
              ne_endOfLine_of_elements hRest hMore
            rw [hContext, hAt, Bool.and_self, if_pos rfl]
            refine (steps_skip_one comma).bind
              ((steps_skipLineEnds hNoLineEnd).bind ?_)
            refine (ih hRest hSome'
              (fun t hMember =>
                hTrees t (List.mem_cons_of_mem tree hMember))
              (.inl hContext) (Nat.lt_of_succ_lt_succ hBound)).bind
              (fun _ => .pure _) ?_
            intro nodes hNodes
            exact .pure (.cons _ _ _ _ _ hMeans hNodes)

/-
  Arguments without parentheses and a block behind them make a
  call of the name in front.
-/
theorem ReadsBlock.readsCall_open
    {block : List Lexeme}
    (hElements :
      Separated .comma (Element.IsSpelled .argument)
        (Element.all trees pairs) ls)
    (hSome : argumentTerms trees pairs ≠ [])
    (hTrees : ∀ t ∈ trees, t.Ordered Sign.binding)
    (hPairs : ∀ p ∈ pairs, p.2.Ordered Sign.binding)
    (hMany :
      context.manyArguments = true ∨
        (argumentTerms trees pairs).length ≤ 1)
    (hAhead : ∀ more, argumentAhead (ls ++ more) = true)
    (hBlock : ReadsBlock t block)
    (hBlocks : context.doBlocks = true) :
    ReadsCall context (argumentTerms trees pairs ++ [t])
      (ls ++ block) := by
  intro n height more hEnds
  have hEnds' : EndsElements .argument (block ++ more) := by
    rcases exists_of_head?_any hBlock.begins with
      ⟨l, rest, rfl, hDo⟩
    exact .inr (.inr ⟨by simpa using hDo, rfl⟩)
  have hOpening :
      (ls ++ (block ++ more)).head?.any (fun m =>
        m.kind == .opening .parenthesis && !m.spaced) = false := by
    have hSpaced := hAhead (block ++ more)
    generalize ls ++ (block ++ more) = all at hSpaced ⊢
    cases all with
    | nil => rfl
    | cons m all =>
        rw [argumentAhead, Bool.and_eq_true] at hSpaced
        simp [hSpaced.1]
  have hBound :
      trees.length < (ls ++ (block ++ more)).length + 1 := by
    have hLength :=
      hElements.length_le fun _ _ hItem => hItem.ne_nil
    rw [Element.all, List.length_append, List.length_map]
      at hLength
    rw [List.length_append]
    omega
  have hArguments :
      Yields TooDeep (callArguments (expression n height) context)
        (ls ++ (block ++ more)) (block ++ more)
        (fun s => ∃ nodes last,
          s = some ⟨nodes, false, none, last⟩ ∧
            AreElements trees pairs nodes) := by
    unfold callArguments openSuffix
    refine steps_rest.bind ?_
    rw [hOpening, hAhead, if_neg Bool.false_ne_true, if_pos rfl]
    refine Yields.bind ?_ (fun _ => .pure _)
      (fun s hNodes => .pure hNodes)
    refine steps_rest.bind ?_
    refine (yields_argumentsFor hElements hSome hTrees hPairs hMany
      hEnds' hBound).bind (fun _ => .silent fun _ => rfl) ?_
    intro nodes hNodes s hStands
    exact .inr ⟨⟨nodes, _, rfl, hNodes⟩, hStands⟩
  rw [List.append_assoc]
  refine hArguments.callSuffix ?_
  rintro _ ⟨nodes, last, rfl, hNodes⟩
  refine ⟨_, rfl, (hBlock.yields_attachDo hBlocks
    ⟨nodes, false, none, last⟩ rfl).mono ?_⟩
  intro s hTerms
  refine ⟨s, rfl, ?_, .inr (by simp)⟩
  rw [hTerms]
  simp [Suffix.terms, hNodes.quoteAll_arguments, argumentTerms]

------------------------------------------------------------
-- Names and calls
------------------------------------------------------------

theorem readsChain_variable
    (hKind : l.kind = .identifier) :
    ReadsChain context
      (·.Denotes (.ofName l.text)) [l] := by
  apply readsChain_of_primary (by rw [hKind]; rfl)
  intro n height more hEnds
  simp only [primaryAt, hKind]
  refine (steps_skip_one l).bind ?_
  unfold identifier
  exact (hEnds.steps_callSuffix _).bind (.pure (.of_quote rfl rfl))

theorem readsChain_nil
    (hKind : l.kind = .word .nil) :
    ReadsChain context (·.Denotes .nil) [l] := by
  apply readsChain_of_primary (by rw [hKind]; rfl)
  intro n height more _
  simp only [primaryAt, hKind]
  exact (steps_single _).yields (.of_quote rfl rfl)

/- A call of a name. -/
theorem readsChain_call
    (hKind : l.kind = .identifier)
    (hCall : ReadsCall context args ls) :
    ReadsChain context
      (·.Denotes (.operation l.text args)) (l :: ls) := by
  apply readsChain_of_primary (by rw [hKind]; rfl)
  intro n height more hEnds
  simp only [primaryAt, hKind]
  refine (steps_skip_one l).bind ?_
  unfold identifier
  refine (hCall n height more hEnds).bind
    (fun s => by cases s <;> exact .pure _) ?_
  rintro _ ⟨s, rfl, hTerms, _⟩
  apply Yields.pure
  refine .of_quote ?_ rfl
  rw [Suffix.quote_call, hTerms]
  rfl

------------------------------------------------------------
-- Aliases
------------------------------------------------------------

/- A node is an alias, perhaps behind another expression. -/
def IsAliasNode
    (base : Option Term)
    (segments : List String)
    (node : Node) : Prop :=
  ∃ b span,
    node = ⟨.alias b segments, span⟩ ∧
      (Node.quoteOption .none b).toList.map Quoted.term = base.toList

theorem IsAliasNode.denotes
    {base : Option Term}
    {segments : List String}
    {node : Node}
    (hAlias : IsAliasNode base segments node) :
    node.Denotes
      (.operation "__aliases__"
        (base.toList ++ segments.map .atom)) := by
  rcases hAlias with ⟨b, span, rfl, hBase⟩
  refine .of_quote ?_ rfl
  change Construct.form .none span "__aliases__" _ = _
  rw [hBase]
  rfl

theorem readsChain_alias
    (hKind : l.kind = .alias) :
    ReadsChain context (IsAliasNode none [l.text]) [l] := by
  apply readsChain_of_primary (by rw [hKind]; rfl)
  intro n height more _
  simp only [primaryAt, hKind]
  exact (steps_single _).yields ⟨none, _, rfl, rfl⟩

/- One more segment of an alias. -/
theorem IsAliasNode.extendAlias
    {base : Option Term}
    {segments : List String}
    {node : Node}
    (segment : Lexeme)
    (hAlias : IsAliasNode base segments node) :
    IsAliasNode base (segments ++ [segment.text])
      (extendAlias node segment) := by
  rcases hAlias with ⟨b, span, rfl, hBase⟩
  exact ⟨b, _, rfl, hBase⟩

/- What is no alias is put in front of the first segment. -/
theorem Node.Denotes.extendAlias
    {node : Node}
    (segment : Lexeme)
    (hNode : node.Denotes t)
    (hOther : ∀ parts, t ≠ .operation "__aliases__" parts) :
    IsAliasNode (some t) [segment.text]
      (extendAlias node segment) := by
  have hQuote := hNode.quote_eq
  rcases node with ⟨form, span⟩
  cases form with
  | «alias» b segments => exact absurd hQuote.symm (hOther _)
  | _ =>
      refine ⟨some ⟨_, span⟩, _, rfl, ?_⟩
      simp [Node.quoteOption, hQuote]

------------------------------------------------------------
-- Dots
------------------------------------------------------------

variable {dot name : Lexeme}
variable {tail : List Lexeme}

/- A suffix that starts with a dot. -/
theorem ReadsChain.dotted
    (hReads : ReadsChain context P ls)
    (hDot : dot.kind = .dot)
    (hBehind : ∀ n height more node span,
      P node →
        EndsCall context more →
          Yields TooDeep
            (afterDot (expression n height) context node span name)
            (name :: (tail ++ more)) more Q) :
    ReadsChain context Q (ls ++ dot :: name :: tail) := by
  apply hReads.suffix .dot
  · intro more
    exact ⟨by simp [suffixAhead?, hDot], endsCall_dot hDot⟩
  · intro n height more node hNode hEnds
    change Yields TooDeep
      (Parse.dotted (expression n height) context node) _ _ _
    unfold Parse.dotted
    exact (steps_currentSpan dot).bind ((steps_skip_one dot).bind
      (steps_peek.bind
        (hBehind n height more node dot.span hNode hEnds)))

theorem ReadsChain.alias
    (hReads : ReadsChain context P ls)
    (hDot : dot.kind = .dot)
    (hName : name.kind = .alias)
    (hExtends : ∀ node, P node → Q (extendAlias node name)) :
    ReadsChain context Q (ls ++ [dot, name]) := by
  apply hReads.dotted hDot
  intro n height more node span hNode _
  simp only [afterDot, hName]
  exact (steps_skip_one name).bind (.pure (hExtends node hNode))

namespace Term

/- A call of what stands at both sides of a dot. -/
def dotted
    (sides : List Term)
    (metadata : Term)
    (args : List Term) : Term :=
  .call (.operation "." sides) metadata (.list args)

/- A call of a function by its name behind a dot. -/
def remote
    (receiver : Term)
    (name : String)
    (args : List Term) : Term :=
  dotted [receiver, .atom name] (.list []) args

/- A name behind a dot without arguments. -/
def field
    (receiver : Term)
    (name : String) : Term :=
  dotted [receiver, .atom name]
    (.keywords [("no_parens", .boolean true)]) []

/- A call of a function that is a value. -/
def anonymous
    (function : Term)
    (args : List Term) : Term :=
  dotted [function] (.list []) args

/- The value under a key. -/
def access
    (subject key : Term) : Term :=
  dotted [.moduleAtom "Access", .atom "get"] (.list []) [subject, key]

end Term

/- What is quoted is in itself no alias and no run of pairs. -/
theorem Node.quoteTarget_remote
    (node : Node)
    (name : String)
    (at' nameSpan : Span) :
    Node.quoteTarget .none (.remote node name at' nameSpan) =
      .remote ⟨node.quote .none, node.span⟩ name at' nameSpan := by
  rcases node with ⟨form, span⟩
  rfl

/-
  Lexemes behind a dot are read as a name, and what goes on with
  a call of it goes on behind them.
-/
def ReadsName
    (name : String)
    (ls : List Lexeme) : Prop :=
  ∃ l rest,
    ls = l :: rest ∧
      ∀ expr context node span more back (Result : Node → Prop),
        (∀ nameSpan,
          Yields TooDeep
            (remoteCall expr context node name span nameSpan) more
            back Result) →
          Yields TooDeep (afterDot expr context node span l)
            (l :: (rest ++ more)) back Result

theorem readsName_identifier
    (hKind : l.kind = .identifier) :
    ReadsName l.text [l] := by
  refine ⟨l, [], rfl, ?_⟩
  intro expr context node span more back Result hCall
  simp only [afterDot, hKind]
  exact (steps_skip_one l).bind (hCall l.span)

/- A text between quotes is a name too. -/
theorem readsName_text
    {content : List Char}
    (hText : IsText content ls) :
    ReadsName (String.ofList content) ls := by
  have hPromoter :
      ∃ opened rest,
        ls = opened :: rest ∧
          opened.kind = .promoter .string .quoted := by
    rcases hText with ⟨opened, body, closed, rfl, hOpened, _⟩
    exact ⟨opened, _, rfl, hOpened⟩
  rcases hPromoter with ⟨opened, rest, rfl, hOpened⟩
  refine ⟨opened, rest, rfl, ?_⟩
  intro expr context node span more back Result hCall
  rcases hText.exists_steps expr more with
    ⟨t, nameSpan, hSteps, _, hLiteral⟩
  simp only [afterDot, hOpened]
  change Yields TooDeep (quotedRemote expr context node span) _ _ _
  unfold quotedRemote
  refine hSteps.bind ?_
  dsimp only
  rw [hLiteral]
  exact hCall nameSpan

variable {called : String}
variable {names : List Lexeme}

/- A name behind a dot, with what makes a call of it. -/
theorem ReadsName.readsChain
    (hName : ReadsName called names)
    (hReads : ReadsChain context P ls)
    (hDot : dot.kind = .dot)
    (hCall : ∀ n height more node span nameSpan,
      P node →
        EndsCall context more →
          Yields TooDeep
            (remoteCall (expression n height) context node called
              span nameSpan)
            (tail ++ more) more Q) :
    ReadsChain context Q (ls ++ dot :: (names ++ tail)) := by
  rcases hName with ⟨l, rest, rfl, hBehind⟩
  rw [List.cons_append]
  apply hReads.dotted hDot
  intro n height more node span hNode hEnds
  rw [List.append_assoc]
  exact hBehind _ _ _ _ _ _ _ fun nameSpan =>
    hCall n height more node span nameSpan hNode hEnds

/- A call of a name behind a dot. -/
theorem ReadsChain.remote
    (hReads : ReadsChain context (·.Denotes t) ls)
    (hDot : dot.kind = .dot)
    (hName : ReadsName called names)
    (hCall : ReadsCall context args tail) :
    ReadsChain context (·.Denotes (.remote t called args))
      (ls ++ dot :: (names ++ tail)) := by
  apply hName.readsChain hReads hDot
  intro n height more node span nameSpan hNode hEnds
  unfold remoteCall
  refine (hCall n height more hEnds).bind (fun _ => .pure _) ?_
  rintro _ ⟨s, rfl, hTerms, hCalled⟩
  have hMetadata :
      Construct.remoteMetadata .none nameSpan s.parentheses args =
        .list [] := by
    rcases hCalled with hParentheses | hArgs
    · rw [Construct.remoteMetadata, hParentheses]
      rfl
    · rw [Construct.remoteMetadata,
        List.isEmpty_eq_false_iff.mpr hArgs, Bool.and_false]
      rfl
  apply Yields.pure
  refine .of_quote ?_ rfl
  rw [Option.getD_some, Suffix.quote_call, hTerms,
    Node.quoteTarget_remote, hNode.quote_eq]
  change Term.call _ (Construct.remoteMetadata .none nameSpan
    s.parentheses args) _ = _
  rw [hMetadata]
  rfl

/- A name behind a dot that is not called. -/
theorem ReadsChain.field
    (hReads : ReadsChain context (·.Denotes t) ls)
    (hDot : dot.kind = .dot)
    (hName : ReadsName called names) :
    ReadsChain context (·.Denotes (.field t called))
      (ls ++ dot :: names) := by
  rw [← List.append_nil names]
  apply hName.readsChain hReads hDot
  intro n height more node span nameSpan hNode hEnds
  unfold remoteCall
  refine (hEnds.steps_callSuffix _).bind (.pure ?_)
  refine .of_quote ?_ rfl
  rw [Option.getD_none, Suffix.quote_call, Node.quoteTarget_remote,
    hNode.quote_eq]
  rfl

/- A call of a function that is a value. -/
theorem ReadsChain.anonymous
    (hReads : ReadsChain context (·.Denotes t) ls)
    (hDot : dot.kind = .dot)
    (hArguments : AreArguments trees pairs tail) :
    ReadsChain context
      (·.Denotes (.anonymous t (argumentTerms trees pairs)))
      (ls ++ dot :: tail) := by
  rcases hArguments with
    ⟨⟨opened, body, closed, rfl, hOpened, _, hClosed, hElements⟩,
      hTrees, hPairs⟩
  apply hReads.dotted hDot
  intro n height more node span hNode _
  simp only [afterDot, hOpened]
  unfold enclosedCall
  rw [List.append_assoc]
  refine (yields_enclosed hElements hTrees hPairs hClosed).bind
    (fun _ => .pure _) ?_
  rintro ⟨nodes, last⟩ hNodes
  apply Yields.pure
  refine .of_quote ?_ rfl
  rcases node with ⟨form, at'⟩
  have hQuote := hNode.quote_eq
  have hTerms :
      Suffix.terms ⟨nodes, true, none, last⟩ =
        argumentTerms trees pairs := by
    simp [Suffix.terms, AreElements.quoteAll_arguments hNodes,
      argumentTerms]
  rw [Suffix.quote_call, hTerms, ← hQuote]
  rfl

------------------------------------------------------------
-- Keys
------------------------------------------------------------

/- The key of an access, up to the closing bracket. -/
structure ReadsKey
    (t : Term)
    (ls : List Lexeme) : Prop where
  begins : ∀ more, ∀ m ∈ (ls ++ more).head?, m.kind ≠ .endOfLine
  reads : ∀ n height more,
    EndsElements .container more →
      Yields TooDeep (accessKey (expression n height))
        (ls ++ more) more (fun node => node.quote .none = t)

/- An expression may be a key. -/
theorem ReadsOperand.readsKey
    (hReads : ReadsOperand .container t ls) :
    ReadsKey t ls := by
  have hBegins := fun more =>
    ((beginsOperand_of_head? hReads.begins).append more).ne_endOfLine
  refine ⟨hBegins, ?_⟩
  intro n height more hEnds
  unfold accessKey
  refine (steps_skipLineEnds (hBegins more)).bind (steps_rest.bind ?_)
  rw [hReads.apart more hEnds.endsElement.follows,
    if_neg Bool.false_ne_true]
  have hNode := hReads.expression n height 0
    hEnds.endsElement.follows (hEnds.endsElement.bindsBelow 0)
  intro s hStands
  rcases hNode s hStands with hBad | ⟨hDenotes, hStands'⟩
  · exact .inl hBad
  · exact .inr ⟨hDenotes.quote_eq, hStands'⟩

/- A subject with a key in brackets. -/
theorem ReadsChain.access
    {key : Term}
    {keys : List Lexeme}
    (hReads : ReadsChain context (·.Denotes t) ls)
    (hOpened : opened.kind = .opening .square)
    (hTouches : opened.spaced = false)
    (hKey : ReadsKey key keys)
    (hClosed : closed.kind = .closing .square) :
    ReadsChain context (·.Denotes (.access t key))
      (ls ++ opened :: (keys ++ [closed])) := by
  apply hReads.suffix .key
  · intro more
    exact ⟨by simp [suffixAhead?, hOpened, hTouches],
      endsCall_square hOpened hTouches⟩
  · intro n height more node hNode _
    have hAssoc :
        opened :: (keys ++ [closed]) ++ more =
          opened :: (keys ++ closed :: more) := by
      simp
    rw [hAssoc]
    change Yields TooDeep
      (Parse.access (expression n height) node) _ _ _
    unfold Parse.access
    refine (steps_currentSpan opened).bind
      ((steps_skip_one opened).bind ?_)
    refine (hKey.reads n height _
      (endsElements_closing hClosed)).bind
        (fun keyNode => ?_) ?_
    · exact (grows_closeAccess opened.span keyNode).bind
        fun _ => .pure _
    intro keyNode hQuote
    have hClose :
        Steps (closeAccess opened.span keyNode) (closed :: more) more
          (keyNode, opened.span.merge closed.span) := by
      have hKind : closed.kind = Closer.kind (.bracket .square) :=
        hClosed
      exact (steps_expectClosing _ hKind).trans (steps_pure _)
    refine hClose.bind (.pure ?_)
    refine Node.Denotes.of_quote ?_ rfl
    rw [← hQuote, ← hNode.quote_eq]
    rfl

end ElixirReader
