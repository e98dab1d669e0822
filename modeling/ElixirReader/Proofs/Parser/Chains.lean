import ElixirReader.Lexer.Basic
import ElixirReader.Proofs.Parser.Climbing

/-
  This file shows that the parser gives every chain of
  operands and operators the one tree that precedence and
  associativity ask for. The operands are single tokens, and
  any trivia may stand between all of them.

  Key definitions include:
    * `ChainOperand`
    * `ChainOperator`
    * `ChainTree.node?`
    * `chainTokens`
    * `chainGrammar`

  Main declarations:
    * `ChainTree.spells_of_inOrder`
    * `parse_chain`
-/

namespace ElixirReader

open Parse

------------------------------------------------------------
-- Operands and operators
------------------------------------------------------------

/- The kinds that are operands of their own. -/
def Kind.isChainOperand : Kind → Bool
| identifier => true
| .alias => true
| digits .decimal => true
| _ => false

/- An identifier, an alias or decimal digits. -/
structure ChainOperand where
  token : Token
  isOperand : token.kind.isChainOperand = true
deriving DecidableEq

/- A token whose kind binds, or the two tokens of `not in`. -/
inductive ChainOperator where
| single
    (token : Token)
    (binding : Binding)
    (hBinding : token.kind.binding? = some binding)
| notIn
    (negation membership : Token)
    (hNot : negation.kind = .operator .notWord)
    (hIn : membership.kind = .operator .inWord)
deriving DecidableEq

namespace ChainOperand

/- The form that a token stands for, none for a number too large. -/
def form?
    (a : ChainOperand) : Option (Form Node) :=
  match a.token.kind with
  | .identifier => some (.identifier a.token.text)
  | .alias => some (.alias none [a.token.text])
  | _ => (Numeral.integer? 10 a.token.text.toList).map .integer

def node?
    (a : ChainOperand) : Option Node :=
  a.form?.map (⟨·, a.token.span⟩)

end ChainOperand

namespace ChainOperator

def tokens : ChainOperator → List Token
| single t _ _ => [t]
| notIn t t' _ _ => [t, t']

def binding : ChainOperator → Binding
| single _ b _ => b
| notIn _ _ _ _ => ⟨Precedence.membership, .left⟩

/- The operator by its name and place. -/
def toInfix : ChainOperator → InfixOperator
| single t b _ => ⟨1, b, t.text, t.span⟩
| notIn t t' _ _ =>
    ⟨2, ⟨Precedence.membership, .left⟩, "not in",
      t.span.merge t'.span⟩

/- The binding of every operator is that of some kind. -/
theorem exists_binding?
    (o : ChainOperator) :
    ∃ k : Kind, k.binding? = some o.binding := by
  cases o with
  | single t b hBinding => exact ⟨t.kind, hBinding⟩
  | notIn t t' hNot hIn => exact ⟨.operator .inWord, rfl⟩

theorem agrees
    (o o' : ChainOperator) :
    o.binding.Agrees o'.binding := by
  rcases o.exists_binding? with ⟨k, hBinding⟩
  rcases o'.exists_binding? with ⟨k', hBinding'⟩
  exact Kind.agrees_of_binding? hBinding hBinding'

end ChainOperator

------------------------------------------------------------
-- Trees and tokens
------------------------------------------------------------

abbrev ChainTree :=
  OperatorTree ChainOperand ChainOperator

namespace ChainTree

/- The node of a tree, with the spans of its tokens. -/
def node? : ChainTree → Option Node
| .leaf a => a.node?
| .node o l r =>
    match node? l, node? r with
    | some left, some right =>
        some ⟨.binary o.toInfix.name left right o.toInfix.span,
          left.span.merge right.span⟩
    | _, _ => none

/- The tokens of an operand or an operator. -/
def itemTokens : ChainOperand ⊕ ChainOperator → List Token
| .inl a => [a.token]
| .inr o => o.tokens

end ChainTree

/- The tokens of a chain, without trivia. -/
def chainTokens
    (first : ChainOperand)
    (later : List (ChainOperator × ChainOperand)) : List Token :=
  (OperatorTree.chain first later).flatMap ChainTree.itemTokens

/- A lexeme without what stands before it. -/
def Lexeme.token
    (l : Lexeme) : Token :=
  ⟨l.kind, l.text, l.span⟩

/- The lexemes of a source are its tokens that are no trivia. -/
theorem Lexeme.map_token_ofTokensAfter
    (spaced : Bool)
    (tokens : List Token) :
    (ofTokensAfter spaced tokens).map Lexeme.token =
      tokens.filter (fun t => !t.kind.isTrivia) := by
  induction tokens generalizing spaced with
  | nil => rfl
  | cons t ts ih =>
      unfold ofTokensAfter
      cases hTrivia : t.kind.isTrivia with
      | true => simp [hTrivia, ih]
      | false => simp [hTrivia, ih, token]

/- A lexeme of some tokens is one of them. -/
theorem Lexeme.token_mem
    {tokens : List Token}
    {l : Lexeme}
    (hMem : l ∈ ofTokens tokens) :
    l.token ∈ tokens := by
  have hKept : l.token ∈ tokens.filter fun t => !t.kind.isTrivia := by
    rw [← map_token_ofTokensAfter false tokens]
    exact List.mem_map_of_mem hMem
  exact (List.mem_filter.mp hKept).1

------------------------------------------------------------
-- The grammar of chains
------------------------------------------------------------

variable {ls more : List Lexeme}

/- Lexemes that are a single token. -/
theorem exists_of_map_token_eq_singleton
    {t : Token}
    (hTokens : ls.map Lexeme.token = [t]) :
    ∃ l, ls = [l] ∧ l.kind = t.kind ∧ l.text = t.text ∧
      l.span = t.span := by
  rcases List.map_eq_singleton_iff.mp hTokens with
    ⟨l, rfl, rfl⟩
  exact ⟨l, rfl, rfl, rfl, rfl⟩

theorem exists_of_map_token_eq_pair
    {t t' : Token}
    (hTokens : ls.map Lexeme.token = [t, t']) :
    ∃ l l', ls = [l, l'] ∧ l.token = t ∧ l'.token = t' := by
  rcases List.map_eq_cons_iff.mp hTokens with
    ⟨l, rest, rfl, rfl, hRest⟩
  rcases List.map_eq_singleton_iff.mp hRest with
    ⟨l', rfl, rfl⟩
  exact ⟨l, l', rfl, rfl, rfl⟩

theorem Kind.isChainOperand_cases
    {k : Kind}
    (hOperand : k.isChainOperand = true) :
    k = .identifier ∨ k = .alias ∨ k = .digits .decimal := by
  cases k with
  | identifier => exact .inl rfl
  | «alias» => exact .inr (.inl rfl)
  | digits r =>
      cases r with
      | decimal => exact .inr (.inr rfl)
      | _ => cases hOperand
  | _ => cases hOperand

/- An operator of a chain comes next. -/
theorem ChainOperator.infixAhead?_append
    (o : ChainOperator)
    (hTokens : ls.map Lexeme.token = o.tokens)
    (hBegins : BeginsOperand more) :
    infixAhead? (ls ++ more) = some o.toInfix := by
  cases o with
  | single t b hBinding =>
      rcases exists_of_map_token_eq_singleton hTokens with
        ⟨l, rfl, hKind, hText, hSpan⟩
      rw [← hKind] at hBinding
      rw [toInfix, ← hText, ← hSpan]
      exact infixAhead?_of_binding? hBinding hBegins
  | notIn t t' hNot hIn =>
      rcases exists_of_map_token_eq_pair hTokens with
        ⟨l, l', rfl, rfl, rfl⟩
      exact infixAhead?_notIn more hNot hIn

theorem ChainOperator.follows
    (context : Context)
    (o : ChainOperator)
    (hTokens : ls.map Lexeme.token = o.tokens)
    (more : List Lexeme) :
    Follows context (ls ++ more) := by
  cases o with
  | single t b hBinding =>
      rcases exists_of_map_token_eq_singleton hTokens with
        ⟨l, rfl, hKind, _, _⟩
      rw [← hKind] at hBinding
      exact .kind l more (Kind.followsOperand_of_binding? hBinding)
  | notIn t t' hNot hIn =>
      rcases exists_of_map_token_eq_pair hTokens with
        ⟨l, l', rfl, rfl, rfl⟩
      exact .notIn l l' more hNot hIn

/- Chains are spelled by their tokens and mean their nodes. -/
def chainGrammar : OperatorGrammar ChainOperand ChainOperator where
  binding := ChainOperator.binding
  IsOperand a ls := ls.map Lexeme.token = [a.token]
  IsOperator o ls i :=
    ls.map Lexeme.token = o.tokens ∧ i = o.toInfix
  Means t node := ChainTree.node? t = some node
  agrees := ChainOperator.agrees
  begins a ls hTokens := by
    rcases exists_of_map_token_eq_singleton hTokens with
      ⟨l, rfl, hKind, _, _⟩
    rcases Kind.isChainOperand_cases a.isOperand with
      hOperand | hOperand | hOperand <;>
      simp [BeginsOperand, hKind, hOperand]
  follows context o ls i more hOperator :=
    o.follows context hOperator.1 more
  ahead o ls i more hOperator hBegins := by
    rcases hOperator with ⟨hTokens, rfl⟩
    refine ⟨o.infixAhead?_append hTokens hBegins, ?_, ?_⟩
    · have hLength := congrArg List.length hTokens
      rw [List.length_map] at hLength
      rw [hLength]
      cases o <;> rfl
    · cases o <;> rfl
  joins o ls i l r left right hOperator hLeft hRight := by
    rcases hOperator with ⟨_, rfl⟩
    simp only [ChainTree.node?, hLeft, hRight]

/- An operand of a chain is read, or it is a number too large. -/
theorem reads_chainGrammar
    {n : Nat}
    {levels : Levels}
    (context : Context)
    (hLevels : ∀ height, Sound n (levels height)) :
    chainGrammar.Reads (fun _ => True) levels context := by
  intro height a ls more hOperand hFollows
  rcases exists_of_map_token_eq_singleton hOperand with
    ⟨l, rfl, hKind, hText, hSpan⟩
  have hNode :
      ∀ form, a.form? = some form →
        chainGrammar.Means (.leaf a) ⟨form, l.span⟩ := by
    intro form hForm
    change a.form?.map _ = _
    rw [hForm, hSpan]
    rfl
  rcases Kind.isChainOperand_cases a.isOperand with
    hOperand | hOperand | hOperand
  · apply Yields.identifierOperand hLevels
      (hKind.trans hOperand) hFollows
    apply hNode
    simp [ChainOperand.form?, hOperand, hText]
  · apply Yields.aliasOperand hLevels (hKind.trans hOperand)
      hFollows
    apply hNode
    simp [ChainOperand.form?, hOperand, hText]
  · apply Yields.numberOperand hLevels (hKind.trans hOperand)
      hFollows
    · intro value hValue
      apply hNode
      rw [hText] at hValue
      simp [ChainOperand.form?, hOperand, hValue]
    · exact fun _ _ => True.intro

/- The tokens of a tree from left to right spell it. -/
theorem ChainTree.spells_of_inOrder
    {t : ChainTree}
    (hTokens :
      ls.map Lexeme.token = t.inOrder.flatMap itemTokens) :
    chainGrammar.Spells t ls := by
  induction t generalizing ls with
  | leaf a =>
      apply OperatorGrammar.Spells.leaf
      change ls.map Lexeme.token = [a.token]
      simpa [OperatorTree.inOrder, itemTokens] using hTokens
  | node o l r ihl ihr =>
      rw [OperatorTree.inOrder, List.flatMap_append,
        List.flatMap_cons] at hTokens
      rcases List.map_eq_append_iff.mp hTokens with
        ⟨left, rest, rfl, hLeft, hRest⟩
      rcases List.map_eq_append_iff.mp hRest with
        ⟨signs, right, rfl, hSigns, hRight⟩
      rw [← List.append_assoc]
      exact .node o l r left signs right o.toInfix (ihl hLeft)
        ⟨hSigns, rfl⟩ (ihr hRight)

------------------------------------------------------------
-- Chains
------------------------------------------------------------

/- A chain starts with an operand, where a statement may start. -/
theorem starts_of_map_token
    {first : ChainOperand}
    {later : List (ChainOperator × ChainOperand)}
    (hTokens :
      ls.map Lexeme.token = chainTokens first later) :
    Starts isTopLevelEnd ls := by
  cases ls with
  | nil => cases hTokens
  | cons l ls =>
      have hKind : l.kind = first.token.kind :=
        congrArg Token.kind (List.cons.inj hTokens).1
      change (isSeparator l.kind || false) = false
      rw [hKind]
      rcases Kind.isChainOperand_cases first.isOperand with
        hOperand | hOperand | hOperand <;> rw [hOperand] <;> rfl

/-
  A chain that is parsed without an error is one expression.
  It is the node of a tree that reads like the chain and is
  ordered by precedence and associativity, and there is no
  other such tree.
-/
theorem parse_chain
    (tokens : List Token)
    (first : ChainOperand)
    (later : List (ChainOperator × ChainOperand))
    (hTokens :
      tokens.filter (fun t => !t.kind.isTrivia) =
        chainTokens first later)
    (hErrors : (parse tokens).2 = []) :
    ∃ (tree : ChainTree) (node : Node),
      tree.inOrder = OperatorTree.chain first later ∧
        tree.Ordered ChainOperator.binding ∧
        ChainTree.node? tree = some node ∧
        (parse tokens).1.expressions = [node] ∧
        ∀ tree' : ChainTree,
          tree'.inOrder = OperatorTree.chain first later →
            tree'.Ordered ChainOperator.binding →
              tree' = tree := by
  let tree :=
    OperatorTree.ofChain ChainOperator.binding first later
  have hInOrder : tree.inOrder = OperatorTree.chain first later :=
    OperatorTree.inOrder_ofChain first later
      ChainOperator.agrees
  have hOrdered : tree.Ordered ChainOperator.binding :=
    OperatorTree.ordered_ofChain first later
      ChainOperator.agrees
  have hLexemes :
      (Lexeme.ofTokens tokens).map Lexeme.token =
        tree.inOrder.flatMap ChainTree.itemTokens := by
    rw [Lexeme.ofTokens, Lexeme.map_token_ofTokensAfter, hTokens,
      hInOrder]
    rfl
  have hSpells := ChainTree.spells_of_inOrder hLexemes
  have hYields :
      Yields (fun _ => True) (topLevelExpression 0 .statement)
        (Lexeme.ofTokens tokens ++ []) []
        (chainGrammar.Means tree) :=
    hSpells.yields maxNesting maxHeight 0
      (fun _ => True.intro) (fun _ _ _ _ _ _ => True.intro)
      (fun m _ => reads_chainGrammar _ (sound_expression m))
      hOrdered (fun _ _ => Nat.zero_le _) .ending
      (bindsBelow_nil 0)
  rw [List.append_nil] at hYields
  have hStarts :
      Starts isTopLevelEnd (Lexeme.ofTokens tokens) := by
    rw [hInOrder] at hLexemes
    exact starts_of_map_token hLexemes
  have hNode :
      ∃ node,
        (parseLexemes (Lexeme.ofTokens tokens)).1 = [node] ∧
          ChainTree.node? tree = some node := by
    have hStatements :=
      hYields.statements sound_topLevelExpression hStarts
        True.intro hStarts.length_pos
    rcases hStatements.parseLexemes with
      ⟨e, hMember, _⟩ | ⟨hDone, _⟩
    · change (parseLexemes _).2.errors = [] at hErrors
      rw [hErrors] at hMember
      cases hMember
    · exact hDone
  rcases hNode with ⟨node, hExpressions, hNode⟩
  refine ⟨tree, node, hInOrder, hOrdered, hNode, hExpressions,
    ?_⟩
  intro tree' hInOrder' hOrdered'
  exact hOrdered'.ext ChainOperator.agrees hOrdered
    (hInOrder'.trans hInOrder.symm)

/- A sum behind which a membership is denied is one such chain. -/
theorem parse_chain_membership :
    (parse (tokenize "a + 2 not in B").1).2 = [] ∧
      ∃ (tree : ChainTree) (node : Node),
        tree.inOrder.length = 5 ∧
          tree.Ordered ChainOperator.binding ∧
          ChainTree.node? tree = some node ∧
          (parse (tokenize "a + 2 not in B").1).1.expressions =
            [node] := by
  have hErrors :
      (parse (tokenize "a + 2 not in B").1).2 = [] := by
    decide +kernel
  rcases parse_chain (tokenize "a + 2 not in B").1
      ⟨⟨.identifier, "a", ⟨0, 1, 1, 1⟩⟩, rfl⟩
      [(.single ⟨.operator .addition, "+", ⟨2, 3, 1, 3⟩⟩
          ⟨Precedence.addition, .left⟩ rfl,
        ⟨⟨.digits .decimal, "2", ⟨4, 5, 1, 5⟩⟩, rfl⟩),
       (.notIn ⟨.operator .notWord, "not", ⟨6, 9, 1, 7⟩⟩
          ⟨.operator .inWord, "in", ⟨10, 12, 1, 11⟩⟩ rfl rfl,
        ⟨⟨.alias, "B", ⟨13, 14, 1, 14⟩⟩, rfl⟩)]
      (by decide) hErrors with
    ⟨tree, node, hInOrder, hOrdered, hNode, hExpressions, _⟩
  refine ⟨hErrors, tree, node, ?_, hOrdered, hNode,
    hExpressions⟩
  rw [hInOrder]
  rfl

end ElixirReader
