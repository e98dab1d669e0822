import ElixirReader.Analysis.Basic
import ElixirReader.Proofs.Lexer.Operands
import ElixirReader.Proofs.Parser.Climbing

/-
  This file says which terms lexemes are read as: operands by
  themselves, and trees of operators between operands. A
  source may be nested too deeply to be read at all; nothing
  else gets in the way.

  Key definitions include:
    * `TooDeep`
    * `Node.Denotes`
    * `ReadsOperand`
    * `Sign`
    * `Means`
    * `termGrammar`

  Main declarations:
    * `Means.quote_eq`
    * `ReadsOperand.expression`
    * `readsOperand_parenthesized`
    * `readsOperand_unary`
-/

namespace ElixirReader

open Parse

/- The error of a source that is nested too deeply. -/
def TooDeep
    (e : ParseError) : Prop :=
  e.fault = .tooDeeplyNested

------------------------------------------------------------
-- Operands
------------------------------------------------------------

/- The kinds of the lexemes that operands start with. -/
def Kind.beginsOperand : Kind → Bool
| identifier => true
| .alias => true
| digits .decimal => true
| colon => true
| promoter .string .quoted => true
| opening _ => true
| word .true => true
| word .false => true
| word .nil => true
| word .fn => true
| operator .struct => true
| operator .negation => true
| operator .identity => true
| operator .unary => true
| operator .notWord => true
| _ => false

/- A node has a term, by itself and as an element of a list. -/
structure Node.Denotes
    (node : Node)
    (t : Term) : Prop where
  quote_eq : node.quote .none = t
  elements_eq : Node.quoteElements .none [node] = [t]

theorem Node.Denotes.of_quote
    {node : Node}
    {t : Term}
    (hQuote : node.quote .none = t)
    (hElement :
      Node.quoteElements .none [node] = [node.quote .none]) :
    node.Denotes t :=
  ⟨hQuote, by rw [hElement, hQuote]⟩

/-
  Lexemes that are read as an operand with a term in a context,
  whatever follows them, by parsers of every depth. They are not
  taken for a pair of a key and a value.
-/
structure ReadsOperand
    (context : Context)
    (t : Term)
    (ls : List Lexeme) : Prop where
  begins : ls.head?.any (·.kind.beginsOperand) = true
  apart : ∀ more,
    Follows context more → keywordAhead (ls ++ more) = false
  reads : ∀ n height more,
    Follows context more →
      Yields TooDeep (operand (expression n) height context)
        (ls ++ more) more (fun node => node.Denotes t)

variable {context : Context}
variable {t : Term}
variable {ls more : List Lexeme}

/- Operands start where a statement may start. -/
theorem Kind.not_of_beginsOperand
    {k : Kind}
    (hBegins : k.beginsOperand = true) :
    isSeparator k = false ∧ k ≠ .endOfLine ∧
      k ≠ .operator .division ∧ ∀ b, k ≠ .closing b := by
  cases k with
  | operator o => cases o <;> simp_all [beginsOperand, isSeparator]
  | _ => simp_all [beginsOperand, isSeparator]

/- Of the operands only a text may be the key of a pair. -/
theorem keywordAhead_of_beginsOperand
    {l : Lexeme}
    (hBegins : l.kind.beginsOperand = true)
    (hText : l.kind ≠ .promoter .string .quoted) :
    keywordAhead (l :: ls) = false := by
  simp only [keywordAhead]
  split <;> simp_all [Kind.beginsOperand]

theorem beginsOperand_of_head?
    (hAny : ls.head?.any (·.kind.beginsOperand) = true) :
    BeginsOperand ls := by
  rcases exists_of_head?_any hAny with ⟨l, rest, rfl, hBegins⟩
  have hNot := Kind.not_of_beginsOperand hBegins
  exact ⟨hNot.2.1, hNot.2.2.1⟩

------------------------------------------------------------
-- Signs
------------------------------------------------------------

/- An operator between two operands, by its name. -/
inductive Sign where
| named
    (name : String)
    (binding : Binding)
    (hBinding : OperatorName.binding? name = some binding)
| notIn
deriving DecidableEq

namespace Sign

def name : Sign → String
| named name _ _ => name
| notIn => "not in"

def binding : Sign → Binding
| named _ binding _ => binding
| notIn => OperatorName.notIn

/- The term of an operator with its operands. -/
def apply
    (o : Sign)
    (left right : Term) : Term :=
  Construct.operator .none Span.none o.name left right

/- The bindings of all operators. -/
theorem binding_mem
    (o : Sign) :
    o.binding ∈ OperatorName.levels.map (·.1) := by
  cases o with
  | named name b hBinding =>
      rcases Option.map_eq_some_iff.mp hBinding with
        ⟨level, hFind, rfl⟩
      exact List.mem_map_of_mem (List.mem_of_find?_eq_some hFind)
  | notIn => decide

theorem agrees
    (o o' : Sign) :
    o.binding.Agrees o'.binding := by
  have hAll :
      ∀ b ∈ OperatorName.levels.map (·.1),
        ∀ b' ∈ OperatorName.levels.map (·.1),
          b.precedence = b'.precedence →
            b.associativity = b'.associativity := by
    decide
  exact hAll _ o.binding_mem _ o'.binding_mem

theorem name_ne_notIn
    {name : String}
    {b : Binding}
    (hBinding : OperatorName.binding? name = some b) :
    name ≠ "not in" := by
  rintro rfl
  have hNone : OperatorName.binding? "not in" = none := by
    decide
  rw [hNone] at hBinding
  cases hBinding

/- No sign is the step of a range. -/
theorem name_ne_step
    (o : Sign) :
    o.name ≠ "//" := by
  cases o with
  | named name b hBinding =>
      rintro rfl
      have hNone : OperatorName.binding? "//" = none := by
        decide
      rw [hNone] at hBinding
      cases hBinding
  | notIn => decide

/- A sign is spelled by its name, or by two words. -/
inductive IsSpelled : Sign → List Lexeme → InfixOperator → Prop where
| named
    (name : String)
    (b : Binding)
    (hBinding : OperatorName.binding? name = some b)
    (l : Lexeme)
    (hKind : l.kind.binding? = some b)
    (hText : l.text = name) :
    IsSpelled (.named name b hBinding) [l] ⟨1, b, name, l.span⟩
| notIn
    (l l' : Lexeme)
    (hNot : l.kind = .operator .notWord)
    (hIn : l'.kind = .operator .inWord) :
    IsSpelled .notIn [l, l']
      (.pair ⟨Precedence.membership, .left⟩ "not in" l l')

end Sign

------------------------------------------------------------
-- Trees of operators
------------------------------------------------------------

/- The term of a tree of operators. -/
def OperatorTree.term : OperatorTree Term Sign → Term
| leaf t => t
| node o l r => o.apply l.term r.term

/- A node joins two operands wherever a tree of operators does. -/
def Means : OperatorTree Term Sign → Node → Prop
| .leaf t, node => node.Denotes t
| .node o l r, node =>
    ∃ left right at' span,
      node = ⟨.binary o.name left right at', span⟩ ∧
        Means l left ∧ Means r right

/- An operator that is no step is quoted by its name. -/
theorem Node.quote_binary
    {name : String}
    (left right : Node)
    (at' span : Span)
    (hName : name ≠ "//") :
    Node.quote .none ⟨.binary name left right at', span⟩ =
      Construct.operator .none at' name (left.quote .none)
        (right.quote .none) := by
  rcases left with ⟨form, s⟩
  cases form with
  | binary inner first last innerAt =>
      simp only [Node.quote]
      rw [if_neg fun hStep => hName hStep.1]
  | _ => rfl

theorem Means.quote_eq
    {tree : OperatorTree Term Sign}
    {node : Node}
    (hMeans : Means tree node) :
    node.quote .none = tree.term := by
  induction tree generalizing node with
  | leaf t => exact Node.Denotes.quote_eq hMeans
  | node o l r ihl ihr =>
      rcases hMeans with
        ⟨left, right, at', span, rfl, hLeft, hRight⟩
      rw [Node.quote_binary left right at' span o.name_ne_step,
        ihl hLeft, ihr hRight]
      rfl

theorem Means.denotes
    {tree : OperatorTree Term Sign}
    {node : Node}
    (hMeans : Means tree node) :
    node.Denotes tree.term := by
  cases tree with
  | leaf t => exact hMeans
  | node o l r =>
      refine .of_quote hMeans.quote_eq ?_
      rcases hMeans with ⟨left, right, at', span, rfl, _, _⟩
      rfl

/- Operands with a term, and signs between them. -/
def termGrammar
    (context : Context) : OperatorGrammar Term Sign where
  binding := Sign.binding
  IsOperand := ReadsOperand context
  IsOperator := Sign.IsSpelled
  Means := Means
  agrees := Sign.agrees
  begins _ _ hOperand := beginsOperand_of_head? hOperand.begins
  follows context o ls i more hSpelled := by
    cases hSpelled with
    | named name b hBinding l hKind hText =>
        exact .kind l more (Kind.followsOperand_of_binding? hKind)
    | notIn l l' hNot hIn => exact .notIn l l' more hNot hIn
  ahead o ls i more hSpelled hBegins := by
    cases hSpelled with
    | named name b hBinding l hKind hText =>
        subst hText
        exact ⟨infixAhead?_of_binding? hKind hBegins, rfl, rfl⟩
    | notIn l l' hNot hIn =>
        exact ⟨infixAhead?_notIn more hNot hIn, rfl, rfl⟩
  joins o ls i l r left right hSpelled hLeft hRight := by
    refine ⟨left, right, i.span, left.span.merge right.span, ?_,
      hLeft, hRight⟩
    cases hSpelled <;> rfl

theorem reads_termGrammar
    (n : Nat)
    (context : Context) :
    (termGrammar context).Reads TooDeep (expression n) context :=
  fun height _ _ more hOperand hFollows =>
    hOperand.reads n height more hFollows

/- A tree that is spelled is read as its term. -/
theorem yields_of_spells
    {tree : OperatorTree Term Sign}
    (n height precedence : Nat)
    (hSpells : (termGrammar context).Spells tree ls)
    (hOrdered : tree.Ordered Sign.binding)
    (hTight : ∀ o ∈ tree.root?, precedence ≤ o.binding.precedence)
    (hFollows : Follows context more)
    (hBelow : BindsBelow precedence more) :
    Yields TooDeep (expression n height precedence context)
      (ls ++ more) more (Means tree) := by
  refine hSpells.yields n height precedence (fun _ => rfl) ?_
    (fun m _ => reads_termGrammar m context) hOrdered hTight
    hFollows hBelow
  intro o ls i hSpelled hName
  cases hSpelled with
  | named name b hBinding l hKind hText =>
      exact absurd hName (Sign.name_ne_step (.named name b hBinding))
  | notIn l l' hNot hIn => exact absurd hName (by decide : "not in" ≠ "//")

/- An operand is an expression, at every precedence. -/
theorem ReadsOperand.expression
    (n height precedence : Nat)
    (hReads : ReadsOperand context t ls)
    (hFollows : Follows context more)
    (hBelow : BindsBelow precedence more) :
    Yields TooDeep (expression n height precedence context)
      (ls ++ more) more (fun node => node.Denotes t) := by
  have hSpells : (termGrammar context).Spells (.leaf t) ls :=
    .leaf t ls hReads
  refine yields_of_spells n height precedence hSpells
    True.intro ?_ hFollows hBelow
  intro o hRoot
  cases hRoot

------------------------------------------------------------
-- Parentheses
------------------------------------------------------------

/- The lexemes of a tree start with those of an operand. -/
theorem begins_of_spells
    {tree : OperatorTree Term Sign}
    (hSpells : (termGrammar context).Spells tree ls) :
    ls.head?.any (·.kind.beginsOperand) = true := by
  induction hSpells with
  | leaf t ls hOperand => exact hOperand.begins
  | node o l r left signs right i _ _ _ ih _ =>
      rcases exists_of_head?_any ih with ⟨m, rest, rfl, hBegins⟩
      exact hBegins

/- The lexemes of a tree are not taken for a pair. -/
theorem keywordAhead_of_spells
    {tree : OperatorTree Term Sign}
    (hSpells : (termGrammar context).Spells tree ls)
    (hFollows : Follows context more) :
    keywordAhead (ls ++ more) = false := by
  induction hSpells generalizing more with
  | leaf t ls hOperand => exact hOperand.apart more hFollows
  | node o l r left signs right i _ hOperator _ ih _ =>
      rw [List.append_assoc, List.append_assoc]
      exact ih ((termGrammar context).follows context o signs i _ hOperator)

theorem starts_of_head?
    {stop : Kind → Bool}
    (hAny : ls.head?.any (·.kind.beginsOperand) = true)
    (hStop : ∀ k, k.beginsOperand = true → stop k = false) :
    Starts stop (ls ++ more) := by
  rcases exists_of_head?_any hAny with ⟨l, rest, rfl, hBegins⟩
  change (isSeparator l.kind || stop l.kind) = false
  rw [(Kind.not_of_beginsOperand hBegins).1, hStop _ hBegins]
  rfl

/- A tree in parentheses is an operand. -/
theorem readsOperand_parenthesized
    {tree : OperatorTree Term Sign}
    {opened closed : Lexeme}
    (hSpells : (termGrammar .statement).Spells tree ls)
    (hOrdered : tree.Ordered Sign.binding)
    (hOpened : opened.kind = .opening .parenthesis)
    (hClosed : closed.kind = .closing .parenthesis) :
    ReadsOperand context tree.term (opened :: (ls ++ [closed])) := by
  constructor
  · change opened.kind.beginsOperand = true
    rw [hOpened]
    rfl
  · intro more _
    exact keywordAhead_of_beginsOperand (by rw [hOpened]; rfl)
      (by rw [hOpened]; decide)
  · intro n height more hFollows
    have hAssoc :
        opened :: (ls ++ [closed]) ++ more =
          opened :: (ls ++ closed :: more) := by
      simp
    rw [hAssoc]
    apply Yields.primaryOperand (sound_expression n) _
      (by rw [hOpened]; rfl) hFollows
    simp only [primaryAt, hOpened, bracketOperand]
    unfold parenthesized
    refine (steps_currentSpan opened).bind
      ((steps_skip_one opened).bind ?_)
    have hNode :
        Yields TooDeep (Parse.expression n height 0 .statement)
          (ls ++ closed :: more) (closed :: more) (Means tree) :=
      yields_of_spells n height 0 hSpells hOrdered
        (fun _ _ => Nat.zero_le _)
        (.kind closed more (by rw [hClosed]; rfl))
        (bindsBelow_of_head? (by rw [hClosed]; rfl))
    have hBegins := begins_of_spells hSpells
    have hEnds :
        EndsHere (· == .closing .parenthesis)
          (closed :: more) := by
      rw [EndsHere, hClosed]
      exact ⟨rfl, rfl⟩
    have hLess :
        (closed :: more).length <
          (ls ++ closed :: more).length := by
      rcases exists_of_head?_any hBegins with
        ⟨l, rest, rfl, _⟩
      simp only [List.cons_append, List.length_cons,
        List.length_append]
      omega
    have hBody := hNode.statements (sound_expression n height)
      (starts_of_head? hBegins (by
        intro k hKind
        simpa using (Kind.not_of_beginsOperand hKind).2.2.2 _))
      hEnds hLess
    refine hBody.bind
      (fun nodes => (grows_close _ _ nodes).bind
        fun _ => .pure _) ?_
    rintro _ ⟨node, rfl, hMeans⟩
    exact (steps_close opened.span [node] hClosed).bind
      (.pure hMeans.denotes)

------------------------------------------------------------
-- Operators in front of an operand
------------------------------------------------------------

theorem Kind.precedence_lt_unary
    {k : Kind}
    {b : Binding}
    (hBinding : k.binding? = some b) :
    b.precedence < Precedence.unary := by
  cases k with
  | operator o => cases o <;> cases hBinding <;> decide
  | doubleColon =>
      cases hBinding
      decide
  | _ => cases hBinding

theorem InfixOperator.precedence_lt_unary
    {newline : Bool}
    {l : Lexeme}
    {i : InfixOperator}
    (hAt : i ∈ at? newline l ls) :
    i.binding.precedence < Precedence.unary := by
  have hSingle :
      i ∈ single? l → i.binding.precedence < Precedence.unary := by
    intro hSingle
    rcases Option.map_eq_some_iff.mp hSingle with
      ⟨b, hBinding, rfl⟩
    exact Kind.precedence_lt_unary hBinding
  have hSign :
      i ∈ sign? newline l →
        i.binding.precedence < Precedence.unary := by
    intro hSign
    unfold sign? at hSign
    split at hSign
    · cases hSign
    · cases hSign
      exact (by decide : Precedence.addition < Precedence.unary)
  unfold at? at hAt
  split at hAt
  · unfold notIn? at hAt
    split at hAt
    · cases hAt
    · split at hAt
      · cases hAt
        exact (by decide :
          Precedence.membership < Precedence.unary)
      · cases hAt
  · unfold slash? at hAt
    split at hAt
    · exact hSingle hAt
    · split at hAt
      · cases hAt
        exact (by decide : Precedence.step < Precedence.unary)
      · exact hSingle hAt
  · exact hSign hAt
  · exact hSign hAt
  · exact hSingle hAt

/- No operator between operands binds as tightly as those in front. -/
theorem bindsBelow_unary
    (ls : List Lexeme) :
    BindsBelow Precedence.unary ls := by
  intro i hAhead
  unfold infixAhead? at hAhead
  dsimp only at hAhead
  split at hAhead
  · cases hAhead
  · rcases Option.map_eq_some_iff.mp hAhead with
      ⟨i', hAt, rfl⟩
    have hLess := InfixOperator.precedence_lt_unary hAt
    exact hLess

theorem operandAt_of_precedesOperand
    (levels : Levels)
    (height : Nat)
    (context : Context)
    {l : Lexeme}
    (hKind : l.kind.precedesOperand = true) :
    operandAt levels height context l =
      unary (levels height) Precedence.unary context l := by
  unfold operandAt
  split <;> simp_all [Kind.precedesOperand]

/- An operator in front of an operand makes an operand of it. -/
theorem readsOperand_unary
    {l : Lexeme}
    (hKind : l.kind.precedesOperand = true)
    (hReads : ReadsOperand context t ls) :
    ReadsOperand context
      (.call (.atom l.text) (.list []) (.list [t])) (l :: ls) := by
  have hBegins : l.kind.beginsOperand = true := by
    cases hEq : l.kind with
    | operator o => cases o <;> simp_all [Kind.precedesOperand] <;> rfl
    | _ => simp_all [Kind.precedesOperand]
  constructor
  · exact hBegins
  · intro more _
    apply keywordAhead_of_beginsOperand hBegins
    intro hText
    rw [hText] at hKind
    cases hKind
  · intro n height more hFollows
    unfold operand
    refine steps_peek.bind ?_
    change Yields TooDeep
      (operandAt (Parse.expression n) height context l) _ _ _
    rw [operandAt_of_precedesOperand _ _ _ hKind]
    unfold unary
    have hNoLineEnd :=
      (beginsOperand_of_head? hReads.begins).append more
    refine (steps_skip_one l).bind
      ((steps_skipLineEnds hNoLineEnd.ne_endOfLine).bind ?_)
    refine (hReads.expression n height Precedence.unary
      hFollows (bindsBelow_unary more)).bind
        (fun _ => .pure _) ?_
    intro node hNode
    apply Yields.pure
    refine .of_quote ?_ rfl
    change Construct.form .none _ l.text [node.quote .none] = _
    rw [hNode.quote_eq]
    rfl

------------------------------------------------------------
-- Variables and integers
------------------------------------------------------------

/- An identifier alone is a variable. -/
theorem readsOperand_variable
    {l : Lexeme}
    (hKind : l.kind = .identifier) :
    ReadsOperand context (.call (.atom l.text) (.list []) .nil) [l] := by
  constructor
  · change l.kind.beginsOperand = true
    rw [hKind]
    rfl
  · intro more _
    exact keywordAhead_of_beginsOperand (by rw [hKind]; rfl)
      (by rw [hKind]; decide)
  · intro n height more hFollows
    exact Yields.identifierOperand (sound_expression n) hKind
      hFollows (.of_quote rfl rfl)

/- The value of digits is read digit by digit. -/
theorem Numeral.digitsFrom?_of_isDigit
    {cs : List Char}
    (n : Nat)
    (hDigits : ∀ c ∈ cs, c.isDigit = true) :
    digitsFrom? 10 n cs = some (Nat.ofDigitChars 10 cs n) := by
  induction cs generalizing n with
  | nil => rfl
  | cons c cs ih =>
      have hDigit := hDigits c List.mem_cons_self
      have hNoSeparator : c ≠ '_' := by
        rintro rfl
        exact absurd hDigit (by decide)
      have hLess : c.toNat - '0'.toNat < 10 := by
        have hRange := toNat_of_isDigit hDigit
        have hZero : '0'.toNat = 48 := rfl
        omega
      have hPush :
          push? 10 n c = some (10 * n + (c.toNat - '0'.toNat)) := by
        simp only [push?, digitValue?, hDigit, if_true]
        rw [if_pos hLess]
      unfold digitsFrom?
      rw [if_neg hNoSeparator, hPush, Nat.ofDigitChars_eq_foldl,
        List.foldl_cons, ← Nat.ofDigitChars_eq_foldl]
      exact ih _ fun d hMember =>
        hDigits d (List.mem_cons_of_mem c hMember)

/- What is written of a natural number is read as that number. -/
theorem Numeral.integer?_decimalDigits
    (n : Nat) :
    integer? 10 (decimalDigits n) = some (n : Int) := by
  have hDigits : ∀ c ∈ decimalDigits n, c.isDigit = true :=
    fun _ => isDigit_of_mem_decimalDigits
  have hValue :
      digitsFrom? 10 0 (decimalDigits n) = some n := by
    rw [digitsFrom?_of_isDigit 0 hDigits]
    exact congrArg some Nat.ofDigitChars_ten_toDigits
  cases hList : decimalDigits n with
  | nil => exact absurd hList Nat.toDigits_ne_nil
  | cons c cs =>
      rw [hList] at hDigits hValue
      have hOther : ∀ d : Char, d.isDigit = false → c ≠ d := by
        rintro d hFalse rfl
        rw [hDigits c List.mem_cons_self] at hFalse
        cases hFalse
      simp [integer?, natural?, afterSign?, digitsValue?, hValue,
        hOther '-' (by decide), hOther '+' (by decide),
        hOther '_' (by decide)]

/- The digits of a natural number are that number. -/
theorem readsOperand_integer
    {l : Lexeme}
    {value : Nat}
    (hKind : l.kind = .digits .decimal)
    (hText : l.text = String.ofList (decimalDigits value)) :
    ReadsOperand context (.integer value) [l] := by
  have hValue :
      Numeral.integer? 10 l.text.toList = some (value : Int) := by
    rw [hText, String.toList_ofList,
      Numeral.integer?_decimalDigits]
  constructor
  · change l.kind.beginsOperand = true
    rw [hKind]
    rfl
  · intro more _
    exact keywordAhead_of_beginsOperand (by rw [hKind]; rfl)
      (by rw [hKind]; decide)
  · intro n height more hFollows
    apply Yields.numberOperand (sound_expression n) hKind hFollows
    · intro value' hValue'
      rw [hValue] at hValue'
      cases hValue'
      exact .of_quote rfl rfl
    · intro hNone
      rw [hValue] at hNone
      cases hNone

------------------------------------------------------------
-- Whole sources
------------------------------------------------------------

/- The error of a source says that it is nested too deeply. -/
def SourceError.IsTooDeep : SourceError → Prop
| .lex _ => False
| .parse e => TooDeep e

instance : DecidablePred SourceError.IsTooDeep
| .lex _ => inferInstanceAs (Decidable False)
| .parse e => inferInstanceAs (Decidable (e.fault = _))

/- The term and the errors of a source by its lexemes. -/
theorem quoteSource_eq
    (m : Metadata)
    (source : String) :
    quoteSource m source =
      (.block (Node.quoteAll m
        (parseLexemes (Lexeme.ofTokens (tokenize source).1)).1),
        SourceError.all (tokenize source).2
          (parseLexemes
            (Lexeme.ofTokens (tokenize source).1)).2.errors) := by
  unfold quoteSource
  generalize tokenize source = lexed
  rcases lexed with ⟨tokens, lexErrors⟩
  dsimp only
  unfold parse
  dsimp only
  generalize parseLexemes (Lexeme.ofTokens tokens) = parsed
  rfl

/- A source of statements in order is quoted as their block. -/
theorem quoteSource_of_statements
    {source : String}
    {Spelled : List Lexeme → Prop}
    (hMark : source.toList.head? ≠ some Lexer.byteOrderMark)
    (hLexes :
      Lexes [] .initial source.toList [] (fun _ ls => Spelled ls))
    (hStatements : ∀ ls,
      Spelled ls →
        Yields TooDeep (statements topLevelExpression isTopLevelEnd)
          ls [] (fun nodes => .block (Node.quoteAll .none nodes) = t))
    (hShallow :
      ∀ e ∈ (quoteSource .none source).2, ¬ e.IsTooDeep) :
    quoteSource .none source = (t, []) := by
  rcases hLexes.tokenize hMark with ⟨hNoError, _, hSpelled⟩
  rw [quoteSource_eq, hNoError] at hShallow ⊢
  generalize Lexeme.ofTokens (tokenize source).1 = ls
    at hSpelled hShallow ⊢
  rcases (hStatements ls hSpelled).parseLexemes with
    ⟨e, hMember, hBad⟩ | ⟨hTerm, hClean⟩
  · exact absurd hBad (hShallow (.parse e)
      (List.mem_append_right _ (List.mem_map_of_mem hMember)))
  · rw [hClean, hTerm]
    rfl

/- A source that spells a tree is quoted as the term of it. -/
theorem quoteSource_of_lexes
    {source : String}
    {tree : OperatorTree Term Sign}
    (hOrdered : tree.Ordered Sign.binding)
    (hMark : source.toList.head? ≠ some Lexer.byteOrderMark)
    (hLexes :
      Lexes [] .initial source.toList []
        (fun _ ls => (termGrammar .statement).Spells tree ls))
    (hShallow :
      ∀ e ∈ (quoteSource .none source).2, ¬ e.IsTooDeep) :
    quoteSource .none source = (tree.term, []) := by
  apply quoteSource_of_statements hMark hLexes _ hShallow
  intro ls hSpells
  have hYields :
      Yields TooDeep (topLevelExpression 0 .statement)
        (ls ++ []) [] (Means tree) :=
    yields_of_spells maxNesting maxHeight 0 hSpells
      hOrdered (fun _ _ => Nat.zero_le _) .ending
      (bindsBelow_nil 0)
  have hBegins := begins_of_spells hSpells
  have hStarts : Starts isTopLevelEnd (ls ++ []) :=
    starts_of_head? hBegins fun _ _ => rfl
  have hLess : ([] : List Lexeme).length < (ls ++ []).length := by
    cases ls with
    | nil => exact hStarts.elim
    | cons l ls => simp
  rw [List.append_nil] at hYields hStarts hLess
  apply (hYields.statements sound_topLevelExpression hStarts
    True.intro hLess).mono
  rintro _ ⟨node, rfl, hMeans⟩
  exact hMeans.quote_eq

end ElixirReader
