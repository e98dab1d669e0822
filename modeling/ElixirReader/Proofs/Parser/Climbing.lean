import ElixirReader.Proofs.Operators.Tree
import ElixirReader.Proofs.Parser.Yields

/-
  This file shows that the parser climbs the precedences of
  operators in the right way: from the lexemes that spell an
  ordered tree of operators it makes a node of that tree. What
  the operands are, how operators are spelled, and what is
  said about the nodes is left open.

  Key definitions include:
    * `Follows`
    * `BindsBelow`
    * `BeginsOperand`
    * `OperatorGrammar`
    * `OperatorGrammar.Spells`
    * `OperatorGrammar.Reads`

  Main declarations:
    * `Yields.identifierOperand`
    * `Yields.numberOperand`
    * `OperatorGrammar.Spells.climb`
    * `OperatorGrammar.Spells.yields`
-/

namespace ElixirReader

open Parse

------------------------------------------------------------
-- What follows an operand
------------------------------------------------------------

/- The kinds that may come right behind an operand. -/
def Kind.followsOperand : Kind → Bool
| closing _ => true
| comma => true
| doubleColon => true
| endOfLine => true
| operator .stab => true
| operator o => o.binding?.isSome
| word .end => true
| word .else => true
| word .after => true
| word .rescue => true
| word .catch => true
| _ => false

/-
  What comes next neither belongs to the operand in front nor
  makes a call of it. A block does not where no call in the
  context may have one.
-/
inductive Follows (context : Context) : List Lexeme → Prop where
| ending :
    Follows context []
| kind
    (l : Lexeme)
    (ls : List Lexeme)
    (hKind : l.kind.followsOperand = true) :
    Follows context (l :: ls)
| notIn
    (l l' : Lexeme)
    (ls : List Lexeme)
    (hNot : l.kind = .operator .notWord)
    (hIn : l'.kind = .operator .inWord) :
    Follows context (l :: l' :: ls)
| block
    (l : Lexeme)
    (ls : List Lexeme)
    (hDo : l.kind = .word .do)
    (hContext : context.doBlocks = false) :
    Follows context (l :: ls)

/- No operator comes next that binds as tightly as asked for. -/
def BindsBelow
    (precedence : Nat)
    (ls : List Lexeme) : Prop :=
  ∀ i ∈ infixAhead? ls, i.binding.precedence < precedence

/- A lexeme comes next that may stand behind an operator. -/
def BeginsOperand : List Lexeme → Prop
| [] => False
| l :: _ => l.kind ≠ .endOfLine ∧ l.kind ≠ .operator .division

variable {context : Context}
variable {ls more back : List Lexeme}

theorem BindsBelow.mono
    {precedence precedence' : Nat}
    (hBelow : BindsBelow precedence ls)
    (hLe : precedence ≤ precedence') :
    BindsBelow precedence' ls :=
  fun i hAhead => Nat.lt_of_lt_of_le (hBelow i hAhead) hLe

theorem BeginsOperand.append
    (hBegins : BeginsOperand ls)
    (more : List Lexeme) :
    BeginsOperand (ls ++ more) := by
  cases ls with
  | nil => exact hBegins.elim
  | cons l ls => exact hBegins

theorem BeginsOperand.ne_endOfLine
    (hBegins : BeginsOperand ls) :
    ∀ l ∈ ls.head?, l.kind ≠ .endOfLine := by
  cases ls with
  | nil => exact hBegins.elim
  | cons l ls =>
      intro m hMember
      cases hMember
      exact hBegins.1

/- A kind that follows an operand starts no argument and no suffix. -/
theorem Kind.not_of_followsOperand
    {k : Kind}
    (hFollows : k.followsOperand = true) :
    k.startsArgument = false ∧ k.isNumberPart = false ∧
      k ≠ .dot ∧ k ≠ .operator .notWord ∧ k ≠ .word .do ∧
      ∀ b, k ≠ .opening b := by
  cases k with
  | operator o =>
      cases o <;>
        simp [startsArgument, startsOperand, isNumberPart] <;>
        cases hFollows
  | closing b => simp [startsArgument, isNumberPart]
  | comma => simp [startsArgument, isNumberPart]
  | doubleColon => simp [startsArgument, isNumberPart]
  | endOfLine => simp [startsArgument, isNumberPart]
  | word w =>
      cases w <;>
        simp [startsArgument, startsLiteral, isNumberPart] <;>
        cases hFollows
  | _ => cases hFollows

namespace Follows

theorem suffixAhead?_eq
    (hFollows : Follows context ls) :
    suffixAhead? ls = none := by
  unfold suffixAhead?
  cases hFollows with
  | ending => rfl
  | kind l ls hKind =>
      have hNot := Kind.not_of_followsOperand hKind
      simp [hNot.2.2.1, hNot.2.2.2.2.2]
  | notIn l l' ls hNot hIn => simp [hNot]
  | block l ls hDo hContext => simp [hDo]

theorem argumentAhead_eq
    (hFollows : Follows context ls) :
    argumentAhead ls = false := by
  unfold argumentAhead
  cases hFollows with
  | ending => rfl
  | kind l ls hKind =>
      have hNot := Kind.not_of_followsOperand hKind
      simp [hNot.1, hNot.2.2.2.1]
  | notIn l l' ls hNot hIn => simp [hNot, hIn]
  | block l ls hDo hContext =>
      simp [hDo, Kind.startsArgument, Kind.startsLiteral]

/- No bracket, no block and no part of a number comes next. -/
theorem head?_ne
    (hFollows : Follows context ls) :
    ∀ l ∈ ls.head?,
      l.kind.isNumberPart = false ∧
        (context.doBlocks = true → l.kind ≠ .word .do) ∧
          ∀ b, l.kind ≠ .opening b := by
  intro m hMember
  cases hFollows with
  | ending => cases hMember
  | kind l ls hKind =>
      cases hMember
      have hNot := Kind.not_of_followsOperand hKind
      exact ⟨hNot.2.1, fun _ => hNot.2.2.2.2.1, hNot.2.2.2.2.2⟩
  | notIn l l' ls hNot hIn =>
      cases hMember
      rw [hNot]
      exact ⟨rfl, fun _ => by decide, fun b => by simp⟩
  | block l ls hDo hContext =>
      cases hMember
      refine ⟨by rw [hDo]; rfl, fun hBlocks => ?_, by simp [hDo]⟩
      rw [hContext] at hBlocks
      cases hBlocks

/- Behind the parts of a number comes no further one. -/
theorem numberParts_cons
    {l : Lexeme}
    (hFollows : Follows context ls)
    (hPart : l.kind.isNumberPart = true) :
    numberParts (l :: ls) = [l] := by
  simp only [numberParts, hPart, if_true]
  cases ls with
  | nil => rfl
  | cons m ls => simp [(hFollows.head?_ne m rfl).1]

end Follows

/-
  The kinds of lexemes that end an expression, or start the line
  behind it; no operator is one of them.
-/
def Kind.bindsNothing : Kind → Bool
| comma => true
| closing _ => true
| word _ => true
| operator .stab => true
| identifier => true
| .alias => true
| atomName => true
| promoter _ _ => true
| _ => false

theorem Kind.of_bindsNothing
    (newline : Bool)
    (ls : List Lexeme)
    {l : Lexeme}
    (hKind : l.kind.bindsNothing = true) :
    isLineEnd l.kind = false ∧
      InfixOperator.at? newline l ls = none := by
  cases hEq : l.kind with
  | operator o =>
      rw [hEq] at hKind
      cases o with
      | stab =>
          simp [isLineEnd, InfixOperator.at?,
            InfixOperator.single?, hEq, Kind.binding?,
            Operator.binding?]
      | _ => cases hKind
  | _ =>
      rw [hEq] at hKind
      simp_all [bindsNothing, isLineEnd, InfixOperator.at?,
        InfixOperator.single?, Kind.binding?]

/- Where an expression ends, no operator comes next. -/
theorem bindsBelow_of_head?
    {precedence : Nat}
    {l : Lexeme}
    (hKind : l.kind.bindsNothing = true) :
    BindsBelow precedence (l :: ls) := by
  have hFirst : runLength isLineEnd (l :: ls) = 0 := by
    apply runLength_eq_zero
    rintro m ⟨⟩
    exact (Kind.of_bindsNothing false ls hKind).1
  intro i hAhead
  unfold infixAhead? at hAhead
  simp only [hFirst, List.drop_zero] at hAhead
  change i ∈ (InfixOperator.at? false l ls).map _ at hAhead
  rw [(Kind.of_bindsNothing false ls hKind).2] at hAhead
  cases hAhead

/- At the end of a line no operator of the next line comes next. -/
theorem bindsBelow_line
    {precedence : Nat}
    {l m : Lexeme}
    (hLine : l.kind = .endOfLine)
    (hKind : m.kind.bindsNothing = true) :
    BindsBelow precedence (l :: m :: ls) := by
  have hSecond : isLineEnd m.kind = false :=
    (Kind.of_bindsNothing true ls hKind).1
  have hFirst : runLength isLineEnd (l :: m :: ls) = 1 := by
    simp [runLength, List.takeWhile_cons, isLineEnd, hLine]
    simpa [isLineEnd] using hSecond
  intro i hAhead
  unfold infixAhead? at hAhead
  simp only [hFirst, List.drop_succ_cons, List.drop_zero] at hAhead
  change i ∈ (InfixOperator.at? true m ls).map _ at hAhead
  rw [(Kind.of_bindsNothing true ls hKind).2] at hAhead
  cases hAhead

theorem bindsBelow_nil
    (precedence : Nat) :
    BindsBelow precedence [] := by
  intro i hAhead
  cases hAhead

------------------------------------------------------------
-- Operands of one lexeme
------------------------------------------------------------

variable {bad : ParseError → Prop}
variable {n height : Nat}
variable {levels : Levels}
variable {l : Lexeme}
variable {Result : Node → Prop}

/- Behind an operand in order there are no suffixes. -/
theorem Follows.steps_suffixes
    (hFollows : Follows context ls)
    (node : Node) :
    Steps (suffixes levels context height node) ls ls node := by
  cases height with
  | zero =>
      unfold suffixes
      refine steps_rest.trans ?_
      rw [hFollows.suffixAhead?_eq]
      exact steps_pure node
  | succ height =>
      unfold suffixes
      refine steps_rest.trans ?_
      rw [hFollows.suffixAhead?_eq]
      exact steps_pure node

/- The kinds that an operand without an operator starts with. -/
def Kind.startsPrimary : Kind → Bool
| operator .struct => true
| operator _ => false
| _ => true

theorem operandAt_of_startsPrimary
    (levels : Levels)
    (height : Nat)
    (context : Context)
    (hKind : l.kind.startsPrimary = true) :
    operandAt levels height context l =
      suffixed levels height context := by
  unfold operandAt
  split <;> first | rfl | simp_all [Kind.startsPrimary]

/- An operand without operators in front and suffixes behind. -/
theorem Yields.primaryOperand
    (hLevels : ∀ height, Sound n (levels height))
    (hPrimary :
      Yields bad (primaryAt (levels height) context l) (l :: ls)
        back Result)
    (hKind : l.kind.startsPrimary = true)
    (hFollows : Follows context back) :
    Yields bad (operand levels height context) (l :: ls) back
      Result := by
  unfold operand
  refine steps_peek.bind ?_
  change Yields bad (operandAt levels height context l) _ _ _
  rw [operandAt_of_startsPrimary _ _ _ hKind]
  unfold suffixed
  refine Yields.bind (Steps.bind steps_peek hPrimary) ?_ ?_
  · exact fun node => Run.grows fun s =>
      Run.suffixes hLevels node
  · exact fun node hResult =>
      (hFollows.steps_suffixes node).yields hResult

/- Behind a name that is not called there are no arguments. -/
theorem Follows.steps_callArguments
    (expr : ExpressionParser)
    (hFollows : Follows context ls) :
    Steps (callArguments expr context) ls ls none := by
  have hHead := hFollows.head?_ne
  have hOpening :
      ls.head?.any (fun m =>
        m.kind == .opening .parenthesis && !m.spaced) =
          false := by
    cases ls with
    | nil => rfl
    | cons m ls => simp [(hHead m rfl).2.2]
  have hDo :
      (context.doBlocks &&
        ls.head?.any (·.kind == .word .do)) = false := by
    cases ls with
    | nil => simp
    | cons m ls => simpa using (hHead m rfl).2.1
  unfold callArguments
  refine steps_rest.trans ?_
  rw [hOpening, hFollows.argumentAhead_eq, hDo]
  exact steps_pure none

theorem steps_identifier
    (expr : ExpressionParser)
    (hFollows : Follows context ls) :
    Steps (identifier expr context l) ls ls
      ⟨.identifier l.text, l.span⟩ := by
  unfold identifier callSuffix
  refine Steps.trans
    ((hFollows.steps_callArguments expr).trans (steps_pure none))
    ?_
  exact steps_pure _

/- A name alone. -/
theorem Yields.identifierOperand
    (hLevels : ∀ height, Sound n (levels height))
    (hKind : l.kind = .identifier)
    (hFollows : Follows context more)
    (hResult : Result ⟨.identifier l.text, l.span⟩) :
    Yields bad (operand levels height context) (l :: more) more
      Result := by
  apply Yields.primaryOperand hLevels _ (by rw [hKind]; rfl)
    hFollows
  simp only [primaryAt, hKind]
  exact (steps_skip_one l).bind
    ((steps_identifier _ hFollows).yields hResult)

/- An operand that is made of its only lexeme. -/
theorem steps_single
    (form : Form Node) :
    Steps (single form l) (l :: more) more ⟨form, l.span⟩ := by
  intro s hStands
  exact ⟨rfl, (steps_skip_one l s hStands).2⟩

theorem Yields.aliasOperand
    (hLevels : ∀ height, Sound n (levels height))
    (hKind : l.kind = .alias)
    (hFollows : Follows context more)
    (hResult : Result ⟨.alias none [l.text], l.span⟩) :
    Yields bad (operand levels height context) (l :: more) more
      Result := by
  apply Yields.primaryOperand hLevels _ (by rw [hKind]; rfl)
    hFollows
  simp only [primaryAt, hKind]
  exact (steps_single _).yields hResult

theorem coveringSpan_nil
    (l : Lexeme) :
    coveringSpan l [] = l.span := by
  simp [coveringSpan, Span.merge]

/- Decimal digits alone, or an error if there is no such number. -/
theorem Yields.numberOperand
    (hLevels : ∀ height, Sound n (levels height))
    (hKind : l.kind = .digits .decimal)
    (hFollows : Follows context more)
    (hResult : ∀ value,
      Numeral.integer? 10 l.text.toList = some value →
        Result ⟨.integer value, l.span⟩)
    (hBad : Numeral.integer? 10 l.text.toList = none →
      ∀ span, bad ⟨.invalidNumber l.text, span⟩) :
    Yields bad (operand levels height context) (l :: more) more
      Result := by
  apply Yields.primaryOperand hLevels _ (by rw [hKind]; rfl)
    hFollows
  have hPart : l.kind.isNumberPart = true := by
    rw [hKind]
    rfl
  have hText : partsText [l] = l.text := by
    simp [partsText, String.join]
  have hForm :
      numberForm? [l] =
        (Numeral.integer? 10 l.text.toList).map .integer := by
    simp [numberForm?, decimalForm?, hKind, hText]
  simp only [primaryAt, hKind]
  rw [if_pos (by rfl)]
  refine steps_rest.bind ?_
  rw [hFollows.numberParts_cons hPart]
  refine (steps_skip_one l).bind ?_
  simp only [List.any_cons, List.any_nil, hKind, hForm, hText,
    coveringSpan_nil]
  change Yields bad (if (false || false) = true then _ else _) _ _ _
  rw [if_neg (by decide)]
  cases hValue : Numeral.integer? 10 l.text.toList with
  | some value => exact .pure (hResult value hValue)
  | none => exact yields_failure (hBad hValue l.span)

------------------------------------------------------------
-- Operators
------------------------------------------------------------

theorem Kind.followsOperand_of_binding?
    {k : Kind}
    {b : Binding}
    (hBinding : k.binding? = some b) :
    k.followsOperand = true := by
  cases k with
  | operator o =>
      cases o <;> first | rfl | cases hBinding
  | doubleColon => rfl
  | _ => cases hBinding

/- A lexeme that binds is an operator before an operand. -/
theorem infixAhead?_of_binding?
    {b : Binding}
    (hBinding : l.kind.binding? = some b)
    (hBegins : BeginsOperand more) :
    infixAhead? (l :: more) = some ⟨1, b, l.text, l.span⟩ := by
  have hFirst : runLength isLineEnd (l :: more) = 0 := by
    apply runLength_eq_zero
    intro m hMember
    cases hMember
    cases hKind : l.kind <;> first | rfl | skip
    rw [hKind] at hBinding
    cases hBinding
  have hSingle :
      InfixOperator.single? l = some ⟨1, b, l.text, l.span⟩ := by
    rw [InfixOperator.single?, hBinding]
    rfl
  have hAt :
      InfixOperator.at? false l more =
        some ⟨1, b, l.text, l.span⟩ := by
    unfold InfixOperator.at?
    split
    · rename_i hKind
      rw [hKind] at hBinding
      cases hBinding
    · cases more with
      | nil => exact hBegins.elim
      | cons m more =>
          rw [InfixOperator.slash?,
            if_neg (fun hSlash => hBegins.2 hSlash.1)]
          exact hSingle
    · rename_i hKind
      rw [hKind] at hBinding
      cases hBinding
    · rename_i hKind
      rw [hKind] at hBinding
      cases hBinding
    · exact hSingle
  unfold infixAhead?
  simp only [hFirst, List.drop_zero]
  change (InfixOperator.at? false l more).map _ = _
  rw [hAt]
  rfl

/- The operator of two words. -/
theorem infixAhead?_notIn
    {l' : Lexeme}
    (more : List Lexeme)
    (hNot : l.kind = .operator .notWord)
    (hIn : l'.kind = .operator .inWord) :
    infixAhead? (l :: l' :: more) =
      some (.pair ⟨Precedence.membership, .left⟩ "not in" l l') := by
  have hFirst : runLength isLineEnd (l :: l' :: more) = 0 := by
    apply runLength_eq_zero
    intro m hMember
    cases hMember
    rw [hNot]
    rfl
  unfold infixAhead?
  simp only [hFirst, List.drop_zero, InfixOperator.at?, hNot,
    InfixOperator.notIn?, hIn, if_true]
  rfl

------------------------------------------------------------
-- Grammars of operators
------------------------------------------------------------

/-
  How operands and operators are spelled, and what is said
  about the nodes of trees. `Means` is closed under joining two
  operands by an operator.
-/
structure OperatorGrammar (α β : Type) where
  binding : β → Binding
  IsOperand : α → List Lexeme → Prop
  IsOperator : β → List Lexeme → InfixOperator → Prop
  Means : OperatorTree α β → Node → Prop
  agrees : ∀ o o', (binding o).Agrees (binding o')
  begins : ∀ a ls, IsOperand a ls → BeginsOperand ls
  follows : ∀ context o ls i more,
    IsOperator o ls i → Follows context (ls ++ more)
  ahead : ∀ o ls i more,
    IsOperator o ls i →
      BeginsOperand more →
        infixAhead? (ls ++ more) = some i ∧
          i.length = ls.length ∧ i.binding = binding o
  joins : ∀ o ls i l r left right,
    IsOperator o ls i →
      Means l left →
        Means r right →
          Means (.node o l r)
            ⟨.binary i.name left right i.span,
              left.span.merge right.span⟩

namespace OperatorGrammar

variable {α β : Type}
variable {G : OperatorGrammar α β}

/- Some lexemes spell a tree from left to right. -/
inductive Spells
    (G : OperatorGrammar α β) :
    OperatorTree α β → List Lexeme → Prop where
| leaf
    (a : α)
    (ls : List Lexeme)
    (hOperand : G.IsOperand a ls) :
    Spells G (.leaf a) ls
| node
    (o : β)
    (l r : OperatorTree α β)
    (left signs right : List Lexeme)
    (i : InfixOperator)
    (hLeft : Spells G l left)
    (hOperator : G.IsOperator o signs i)
    (hRight : Spells G r right) :
    Spells G (.node o l r) (left ++ signs ++ right)

/-
  The operands of a grammar are read where an operand may
  stand, whatever follows them.
-/
def Reads
    (G : OperatorGrammar α β)
    (bad : ParseError → Prop)
    (levels : Levels)
    (context : Context) : Prop :=
  ∀ height a ls more,
    G.IsOperand a ls →
      Follows context more →
        Yields bad (operand levels height context) (ls ++ more)
          more (G.Means (.leaf a))

theorem Spells.begins
    {t : OperatorTree α β}
    (hSpells : G.Spells t ls) :
    BeginsOperand ls := by
  induction hSpells with
  | leaf a ls hOperand => exact G.begins a ls hOperand
  | node o l r left signs right i _ _ _ ih _ =>
      rw [List.append_assoc]
      exact ih.append _

/- The operator behind an operand, with what comes after it. -/
theorem steps_eatInfix
    {o : β}
    {signs : List Lexeme}
    {i : InfixOperator}
    {precedence : Nat}
    (hOperator : G.IsOperator o signs i)
    (hBegins : BeginsOperand more)
    (hTight : precedence ≤ (G.binding o).precedence) :
    Steps (eatInfix precedence) (signs ++ more) more (some i) := by
  rcases G.ahead o signs i more hOperator hBegins with
    ⟨hAhead, hLength, hBinding⟩
  have hTaken : Steps (skip i.length) (signs ++ more) more () := by
    have hSkip :
        Steps (skip i.length) (signs ++ more)
          ((signs ++ more).drop i.length) () :=
      steps_skip i.length
    rwa [hLength, List.drop_left, ← hLength] at hSkip
  unfold eatInfix
  refine steps_rest.trans ?_
  rw [hAhead]
  change Steps (if i.binding.precedence < precedence then _ else _)
    _ _ _
  rw [if_neg (by rw [hBinding]; omega)]
  exact hTaken.trans
    ((steps_skipLineEnds hBegins.ne_endOfLine).trans
      (steps_pure _))

/- Nothing is taken where no operator binds tightly enough. -/
theorem steps_eatInfix_none
    {precedence : Nat}
    (hBelow : BindsBelow precedence ls) :
    Steps (eatInfix precedence) ls ls none := by
  unfold eatInfix
  refine steps_rest.trans ?_
  cases hAhead : infixAhead? ls with
  | none => exact steps_pure none
  | some i =>
      change Steps (if i.binding.precedence < precedence then _
        else _) _ _ _
      rw [if_pos (hBelow i hAhead)]
      exact steps_pure none

theorem grows_joined
    (i : InfixOperator)
    (left right : Node) :
    Grows (joined i left right) :=
  Run.grows fun _ => Run.joined (n := 0) i left right

/- Two operands are joined; only a step asks for more than that. -/
theorem yields_joined
    {i : InfixOperator}
    (left right : Node)
    (hStep : i.name = "//" →
      ∀ span, bad ⟨.expected .rangeBeforeStep none, span⟩) :
    Yields bad (joined i left right) ls ls
      (· = ⟨.binary i.name left right i.span,
        left.span.merge right.span⟩) := by
  unfold joined checkStep
  split
  · rename_i hName
    have hFails :
        Yields bad
          (failure (.expected .rangeBeforeStep none) i.span i.span)
          ls [] (fun _ => False) :=
      yields_failure (hStep hName.1 i.span)
    exact hFails.bind (fun _ => .pure _)
      (fun _ hFalse => hFalse.elim)
  · exact fun s hStands => .inr ⟨rfl, hStands⟩

------------------------------------------------------------
-- Climbing
------------------------------------------------------------

variable {t : OperatorTree α β}
variable {precedence : Nat}

/- Operators and operands are folded into a tree no more. -/
theorem steps_folds
    (node : Node)
    (hBelow : BindsBelow precedence ls) :
    Steps (folds levels precedence context height node) ls ls
      node := by
  cases height with
  | zero =>
      unfold folds
      exact (steps_eatInfix_none hBelow).trans (steps_pure node)
  | succ height =>
      unfold folds
      exact (steps_eatInfix_none hBelow).trans (steps_pure node)

/-
  With the parsers one level down in order, an operand and the
  operators behind it become the tree that they spell, and the
  folding goes on from there. The induction is along the left
  side of the tree: each operator there finds the tree on its
  left folded already, and its right operand is read by a
  parser one level down.
-/
theorem Spells.climb
    {start : Nat}
    (hLevels : ∀ height, Sound n (levels height))
    (hBad : ∀ span, bad ⟨.tooDeeplyNested, span⟩)
    (hStep : ∀ o ls i, G.IsOperator o ls i → i.name = "//" →
      ∀ span, bad ⟨.expected .rangeBeforeStep none, span⟩)
    (hReads : G.Reads bad levels context)
    (hLower : ∀ height precedence t ls more,
      G.Spells t ls →
        t.Ordered G.binding →
          (∀ o ∈ t.root?,
            precedence ≤ (G.binding o).precedence) →
            Follows context more →
              BindsBelow precedence more →
                Yields bad (levels height precedence context)
                  (ls ++ more) more (G.Means t))
    (hSpells : G.Spells t ls)
    (hOrdered : t.Ordered G.binding)
    (hTight : ∀ o ∈ t.root?,
      precedence ≤ (G.binding o).precedence)
    (hFollows : Follows context more)
    (hBelow : ∀ o ∈ t.root?,
      BindsBelow (G.binding o).rightPrecedence more)
    (hGoes : ∀ height node,
      G.Means t node →
        Yields bad
          (folds levels precedence context height node) more
          back Result) :
    Yields bad
      (operand levels start context >>=
        folds levels precedence context start)
      (ls ++ more) back Result := by
  have hGrows :
      ∀ height node,
        Grows (folds levels precedence context height node) :=
    fun height node => Run.grows fun s =>
      Run.folds hLevels precedence node
  induction hSpells generalizing more with
  | leaf a ls hOperand =>
      exact (hReads start a ls more hOperand hFollows).bind
        (hGrows start) (hGoes start)
  | node o l r left signs right i hLeft hOperator hRight ih _ =>
      rcases hOrdered with ⟨hRootL, hRootR, hOrderedL, hOrderedR⟩
      have hTightO := hTight o rfl
      have hBegins := hRight.begins.append more
      have hAhead :=
        G.ahead o signs i (right ++ more) hOperator hBegins
      have hAssoc :
          left ++ signs ++ right ++ more =
            left ++ (signs ++ (right ++ more)) := by
        simp [List.append_assoc]
      rw [hAssoc]
      apply ih hOrderedL
      · intro o' hRoot
        have hLe := (hRootL o' hRoot).precedence_le
        omega
      · exact G.follows context o signs i _ hOperator
      · -- The operator binds less tightly than what is to its left.
        intro o' hRoot j hNext
        rw [hAhead.1] at hNext
        cases hNext
        rw [hAhead.2.2]
        exact Binding.admitsLeft_iff.mp (hRootL o' hRoot)
      · intro height node hNode
        have hSign :=
          steps_eatInfix hOperator hBegins hTightO
        cases height with
        | zero =>
            unfold folds
            refine hSign.bind ?_
            have hDeep :
                Yields bad tooDeep (right ++ more) []
                  (fun _ => False) := yields_errorNode hBad
            refine hDeep.bind ?_ ?_
            · exact grows_joined i node
            · exact fun _ hFalse => hFalse.elim
        | succ height =>
            unfold folds
            refine hSign.bind ?_
            change Yields bad (_ >>= _) _ _ _
            rw [hAhead.2.2]
            refine Yields.bind
              (hLower height _ r right more hRight hOrderedR ?_
                hFollows (hBelow o rfl)) ?_ ?_
            · intro o' hRoot
              exact (Binding.admitsRight_iff
                (G.agrees o o')).mp (hRootR o' hRoot)
            · exact fun node' =>
                (grows_joined i node node').bind (hGrows height)
            · intro node' hNode'
              refine (yields_joined node node'
                (hStep o signs i hOperator)).bind
                (hGrows height) ?_
              rintro _ rfl
              exact hGoes height _
                (G.joins o signs i l r node node' hOperator
                  hNode hNode')

/-
  At every level and precedence, the lexemes of an ordered tree
  are parsed to a node of that tree, if its root binds tightly
  enough and what follows does not.
-/
theorem Spells.yields
    (n height precedence : Nat)
    (hBad : ∀ span, bad ⟨.tooDeeplyNested, span⟩)
    (hStep : ∀ o ls i, G.IsOperator o ls i → i.name = "//" →
      ∀ span, bad ⟨.expected .rangeBeforeStep none, span⟩)
    (hReads : ∀ m < n, G.Reads bad (expression m) context)
    (hSpells : G.Spells t ls)
    (hOrdered : t.Ordered G.binding)
    (hTight : ∀ o ∈ t.root?,
      precedence ≤ (G.binding o).precedence)
    (hFollows : Follows context more)
    (hBelow : BindsBelow precedence more) :
    Yields bad (expression n height precedence context)
      (ls ++ more) more (G.Means t) := by
  induction n generalizing height precedence t ls more with
  | zero => exact yields_errorNode hBad
  | succ n ih =>
      cases height with
      | zero => exact yields_errorNode hBad
      | succ height =>
          apply Yields.nested
          apply hSpells.climb (sound_expression n) hBad hStep
            (hReads n (Nat.lt_succ_self n)) _ hOrdered hTight
            hFollows
          · intro o hRoot
            have hLe := hTight o hRoot
            have hMore :=
              (G.binding o).precedence_le_rightPrecedence
            exact hBelow.mono (by omega)
          · intro height' node hNode
            exact (steps_folds node hBelow).yields hNode
          · intro height' precedence' t' ls' more' hSpells'
              hOrdered' hTight' hFollows' hBelow'
            exact ih height' precedence'
              (fun m hLess => hReads m (by omega)) hSpells'
              hOrdered' hTight' hFollows' hBelow'

end OperatorGrammar

end ElixirReader
