import ElixirReader.Proofs.Quote.Operands
import ElixirReader.Render.Basic

/-
  This file shows that operations are read as they are
  written: the parentheses that are written around operands
  are those that the precedence and associativity of the
  operators ask for. There is one gap: a range has no blanks
  around its dots, so an operand that starts with dots runs
  into them.

  Key definitions include:
    * `IsOperation`
    * `DotsApart`
    * `Lays`
    * `LaysOut`

  Main declarations:
    * `Lays.binary`
    * `Lays.unary`
    * `Lays.quoteSource_render`
    * `IsOperation.laysOut`
    * `quoteSource_render_operation`
-/

namespace ElixirReader

open Parse

------------------------------------------------------------
-- Operations
------------------------------------------------------------

namespace Term

/- A variable without metadata. -/
def ofName
    (name : String) : Term :=
  .call (.atom name) (.list []) .nil

/- An operator with its operands, without metadata. -/
def operation
    (name : String)
    (operands : List Term) : Term :=
  .call (.atom name) (.list []) (.list operands)

end Term

/- The terms that are built from operands by operators. -/
inductive IsOperation : Term → Prop where
| ofName
    (name : String)
    (hName :
      (tokenize name).1.map (fun t => (t.kind, t.text)) =
        [(.identifier, name)]) :
    IsOperation (.ofName name)
| integer
    (value : Nat) :
    IsOperation (.integer value)
| unary
    (name : String)
    (operand : Term)
    (hName : OperatorName.isUnary name = true)
    (hOperand : IsOperation operand) :
    IsOperation (.operation name [operand])
| binary
    (name : String)
    (left right : Term)
    (hName : (OperatorName.binding? name).isSome = true)
    (hLeft : IsOperation left)
    (hRight : IsOperation right) :
    IsOperation (.operation name [left, right])

/- The name of an operator is the name of no other construct. -/
theorem construct?_eq_none
    {name : String}
    (hName :
      (OperatorName.binding? name).isSome = true ∨
        OperatorName.isUnary name = true)
    (left right : Written) :
    Written.construct? name [left] = none ∧
      Written.construct? name [left, right] = none := by
  have hOther :
      ∀ n ∈ ["__block__", "__aliases__", "\x7b\x7d", "%\x7b\x7d",
          "<<>>", "fn", "@", "&", "%", "->"],
        name ≠ n := by
    rintro n hMember rfl
    have hNone :
        ∀ n ∈ ["__block__", "__aliases__", "\x7b\x7d",
            "%\x7b\x7d", "<<>>", "fn", "@", "&", "%", "->"],
          (OperatorName.binding? n).isSome = false ∧
            OperatorName.isUnary n = false := by
      decide
    rw [(hNone _ hMember).1, (hNone _ hMember).2] at hName
    simp at hName
  simp only [List.forall_mem_cons, List.not_mem_nil,
    false_implies, implies_true, and_true] at hOther
  simp [Written.construct?, Written.container?, Written.mark?,
    Written.pair?, hOther]

------------------------------------------------------------
-- Written operations
------------------------------------------------------------

theorem Written.tupleText_pair
    (first second : Written) :
    Written.tupleText [first, second] =
      Written.braces (Written.sequence [first, second] []) := by
  cases second <;> rfl

namespace Term

theorem writtenAll_eq_map
    (ts : List Term) :
    writtenAll ts = ts.map written := by
  induction ts with
  | nil => rfl
  | cons t ts ih => rw [writtenAll, ih, List.map_cons]

theorem text_ofName
    (name : String) :
    (ofName name).written.text = name.toList :=
  rfl

theorem named?_operation
    (name : String)
    (operands : List Term) :
    (operation name operands).written.named? =
      some (name, operands.map written) := by
  rw [← writtenAll_eq_map]
  rfl

theorem text_operation
    (name : String)
    (operands : List Term) :
    (operation name operands).written.text =
      Written.namedCall name (operands.map written) := by
  rw [← writtenAll_eq_map]
  rfl

theorem precedence?_operation
    (name : String)
    (operands : List Term) :
    (operation name operands).written.precedence? =
      Written.operatorPrecedence? name (operands.map written) := by
  unfold Written.precedence?
  rw [named?_operation]
  rfl

theorem membership?_operation
    (name : String)
    (operands : List Term)
    (hName : name ≠ "in") :
    (operation name operands).written.membership? = none := by
  have hNone :
      (operation name operands).written.argsOf? "in" = none := by
    unfold Written.argsOf?
    rw [named?_operation]
    exact if_neg hName
  unfold Written.membership?
  rw [hNone]

/- An operator in front of an operand. -/
theorem text_unary
    {name : String}
    (operand : Term)
    (hName : OperatorName.isUnary name = true) :
    (operation name [operand]).written.text =
      if name = "not" then Written.negation operand.written
      else Written.unaryOperator name operand.written := by
  have hOperator :
      Written.operator? name [operand.written] =
        some (if name = "not" then
            Written.negation operand.written
          else Written.unaryOperator name operand.written) := by
    simp only [Written.operator?, hName, if_true]
    split <;> rfl
  rw [text_operation]
  unfold Written.namedCall
  rw [List.map_singleton,
    (construct?_eq_none (.inr hName) _ operand.written).1,
    hOperator]
  rfl

/- An operator between two operands. -/
theorem text_binary
    {name : String}
    {b : Binding}
    (left right : Term)
    (hBinding : OperatorName.binding? name = some b) :
    (operation name [left, right]).written.text =
      Written.binaryOperator name b left.written
        right.written := by
  have hName : (OperatorName.binding? name).isSome = true := by
    rw [hBinding]
    rfl
  have hOperator :
      Written.operator? name [left.written, right.written] =
        some (Written.binaryOperator name b left.written
          right.written) := by
    simp only [Written.operator?, hBinding, Option.map_some]
  rw [text_operation]
  unfold Written.namedCall
  rw [List.map_cons, List.map_singleton,
    (construct?_eq_none (.inl hName) _ _).2, hOperator]
  rfl

end Term

------------------------------------------------------------
-- Layouts
------------------------------------------------------------

/-
  A text lays out a term: wherever an operand is awaited, and
  whatever ends it, its lexemes spell an ordered tree of
  operators with that term.
-/
structure Lays
    (text : List Char)
    (t : Term)
    (tree : OperatorTree Term Sign) : Prop where
  ordered : tree.Ordered Sign.binding
  term_eq : tree.term = t
  starts : text.head?.any startsOperandText = true
  lexes : ∀ mode rest,
    mode.awaitsOperand = true →
      EndsOperand rest →
        Lexes [] mode text rest
          (fun mode' ls =>
            mode'.endsOperand = true ∧
              ∀ context, (termGrammar context).Spells tree ls)

variable {text : List Char}
variable {t : Term}
variable {tree : OperatorTree Term Sign}

/- A layout in parentheses is an operand. -/
theorem Lays.parenthesized
    (hLays : Lays text t tree) :
    Lays (Written.parentheses text) t (.leaf t) := by
  refine ⟨True.intro, rfl, rfl, ?_⟩
  intro mode rest hMode hEnds
  have hMarks :
      (.parenthesis, '(', ')') ∈ bracketMarks := by
    decide
  change Lexes [] mode (['('] ++ text ++ [')']) rest _
  rw [List.append_assoc]
  apply (lexes_opening hMarks hMode).append
  rintro _ _ ⟨rfl, opened, rfl, hOpened, _⟩
  have hText := hLays.lexes .afterOpening ([')'] ++ rest) rfl
    (.inl (by decide))
  apply hText.append
  rintro m ls ⟨hMode', hSpells⟩
  apply (lexes_closing hMarks (.inr hMode')).mono
  rintro _ _ ⟨rfl, closed, rfl, hClosed, _⟩
  refine ⟨rfl, fun context => .leaf t _ ?_⟩
  have hReads :
      ReadsOperand context tree.term (opened :: (ls ++ [closed])) :=
    readsOperand_parenthesized (hSpells .statement) hLays.ordered
      hOpened hClosed
  rw [hLays.term_eq] at hReads
  exact hReads

/- What is laid out by the source of a term is read as the term. -/
theorem Lays.quoteSource_render
    (hLays : Lays t.written.text t tree)
    (hShallow :
      ∀ e ∈ (quoteSource .none t.render).2, ¬ e.IsTooDeep) :
    quoteSource .none t.render = (t, []) := by
  have hText : t.render.toList = t.written.text :=
    String.toList_ofList
  have hMark :
      t.render.toList.head? ≠ some Lexer.byteOrderMark := by
    intro hHead
    have hStarts := hLays.starts
    rw [← hText, hHead, Option.any_some] at hStarts
    exact absurd hStarts (by decide +kernel)
  have hLexes := hLays.lexes .initial [] rfl True.intro
  rw [← hText] at hLexes
  rw [quoteSource_of_lexes hLays.ordered hMark
    (hLexes.mono fun _ _ hSpells => hSpells.2 .statement) hShallow,
    hLays.term_eq]

/- A written term lays out a tree whose root binds as it does. -/
structure LaysOut
    (w : Written)
    (t : Term)
    (tree : OperatorTree Term Sign) : Prop extends
    Lays w.text t tree where
  precedence_eq :
    tree.root?.map (·.binding.precedence) = w.precedence?

variable {w : Written}

/- A tree without an operator is its only operand. -/
theorem LaysOut.eq_leaf
    (hLays : LaysOut w t tree)
    (hNone : w.precedence? = none) :
    tree = .leaf t := by
  have hTerm := hLays.term_eq
  have hRoot := hLays.precedence_eq
  cases tree with
  | leaf u => exact congrArg OperatorTree.leaf hTerm
  | node o l r =>
      rw [hNone] at hRoot
      cases hRoot

/-
  An operand of an operator lays out a tree that binds more
  tightly than the operator, or just as tightly where that is
  allowed.
-/
theorem LaysOut.operand
    (outer : Nat)
    (strict : Bool)
    (hLays : LaysOut w t tree) :
    ∃ tree',
      Lays (w.operand outer strict) t tree' ∧
        ∀ o ∈ tree'.root?,
          outer < o.binding.precedence ∨
            outer = o.binding.precedence ∧ strict = false := by
  unfold Written.operand
  split
  · refine ⟨.leaf t, hLays.toLays.parenthesized, ?_⟩
    intro o hRoot
    cases hRoot
  · rename_i hBare
    refine ⟨tree, hLays.toLays, ?_⟩
    intro o hRoot
    have hPrecedence :
        w.precedence? = some o.binding.precedence := by
      rw [← hLays.precedence_eq, Option.mem_def.mp hRoot]
      rfl
    rw [Written.needsParentheses, hPrecedence] at hBare
    rw [Option.any_some, Bool.or_eq_true, Bool.and_eq_true,
      decide_eq_true_eq, beq_iff_eq] at hBare
    cases strict with
    | false =>
        simp at hBare ⊢
        omega
    | true =>
        simp at hBare ⊢
        omega

/- An operand that stands alone is laid out without operators. -/
theorem LaysOut.tightOperand
    (hLays : LaysOut w t tree) :
    Lays w.tightOperand t (.leaf t) := by
  unfold Written.tightOperand
  split
  · exact hLays.toLays.parenthesized
  · rename_i hNone
    have hTree : tree = .leaf t :=
      hLays.eq_leaf (by simpa using hNone)
    rw [← hTree]
    exact hLays.toLays

------------------------------------------------------------
-- Operators between operands
------------------------------------------------------------

variable {mode : Mode}
variable {rest : List Char}

/- A sign ends the operand in front of it. -/
theorem endsOperand_operatorSign
    (name : String)
    (rest : List Char) :
    EndsOperand (Written.operatorSign name ++ rest) := by
  unfold Written.operatorSign
  split
  · rename_i hRange
    rw [hRange]
    exact .inr ⟨rfl, rfl⟩
  · exact .inl (by decide)

/- A sign between two operands is spelled by its lexemes. -/
theorem lexes_operatorSign
    (o : Sign)
    (hMode : mode.endsOperand = true)
    (hStarts : rest.head?.any startsOperandText = true)
    (hDots : o.name = ".." → rest.head? ≠ some '.') :
    Lexes [] mode (Written.operatorSign o.name) rest
      (fun mode' ls =>
        mode'.awaitsOperand = true ∧ ∃ i, o.IsSpelled ls i) := by
  have hNext : ∀ c ∈ rest.head?, isBlank c = false := by
    intro c hHead
    rw [Option.mem_def.mp hHead] at hStarts
    exact isBlank_of_startsOperandText hStarts
  cases o with
  | notIn =>
      apply (lexes_notIn hMode hNext).mono
      rintro _ _ ⟨rfl, l, l', rfl, hNot, hIn⟩
      exact ⟨rfl, _, .notIn l l' hNot hIn⟩
  | named name b hBinding =>
      by_cases hRange : name = ".."
      · subst hRange
        apply (lexes_range hMode (hDots rfl)).mono
        rintro _ _ ⟨rfl, l, rfl, hKind, hText⟩
        refine ⟨rfl, _, .named ".." b hBinding l ?_ hText⟩
        rw [hKind]
        exact hBinding
      · rcases exists_mem_levels hBinding with
          ⟨level, hLevel, hName, rfl⟩
        rcases exists_isSign level hLevel name hName hRange with
          ⟨kind, mode', hSign, hKind, hMode'⟩
        have hPlain :
            kind.fault? name.toList = none ∧
              kind.isTrivia = false := by
          cases kind <;> first | exact ⟨rfl, rfl⟩ | cases hKind
        have hText :
            Written.operatorSign name =
              [' '] ++ (name.toList ++ [' ']) := by
          unfold Written.operatorSign
          rw [if_neg hRange]
          rfl
        change Lexes [] mode (Written.operatorSign name) rest _
        rw [hText]
        apply (lexes_sign hSign hPlain hMode' hMode hNext).mono
        rintro _ _ ⟨rfl, l, rfl, hKind', hText'⟩
        refine ⟨rfl, _, .named name _ hBinding l ?_ ?_⟩
        · rw [hKind', hKind]
        · rw [hText', String.ofList_toList]

/- Two operands with a sign between them. -/
theorem Lays.binary
    {o : Sign}
    {left right : List Char}
    {first second : Term}
    {l r : OperatorTree Term Sign}
    (hLeft : Lays left first l)
    (hRight : Lays right second r)
    (hAdmitsL : ∀ o' ∈ l.root?, o.binding.AdmitsLeft o'.binding)
    (hAdmitsR : ∀ o' ∈ r.root?,
      o.binding.AdmitsRight o'.binding)
    (hDots : o.name = ".." → right.head? ≠ some '.') :
    Lays (left ++ Written.operatorSign o.name ++ right)
      (o.apply first second) (.node o l r) := by
  refine ⟨⟨hAdmitsL, hAdmitsR, hLeft.ordered, hRight.ordered⟩,
    ?_, ?_, ?_⟩
  · rw [OperatorTree.term, hLeft.term_eq, hRight.term_eq]
  · have hStarts := hLeft.starts
    cases left with
    | nil => cases hStarts
    | cons c cs => exact hStarts
  · intro mode rest hMode hEnds
    have hHead :
        (right ++ rest).head?.any startsOperandText = true ∧
          (right ++ rest).head? = right.head? := by
      have hStarts := hRight.starts
      cases right with
      | nil => cases hStarts
      | cons c cs => exact ⟨hStarts, rfl⟩
    rw [List.append_assoc]
    have hText := hLeft.lexes mode
      (Written.operatorSign o.name ++ right ++ rest) hMode
      (by
        rw [List.append_assoc]
        exact endsOperand_operatorSign o.name _)
    apply hText.append
    rintro m ls ⟨hMode', hSpellsL⟩
    apply (lexes_operatorSign o hMode' hHead.1 (by
      rw [hHead.2]
      exact hDots)).append
    rintro m' signs ⟨hMode'', i, hSpelled⟩
    apply (hRight.lexes m' rest hMode'' hEnds).mono
    rintro m'' rs ⟨hEnded, hSpellsR⟩
    refine ⟨hEnded, ?_⟩
    rw [← List.append_assoc]
    exact fun context =>
      .node o l r ls signs rs i (hSpellsL context) hSpelled
        (hSpellsR context)

/-
  Operands are written between parentheses exactly where the
  operator does not admit them bare.
-/
theorem LaysOut.binary
    {o : Sign}
    {left right : Written}
    {first second : Term}
    {l r : OperatorTree Term Sign}
    (hLeft : LaysOut left first l)
    (hRight : LaysOut right second r)
    (hDots : o.name = ".." →
      (right.operand OperatorName.range.precedence false).head? ≠
        some '.') :
    ∃ tree,
      Lays (Written.binaryOperator o.name o.binding left right)
          (o.apply first second) tree ∧
        tree.root?.map (·.binding.precedence) =
          some o.binding.precedence := by
  rcases hLeft.operand o.binding.precedence
      (o.binding.associativity == .right) with
    ⟨l', hLaysL, hRootL⟩
  rcases hRight.operand o.binding.precedence
      (o.binding.associativity == .left) with
    ⟨r', hLaysR, hRootR⟩
  refine ⟨.node o l' r', hLaysL.binary hLaysR ?_ ?_ ?_, rfl⟩
  · intro o' hRoot
    rcases hRootL o' hRoot with hLess | ⟨hSame, hStrict⟩
    · exact .inl hLess
    · refine .inr ⟨hSame, ?_⟩
      rw [← o.agrees o' hSame]
      cases hAssoc : o.binding.associativity with
      | left => rfl
      | right =>
          rw [hAssoc] at hStrict
          cases hStrict
  · intro o' hRoot
    rcases hRootR o' hRoot with hLess | ⟨hSame, hStrict⟩
    · exact .inl hLess
    · refine .inr ⟨hSame, ?_⟩
      rw [← o.agrees o' hSame]
      cases hAssoc : o.binding.associativity with
      | right => rfl
      | left =>
          rw [hAssoc] at hStrict
          cases hStrict
  · intro hRange
    have hBinding : o.binding = OperatorName.range := by
      cases o with
      | notIn => exact absurd hRange (by decide)
      | named name b hBinding =>
          have hName : name = ".." := hRange
          subst hName
          exact (Option.some.inj hBinding).symm
    rw [hBinding]
    exact hDots hRange

------------------------------------------------------------
-- Operators in front of an operand
------------------------------------------------------------

/- An operand that may stand behind an operator in front of it. -/
theorem Lays.behindOperator
    {name : String}
    (hName : OperatorName.isUnary name = true)
    (hLays : Lays text t (.leaf t)) :
    Lays (Written.behindOperator name text) t (.leaf t) ∧
      ∀ d ∈ (Written.behindOperator name text).head?,
        name.toList = [d] → name = "!" := by
  unfold Written.behindOperator
  split
  · refine ⟨hLays.parenthesized, ?_⟩
    intro d hHead hList
    have hParenthesis : '(' = d := Option.some.inj hHead
    have hSame : name = String.ofList ['('] := by
      rw [hParenthesis, ← hList, String.ofList_toList]
    subst hSame
    exact absurd hName (by decide)
  · rename_i hApart
    refine ⟨hLays, ?_⟩
    intro d hHead hList
    cases text with
    | nil => cases hHead
    | cons c cs =>
        cases hHead
        by_contra hBang
        have hNot : name ≠ "not" := by
          rintro rfl
          cases hList
        apply hApart
        simp [Written.runsInto, hBang, hNot, hList,
          List.isPrefixOf]

/- An operator in front of an operand makes an operand of it. -/
theorem Lays.unary
    {name : String}
    (hName : OperatorName.isUnary name = true)
    (hLays : Lays text t (.leaf t))
    (hApart : ∀ d ∈ text.head?,
      name.toList = [d] → name = "!") :
    Lays
      (name.toList ++ (if name = "not" then " ".toList else [])
        ++ text)
      (.operation name [t]) (.leaf (.operation name [t])) := by
  have hFirst :
      ∀ name ∈ OperatorName.unaryNames,
        name.toList.head?.any startsOperandText = true := by
    decide
  refine ⟨True.intro, rfl, ?_, ?_⟩
  · have hStarts :=
      hFirst name (List.contains_iff_mem.mp hName)
    cases hList : name.toList with
    | nil =>
        rw [hList] at hStarts
        cases hStarts
    | cons c cs =>
        rw [hList] at hStarts
        exact hStarts
  · intro mode rest hMode hEnds
    have hStarts := hLays.starts
    cases text with
    | nil => cases hStarts
    | cons d ds =>
        apply (lexes_unary hName hMode hStarts
          (hApart d rfl)).append
        rintro m _ ⟨hMode', l, rfl, hKind, rfl⟩
        apply (hLays.lexes m rest hMode' hEnds).mono
        rintro m' ls ⟨hMode'', hSpells⟩
        refine ⟨hMode'', fun context => .leaf _ _ ?_⟩
        cases hSpells context with
        | leaf _ _ hReads => exact readsOperand_unary hKind hReads

------------------------------------------------------------
-- All operations
------------------------------------------------------------

namespace Term

/- A term and all terms in it. -/
mutual
def subterms : Term → List Term
| .atom name => [.atom name]
| .integer value => [.integer value]
| .float value => [.float value]
| .binary content => [.binary content]
| .list items => .list items :: allSubterms items
| .tuple items => .tuple items :: allSubterms items
termination_by structural t => t

def allSubterms : List Term → List Term
| [] => []
| t :: ts => t.subterms ++ allSubterms ts
termination_by structural ts => ts
end

theorem mem_subterms_self
    (t : Term) :
    t ∈ t.subterms := by
  cases t <;> simp [subterms]

theorem mem_allSubterms
    {t u : Term}
    {ts : List Term}
    (hMember : t ∈ ts)
    (hSub : u ∈ t.subterms) :
    u ∈ allSubterms ts := by
  induction ts with
  | nil => cases hMember
  | cons t' ts ih =>
      rw [allSubterms, List.mem_append]
      rcases List.mem_cons.mp hMember with rfl | hMember
      · exact .inl hSub
      · exact .inr (ih hMember)

/- The terms in an operand are terms in the operation. -/
theorem mem_subterms_operation
    {name : String}
    {operands : List Term}
    {t u : Term}
    (hMember : t ∈ operands)
    (hSub : u ∈ t.subterms) :
    u ∈ (operation name operands).subterms := by
  apply List.mem_cons_of_mem
  apply mem_allSubterms (t := .list operands) (by simp)
  exact List.mem_cons_of_mem _ (mem_allSubterms hMember hSub)

end Term

/-
  In no range is the last operand written with a dot in front,
  as a variable of three dots is.
-/
def DotsApart
    (t : Term) : Prop :=
  ∀ left right,
    .operation ".." [left, right] ∈ t.subterms →
      (right.written.operand OperatorName.range.precedence
        false).head? ≠ some '.'

theorem DotsApart.of_mem
    {name : String}
    {operands : List Term}
    (hDots : DotsApart (.operation name operands))
    (hMember : t ∈ operands) :
    DotsApart t :=
  fun left right hSub =>
    hDots left right (Term.mem_subterms_operation hMember hSub)

/- What is no call of `in` is no membership. -/
theorem IsOperation.membership?_eq_none
    (hOperation : IsOperation t)
    (hOther : ∀ left right, t ≠ .operation "in" [left, right]) :
    t.written.membership? = none := by
  cases hOperation with
  | ofName name hName => rfl
  | integer value => rfl
  | unary name operand hName hOperand =>
      apply Term.membership?_operation
      rintro rfl
      exact absurd hName (by decide)
  | binary name left right hName hLeft hRight =>
      apply Term.membership?_operation
      rintro rfl
      exact hOther left right rfl

theorem IsVariableName.starts
    {name : List Char}
    (hName : IsVariableName name) :
    name.head?.any startsOperandText = true := by
  cases hName with
  | word c cs hStart hTail hWord =>
      change startsOperandText c = true
      rw [startsOperandText, isNameStart, hStart]
      rfl
  | dots => decide

/- A variable's name is an operand. -/
theorem laysOut_ofName
    {name : String}
    (hName : IsVariableName name.toList) :
    LaysOut (Term.ofName name).written (.ofName name)
      (.leaf (.ofName name)) := by
  refine ⟨⟨True.intro, rfl, ?_, ?_⟩, rfl⟩
  · exact hName.starts
  · intro mode rest hMode hEnds
    rw [Term.text_ofName]
    apply (lexes_variable hName hMode hEnds.endsNameBefore).mono
    rintro _ _ ⟨rfl, l, rfl, hKind, hText⟩
    refine ⟨rfl, fun _ => .leaf _ _ ?_⟩
    rw [String.ofList_toList] at hText
    rw [← hText]
    exact readsOperand_variable hKind

/- The digits of a natural number are an operand. -/
theorem laysOut_integer
    (value : Nat) :
    LaysOut (Term.integer value).written (.integer value)
      (.leaf (.integer value)) := by
  have hText :
      (Term.integer value).written.text = decimalDigits value := by
    change integerText value = _
    unfold integerText
    rw [if_neg (by omega)]
    rfl
  refine ⟨⟨True.intro, rfl, ?_, ?_⟩, rfl⟩
  · rw [hText]
    have hDigits : ∀ c ∈ decimalDigits value, c.isDigit = true :=
      fun _ => isDigit_of_mem_decimalDigits
    cases hList : decimalDigits value with
    | nil => exact absurd hList Nat.toDigits_ne_nil
    | cons c cs =>
        rw [hList] at hDigits
        change startsOperandText c = true
        rw [startsOperandText, hDigits c List.mem_cons_self,
          Bool.or_true]
        rfl
  · intro mode rest hMode hEnds
    rw [hText]
    apply (lexes_digits value hMode hEnds).mono
    rintro _ _ ⟨rfl, l, rfl, hKind, hText'⟩
    exact ⟨rfl, fun _ => .leaf _ _ (readsOperand_integer hKind hText')⟩

/- An operator in front of an operand binds nothing in it. -/
theorem LaysOut.unary
    {name : String}
    {operand : Term}
    (hName : OperatorName.isUnary name = true)
    (hLays : LaysOut operand.written operand tree)
    (hOther : name = "not" →
      operand.written.membership? = none) :
    LaysOut (Term.operation name [operand]).written
      (.operation name [operand])
      (.leaf (.operation name [operand])) := by
  have hText :
      (Term.operation name [operand]).written.text =
        Written.unaryOperator name operand.written := by
    rw [Term.text_unary operand hName]
    split
    · rename_i hNot
      unfold Written.negation
      rw [hOther hNot, hNot]
    · rfl
  have hPrecedence :
      (Term.operation name [operand]).written.precedence? =
        none := by
    rw [Term.precedence?_operation]
    apply if_neg
    rintro ⟨hNot, hMembership⟩
    rw [hOther hNot] at hMembership
    cases hMembership
  rcases hLays.tightOperand.behindOperator hName with
    ⟨hOperand, hApart⟩
  refine ⟨?_, hPrecedence.symm⟩
  rw [hText]
  exact hOperand.unary hName hApart

/-
  Every operation lays out a tree, and so do the operands of a
  membership, which a negation in front of it splits up. The
  induction is on how the operation is built.
-/
theorem IsOperation.laysOut
    (hOperation : IsOperation t)
    (hDots : DotsApart t) :
    (∃ tree, LaysOut t.written t tree) ∧
      ∀ left right,
        t = .operation "in" [left, right] →
          (∃ tree, LaysOut left.written left tree) ∧
            ∃ tree, LaysOut right.written right tree := by
  induction hOperation with
  | ofName name hName =>
      refine ⟨⟨_, laysOut_ofName
        (isVariableName_of_tokenize hName)⟩, ?_⟩
      intro left right hEq
      cases hEq
  | integer value =>
      refine ⟨⟨_, laysOut_integer value⟩, ?_⟩
      intro left right hEq
      cases hEq
  | unary name operand hName hOperand ih =>
      rcases ih (hDots.of_mem (by simp)) with
        ⟨⟨tree, hLays⟩, hParts⟩
      refine ⟨?_, ?_⟩
      · by_cases hIn : name = "not" ∧
            ∃ left right, operand = .operation "in" [left, right]
        · rcases hIn with ⟨rfl, left, right, rfl⟩
          rcases hParts left right rfl with
            ⟨⟨l, hLeft⟩, ⟨r, hRight⟩⟩
          rcases hLeft.binary (o := .notIn) hRight
              (fun hRange => absurd hRange (by decide)) with
            ⟨tree', hBinary, hRoot⟩
          exact ⟨tree', hBinary, hRoot⟩
        · refine ⟨_, hLays.unary hName ?_⟩
          intro hNot
          apply hOperand.membership?_eq_none
          intro left right hEq
          exact hIn ⟨hNot, left, right, hEq⟩
      · intro left right hEq
        cases hEq
  | binary name left right hName hLeft hRight ihl ihr =>
      rcases Option.isSome_iff_exists.mp hName with
        ⟨b, hBinding⟩
      rcases ihl (hDots.of_mem (by simp)) with ⟨⟨l, hLaysL⟩, _⟩
      rcases ihr (hDots.of_mem (by simp)) with ⟨⟨r, hLaysR⟩, _⟩
      refine ⟨?_, ?_⟩
      · have hTerm :
            (Sign.named name b hBinding).apply left right =
              .operation name [left, right] :=
          if_neg (Sign.name_ne_notIn hBinding)
        have hRange :
            name = ".." →
              (right.written.operand
                OperatorName.range.precedence false).head? ≠
                some '.' := by
          rintro rfl
          exact hDots left right (Term.mem_subterms_self _)
        rcases hLaysL.binary (o := .named name b hBinding) hLaysR
            hRange with ⟨tree, hBinary, hRoot⟩
        refine ⟨tree, ?_, ?_⟩
        · rw [Term.text_binary left right hBinding, ← hTerm]
          exact hBinary
        · rw [hRoot, Term.precedence?_operation]
          change _ = (OperatorName.binding? name).map _
          rw [hBinding]
          rfl
      · intro left' right' hEq
        cases hEq
        exact ⟨⟨l, hLaysL⟩, ⟨r, hLaysR⟩⟩

/-
  An operation that is written out and read again is the same
  term, and there is no error, unless it is nested too deeply
  or its dots run into each other.
-/
theorem quoteSource_render_operation
    (t : Term)
    (hOperation : IsOperation t)
    (hDots : DotsApart t)
    (hShallow :
      ∀ e ∈ (quoteSource .none t.render).2, ¬ e.IsTooDeep) :
    quoteSource .none t.render = (t, []) := by
  rcases (hOperation.laysOut hDots).1 with ⟨tree, hLays⟩
  exact hLays.toLays.quoteSource_render hShallow

/- A range of a sum and of a negated membership. -/
theorem quoteSource_render_operation_range :
    let t : Term :=
      .operation ".."
        [.operation "-" [.operation "-" [.ofName "a"]],
         .operation "not"
           [.operation "in" [.ofName "...", .integer 2]]]
    t.render = "-(-a)..(... not in 2)" ∧
      quoteSource .none t.render = (t, []) := by
  intro t
  have hText : t.render = "-(-a)..(... not in 2)" := by
    decide
  have hOperation : IsOperation t :=
    .binary ".." _ _ (by decide)
      (.unary "-" _ (by decide) (.unary "-" _ (by decide)
        (.ofName "a" (by decide))))
      (.unary "not" _ (by decide)
        (.binary "in" _ _ (by decide)
          (.ofName "..." (by decide)) (.integer 2)))
  refine ⟨hText, quoteSource_render_operation t hOperation ?_ ?_⟩
  · intro left right hSub
    simp [t, Term.operation, Term.ofName, Term.call, Term.nil,
      Term.subterms, Term.allSubterms] at hSub
    rw [hSub.2]
    decide
  · rw [hText]
    decide +kernel

/-
  Dots run into each other where a range ends in a variable of
  three dots.
-/
theorem quoteSource_render_dots :
    let t : Term :=
      .operation ".." [.ofName "a", .ofName "..."]
    t.render = "a....." ∧
      IsOperation t ∧
      (∀ e ∈ (quoteSource .none t.render).2, ¬ e.IsTooDeep) ∧
      (quoteSource .none t.render).2.map SourceError.message =
        ["unexpected token: '...' at line 1, column 2"] := by
  have hOperation :
      IsOperation (.operation ".." [.ofName "a", .ofName "..."]) :=
    .binary ".." _ _ (by decide)
      (.ofName "a" (by decide))
      (.ofName "..." (by decide))
  exact ⟨by decide +kernel, hOperation, by decide +kernel,
    by decide +kernel⟩

end ElixirReader
