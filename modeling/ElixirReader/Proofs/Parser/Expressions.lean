import ElixirReader.Proofs.Parser.Calls
import ElixirReader.Parser.Expression

/-
  This file shows that the parser for expressions keeps to its
  own side of delimiters, at every depth of nesting.

  Main declarations:
    * `Run.primary`
    * `Run.suffixes`
    * `Run.operand`
    * `Run.folds`
    * `Run.nested`
    * `sound_expression`
-/

namespace ElixirReader

open Parse

variable {α β : Type}
variable {h : Setting}
variable {inside : Bool}
variable {n : Nat}
variable {s s' : ParseState}
variable {expr : ExpressionParser}
variable {context : Context}
variable {l : Lexeme}
variable {ls : List Lexeme}

------------------------------------------------------------
-- Stray lexemes
------------------------------------------------------------

theorem Run.bind_unexpected
    {f g : ParseFault → Parse α}
    (hRest : s.rest = l :: ls)
    (hRun : Run h n inside (f (.unexpectedToken l.describe))
      (g (.unexpectedToken l.describe)) s) :
    Run h n inside (Parse.unexpected >>= f)
      (Parse.unexpected >>= g) s := by
  have hPlace : (h.place s).rest = l :: (ls ++ h.after) := by
    simp [Setting.place, hRest]
  have hRead :
      ∀ {s : ParseState} {ls : List Lexeme},
        s.rest = l :: ls →
          Parse.unexpected s =
            (.unexpectedToken l.describe, s) := by
    intro s ls hRest
    rw [Parse.unexpected, Parse.bind_apply, peek_of_cons hRest]
    rfl
  constructor
  · rw [Parse.bind_apply, hRead hRest]
    exact hRun.takes
  · intro hAgrees
    rw [Parse.bind_apply, hRead hRest] at hAgrees
    rw [Parse.bind_apply, Parse.bind_apply, hRead hRest,
      hRead hPlace]
    exact hRun.tracks hAgrees

theorem isBarrier_of_isBoundary
    {k : Kind}
    (hBoundary : k.isBoundary = false) :
    k.isBarrier = false ∧ k ≠ .closing .parenthesis := by
  cases k with
  | closing b => cases hBoundary
  | semicolon => cases hBoundary
  | interpolationEnd => cases hBoundary
  | word w => cases w <;> first | exact ⟨rfl, by simp⟩ | cases hBoundary
  | _ => exact ⟨rfl, by simp⟩

/-
  A lexeme that cannot stand where it does is taken, unless
  something may end there. It may open what is never closed,
  but never closes a parenthesis.
-/
theorem Takes.stray
    (n : Nat)
    (fault : ParseFault)
    (span : Span)
    (hRest : s.rest = l :: ls)
    (hBoundary : l.kind.isBoundary = false) :
    Takes n [l] s ((s.report fault span).advance 1) := by
  have hReport := Takes.report n fault span s
  have hRest' : (s.report fault span).rest = l :: ls := by
    rw [← hRest]
    exact hReport.rest.symm
  have hAdvance := Steady.advance n 1 (s.report fault span)
  rw [(ParseState.take_one hRest').1] at hAdvance
  refine ⟨hReport.toSteady.trans hAdvance, ?_⟩
  intro ds after hAfter hWithin
  have hNot := isBarrier_of_isBoundary hBoundary
  have hWithin' : Within ds after (s.report fault span) :=
    hWithin.congr hReport.rest.symm
  rcases hWithin'.take hAfter hAdvance.rest (by
      intro m hMem
      rw [List.mem_singleton] at hMem
      rw [hMem]
      exact hNot.1) with ⟨es, hBehind, hEs⟩
  refine ⟨es, hEs, ?_, ?_⟩
  · apply Nest.parentheses_le_of_behind? _ hBehind
    intro m hMem
    rw [List.mem_singleton] at hMem
    rw [hMem]
    exact hNot.2
  · intro _
    constructor
    · intro hClean
      change (s.report fault span).poisoned = false at hClean
      rw [poisoned_report] at hClean
      cases hClean
    · intro _ hClean _
      exact errors_report_ne fault span hClean

theorem Run.stray
    (fault : ParseFault)
    (hRest : s.rest = l :: ls)
    (hBoundary : l.kind.isBoundary = false) :
    Run h n inside
      (do
        let node ← Parse.errorNode fault
        Parse.skip 1
        return node)
      (do
        let node ← Parse.errorNode fault
        Parse.skip 1
        return node) s := by
  constructor
  · exact ⟨[l], Takes.stray n fault s.currentSpan hRest hBoundary⟩
  · have hReport := Takes.report n fault s.currentSpan s
    have hAdvance := Steady.advance n 1
      (s.report fault s.currentSpan)
    have hError : Run h n inside (Parse.errorNode fault)
      (Parse.errorNode fault) s := Run.errorNode fault
    apply Tracks.of_fails
    · apply (fails_errorNode fault).bind
      · exact hReport.toMoves
      · exact hAdvance.toMoves
    · intro hWhole
      have hPlace := hError.tracks (.inl hWhole)
      have hWhole' := hWhole.step hReport.toMoves
      rw [Parse.bind_apply, hPlace]
      change (_, (h.place (s.report fault
        s.currentSpan)).advance 1) = _
      rw [hWhole'.place_advance]
      rfl

theorem Run.strayOperand
    (hRest : s.rest = l :: ls) :
    Run h n inside (Parse.strayOperand l)
      (Parse.strayOperand l) s := by
  apply Run.bind_unexpected hRest
  cases hBoundary : l.kind.isBoundary with
  | true =>
      simp only [Bool.not_true]
      apply (Run.errorNode _).bind
      intro node s' _
      exact Run.pure _
  | false =>
      simp only [Bool.not_false, if_true]
      exact Run.stray _ hRest hBoundary

------------------------------------------------------------
-- Primary expressions
------------------------------------------------------------

theorem Run.single
    (form : Form Node)
    (hRest : s.rest = l :: ls)
    (hPlain : l.kind.isPlain = true) :
    Run h n inside (Parse.single form l) (Parse.single form l)
      s := by
  apply Run.bind_skip hRest hPlain
  intro s' _ _
  exact Run.pure _

theorem Run.wordOperand
    {w : Word}
    (hExpr : Sound n expr)
    (hRest : s.rest = l :: ls)
    (hKind : l.kind = .word w) :
    Run h n inside (Parse.wordOperand expr w l)
      (Parse.wordOperand expr w l) s := by
  cases w with
  | «true» => exact Run.single _ hRest (by rw [hKind]; rfl)
  | «false» => exact Run.single _ hRest (by rw [hKind]; rfl)
  | nil => exact Run.single _ hRest (by rw [hKind]; rfl)
  | fn => exact Run.fn hExpr hRest hKind
  | _ => exact Run.unexpected

theorem Run.bracketOperand
    {b : Bracket}
    (hExpr : Sound n expr)
    (hRest : s.rest = l :: ls)
    (hKind : l.kind = .opening b) :
    Run h n inside (Parse.bracketOperand expr b)
      (Parse.bracketOperand expr b) s := by
  cases b with
  | parenthesis => exact Run.parenthesized hExpr hRest hKind
  | square => exact Run.container hExpr _ hRest hKind
  | curly => exact Run.container hExpr _ hRest hKind
  | bits => exact Run.container hExpr _ hRest hKind

theorem Run.promoterOperand
    {f : Family}
    {layout : Layout}
    (hExpr : Sound n expr)
    (hRest : s.rest = l :: ls)
    (hKind : l.kind = .promoter f layout) :
    Run h n inside (Parse.promoterOperand expr context)
      (Parse.promoterOperand expr context) s := by
  apply Run.keywordAhead
  · exact fun hAhead => Run.keywords hExpr hAhead
  · intro _
    apply (Run.text hExpr hRest hKind).bind
    rintro ⟨t, span⟩ s' _
    exact Run.pure _
  · exact fun _ hClean hEnds => fails_keywords hExpr hClean hEnds

theorem Run.badCharacter
    (hRest : s.rest = l :: ls)
    (hKind : l.kind = .badCharacter) :
    Run h n inside
      (do
        Parse.skip 1
        Parse.lexicalErrorNode l)
      (do
        Parse.skip 1
        Parse.lexicalErrorNode l) s := by
  have hTake := (ParseState.take_one hRest).1
  apply Run.poison
  · intro m hMem
    rw [hTake, List.mem_singleton] at hMem
    rw [hMem, hKind]
    rfl
  · simp [hRest]
  · refine ⟨l, ?_, ?_⟩
    · rw [hTake]
      exact List.mem_singleton_self l
    · rw [hKind]
      rfl

theorem Run.primaryAt
    (hExpr : Sound n expr)
    (hRest : s.rest = l :: ls) :
    Run h n inside (Parse.primaryAt expr context l)
      (Parse.primaryAt expr context l) s := by
  unfold Parse.primaryAt
  split
  · rename_i hKind
    exact Run.badCharacter hRest hKind
  · rename_i hKind
    exact Run.wordOperand hExpr hRest hKind
  · rename_i hKind
    exact Run.single _ hRest (by rw [hKind]; rfl)
  · rename_i hKind
    apply Run.bind_skip hRest (by rw [hKind]; rfl)
    intro s' _ hBefore
    exact Run.identifier hExpr hBefore l
  · rename_i hKind
    exact Run.character hRest (by rw [hKind]; rfl)
  · rename_i hKind
    exact Run.atom hExpr hRest (by rw [hKind]; rfl)
  · rename_i hKind
    apply Run.keywords hExpr
    rw [hRest]
    simp [ElixirReader.keywordAhead, hKind]
  · rename_i hKind
    exact Run.promoterOperand hExpr hRest hKind
  · rename_i hKind
    exact Run.promoterOperand hExpr hRest hKind
  · rename_i hKind
    exact Run.sigil hExpr hRest (by rw [hKind]; rfl)
  · rename_i hKind
    exact Run.bracketOperand hExpr hRest hKind
  · rename_i hKind
    exact Run.structOrMap hExpr hRest (by rw [hKind]; rfl)
  · split
    · exact Run.number
    · exact Run.strayOperand hRest

theorem Run.primary
    (hExpr : Sound n expr) :
    Run h n inside (Parse.primary expr context)
      (Parse.primary expr context) s := by
  apply Run.bind_peek_or_fails
  · exact fun l ls hRest => Run.primaryAt hExpr hRest
  · exact fun _ => ⟨Run.errorNode _, fails_errorNode _⟩

------------------------------------------------------------
-- Suffixes
------------------------------------------------------------

theorem Setting.Sees.suffixAhead?_append
    (hSees : h.Sees inside s) :
    suffixAhead? (s.rest ++ h.after) = suffixAhead? s.rest := by
  apply hSees.append_of_head
  · exact fun _ _ _ => rfl
  · intro l ls hEnds
    rcases Kind.endsText_cases hEnds with
      hKind | hKind | hKind | hKind <;> simp [suffixAhead?, hKind]

theorem Run.withSuffix
    {kind : SuffixKind}
    (hExpr : Sound n expr)
    (hAhead : suffixAhead? s.rest = some kind)
    (node : Node) :
    Run h n inside (Parse.withSuffix expr context node kind)
      (Parse.withSuffix expr context node kind) s := by
  cases hRest : s.rest with
  | nil =>
      rw [hRest] at hAhead
      cases hAhead
  | cons l ls =>
      rw [hRest] at hAhead
      simp only [suffixAhead?] at hAhead
      split at hAhead
      · rename_i hKind
        cases hAhead
        exact Run.dotted hExpr hRest (by rw [hKind]; rfl) node
      · split at hAhead
        · rename_i hKey
          cases hAhead
          exact Run.access hExpr hRest hKey.1 node
        · cases hAhead

section Levels

variable {levels : Levels}
variable {height : Nat}

theorem Run.suffixes
    (hLevels : ∀ height, Sound n (levels height))
    (node : Node) :
    Run h n inside (Parse.suffixes levels context height node)
      (Parse.suffixes levels context height node) s := by
  induction height generalizing s node with
  | zero =>
      apply Run.bind_rest
      apply Run.of_eq _ fun hSees => by
        rw [hSees.suffixAhead?_append]
      cases suffixAhead? s.rest with
      | none => exact Run.pure _
      | some kind => exact Run.errorNode _
  | succ height ih =>
      apply Run.bind_rest
      apply Run.of_eq _ fun hSees => by
        rw [hSees.suffixAhead?_append]
      cases hAhead : suffixAhead? s.rest with
      | none => exact Run.pure _
      | some kind =>
          apply (Run.withSuffix (hLevels height) hAhead node).bind
          intro larger s' _
          exact ih larger

------------------------------------------------------------
-- Operands
------------------------------------------------------------

theorem Run.unary
    (hExpr : Sound n expr)
    (precedence : Nat)
    (hRest : s.rest = l :: ls)
    (hPlain : l.kind.isPlain = true) :
    Run h n inside (Parse.unary expr precedence context l)
      (Parse.unary expr precedence context l) s := by
  apply Run.bind_skip hRest hPlain
  intro s₁ _ _
  apply Run.bind_skipLineEnds
  · intro s₂ _
    apply (hExpr.run h inside precedence context s₂).bind
    intro operand s₃ _
    exact Run.pure _
  · intro s₂ hNil
    exact hExpr.fails precedence context s₂ hNil

theorem Run.capture
    (hExpr : Sound n expr)
    (hRest : s.rest = l :: ls)
    (hPlain : l.kind.isPlain = true) :
    Run h n inside (Parse.capture expr context l)
      (Parse.capture expr context l) s := by
  have hAhead :
      h.Sees inside s →
        captureArgumentAhead (s.rest ++ h.after).tail =
          captureArgumentAhead s.rest.tail := by
    intro hSees
    have hNext := hSees.advance_one hRest hPlain
    have hSame := hNext.captureArgumentAhead_append
    rw [(ParseState.take_one hRest).2] at hSame
    rw [hRest]
    exact hSame
  apply Run.bind_rest
  apply Run.of_eq _ fun hSees => by
    rw [hAhead hSees]
  split
  · apply Run.bind_skip hRest hPlain
    intro s' _ _
    apply Run.number.bind
    intro index s'' _
    exact Run.pure _
  · exact Run.unary hExpr _ hRest hPlain

theorem Run.moduleAttribute
    (hLevels : ∀ height, Sound n (levels height))
    (hRest : s.rest = l :: ls)
    (hPlain : l.kind.isPlain = true) :
    Run h n inside
      (Parse.moduleAttribute levels height context l)
      (Parse.moduleAttribute levels height context l) s := by
  apply Run.bind_skip hRest hPlain
  intro s₁ _ _
  apply (Run.primary (hLevels height)).bind
  intro operand s₂ _
  exact Run.suffixes hLevels _

theorem Run.suffixed
    (hLevels : ∀ height, Sound n (levels height)) :
    Run h n inside (Parse.suffixed levels height context)
      (Parse.suffixed levels height context) s := by
  apply (Run.primary (hLevels height)).bind
  intro node s' _
  exact Run.suffixes hLevels node

theorem Run.operandAt
    (hLevels : ∀ height, Sound n (levels height))
    (hRest : s.rest = l :: ls) :
    Run h n inside (Parse.operandAt levels height context l)
      (Parse.operandAt levels height context l) s := by
  have hExpr := hLevels height
  unfold Parse.operandAt
  split
  · rename_i hKind
    exact Run.unary hExpr _ hRest (by rw [hKind]; rfl)
  · rename_i hKind
    exact Run.unary hExpr _ hRest (by rw [hKind]; rfl)
  · rename_i hKind
    exact Run.unary hExpr _ hRest (by rw [hKind]; rfl)
  · rename_i hKind
    exact Run.unary hExpr _ hRest (by rw [hKind]; rfl)
  · rename_i hKind
    exact Run.capture hExpr hRest (by rw [hKind]; rfl)
  · rename_i hKind
    apply Run.bind_skip hRest (by rw [hKind]; rfl)
    intro s' _ _
    exact Run.pure _
  · rename_i hKind
    exact Run.moduleAttribute hLevels hRest (by rw [hKind]; rfl)
  · exact Run.suffixed hLevels

theorem Run.operand
    (hLevels : ∀ height, Sound n (levels height)) :
    Run h n inside (Parse.operand levels height context)
      (Parse.operand levels height context) s := by
  apply Run.bind_peek_or_fails
  · exact fun l ls hRest => Run.operandAt hLevels hRest
  · exact fun _ => ⟨Run.errorNode _, fails_errorNode _⟩

------------------------------------------------------------
-- Operators between operands
------------------------------------------------------------

/- The kinds that operators are made of, and the newlines before. -/
def Kind.isOfInfix : Kind → Bool
| endOfLine => true
| doubleColon => true
| operator _ => true
| _ => false

theorem Kind.isPlain_of_isOfInfix
    {k : Kind}
    (hInfix : k.isOfInfix = true) :
    k.isPlain = true := by
  cases k <;> first | rfl | cases hInfix

theorem isOfInfix_of_binding?
    {k : Kind}
    {binding : Binding}
    (hBinding : k.binding? = some binding) :
    k.isOfInfix = true := by
  cases k <;> first | rfl | cases hBinding

/- An operator of one lexeme. -/
theorem take_of_single?
    {i : InfixOperator}
    (ls : List Lexeme)
    (hSingle : InfixOperator.single? l = some i) :
    (∀ m ∈ (l :: ls).take i.length,
        m.kind.isOfInfix = true) ∧
      i.length ≤ (l :: ls).length := by
  rcases Option.map_eq_some_iff.mp hSingle with
    ⟨binding, hBinding, rfl⟩
  exact take_one_of_kind ls (isOfInfix_of_binding? hBinding)

theorem take_of_at?
    {newline : Bool}
    {i : InfixOperator}
    (hAt : InfixOperator.at? newline l ls = some i) :
    (∀ m ∈ (l :: ls).take i.length,
        m.kind.isOfInfix = true) ∧
      i.length ≤ (l :: ls).length := by
  unfold InfixOperator.at? at hAt
  split at hAt
  · rename_i hKind
    cases hLs : ls with
    | nil =>
        rw [hLs] at hAt
        cases hAt
    | cons m ms =>
        rw [hLs] at hAt
        simp only [InfixOperator.notIn?] at hAt
        split at hAt
        · rename_i hIn
          cases hAt
          exact take_two_of_kind ms (by rw [hKind]; rfl)
            (by rw [hIn]; rfl)
        · cases hAt
  · rename_i hKind
    cases hLs : ls with
    | nil =>
        rw [hLs] at hAt
        exact take_of_single? [] hAt
    | cons m ms =>
        rw [hLs] at hAt
        simp only [InfixOperator.slash?] at hAt
        split at hAt
        · rename_i hSlash
          cases hAt
          exact take_two_of_kind ms (by rw [hKind]; rfl)
            (by rw [hSlash.1]; rfl)
        · exact take_of_single? _ hAt
  · rename_i hKind
    cases newline with
    | true => cases hAt
    | false =>
        cases hAt
        exact take_one_of_kind ls (by rw [hKind]; rfl)
  · rename_i hKind
    cases newline with
    | true => cases hAt
    | false =>
        cases hAt
        exact take_one_of_kind ls (by rw [hKind]; rfl)
  · exact take_of_single? ls hAt

/- An operator has the span of its lexeme, or of two. -/
theorem span_cases_of_at?
    {newline : Bool}
    {i : InfixOperator}
    (hAt : InfixOperator.at? newline l ls = some i) :
    0 < i.length ∧
      (i.span = l.span ∨ ∃ m ∈ ls, i.span = l.span.merge m.span) := by
  have hSingle (hSome : InfixOperator.single? l = some i) :
      0 < i.length ∧ i.span = l.span := by
    rcases Option.map_eq_some_iff.mp hSome with ⟨_, _, rfl⟩
    exact ⟨Nat.one_pos, rfl⟩
  have hSign (hSome : InfixOperator.sign? newline l = some i) :
      0 < i.length ∧ i.span = l.span := by
    cases newline with
    | true => cases hSome
    | false =>
        cases hSome
        exact ⟨Nat.one_pos, rfl⟩
  have hPair {binding : Binding} {name : String} {m : Lexeme}
      {ms : List Lexeme} (hLs : ls = m :: ms)
      (hSome : InfixOperator.pair binding name l m = i) :
      0 < i.length ∧ ∃ m ∈ ls, i.span = l.span.merge m.span := by
    rw [← hSome, hLs]
    exact ⟨Nat.two_pos, m, List.mem_cons_self, rfl⟩
  unfold InfixOperator.at? at hAt
  split at hAt
  · cases ls with
    | nil => cases hAt
    | cons m ms =>
        simp only [InfixOperator.notIn?] at hAt
        split at hAt
        · exact (hPair rfl (Option.some.inj hAt)).imp_right .inr
        · cases hAt
  · cases ls with
    | nil => exact (hSingle hAt).imp_right .inl
    | cons m ms =>
        simp only [InfixOperator.slash?] at hAt
        split at hAt
        · exact (hPair rfl (Option.some.inj hAt)).imp_right .inr
        · exact (hSingle hAt).imp_right .inl
  · exact (hSign hAt).imp_right .inl
  · exact (hSign hAt).imp_right .inl
  · exact (hSingle hAt).imp_right .inl

/- An operator, and the newlines in front of it. -/
theorem take_of_infixAhead?
    {i : InfixOperator}
    (hAhead : infixAhead? ls = some i) :
    (∀ l ∈ ls.take i.length, l.kind.isOfInfix = true) ∧
      i.length ≤ ls.length := by
  have hLength := runLength_le_length isLineEnd ls
  unfold infixAhead? at hAhead
  simp only at hAhead
  split at hAhead
  · cases hAhead
  · rename_i l rest hDrop
    rcases Option.map_eq_some_iff.mp hAhead with ⟨j, hAt, rfl⟩
    rcases take_of_at? hAt with ⟨hPlain, hLe⟩
    have hSplit :
        ls.take (runLength isLineEnd ls) ++ (l :: rest) =
          ls := by
      rw [← hDrop, List.take_append_drop]
    constructor
    · intro m hMem
      simp only [List.take_add, List.mem_append, hDrop]
        at hMem
      rcases hMem with hFront | hBack
      · have hLineEnd : isLineEnd m.kind = true :=
          of_mem_take_runLength hFront
        rw [eq_of_beq hLineEnd]
        rfl
      · exact hPlain m hBack
    · have hLengths := congrArg List.length hSplit
      rw [List.length_append, List.length_take,
        Nat.min_eq_left hLength] at hLengths
      change runLength isLineEnd ls + j.length ≤ _
      omega

/- An operator starts at a lexeme that is taken with it. -/
theorem span_cases_of_infixAhead?
    {i : InfixOperator}
    (hAhead : infixAhead? ls = some i) :
    0 < i.length ∧
      ∃ l ∈ ls.take i.length,
        i.span = l.span ∨ ∃ m ∈ ls, i.span = l.span.merge m.span := by
  unfold infixAhead? at hAhead
  simp only at hAhead
  split at hAhead
  · cases hAhead
  · rename_i l rest hDrop
    rcases Option.map_eq_some_iff.mp hAhead with ⟨j, hAt, rfl⟩
    obtain ⟨hLength, hSpan⟩ := span_cases_of_at? hAt
    have hTaken :
        l ∈ ls.take (runLength isLineEnd ls + j.length) := by
      rw [List.take_add, hDrop, List.mem_append]
      right
      cases hCount : j.length with
      | zero => omega
      | succ n => exact List.mem_cons_self
    refine ⟨Nat.add_pos_right _ hLength, l, hTaken, ?_⟩
    apply hSpan.imp_right
    rintro ⟨m, hMem, hMerged⟩
    have hLater : m ∈ ls.drop (runLength isLineEnd ls) := by
      rw [hDrop]
      exact List.mem_cons_of_mem l hMem
    exact ⟨m, List.mem_of_mem_drop hLater, hMerged⟩

theorem Run.checkStep
    (operator : InfixOperator)
    (left right : Node) :
    Run h n inside (Parse.checkStep operator left right)
      (Parse.checkStep operator left right) s := by
  unfold Parse.checkStep
  split
  · exact Run.failure _ _ _
  · exact Run.pure _

theorem Run.joined
    (operator : InfixOperator)
    (left right : Node) :
    Run h n inside (Parse.joined operator left right)
      (Parse.joined operator left right) s := by
  apply (Run.checkStep operator left right).bind
  intro right' s' _
  exact Run.pure _

/- An operator that is taken needs an operand behind it. -/
theorem Run.bind_eatInfix
    {f g : Option InfixOperator → Parse α}
    (precedence : Nat)
    (hNone : Run h n inside (f none) (g none) s)
    (hSome : ∀ i s',
      Run h n inside (f (some i)) (g (some i)) s')
    (hFails : ∀ i s', s'.rest = [] → Fails (f (some i)) s') :
    Run h n inside (Parse.eatInfix precedence >>= f)
      (Parse.eatInfix precedence >>= g) s := by
  simp only [Parse.eatInfix, bind_assoc]
  apply Run.bind_rest
  apply Run.of_eq _ fun hSees => by
    rw [hSees.infixAhead?_append]
  cases hAhead : infixAhead? s.rest with
  | none => exact hNone
  | some i =>
      simp only
      split
      · exact hNone
      · rcases take_of_infixAhead? hAhead with
          ⟨hInfix, hLength⟩
        simp only [bind_assoc]
        apply (Run.skip (fun l hMem =>
          Kind.isPlain_of_isOfInfix (hInfix l hMem)) hLength).bind
        intro _ s₁ _
        apply Run.bind_skipLineEnds
        · exact fun s₂ _ => hSome i s₂
        · exact fun s₂ hNil => hFails i s₂ hNil

theorem Run.folds
    (hLevels : ∀ height, Sound n (levels height))
    (precedence : Nat)
    (left : Node) :
    Run h n inside
      (Parse.folds levels precedence context height left)
      (Parse.folds levels precedence context height left) s := by
  induction height generalizing s left with
  | zero =>
      apply Run.bind_eatInfix
      · exact Run.pure _
      · intro i s₁
        apply (Run.errorNode _).bind
        intro right s₂ _
        exact Run.joined i left right
      · intro i s₁ _
        have hTakes := Takes.report n .tooDeeplyNested
          s₁.currentSpan s₁
        have hJoined : Run Setting.any n true
            (Parse.joined i left (tooDeep s₁).1)
            (Parse.joined i left (tooDeep s₁).1) (tooDeep s₁).2 :=
          Run.joined _ _ _
        rcases hJoined.takes with ⟨taken, hTakes'⟩
        exact (fails_errorNode _).bind hTakes.toMoves
          hTakes'.toMoves
  | succ height ih =>
      have hBehind : ∀ i right s',
          Run h n inside
            (do
              let larger ← Parse.joined i left right
              Parse.folds levels precedence context height larger)
            (do
              let larger ← Parse.joined i left right
              Parse.folds levels precedence context height larger)
            s' := by
        intro i right s'
        apply (Run.joined i left right).bind
        intro larger s₃ _
        exact ih larger
      apply Run.bind_eatInfix
      · exact Run.pure _
      · intro i s₁
        apply ((hLevels height).run h inside _ context s₁).bind
        intro right s₂ _
        exact hBehind i right s₂
      · intro i s₁ hNil
        have hFails := (hLevels height).fails
          i.binding.rightPrecedence context s₁ hNil
        rcases (hLevels height).takes i.binding.rightPrecedence
          context s₁ with ⟨taken, hTakes⟩
        rcases (hBehind i _ _).takes with ⟨taken', hTakes'⟩
        exact hFails.bind hTakes.toMoves hTakes'.toMoves

------------------------------------------------------------
-- Nested expressions
------------------------------------------------------------

theorem Moves.nested
    {taken : List Lexeme}
    (hMoves : Moves n taken s.enter s') :
    Moves (n + 1) taken s s'.leave := by
  have hActive : s'.active = s.active + 1 := hMoves.active
  refine ⟨hMoves.rest, hMoves.last, hMoves.before,
    hMoves.errors, ?_, hMoves.cutShort, hMoves.halted, ?_⟩
  · change s'.active - 1 = s.active
    omega
  · have hDeep := hMoves.deepest
    change s'.deepest ≤ max (max s.deepest (s.active + 1))
      (s.active + 1 + n) at hDeep
    change s'.deepest ≤ _
    omega

theorem Takes.nested
    {taken : List Lexeme}
    (hTakes : Takes n taken s.enter s') :
    Takes (n + 1) taken s s'.leave :=
  ⟨⟨hTakes.toMoves.nested, hTakes.poisoned, hTakes.budget⟩,
    hTakes.within⟩

theorem Setting.Agrees.nested
    (hAgrees : h.Agrees inside s s'.leave) :
    h.Agrees inside s.enter s' := by
  rcases hAgrees with
    hWhole | ⟨⟨ds, after, hFits, hIsCode⟩, hErrors⟩
  · exact .inl hWhole
  · exact .inr ⟨⟨ds, after, ⟨hFits.bounds, hFits.within,
      hFits.poisoned, hFits.faultless⟩, hIsCode⟩, hErrors⟩

theorem Run.nested
    {p q : Parse α}
    (hRun : Run h n inside p q s.enter) :
    Run h (n + 1) inside (Parse.nested p) (Parse.nested q)
      s := by
  rcases hRun.takes with ⟨taken, hTakes⟩
  constructor
  · exact ⟨taken, hTakes.nested⟩
  · intro hAgrees
    have hPlace : (h.place s).enter = h.place s.enter := by
      simp only [Setting.place, ParseState.enter,
        ParseState.mk.injEq, and_true, true_and]
      omega
    have hActive : (p s.enter).2.active = s.active + 1 :=
      hTakes.active
    have hLeave :
        (h.place (p s.enter).2).leave =
          h.place (p s.enter).2.leave := by
      simp only [Setting.place, ParseState.leave,
        ParseState.mk.injEq, and_true, true_and, hActive]
      omega
    have hTracks := hRun.tracks hAgrees.nested
    change ((q (h.place s).enter).1, (q (h.place s).enter).2.leave)
      = _
    rw [hPlace, hTracks, hLeave]
    rfl

theorem Run.expressionOver
    (hLevels : ∀ height, Sound n (levels height))
    (precedence : Nat) :
    Run h (n + 1) inside
      (Parse.expressionOver levels height precedence context)
      (Parse.expressionOver levels height precedence context)
      s := by
  cases height with
  | zero => exact Run.errorNode _
  | succ height =>
      apply Run.nested
      apply (Run.operand hLevels).bind
      intro left s' _
      exact Run.folds hLevels precedence left

theorem fails_expressionOver
    (hLevels : ∀ height, Sound n (levels height))
    (precedence : Nat)
    (hRest : s.rest = []) :
    Fails (expressionOver levels height precedence context)
      s := by
  cases height with
  | zero => exact fails_errorNode _
  | succ height =>
      have hOperand :
          Run .any n false (operand levels height context)
            (operand levels height context) s.enter :=
        Run.operand hLevels
      have hFolds :
          ∀ left s',
            Run .any n false
              (folds levels precedence context height left)
              (folds levels precedence context height left) s' :=
        fun left s' => Run.folds hLevels precedence left
      have hEmpty :
          operand levels height context s.enter =
            errorNode .unexpectedEnd s.enter := by
        have hEnd : s.enter.rest = [] := hRest
        rw [operand, Parse.bind_apply, peek_of_nil hEnd]
      have hFails :
          Fails (operand levels height context) s.enter := by
        intro hClean
        rw [hEmpty]
        exact fails_errorNode _ hClean
      rcases hOperand.takes with ⟨taken, hTaken⟩
      rcases (hFolds _ _).takes with ⟨taken', hTaken'⟩
      exact hFails.bind hTaken.toMoves hTaken'.toMoves

end Levels

/-
  At any depth the parser keeps to its own side of delimiters,
  and finds an error where nothing is left.
-/
theorem sound_expression
    (n height : Nat) :
    Sound n (expression n height) := by
  induction n generalizing height with
  | zero =>
      constructor
      · intro h inside precedence context s
        exact Run.errorNode _
      · intro precedence context s _
        exact fails_errorNode _
  | succ n ih =>
      constructor
      · intro h inside precedence context s
        exact Run.expressionOver ih precedence
      · intro precedence context s hRest
        exact fails_expressionOver ih precedence hRest

end ElixirReader
