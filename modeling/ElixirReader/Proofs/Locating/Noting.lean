import ElixirReader.Proofs.Building.Parts

/-
  This file sets up how spans are followed through the parser.
  All spans in a tree, and those of all errors, have a property
  that the spans of lexemes have and that lasts when spans are
  merged. Errors are noted one behind the other, unless they
  look back to where something was opened or joined.

  Key definitions include:
    * `Form.marks`
    * `Located`
    * `ParseFault.looksBack`
    * `ParseState.front`
    * `ParseState.Admits`
    * `InOrder`
    * `Locates`

  Main declarations:
    * `Locates.bind`
    * `Locates.failure`
    * `Locates.expect`
    * `Locates.close`
    * `Locates.statementList`
-/

namespace ElixirReader

open Parse

variable {α β : Type}
variable {P : Span → Prop}

------------------------------------------------------------
-- Spans in a tree
------------------------------------------------------------

/- The spans of the dot and of the name in front of arguments. -/
def Target.marks : Target ν → List Span
| .bare _ => []
| .remote _ _ dot nameSpan => [dot, nameSpan]
| .anonymous _ dot => [dot]

/- The spans of the arrows between heads and bodies. -/
def Body.marks : Body ν → List Span
| .expressions _ => []
| .clauses cs => cs.map Clause.arrow

/- The span of a do block, and those of the arrows in it. -/
def DoBlock.marks
    (b : DoBlock ν) : List Span :=
  b.span :: b.sections.flatMap fun s => s.body.marks

/- The spans that a form has besides those of the nodes below. -/
def Form.marks : Form ν → List Span
| .call target _ _ doBlock =>
    target.marks ++ doBlock.toList.flatMap DoBlock.marks
| .binary _ _ _ operatorSpan => [operatorSpan]
| .fn clauses => clauses.map Clause.arrow
| _ => []

/- The spans that a node has, but for those of the nodes below. -/
def Node.marks
    (n : Node) : List Span :=
  n.span :: n.form.marks

/- A property of all spans that a node itself has. -/
def Node.IsAt
    (P : Span → Prop)
    (n : Node) : Prop :=
  ∀ x ∈ n.marks, P x

/- A property of all spans in a tree. -/
abbrev Located
    (P : Span → Prop) : Node → Prop :=
  Node.Throughout (Node.IsAt P)

/- A property of all spans in some trees. -/
abbrev AllLocated
    (P : Span → Prop) : List Node → Prop :=
  AllThroughout (Node.IsAt P)

theorem located_iff
    {f : Form Node}
    {span : Span} :
    Located P ⟨f, span⟩ ↔
      P span ∧ (∀ x ∈ f.marks, P x) ∧ AllLocated P f.nodes := by
  rw [Located, Node.throughout_iff]
  change (∀ x ∈ span :: f.marks, P x) ∧ AllLocated P f.nodes ↔ _
  rw [List.forall_mem_cons, and_assoc]

/- A tree without any more spans at its root. -/
theorem Located.mk
    {f : Form Node}
    {span : Span}
    (hSpan : P span)
    (hMarks : f.marks = [])
    (hNodes : AllLocated P f.nodes) :
    Located P ⟨f, span⟩ :=
  located_iff.mpr ⟨hSpan, by simp [hMarks], hNodes⟩

theorem Located.span
    {n : Node}
    (hLocated : Located P n) :
    P n.span :=
  (Node.throughout_iff.mp hLocated).1 _ List.mem_cons_self

theorem located_failure
    {span : Span}
    (message : String)
    (hSpan : P span) :
    Located P (Node.failure message span) :=
  .mk hSpan rfl allThroughout_nil

/- A property that lasts when spans are merged. -/
class Merges
    (P : Span → Prop) : Prop where
  merge : ∀ {x y : Span}, P x → P y → P (x.merge y)

------------------------------------------------------------
-- States
------------------------------------------------------------

/-
  The faults that are noted where something was opened, or
  joined to what is on its left, and not where the parser is.
-/
def ParseFault.looksBack : ParseFault → Bool
| .missingTerminator _ _ => true
| .expected .arrowInFn _ => true
| .expected .rangeBeforeStep _ => true
| .expected .plainFunctionName _ => true
| _ => false

/- An error is not noted behind a later one, or it looks back. -/
def ParseError.IsBefore
    (e e' : ParseError) : Prop :=
  e.span.start ≤ e'.span.start ∨ e'.fault.looksBack = true

namespace ParseState

/- Where the next lexeme starts, or the last one at the end. -/
def front
    (s : ParseState) : Nat :=
  s.currentSpan.start

/- A span has been come to, and no error is noted behind it. -/
def Admits
    (s : ParseState)
    (x : Span) : Prop :=
  x.start ≤ s.front ∧
    (s.poisoned = true ∨ ∀ e ∈ s.errors, e.span.start ≤ x.start)

end ParseState

/-
  The spans of the lexemes that are left are in order, and the
  errors that were noted are where they may be.
-/
structure InOrder
    (P : Span → Prop)
    (s : ParseState) : Prop where
  rest : ∀ l ∈ s.rest, P l.span
  before : ∀ x ∈ s.before, P x
  last : P s.last
  sorted :
    s.rest.Pairwise fun l l' => l.span.start ≤ l'.span.start
  le_last : ∀ l ∈ s.rest, l.span.start ≤ s.last.start
  ordered : s.errors.Pairwise ParseError.IsBefore
  noted : ∀ e ∈ s.errors, P e.span ∧ e.span.start ≤ s.front

variable {s s' : ParseState}
variable {l : Lexeme}
variable {ls : List Lexeme}

theorem ParseState.front_of_head?
    (hHead : s.rest.head? = some l) :
    s.front = l.span.start := by
  simp [front, currentSpan, hHead]

namespace InOrder

theorem currentSpan
    (hOrder : InOrder P s) :
    P s.currentSpan := by
  unfold ParseState.currentSpan
  cases hHead : s.rest.head? with
  | none => exact hOrder.last
  | some l => exact hOrder.rest l (List.mem_of_head? hHead)

theorem previousSpan
    (hOrder : InOrder P s) :
    P s.previousSpan := by
  unfold ParseState.previousSpan
  cases hBefore : s.before with
  | none => exact hOrder.currentSpan
  | some x => exact hOrder.before x hBefore

/- The place of the next lexeme may get an error. -/
theorem admits_currentSpan
    (hOrder : InOrder P s) :
    s.Admits s.currentSpan :=
  ⟨Nat.le_refl _, .inr fun e he => (hOrder.noted e he).2⟩

/- Lexemes that are taken are not behind what comes next. -/
theorem le_front_advance
    {k : Nat}
    (hOrder : InOrder P s)
    (hTaken : l ∈ s.rest.take k) :
    l.span.start ≤ (s.advance k).front := by
  unfold ParseState.front ParseState.currentSpan ParseState.advance
  cases hHead : (s.rest.drop k).head? with
  | none => exact hOrder.le_last l (List.mem_of_mem_take hTaken)
  | some m =>
      have hSorted := hOrder.sorted
      rw [← List.take_append_drop k s.rest, List.pairwise_append]
        at hSorted
      exact hSorted.2.2 l hTaken m (List.mem_of_head? hHead)

theorem front_le_advance
    (k : Nat)
    (hOrder : InOrder P s) :
    s.front ≤ (s.advance k).front := by
  cases k with
  | zero => exact Nat.le_refl _
  | succ k =>
      cases hRest : s.rest with
      | nil =>
          simp [ParseState.front, ParseState.currentSpan,
            ParseState.advance, hRest]
      | cons l ls =>
          rw [ParseState.front_of_head? (l := l) (by rw [hRest]; rfl)]
          apply hOrder.le_front_advance
          rw [hRest]
          exact List.mem_cons_self

/- Lexemes may be taken. -/
theorem advance
    (k : Nat)
    (hOrder : InOrder P s) :
    InOrder P (s.advance k) := by
  have hDrop := List.drop_sublist k s.rest
  refine ⟨fun l hl => hOrder.rest l (hDrop.subset hl), ?_,
    hOrder.last, hOrder.sorted.sublist hDrop,
    fun l hl => hOrder.le_last l (hDrop.subset hl), hOrder.ordered, ?_⟩
  · intro x hx
    change ((s.rest.take k).getLast?.map Lexeme.span).or s.before =
      some x at hx
    cases hLast : (s.rest.take k).getLast? with
    | none =>
        rw [hLast] at hx
        exact hOrder.before x hx
    | some l =>
        rw [hLast] at hx
        cases hx
        exact hOrder.rest l
          (List.mem_of_mem_take (List.mem_of_getLast? hLast))
  · intro e he
    have hNoted := hOrder.noted e he
    exact ⟨hNoted.1, Nat.le_trans hNoted.2 (hOrder.front_le_advance k)⟩

/- An error may be noted where one is admitted, or looking back. -/
theorem report
    {fault : ParseFault}
    {span : Span}
    (hOrder : InOrder P s)
    (hSpan : P span)
    (hAdmits : s.Admits span ∨
      fault.looksBack = true ∧ span.start ≤ s.front) :
    InOrder P (s.report fault span) := by
  unfold ParseState.report
  split
  · exact hOrder
  · rename_i hClean
    refine ⟨hOrder.rest, hOrder.before, hOrder.last, hOrder.sorted,
      hOrder.le_last, ?_, ?_⟩
    · refine List.pairwise_append.mpr
        ⟨hOrder.ordered, List.pairwise_singleton _ _, ?_⟩
      intro e he e' he'
      rw [List.mem_singleton.mp he']
      rcases hAdmits with ⟨-, hPoisoned | hBehind⟩ | ⟨hBack, -⟩
      · exact absurd hPoisoned hClean
      · exact .inl (hBehind e he)
      · exact .inr hBack
    · intro e he
      rcases List.mem_append.mp he with hOld | hNew
      · exact hOrder.noted e hOld
      · rw [List.mem_singleton.mp hNew]
        exact ⟨hSpan, hAdmits.elim (·.1) (·.2)⟩

end InOrder

theorem ParseState.front_report
    (s : ParseState)
    (fault : ParseFault)
    (span : Span) :
    (s.report fault span).front = s.front := by
  unfold report
  split <;> rfl

theorem ParseState.poisoned_report
    (s : ParseState)
    (fault : ParseFault)
    (span : Span) :
    (s.report fault span).poisoned = true := by
  unfold report
  split
  · assumption
  · rfl

theorem ParseState.Admits.advance
    {x : Span}
    (k : Nat)
    (hOrder : InOrder P s)
    (hAdmits : s.Admits x) :
    (s.advance k).Admits x :=
  ⟨Nat.le_trans hAdmits.1 (hOrder.front_le_advance k), hAdmits.2⟩

------------------------------------------------------------
-- Parts of the parser
------------------------------------------------------------

/-
  A part keeps spans and errors where they are to be, and `Q`
  tells about what it gives and the state behind it.
-/
def Locates
    (P : Span → Prop)
    (Q : α → ParseState → Prop)
    (p : Parse α)
    (s : ParseState) : Prop :=
  InOrder P s →
    InOrder P (p s).2 ∧ s.front ≤ (p s).2.front ∧ Q (p s).1 (p s).2

/- Nothing is told about what a part gives. -/
def whatever
    (_ : α)
    (_ : ParseState) : Prop :=
  True

/- The trees in what a part gives are located. -/
def located
    (P : Span → Prop)
    (view : α → List Node)
    (a : α)
    (_ : ParseState) : Prop :=
  AllLocated P (view a)

/- A lexeme that was taken and may get an error. -/
def IsAdmitted
    (P : Span → Prop)
    (l : Lexeme)
    (s : ParseState) : Prop :=
  P l.span ∧ s.Admits l.span

/- A lexeme that was taken, or what stands in for it. -/
def TakenOrError
    (P : Span → Prop) : Except Node Lexeme → ParseState → Prop
| .ok l, s => IsAdmitted P l s
| .error e, s => Located P e ∧ s.Admits e.span

namespace Locates

variable {Q Q' : α → ParseState → Prop}
variable {R : β → ParseState → Prop}
variable {p q : Parse α}
variable {f : α → Parse β}

theorem of_eq
    (hLocates : Locates P Q q s)
    (hEq : p s = q s) :
    Locates P Q p s := by
  unfold Locates
  rw [hEq]
  exact hLocates

/- What is known of the state may be asked for. -/
theorem of_inOrder
    (hLocates : InOrder P s → Locates P Q p s) :
    Locates P Q p s :=
  fun hOrder => hLocates hOrder hOrder

theorem pure
    {a : α}
    (hA : Q a s) :
    Locates P Q (Pure.pure a) s :=
  fun hOrder => ⟨hOrder, Nat.le_refl _, hA⟩

theorem mono
    (hLocates : Locates P Q p s)
    (hMono : ∀ a s', Q a s' → Q' a s') :
    Locates P Q' p s := by
  intro hOrder
  obtain ⟨hOrder', hFront, hA⟩ := hLocates hOrder
  exact ⟨hOrder', hFront, hMono _ _ hA⟩

/- One part behind another. -/
theorem bind
    (hFirst : Locates P Q p s)
    (hSecond : ∀ a s', s.front ≤ s'.front → Q a s' →
      Locates P R (f a) s') :
    Locates P R (p >>= f) s := by
  intro hOrder
  obtain ⟨hOrder', hFront, hA⟩ := hFirst hOrder
  obtain ⟨hOrder'', hFront', hB⟩ := hSecond _ _ hFront hA hOrder'
  exact ⟨hOrder'', Nat.le_trans hFront hFront', hB⟩

------------------------------------------------------------
-- Looking ahead
------------------------------------------------------------

theorem bind_rest
    {f : List Lexeme → Parse β}
    (hF : Locates P R (f s.rest) s) :
    Locates P R (Parse.rest >>= f) s :=
  hF.of_eq rfl

/- The next lexeme, if there is one. -/
theorem bind_peek
    {f : Option Lexeme → Parse β}
    (hNone : Locates P R (f none) s)
    (hSome : ∀ l, P l.span → s.Admits l.span →
      s.rest.head? = some l → Locates P R (f (some l)) s) :
    Locates P R (Parse.peek >>= f) s := by
  apply of_inOrder
  intro hOrder
  refine of_eq (q := f s.rest.head?) ?_ rfl
  cases hHead : s.rest.head? with
  | none => exact hNone
  | some l =>
      have hSpan : s.currentSpan = l.span := by
        simp [ParseState.currentSpan, hHead]
      exact hSome l (hSpan ▸ hOrder.currentSpan)
        (hSpan ▸ hOrder.admits_currentSpan) hHead

/- What comes next may not matter. -/
theorem bind_peek_any
    {f : Option Lexeme → Parse β}
    (hF : ∀ next, Locates P R (f next) s) :
    Locates P R (Parse.peek >>= f) s :=
  (hF _).of_eq rfl

theorem bind_isAt
    {f : Bool → Parse β}
    (kind : Kind)
    (hF : ∀ b, Locates P R (f b) s) :
    Locates P R (Parse.isAt kind >>= f) s :=
  (hF _).of_eq rfl

theorem bind_currentSpan
    {f : Span → Parse β}
    (hF : P s.currentSpan → s.Admits s.currentSpan →
      Locates P R (f s.currentSpan) s) :
    Locates P R (Parse.currentSpan >>= f) s :=
  of_inOrder fun hOrder =>
    (hF hOrder.currentSpan hOrder.admits_currentSpan).of_eq rfl

theorem bind_previousSpan
    {f : Span → Parse β}
    (hF : ∀ x, P x → Locates P R (f x) s) :
    Locates P R (Parse.previousSpan >>= f) s :=
  of_inOrder fun hOrder => (hF _ hOrder.previousSpan).of_eq rfl

theorem bind_found
    {f : Option String → Parse β}
    (hF : ∀ found, Locates P R (f found) s) :
    Locates P R (Parse.found >>= f) s :=
  (hF _).of_eq rfl

------------------------------------------------------------
-- Taking lexemes
------------------------------------------------------------

theorem skip
    (k : Nat) :
    Locates P whatever (Parse.skip k) s :=
  fun hOrder => ⟨hOrder.advance k, hOrder.front_le_advance k, trivial⟩

/- Lexemes are taken, and nothing else changes. -/
theorem bind_skip
    {f : Unit → Parse β}
    (k : Nat)
    (hF : ∀ s', s.front ≤ s'.front →
      (∀ x, s.Admits x → s'.Admits x) → Locates P R (f ()) s') :
    Locates P R (Parse.skip k >>= f) s := by
  intro hOrder
  have hFront := hOrder.front_le_advance k
  obtain ⟨hOrder', hFront', hB⟩ := hF (s.advance k) hFront
    (fun x hAdmits => hAdmits.advance k hOrder) (hOrder.advance k)
  exact ⟨hOrder', Nat.le_trans hFront hFront', hB⟩

theorem skipLineEnds :
    Locates P whatever Parse.skipLineEnds s :=
  bind_rest (skip _)

theorem skipSeparators :
    Locates P whatever Parse.skipSeparators s :=
  bind_rest (skip _)

theorem eat
    (kind : Kind) :
    Locates P (fun found s' => ∀ l ∈ found, IsAdmitted P l s')
      (Parse.eat kind) s := by
  apply bind_peek
  · exact pure (by simp)
  · intro l hSpan hAdmits _
    dsimp only
    split
    · apply bind_skip
      intro s' _ hStill
      apply pure
      intro m hM
      cases hM
      exact ⟨hSpan, hStill _ hAdmits⟩
    · exact pure (by simp)

------------------------------------------------------------
-- Noting errors
------------------------------------------------------------

/- A change of the state that leaves all spans as they are. -/
theorem of_modify
    {g : ParseState → ParseState}
    (hRest : (g s).rest = s.rest)
    (hBefore : (g s).before = s.before)
    (hLast : (g s).last = s.last)
    (hErrors : (g s).errors = s.errors) :
    Locates P whatever (modify g : Parse Unit) s := by
  intro hOrder
  have hFront : (g s).front = s.front := by
    unfold ParseState.front ParseState.currentSpan
    rw [hRest, hLast]
  refine ⟨?_, Nat.le_of_eq hFront.symm, trivial⟩
  change InOrder P (g s)
  constructor <;> simp only [hRest, hBefore, hLast, hErrors, hFront]
  · exact hOrder.rest
  · exact hOrder.before
  · exact hOrder.last
  · exact hOrder.sorted
  · exact hOrder.le_last
  · exact hOrder.ordered
  · exact hOrder.noted

theorem cutOff :
    Locates P whatever Parse.cutOff s :=
  of_modify rfl rfl rfl rfl

theorem poison :
    Locates P whatever Parse.poison s :=
  of_modify rfl rfl rfl rfl

theorem report
    (fault : ParseFault)
    {span : Span}
    (hSpan : P span)
    (hAdmits : s.Admits span) :
    Locates P whatever (Parse.report fault span) s := by
  intro hOrder
  refine ⟨hOrder.report hSpan (.inl hAdmits), ?_, trivial⟩
  exact Nat.le_of_eq (ParseState.front_report s fault span).symm

/- What stands in for what is faulty. -/
theorem failure
    {fault : ParseFault}
    {errorSpan nodeSpan : Span}
    (hError : P errorSpan)
    (hNode : P nodeSpan)
    (hAdmits : s.Admits errorSpan ∨
      fault.looksBack = true ∧ errorSpan.start ≤ s.front) :
    Locates P
      (fun e s' => Located P e ∧ e.span = nodeSpan ∧
        s'.poisoned = true ∧ s'.front = s.front)
      (Parse.failure fault errorSpan nodeSpan) s := by
  intro hOrder
  have hFront := ParseState.front_report s fault errorSpan
  exact ⟨hOrder.report hError hAdmits, Nat.le_of_eq hFront.symm,
    located_failure _ hNode, rfl,
    ParseState.poisoned_report s fault errorSpan, hFront⟩

/- One at the next lexeme. -/
theorem errorNode
    (fault : ParseFault) :
    Locates P (fun e s' => Located P e ∧ s'.Admits e.span)
      (Parse.errorNode fault) s := by
  apply bind_currentSpan
  intro hSpan hAdmits
  apply (failure hSpan hSpan (.inl hAdmits)).mono
  rintro e s' ⟨hLocated, hEq, hPoisoned, hFront⟩
  refine ⟨hLocated, ?_, .inl hPoisoned⟩
  rw [hEq, hFront]
  exact hAdmits.1

theorem wantedNode
    (wanted : Wanted) :
    Locates P (fun e s' => Located P e ∧ s'.Admits e.span)
      (Parse.wantedNode wanted) s :=
  bind_found fun _ => errorNode _

theorem expect
    (kind : Kind)
    (wanted : Wanted) :
    Locates P (TakenOrError P) (Parse.expect kind wanted) s := by
  apply (eat kind).bind
  intro found s₁ _ hFound
  cases found with
  | some l => exact pure (hFound l rfl)
  | none =>
      apply (wantedNode wanted).bind
      intro e s₂ _ hE
      exact pure hE

/- At the end of the source the complaint is about the opening. -/
theorem expectClosing
    (closer : Closer)
    {opened : Span}
    (hOpened : P opened)
    (hStart : opened.start ≤ s.front) :
    Locates P (TakenOrError P) (Parse.expectClosing closer opened)
      s := by
  apply skipLineEnds.bind
  intro _ s₁ hFront _
  apply bind_peek
  · have hLe := Nat.le_trans hStart hFront
    apply (failure hOpened hOpened (.inr ⟨rfl, hLe⟩)).bind
    rintro e s₂ _ ⟨hLocated, hEq, hPoisoned, hSame⟩
    refine pure ⟨hLocated, ?_, .inl hPoisoned⟩
    rw [hEq, hSame]
    exact hLe
  · intro l _ _ _
    exact expect _ _

/- What is closed, and the span from its opening on. -/
theorem close
    [Merges P]
    (closer : Closer)
    {opened : Span}
    {items : List Node}
    (hOpened : P opened)
    (hStart : opened.start ≤ s.front)
    (hItems : AllLocated P items) :
    Locates P (fun r _ => AllLocated P r.1 ∧ P r.2)
      (Parse.close closer opened items) s := by
  apply (expectClosing closer hOpened hStart).bind
  rintro (e | l) s₁ _ hFound
  · apply bind_previousSpan
    intro x hX
    exact pure ⟨by simpa [hItems] using hFound.1,
      Merges.merge hOpened hX⟩
  · exact pure ⟨hItems, Merges.merge hOpened hFound.1⟩

------------------------------------------------------------
-- Parts of the state
------------------------------------------------------------

theorem nested
    {Q : α → Prop}
    (hLocates : ∀ s, Locates P (fun a _ => Q a) p s) :
    Locates P (fun a _ => Q a) (Parse.nested p) s := by
  apply (of_modify (g := (·.enter)) rfl rfl rfl rfl).bind
  intro _ s₁ _ _
  apply (hLocates s₁).bind
  intro a s₂ _ hA
  apply (of_modify (g := (·.leave)) rfl rfl rfl rfl).bind
  intro _ s₃ _ _
  exact pure hA

theorem isolated
    {Q : α → Prop}
    (hLocates : ∀ s, Locates P (fun a _ => Q a) p s) :
    Locates P (fun a _ => Q a) (Parse.isolated p) s := by
  refine of_eq (q := do
    modify fun s => { s with poisoned := false }
    let a ← p
    modify fun s' => { s' with poisoned := s.poisoned }
    return a) ?_ rfl
  apply (of_modify rfl rfl rfl rfl).bind
  intro _ s₁ _ _
  apply (hLocates s₁).bind
  intro a s₂ _ hA
  apply (of_modify rfl rfl rfl rfl).bind
  intro _ s₃ _ _
  exact pure hA

------------------------------------------------------------
-- Statements
------------------------------------------------------------

variable {expr : ExpressionParser}
variable {stop : Kind → Bool}
variable {start : List Lexeme}

theorem recover :
    Locates P whatever (Parse.recover stop start) s := by
  cases hPoisoned : s.poisoned with
  | false =>
      apply of_eq (q := Pure.pure ()) (pure trivial)
      change (if s.poisoned = true then _ else _ : Parse Unit) s = _
      rw [hPoisoned]
      rfl
  | true =>
      apply of_eq (q := do
        synchronize stop start
        modify fun s => { s with poisoned := false })
      · apply Locates.bind (Q := whatever) (bind_rest (skip _))
        intro _ s₁ _ _
        exact of_modify rfl rfl rfl rfl
      · change (if s.poisoned = true then _ else _ : Parse Unit) s = _
        rw [hPoisoned]
        rfl

theorem finishStatement :
    Locates P (located P Option.toList)
      (Parse.finishStatement stop start) s := by
  have hBoundary :
      Locates P (located P Option.toList) (boundaryError? stop) s := by
    apply bind_peek
    · exact pure allThroughout_nil
    · intro l hSpan hAdmits _
      refine of_eq (q :=
        if isSeparator l.kind || stop l.kind || s.poisoned then
          return none
        else
          return some (← Parse.failure (.unexpectedToken l.describe)
            l.span l.span)) ?_ rfl
      split
      · exact pure allThroughout_nil
      · apply (failure hSpan hSpan (.inl hAdmits)).bind
        intro e s₁ _ hE
        exact pure (by simp [located, hE.1])
  apply hBoundary.bind
  intro trailing s₁ _ hTrailing
  apply recover.bind
  intro _ s₂ _ _
  apply Locates.bind (Q := whatever) (p := ensureProgress stop start)
  · apply bind_rest
    split
    · exact skip 1
    · exact pure trivial
  · intro _ s₃ _ _
    exact pure hTrailing

theorem withTrailing
    [Merges P]
    {statement : Node}
    {e : Option Node}
    (hStatement : Located P statement)
    (hE : AllLocated P e.toList) :
    Located P (Parse.withTrailing statement e) := by
  cases e with
  | none => exact hStatement
  | some e =>
      have hLocated : Located P e := by simpa using hE
      exact .mk (Merges.merge hStatement.span hLocated.span) rfl
        (by simp [Form.nodes, hStatement, hLocated])

variable [Merges P]
variable (hExpr : ∀ precedence context s,
  Locates P (fun n _ => Located P n) (expr precedence context) s)

include hExpr

theorem statement :
    Locates P (fun n _ => Located P n) (Parse.statement expr stop)
      s := by
  apply bind_rest
  apply (hExpr _ _ _).bind
  intro node s₁ _ hNode
  apply finishStatement.bind
  intro e s₂ _ hE
  exact pure (withTrailing hNode hE)

theorem statementsFor
    (n : Nat)
    (s : ParseState) :
    Locates P (fun ns _ => AllLocated P ns)
      (Parse.statementsFor expr stop n) s := by
  induction n generalizing s with
  | zero =>
      apply cutOff.bind
      intro _ s₁ _ _
      exact pure allThroughout_nil
  | succ n ih =>
      apply skipSeparators.bind
      intro _ s₁ _ _
      apply bind_peek
      · exact pure allThroughout_nil
      · intro l _ _ _
        split
        · exact pure allThroughout_nil
        · apply (statement hExpr).bind
          intro node s₂ _ hNode
          apply (ih s₂).bind
          intro nodes s₃ _ hNodes
          exact pure ((allThroughout_cons _ _).mpr ⟨hNode, hNodes⟩)

theorem statementList :
    Locates P (fun ns _ => AllLocated P ns)
      (Parse.statements expr stop) s :=
  bind_rest (isolated (statementsFor hExpr _))

end Locates

end ElixirReader
