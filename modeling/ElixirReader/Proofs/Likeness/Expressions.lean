import ElixirReader.Proofs.Errors.Expressions
import ElixirReader.Proofs.Likeness.Calls

/-
  This file lets two runs go side by side through expressions,
  at whichever depth each of them is, and so through the
  statements of whole texts.

  Key definitions include:
    * `LevelsMirrored`

  Main declarations:
    * `Mirrors.primary`
    * `Mirrors.operand`
    * `Mirrors.folds`
    * `mirrored_expression`
-/

namespace ElixirReader

open Parse
open Placed (unplaced)

variable {α β : Type}
variable {deep : Bool}
variable {k m : Nat}
variable {ds : Nest}
variable {l l' : Lexeme}
variable {ls ls' : List Lexeme}
variable {place : List Lexeme → List Lexeme → Prop}
variable {s s' : ParseState}
variable {b : Bracket}
variable {context : Context}

namespace Mirrors

------------------------------------------------------------
-- Stray lexemes
------------------------------------------------------------

/- The first run complains about what cannot stand there. -/
theorem unexpected
    {post : Post α}
    {f : ParseFault → Parse α}
    {q : Parse α}
    (hPaired : Paired ds place s s')
    (hFails : ∀ fault, Fails (f fault) s) :
    Mirrors deep post (Parse.unexpected >>= f) q s s' := by
  rcases unexpected_apply s with ⟨fault, hEq⟩
  apply of_fails hPaired
  intro hClean
  rw [Parse.bind_apply, hEq]
  exact hFails fault hClean

theorem strayOperand
    {post : Post Node}
    {q : Parse Node}
    (l : Lexeme)
    (hPaired : Paired ds place s s') :
    Mirrors deep post (Parse.strayOperand l) q s s' := by
  apply unexpected hPaired
  intro fault hClean
  have hError := fails_errorNode fault (s := s) hClean
  cases hKind : l.kind.isBoundary with
  | true => exact hError
  | false => exact hError

theorem single
    {form form' : Form Node}
    (hPaired : Paired ds Heads s s')
    (hCode : ds.isCode = true)
    (hRest : s.rest = l :: ls)
    (hKind : l.kind.isOfStatements = true)
    (hAdmits : ∀ next,
      Before.admitsBreak ⟨l.kind, true⟩ next = false)
    (hForm : Alike form form') :
    Mirrors deep (alike ds Tight) (Parse.single form l)
      (Parse.single form' l') s s' := by
  rcases hPaired.take_tight hCode hRest hKind hAdmits with
    ⟨_, _, _, _, hTight⟩
  apply bind_skip
  exact pure ⟨.node _ _ hForm, hTight⟩

section Primary

variable {expr expr' : ExpressionParser}

------------------------------------------------------------
-- Operators before operands
------------------------------------------------------------

theorem unary
    {precedence : Nat}
    (hExpr : Mirrored deep expr expr')
    (hPaired : Paired ds Heads s s')
    (hCode : ds.isCode = true)
    (hRest : s.rest = l :: ls)
    (hText : l.text = l'.text)
    (hKind : l.kind.isOfStatements = true)
    (hEnds : l.kind.endsOperand = false) :
    Mirrors deep (alike ds Tight) (Parse.unary expr precedence context l)
      (Parse.unary expr' precedence context l') s s' := by
  rcases hPaired.take_awaits hCode hRest hKind hEnds with
    ⟨_, _, _, _, hAwaits⟩
  apply bind_skip
  apply bind_skipLineEnds_begins (hAwaits.mono Awaits.afresh) hCode
  intro t t' hBegins
  apply (hExpr ds precedence context t t' hCode hBegins).bind
  rintro operand operand' u u' ⟨hOperand, hTight⟩
  refine pure ⟨.node _ _ ?_, hTight⟩
  change unplaced _ = unplaced _
  simp [hText,
    show unplaced operand = unplaced operand' from hOperand]

theorem capture
    (hExpr : Mirrored deep expr expr')
    (hPaired : Paired ds Heads s s')
    (hCode : ds.isCode = true)
    (hRest : s.rest = l :: ls)
    (hSame : l.Same l')
    (hKind : l.kind = .operator .capture) :
    Mirrors deep (alike ds Tight) (Parse.capture expr context l)
      (Parse.capture expr' context l') s s' := by
  rcases hPaired.exists_head hRest with ⟨n, ns, hRest', _, hMore⟩
  apply bind_rest
  rw [hRest, hRest', List.tail_cons, List.tail_cons,
    hMore.captureArgumentAhead_eq]
  split
  · rename_i hAhead
    have hHeads : Heads ls ns := by
      cases ls with
      | nil => cases hAhead
      | cons d ds =>
          rw [captureArgumentAhead, Bool.and_eq_true,
            Bool.not_eq_true', beq_iff_eq] at hAhead
          rcases hMore.exists_next (by rw [hAhead.1]; simp)
            (.inr hAhead.2) with ⟨d', ds', rfl, hDigits, _, hTail⟩
          refine .cons hDigits ?_
          rw [Before.step, hKind] at hTail
          exact hTail.joins true
    apply bind_skip
    have hTaken : Paired ds Heads (s.advance 1) (s'.advance 1) :=
      hPaired.take_statement hCode hRest hRest' (by rw [hKind]; rfl)
        hHeads
    apply (number hTaken hCode).bind
    rintro index index' t t' ⟨hIndex, hTight⟩
    refine pure ⟨.node _ _ ?_, hTight⟩
    change unplaced _ = unplaced _
    simp [hSame.text_of hKind (by simp),
      show unplaced index = unplaced index' from hIndex]
  · exact unary hExpr hPaired hCode hRest
      (hSame.text_of hKind (by simp)) (by rw [hKind]; rfl)
      (by rw [hKind]; rfl)

/- A range alone is an operand, so its line ends there. -/
theorem fullRange
    (hPaired : Paired ds Begins s s')
    (hCode : ds.isCode = true)
    (hRest : s.rest = l :: ls)
    (hSame : l.Same l')
    (hKind : l.kind = .operator .range) :
    Mirrors deep (alike ds Tight) (Parse.fullRange l)
      (Parse.fullRange l') s s' := by
  have hPlace := hPaired.place
  generalize hRest' : s'.rest = ms' at *
  rw [hRest] at hPlace
  cases hPlace with
  | @cons _ n _ ns hHead hMore =>
      have hTight : Tight ls ns := by
        apply hMore.tight
        intro next
        rw [hKind]
        rfl
      apply bind_skip
      refine pure ⟨.call _ _ ?_ (.suffix _ _ _ rfl rfl), ?_⟩
      · exact congrArg Target.bare (hSame.text_of hKind (by simp))
      · exact hPaired.take_statement hCode hRest hRest'
          (by rw [hKind]; rfl) hTight

variable [∀ precedence context, Retains (expr precedence context)]
variable [∀ precedence context, Retains (expr' precedence context)]

------------------------------------------------------------
-- Primary expressions
------------------------------------------------------------

theorem wordOperand
    {w : Word}
    (hExpr : Mirrored deep expr expr')
    (hPaired : Paired ds Heads s s')
    (hCode : ds.isCode = true)
    (hRest : s.rest = l :: ls)
    (hKind : l.kind = .word w) :
    Mirrors deep (alike ds Tight) (Parse.wordOperand expr w l)
      (Parse.wordOperand expr' w l') s s' := by
  have hSingle : ∀ form : Form Node,
      l.kind.isOfStatements = true →
        (∀ next, Before.admitsBreak ⟨l.kind, true⟩ next = false) →
          Mirrors deep (alike ds Tight) (Parse.single form l)
            (Parse.single form l') s s' :=
    fun form hStatements hAdmits => single hPaired hCode hRest
      hStatements hAdmits rfl
  rw [hKind] at hSingle
  unfold Parse.wordOperand
  cases w with
  | true => exact hSingle _ rfl fun _ => rfl
  | false => exact hSingle _ rfl fun _ => rfl
  | nil => exact hSingle _ rfl fun _ => rfl
  | fn => exact fn hExpr hPaired hCode hRest hKind
  | _ => exact unexpected hPaired fun fault => fails_errorNode fault

theorem bracketOperand
    (hExpr : Mirrored deep expr expr')
    (hPaired : Paired ds Heads s s')
    (hCode : ds.isCode = true)
    (hRest : s.rest = l :: ls)
    (hKind : l.kind = .opening b) :
    Mirrors deep (alike ds Tight) (Parse.bracketOperand expr b)
      (Parse.bracketOperand expr' b) s s' := by
  have hItems : ∀ form : List Node → Form Node,
      (∀ ns, (form ns).unplacedParts = form (unplaced ns)) →
        ∀ ns ns', Alike ns ns' → Alike (form ns) (form ns') := by
    intro form hForm ns ns' hNodes
    change unplaced _ = unplaced _
    rw [unplaced_form, unplaced_form, hForm, hForm, hNodes]
  cases b with
  | parenthesis =>
      exact parenthesized hExpr hPaired hCode hRest hKind
  | square =>
      exact container (hItems .list fun _ => rfl) hExpr hPaired hCode
        hRest hKind
  | curly =>
      exact container (hItems .tuple fun _ => rfl) hExpr hPaired hCode
        hRest hKind
  | bits =>
      exact container (hItems .bitstring fun _ => rfl) hExpr hPaired
        hCode hRest hKind

theorem promoterOperand
    {f : Family}
    {layout : Layout}
    (hExpr : Mirrored deep expr expr')
    (hPaired : Paired ds Heads s s')
    (hCode : ds.isCode = true)
    (hRest : s.rest = l :: ls)
    (hKind : l.kind = .promoter f layout) :
    Mirrors deep (alike ds Tight) (Parse.promoterOperand expr context)
      (Parse.promoterOperand expr' context) s s' := by
  apply bind_rest
  rw [hPaired.place.keywordAhead_eq]
  split
  · rename_i hKey
    exact keywords hExpr hPaired hCode hKey
  · exact textNode hExpr hPaired hCode hRest hKind

theorem primaryAt
    (hExpr : Mirrored deep expr expr')
    (hPaired : Paired ds Heads s s')
    (hCode : ds.isCode = true)
    (hRest : s.rest = l :: ls)
    (hSame : l.Same l') :
    Mirrors deep (alike ds Tight) (Parse.primaryAt expr context l)
      (Parse.primaryAt expr' context l') s s' := by
  have hSound := hPaired.isFaulty_head hRest
  unfold Parse.primaryAt
  rw [← hSame.kind]
  split
  · rename_i hKind
    rw [hKind] at hSound
    cases hSound
  · rename_i hKind
    exact wordOperand hExpr hPaired hCode hRest hKind
  · rename_i hKind
    apply single hPaired hCode hRest (by rw [hKind]; rfl)
      (fun _ => by rw [hKind]; rfl)
    rw [hSame.text_of hKind (by simp)]
  · rename_i hKind
    rcases hPaired.take_tight hCode hRest (by rw [hKind]; rfl)
      (fun _ => by rw [hKind]; rfl) with ⟨_, _, _, _, hTight⟩
    apply bind_skip
    exact identifier hExpr hTight hCode (hSame.text_of hKind (by simp))
  · rename_i hKind
    exact character hPaired hCode hRest hKind
  · rename_i hKind
    exact atom hExpr hPaired hCode hRest hKind
  · rename_i hKind
    apply keywords hExpr hPaired hCode
    rw [hRest, keywordAhead, hKind]
  · rename_i hKind
    exact promoterOperand hExpr hPaired hCode hRest hKind
  · rename_i hKind
    exact promoterOperand hExpr hPaired hCode hRest hKind
  · rename_i hKind
    exact sigil hExpr hPaired hCode hRest hKind
  · rename_i hKind
    exact bracketOperand hExpr hPaired hCode hRest hKind
  · rename_i hKind
    exact structOrMap hExpr hPaired hCode hRest hKind
  · split
    · exact number hPaired hCode
    · exact strayOperand l hPaired

theorem primary
    (hExpr : Mirrored deep expr expr')
    (hPaired : Paired ds Heads s s')
    (hCode : ds.isCode = true) :
    Mirrors deep (alike ds Tight) (Parse.primary expr context)
      (Parse.primary expr' context) s s' := by
  apply bind_peek
  rcases hPaired.head_cases with
    ⟨hRest, hRest'⟩ | ⟨l, l', ls, ls', hRest, hRest', hSame, _⟩
  · rw [hRest, hRest']
    exact errorNode _ hPaired
  · rw [hRest, hRest']
    exact primaryAt hExpr hPaired hCode hRest hSame

------------------------------------------------------------
-- Suffixes
------------------------------------------------------------

theorem withSuffix
    {kind : SuffixKind}
    {node node' : Node}
    (hExpr : Mirrored deep expr expr')
    (hPaired : Paired ds Tight s s')
    (hCode : ds.isCode = true)
    (hNode : Alike node node')
    (hAhead : suffixAhead? s.rest = some kind) :
    Mirrors deep (alike ds Tight)
      (Parse.withSuffix expr context node kind)
      (Parse.withSuffix expr' context node' kind) s s' := by
  have hHeads := hPaired.heads_of_tight
  rcases hHeads.head_cases with
    ⟨hRest, _⟩ | ⟨l, l', ls, ls', hRest, _, _, _⟩
  · rw [hRest] at hAhead
    cases hAhead
  · rw [hRest, suffixAhead?] at hAhead
    split at hAhead
    · rename_i hKind
      cases hAhead
      exact dotted hExpr hHeads hCode hRest hKind hNode
    · split at hAhead
      · rename_i hKind
        cases hAhead
        exact access hExpr hHeads hCode hRest hKind.1 hNode
      · cases hAhead

end Primary

------------------------------------------------------------
-- Limits
------------------------------------------------------------

theorem bind_tooDeep_left
    {post : Post β}
    {f : Node → Parse β}
    [∀ n, Retains (f n)]
    {q : Parse β}
    (hPaired : Paired ds place s s') :
    Mirrors deep post (Parse.tooDeep >>= f) q s s' :=
  bind_errorNode _ hPaired

/- A second run that is deeper may come to its limit first. -/
theorem bind_tooDeep_right
    {post : Post β}
    {f : Node → Parse β}
    [hRetains : ∀ n, Retains (f n)]
    {p : Parse β}
    (hPaired : Paired ds place s s')
    (hDeep : deep = true) :
    Mirrors deep post p (Parse.tooDeep >>= f) s s' := by
  have hMem : ⟨.tooDeeplyNested, s'.currentSpan⟩ ∈
      (Parse.tooDeep s').2.errors := by
    change _ ∈ (s'.report .tooDeeplyNested s'.currentSpan).errors
    simp [ParseState.report, hPaired.poisoned']
  have hLater := (hRetains (Parse.tooDeep s').1).later
    (Parse.tooDeep s').2
  exact .inl (.inr (.inr (.inr
    ⟨hDeep, _, hLater.errors hMem, rfl⟩)))

theorem tooDeep_left
    {post : Post Node}
    {q : Parse Node}
    (hPaired : Paired ds place s s') :
    Mirrors deep post Parse.tooDeep q s s' :=
  errorNode _ hPaired

theorem tooDeep_right
    {post : Post Node}
    {p : Parse Node}
    (hPaired : Paired ds place s s')
    (hDeep : deep = true) :
    Mirrors deep post p Parse.tooDeep s s' :=
  bind_tooDeep_right (f := Pure.pure) hPaired hDeep

end Mirrors

/-
  Parsers for expressions that keep together at levels that
  are not lower in the second run, or, if that may be deeper,
  at any levels.
-/
def LevelsMirrored
    (deep : Bool)
    (levels levels' : Levels) : Prop :=
  ∀ k m, deep = true ∨ k ≤ m → Mirrored deep (levels k) (levels' m)

------------------------------------------------------------
-- Operators between operands
------------------------------------------------------------

/- The same operator with what is to be its operand, or none. -/
def sameInfix
    (ds : Nest) : Post (Option InfixOperator)
| some i, some i', s, s' =>
    i.binding = i'.binding ∧ i.name = i'.name ∧
      Paired ds Begins s s'
| none, none, s, s' => Paired ds Tight s s'
| _, _, _, _ => False

theorem Alike.isRange_eq
    {n n' : Node}
    (hNode : Alike n n') :
    isRange n = isRange n' := by
  have hForm := hNode.form
  rcases n with ⟨f, span⟩
  rcases n' with ⟨f', span'⟩
  cases f with
  | binary operator left right at' =>
      cases f' with
      | binary operator' left' right' at'' =>
          rcases Form.binary.inj hForm with ⟨rfl, _⟩
          rfl
      | _ => cases hForm
  | _ => cases f' <;> first | rfl | cases hForm

namespace Mirrors

theorem eatInfix
    (precedence : Nat)
    (hPaired : Paired ds Tight s s')
    (hCode : ds.isCode = true) :
    Mirrors deep (sameInfix ds) (Parse.eatInfix precedence)
      (Parse.eatInfix precedence) s s' := by
  apply bind_rest
  rcases hPaired.place.infixAhead?_cases with
    ⟨hNone, hNone'⟩ | ⟨i, i', hSome, hSome', hSame⟩
  · rw [hNone, hNone']
    exact pure hPaired
  · rw [hSome, hSome']
    dsimp only
    rw [hSame.binding]
    split
    · exact pure hPaired
    · have hTaken : Paired ds Awaits (s.advance i.length)
          (s'.advance i'.length) := by
        apply hPaired.advance_of_isOfStatements hCode _ hSame.rest
        intro l hMem
        have hInfix := (take_of_infixAhead? hSome).1 l hMem
        cases hKind : l.kind <;> rw [hKind] at hInfix <;>
          first | rfl | cases hInfix
      apply bind_skip
      apply bind_skipLineEnds_begins (hTaken.mono Awaits.afresh) hCode
      intro t t' hBegins
      exact pure ⟨hSame.binding, hSame.name, hBegins⟩

theorem checkStep
    {i i' : InfixOperator}
    {left left' right right' : Node}
    (hPaired : Paired ds place s s')
    (hName : i.name = i'.name)
    (hLeft : Alike left left')
    (hRight : Alike right right') :
    Mirrors deep (alike ds place) (Parse.checkStep i left right)
      (Parse.checkStep i' left' right') s s' := by
  unfold Parse.checkStep
  rw [← hName, ← hLeft.isRange_eq]
  split
  · exact of_fails hPaired fun hClean =>
      errors_report_ne _ _ hClean
  · exact pure ⟨hRight, hPaired⟩

theorem joined
    {i i' : InfixOperator}
    {left left' right right' : Node}
    (hPaired : Paired ds place s s')
    (hName : i.name = i'.name)
    (hLeft : Alike left left')
    (hRight : Alike right right') :
    Mirrors deep (alike ds place) (Parse.joined i left right)
      (Parse.joined i' left' right') s s' := by
  have hStep : Mirrors deep _ _ _ s s' :=
    checkStep hPaired hName hLeft hRight
  apply hStep.bind
  rintro checked checked' t t' ⟨hChecked, hPlace⟩
  refine pure ⟨.node _ _ ?_, hPlace⟩
  change unplaced _ = unplaced _
  simp [hName, show unplaced left = unplaced left' from hLeft,
    show unplaced checked = unplaced checked' from hChecked]

variable {levels levels' : Levels}

------------------------------------------------------------
-- Suffixes
------------------------------------------------------------

theorem suffixes_of_none
    (node : Node)
    (hAhead : suffixAhead? s.rest = none) :
    Parse.suffixes levels context k node s = (node, s) := by
  cases k with
  | _ =>
      unfold Parse.suffixes
      rw [Parse.rest_bind_apply, hAhead]
      rfl

theorem suffixes_zero
    {kind : SuffixKind}
    (node : Node)
    (hAhead : suffixAhead? s.rest = some kind) :
    Parse.suffixes levels context 0 node s = Parse.tooDeep s := by
  unfold Parse.suffixes
  rw [Parse.rest_bind_apply, hAhead]

/- No suffix follows in either run. -/
theorem noSuffixes
    {node node' : Node}
    (hPaired : Paired ds Tight s s')
    (hNode : Alike node node')
    (hAhead : suffixAhead? s.rest = none) :
    Mirrors deep (alike ds Tight)
      (Parse.suffixes levels context k node)
      (Parse.suffixes levels' context m node') s s' := by
  have hPure : Mirrors deep (alike ds Tight) (Pure.pure node)
      (Pure.pure node') s s' :=
    pure ⟨hNode, hPaired⟩
  have hSame := hPaired.place.suffixAhead?_eq
  exact hPure.of_eq (suffixes_of_none node hAhead)
    (suffixes_of_none node' (hSame.trans hAhead))

variable [∀ height precedence context,
  Retains (levels height precedence context)]
variable [∀ height precedence context,
  Retains (levels' height precedence context)]

theorem suffixes
    {node node' : Node}
    (hLevels : LevelsMirrored deep levels levels')
    (hPaired : Paired ds Tight s s')
    (hCode : ds.isCode = true)
    (hNode : Alike node node')
    (hHeight : deep = true ∨ k ≤ m) :
    Mirrors deep (alike ds Tight)
      (Parse.suffixes levels context k node)
      (Parse.suffixes levels' context m node') s s' := by
  induction k generalizing m s s' node node' with
  | zero =>
      cases hAhead : suffixAhead? s.rest with
      | none => exact noSuffixes hPaired hNode hAhead
      | some kind =>
          exact (tooDeep_left hPaired).of_eq
            (suffixes_zero node hAhead) rfl
  | succ k ih =>
      cases hAhead : suffixAhead? s.rest with
      | none => exact noSuffixes hPaired hNode hAhead
      | some kind =>
          have hAhead' := hPaired.place.suffixAhead?_eq.trans hAhead
          cases m with
          | zero =>
              have hDeep : deep = true :=
                hHeight.resolve_right (Nat.not_succ_le_zero k)
              exact (tooDeep_right hPaired hDeep).of_eq rfl
                (suffixes_zero node' hAhead')
          | succ m =>
              have hLower : deep = true ∨ k ≤ m :=
                hHeight.imp_right Nat.le_of_succ_le_succ
              apply bind_rest
              rw [hAhead, hAhead']
              apply (withSuffix (hLevels k m hLower) hPaired hCode
                hNode hAhead).bind
              rintro larger larger' t t' ⟨hLarger, hTight⟩
              exact ih hTight hLarger hLower

------------------------------------------------------------
-- Operands
------------------------------------------------------------

theorem moduleAttribute
    (hLevels : LevelsMirrored deep levels levels')
    (hPaired : Paired ds Heads s s')
    (hCode : ds.isCode = true)
    (hRest : s.rest = l :: ls)
    (hSame : l.Same l')
    (hKind : l.kind = .operator .atSign)
    (hHeight : deep = true ∨ k ≤ m) :
    Mirrors deep (alike ds Tight)
      (Parse.moduleAttribute levels k context l)
      (Parse.moduleAttribute levels' m context l') s s' := by
  rcases hPaired.take_tight hCode hRest (by rw [hKind]; rfl)
    (fun _ => by rw [hKind]; rfl) with ⟨_, _, _, _, hTight⟩
  apply bind_skip
  apply (primary (hLevels k m hHeight) hTight.heads_of_tight
    hCode).bind
  rintro operand operand' t t' ⟨hOperand, hTight'⟩
  apply suffixes hLevels hTight' hCode _ hHeight
  refine .node _ _ ?_
  change unplaced _ = unplaced _
  simp [hSame.text_of hKind (by simp),
    show unplaced operand = unplaced operand' from hOperand]

theorem suffixed
    (hLevels : LevelsMirrored deep levels levels')
    (hPaired : Paired ds Heads s s')
    (hCode : ds.isCode = true)
    (hHeight : deep = true ∨ k ≤ m) :
    Mirrors deep (alike ds Tight) (Parse.suffixed levels k context)
      (Parse.suffixed levels' m context) s s' := by
  apply (primary (hLevels k m hHeight) hPaired hCode).bind
  rintro node node' t t' ⟨hNode, hTight⟩
  exact suffixes hLevels hTight hCode hNode hHeight

theorem operandAt
    (hLevels : LevelsMirrored deep levels levels')
    (hPaired : Paired ds Begins s s')
    (hCode : ds.isCode = true)
    (hRest : s.rest = l :: ls)
    (hSame : l.Same l')
    (hHeight : deep = true ∨ k ≤ m) :
    Mirrors deep (alike ds Tight)
      (Parse.operandAt levels k context l)
      (Parse.operandAt levels' m context l') s s' := by
  have hHeads := hPaired.heads_of_begins
  have hExpr := hLevels k m hHeight
  have hUnary : ∀ {o : Operator} (precedence : Nat),
      l.kind = .operator o → l.kind.isOfStatements = true →
      l.kind.endsOperand = false → Mirrors deep (alike ds Tight)
        (Parse.unary (levels k) precedence context l)
        (Parse.unary (levels' m) precedence context l') s s' :=
    fun _ hKind hOfStatements hEnds => unary hExpr hHeads hCode hRest
      (hSame.text_of hKind (by simp)) hOfStatements hEnds
  unfold Parse.operandAt
  rw [← hSame.kind]
  split
  · rename_i hKind
    exact hUnary _ hKind (by rw [hKind]; rfl) (by rw [hKind]; rfl)
  · rename_i hKind
    exact hUnary _ hKind (by rw [hKind]; rfl) (by rw [hKind]; rfl)
  · rename_i hKind
    exact hUnary _ hKind (by rw [hKind]; rfl) (by rw [hKind]; rfl)
  · rename_i hKind
    exact hUnary _ hKind (by rw [hKind]; rfl) (by rw [hKind]; rfl)
  · rename_i hKind
    exact capture hExpr hHeads hCode hRest hSame hKind
  · rename_i hKind
    exact fullRange hPaired hCode hRest hSame hKind
  · rename_i hKind
    exact moduleAttribute hLevels hHeads hCode hRest hSame hKind
      hHeight
  · exact suffixed hLevels hHeads hCode hHeight

theorem operand
    (hLevels : LevelsMirrored deep levels levels')
    (hPaired : Paired ds Begins s s')
    (hCode : ds.isCode = true)
    (hHeight : deep = true ∨ k ≤ m) :
    Mirrors deep (alike ds Tight) (Parse.operand levels k context)
      (Parse.operand levels' m context) s s' := by
  apply bind_peek
  rcases hPaired.heads_of_begins.head_cases with
    ⟨hRest, hRest'⟩ | ⟨l, l', ls, ls', hRest, hRest', hSame, _⟩
  · rw [hRest, hRest']
    exact errorNode _ hPaired
  · rw [hRest, hRest']
    exact operandAt hLevels hPaired hCode hRest hSame hHeight

end Mirrors

------------------------------------------------------------
-- Operations
------------------------------------------------------------

/- An operand, behind which an operator was found or none. -/
def foldsBehind
    (levels : Levels)
    (precedence : Nat)
    (context : Context) :
    Nat → Node → Option InfixOperator → Parse Node
| _, left, none => return left
| 0, left, some i => do
    let right ← Parse.tooDeep
    Parse.joined i left right
| h + 1, left, some i => do
    let right ← levels h i.binding.rightPrecedence context
    let larger ← Parse.joined i left right
    Parse.folds levels precedence context h larger

section Folds

variable {levels levels' : Levels}

theorem folds_eq
    (precedence : Nat)
    (left : Node) :
    Parse.folds levels precedence context k left =
      Parse.eatInfix precedence >>=
        foldsBehind levels precedence context k left := by
  cases k with
  | _ =>
      unfold Parse.folds
      congr 1
      funext o
      cases o <;> rfl

variable [∀ height precedence context,
  Retains (levels height precedence context)]
variable [∀ height precedence context,
  Retains (levels' height precedence context)]

instance Retains.foldsBehind
    (precedence : Nat)
    (left : Node)
    (o : Option InfixOperator) :
    Retains
      (foldsBehind levels precedence context k left o) := by
  cases o with
  | none =>
      unfold ElixirReader.foldsBehind
      infer_instance
  | some i =>
      cases k <;> (unfold ElixirReader.foldsBehind; infer_instance)

namespace Mirrors

theorem folds
    {left left' : Node}
    (precedence : Nat)
    (hLevels : LevelsMirrored deep levels levels')
    (hPaired : Paired ds Tight s s')
    (hCode : ds.isCode = true)
    (hLeft : Alike left left')
    (hHeight : deep = true ∨ k ≤ m) :
    Mirrors deep (alike ds Tight)
      (Parse.folds levels precedence context k left)
      (Parse.folds levels' precedence context m left') s s' := by
  induction k generalizing m s s' left left' with
  | zero =>
      rw [folds_eq, folds_eq]
      apply (eatInfix precedence hPaired hCode).bind
      rintro (_ | i) (_ | i') t t' hInfix
      · exact pure ⟨hLeft, hInfix⟩
      · cases hInfix
      · cases hInfix
      · exact bind_tooDeep_left hInfix.2.2
  | succ k ih =>
      rw [folds_eq, folds_eq]
      apply (eatInfix precedence hPaired hCode).bind
      rintro (_ | i) (_ | i') t t' hInfix
      · exact pure ⟨hLeft, hInfix⟩
      · cases hInfix
      · cases hInfix
      · rcases hInfix with ⟨hBinding, hName, hBegins⟩
        cases m with
        | zero =>
            have hDeep : deep = true :=
              hHeight.resolve_right (Nat.not_succ_le_zero k)
            exact bind_tooDeep_right hBegins hDeep
        | succ m =>
            have hLower : deep = true ∨ k ≤ m :=
              hHeight.imp_right Nat.le_of_succ_le_succ
            unfold foldsBehind
            dsimp only
            rw [← hBinding]
            apply (hLevels k m hLower ds _ context t t' hCode
              hBegins).bind
            rintro right right' u u' ⟨hRight, hTight⟩
            have hJoined : Mirrors deep _ _ _ u u' :=
              joined hTight hName hLeft hRight
            apply hJoined.bind
            rintro larger larger' v v' ⟨hLarger, hTight'⟩
            exact ih hTight' hLarger hLower

theorem expressionOver
    (precedence : Nat)
    (hLevels : LevelsMirrored deep levels levels')
    (hPaired : Paired ds Begins s s')
    (hCode : ds.isCode = true)
    (hHeight : deep = true ∨ k ≤ m) :
    Mirrors deep (alike ds Tight)
      (Parse.expressionOver levels k precedence context)
      (Parse.expressionOver levels' m precedence context) s s' := by
  cases k with
  | zero => exact tooDeep_left hPaired
  | succ k =>
      cases m with
      | zero =>
          exact tooDeep_right hPaired
            (hHeight.resolve_right (Nat.not_succ_le_zero k))
      | succ m =>
          have hLower : deep = true ∨ k ≤ m :=
            hHeight.imp_right Nat.le_of_succ_le_succ
          apply nested hPaired
          intro t t' hBegins
          apply (operand hLevels hBegins hCode hLower).bind
          rintro left left' u u' ⟨hLeft, hTight⟩
          exact folds precedence hLevels hTight hCode hLeft hLower

end Mirrors

end Folds

------------------------------------------------------------
-- Expressions
------------------------------------------------------------

/-
  Expressions keep together. If the second run is at a lower
  level it may give up, as a text that is nested too deeply.
-/
theorem mirrored_expression
    {n n' : Nat}
    (hNesting : deep = true ∨ n ≤ n') :
    LevelsMirrored deep (expression n) (expression n') := by
  induction n generalizing n' with
  | zero =>
      intro k m _ ds precedence context s s' _ hPaired
      exact Mirrors.tooDeep_left hPaired
  | succ n ih =>
      intro k m hHeight ds precedence context s s' hCode hPaired
      cases n' with
      | zero =>
          exact Mirrors.tooDeep_right hPaired
            (hNesting.resolve_right (Nat.not_succ_le_zero n))
      | succ n' =>
          have hLower : deep = true ∨ n ≤ n' :=
            hNesting.imp_right Nat.le_of_succ_le_succ
          exact Mirrors.expressionOver precedence (ih hLower) hPaired
            hCode hHeight

end ElixirReader
