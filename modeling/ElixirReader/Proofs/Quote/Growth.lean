import ElixirReader.Proofs.Errors.Expressions
import ElixirReader.Proofs.Parser.Clauses
import ElixirReader.Proofs.Quote.Elements

/-
  This file shows that parts of the parser only add to the
  errors noted before, whatever stands before them. Most of
  them read from every state, and a reading keeps the errors.

  Main declarations:
    * `Reads.grows`
    * `grows_folds`
    * `grows_attachDo`
    * `grows_bodyFor`
    * `grows_sectionsFor`
-/

namespace ElixirReader

open Parse

variable {α : Type}

/- What reads from every state keeps the errors. -/
theorem Reads.grows
    {ds es : Nest}
    {seen : List Node}
    {view : α → List Node}
    {p : Parse α}
    (hReads : ∀ s, Reads ds es seen view p s) :
    Grows p :=
  fun s => (hReads s).errors

------------------------------------------------------------
-- Operators and suffixes
------------------------------------------------------------

theorem grows_folds
    (n height precedence : Nat)
    (context : Context)
    (node : Node) :
    Grows (folds (expression n) precedence context height node) :=
  Reads.grows fun _ =>
    Reads.folds (candid_expression n) precedence node

theorem grows_suffixes
    (n height : Nat)
    (context : Context)
    (node : Node) :
    Grows (suffixes (expression n) context height node) :=
  Reads.grows fun _ =>
    Reads.suffixes (candid_expression n) node

theorem grows_closeAccess
    (opened : Span)
    (key : Node) :
    Grows (closeAccess opened key) :=
  Reads.grows fun _ => Reads.closeAccess opened key

------------------------------------------------------------
-- Calls
------------------------------------------------------------

theorem grows_argumentsFor
    (n height k : Nat)
    (context : Context) :
    Grows (argumentsFor (expression n height) context k) :=
  Reads.grows fun _ =>
    Reads.argumentsFor (candid_expression n height)

/- What follows an argument: a comma and more, or nothing. -/
theorem grows_argumentsBehind
    (n height k : Nat)
    (context : Context)
    (argument : Node) :
    Grows (do
      if context.manyArguments && (← isAt .comma) then
        skip 1
        skipLineEnds
        return argument ::
          (← argumentsFor (expression n height) context k)
      else
        return [argument]) := by
  refine (Grows.silent fun _ => rfl).bind fun _ => ?_
  split
  · exact (Grows.silent fun _ => rfl).bind fun _ =>
      (Grows.silent fun _ => rfl).bind fun _ =>
        (grows_argumentsFor n height k context).bind fun _ => .pure _
  · exact .pure _

/-
  What takes the place of a block that a suffix has already is
  no reading of it, so the errors are followed by hand.
-/
theorem grows_attachDo
    (n height : Nat)
    (context : Context)
    (suffix : Suffix) :
    Grows (attachDo (expression n height) context suffix) := by
  intro s
  rw [attachDo, Parse.bind_apply]
  split
  · rename_i hDo
    rw [Bool.and_eq_true] at hDo
    rcases exists_of_isAt hDo.2 with ⟨l, ls, hRest, hKind⟩
    have hReads :=
      Reads.doBlock (candid_expression n height) hRest hKind
    exact hReads.errors
  · exact List.prefix_refl _

------------------------------------------------------------
-- Clauses and bodies
------------------------------------------------------------

theorem grows_headItemsFor
    (n height k : Nat) :
    Grows (headItemsFor (expression n height) k) :=
  Reads.grows fun _ =>
    Reads.headItemsFor (candid_expression n height)

theorem grows_finishHead
    (head : List Node)
    (guard : Option Node) :
    Grows (finishHead head guard) :=
  Reads.grows fun _ => Reads.finishHead head guard

/- What follows an expression: the rest of a head, or nothing. -/
theorem grows_headBehind
    (n height : Nat)
    (first : Node) :
    Grows (do
      if (← isAt .comma) || (← isAt (.operator .stab)) then
        let more ← headItemsFor (expression n height)
          ((← rest).length + 1)
        return Item.clause (← finishHead (first :: more) none)
      else
        return Item.expression first) := by
  refine (Grows.silent fun _ => rfl).bind fun _ =>
    (Grows.silent fun _ => rfl).bind fun _ => ?_
  split
  · exact (Grows.silent fun _ => rfl).bind fun ls =>
      (grows_headItemsFor n height _).bind fun more =>
        (grows_finishHead (first :: more) none).bind fun _ => .pure _
  · exact .pure _

theorem grows_checkFirstClause
    (expressions : List Node)
    (clauses : List (Clause Node))
    (c : Clause Node) :
    Grows (checkFirstClause expressions clauses c) :=
  Reads.grows fun _ => Reads.checkFirstClause expressions clauses c

theorem grows_recover
    (stop : Kind → Bool)
    (start : List Lexeme) :
    Grows (recover stop start) :=
  Reads.grows fun _ => Reads.recover start

theorem grows_bodyFor
    (n height k : Nat)
    (stop : Kind → Bool)
    (expressions : List Node)
    (clauses : List (Clause Node)) :
    Grows
      (bodyFor (expression n height) stop k expressions clauses) :=
  Reads.grows fun _ =>
    Reads.bodyFor (candid_expression n height) expressions clauses

theorem grows_bodyItem
    (n height k : Nat)
    (stop : Kind → Bool)
    (expressions : List Node)
    (clauses : List (Clause Node))
    (start : List Lexeme)
    (item : Item) :
    Grows (bodyItem (expression n height) stop k expressions clauses
      start item) := by
  cases item with
  | clause c =>
      exact (grows_checkFirstClause expressions clauses c).bind
        fun _ => (grows_recover stop start).bind fun _ =>
          grows_bodyFor n height k stop _ _
  | expression node =>
      refine (grows_finishStatement stop start).bind fun _ => ?_
      split <;> exact grows_bodyFor n height k stop _ _

------------------------------------------------------------
-- Do blocks
------------------------------------------------------------

theorem grows_failure
    (fault : ParseFault)
    (errorSpan nodeSpan : Span) :
    Grows (Parse.failure fault errorSpan nodeSpan) :=
  (grows_report fault errorSpan).bind fun _ => .pure _

theorem grows_unendedSection
    (opened : Span)
    (name : String)
    (b : Body Node) :
    Grows (unendedSection opened name b) :=
  (grows_failure _ _ _).bind fun _ =>
    (Grows.silent fun _ => rfl).bind fun _ => .pure _

theorem grows_sectionEnd
    {expr : ExpressionParser}
    {k : Nat}
    {opened : Span}
    (hNext : ∀ name, Grows (sectionsFor expr opened k name))
    (name : String)
    (b : Body Node)
    (next : Option Lexeme) :
    Grows (sectionEnd expr opened k name b next) := by
  cases next with
  | none => exact grows_unendedSection opened name b
  | some l =>
      rw [sectionEnd]
      split
      · exact (Grows.silent fun _ => rfl).bind fun _ => .pure _
      · split
        · exact (Grows.silent fun _ => rfl).bind fun _ =>
            (hNext l.text).bind fun _ => .pure _
        · exact grows_unendedSection opened name b

theorem grows_sectionsFor
    (n height k : Nat)
    (opened : Span)
    (name : String) :
    Grows
      (sectionsFor (expression n height) opened k name) := by
  induction k generalizing name with
  | zero => exact Grows.silent fun _ => rfl
  | succ k ih =>
      have hBody :
          Grows (body (expression n height) Kind.endsBlock) :=
        Reads.grows fun _ =>
          Reads.body (candid_expression n height)
      rw [sectionsFor_succ]
      exact hBody.bind fun b => (Grows.silent fun _ => rfl).bind
        fun next => grows_sectionEnd ih name b next

/- What follows the body of a section: its end, or the next one. -/
theorem grows_sectionBehind
    (n height k : Nat)
    (opened : Span)
    (name : String)
    (b : Body Node) :
    Grows (peek >>=
      sectionEnd (expression n height) opened k name b) :=
  (Grows.silent fun _ => rfl).bind fun next =>
    grows_sectionEnd (grows_sectionsFor n height k opened) name b next

end ElixirReader
