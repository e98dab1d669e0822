import ElixirReader.Proofs.Diagnosis.Containers
import ElixirReader.Proofs.Errors.Blocks
import ElixirReader.Proofs.Errors.Calls

/-
  This file follows fair errors through the bodies of blocks
  and through calls: their arguments and do blocks, what stands
  behind a dot, and keys in brackets. A clause that follows
  expressions is blamed at its arrow, which is a lexeme in
  order, and a name with interpolations behind a dot as a whole,
  from its promoter on.

  Key definitions include:
    * `headed`
    * `itemized`

  Main declarations:
    * `Watches.finishHead`
    * `Watches.clauseOrStatement`
    * `Watches.body`
    * `Watches.doBlock`
    * `Watches.fn`
    * `Watches.callSuffix`
    * `Watches.dotted`
    * `Watches.access`
-/

namespace ElixirReader

open Parse

variable {all ms : List Lexeme}
variable {l : Lexeme}
variable {k : Nat}
variable {s : ParseState}
variable {expr : ExpressionParser}
variable {stop : Kind → Bool}

/- Behind the head of a clause stands an operand. -/
def headed
    (all : List Lexeme)
    (c : Clause Node)
    (s' : ParseState) : Prop :=
  Live s' → Ready all s'.rest ∧ Covers all c.arrow

/- Behind an expression anything may be expected. -/
def itemized
    (all : List Lexeme) : Item → ParseState → Prop
| .clause c, s' => headed all c s'
| .expression _, s' => Live s' → Settled all s'.rest

namespace Watches

------------------------------------------------------------
-- Heads of clauses
------------------------------------------------------------

theorem finishHead
    (head : List Node)
    (guard : Option Node)
    (hSettled : Live s → Settled all s.rest) :
    Watches all (headed all) (Parse.finishHead head guard) s := by
  apply (expect (.operator .stab) .arrow hSettled).bind
  rintro (e | arrow) s₁ hFound
  · apply pure
    exact fun hLive => absurd hLive (not_live_of_poisoned hFound)
  · have hApart : arrow.kind.isApart = true := by
      rw [hFound.1]
      rfl
    apply pure
    exact fun _ =>
      ⟨hFound.2.ready hApart, hFound.2.covers hApart⟩

theorem headGuard
    (hExpr : Careful all expr)
    (hSettled : Live s → Settled all s.rest) :
    Watches all (reaches (Settled all)) (Parse.headGuard expr)
      s := by
  apply bind_eat
  · intro word s₁ hKind hBehind
    have hApart : word.kind.isApart = true := by
      rw [hKind]
      rfl
    apply (skipLineEnds_ready fun _ => hBehind.ready hApart).bind
    intro _ s₂ hReady
    apply (hExpr _ .statement s₂ hReady).bind
    intro guard s₃ hEnd
    exact pure hEnd
  · intro _
    exact pure hSettled

theorem parenthesizedHead
    (hExpr : Careful all expr)
    (hRest : s.rest = l :: ms)
    (hApart : l.kind.isApart = true) :
    Watches all (headed all) (Parse.parenthesizedHead expr)
      s := by
  apply (enclosed hExpr hRest hApart .parenthesis).bind
  rintro ⟨head, span⟩ s₁ hSettled
  apply (headGuard hExpr hSettled).bind
  intro guard s₂ hSettled₂
  exact finishHead head guard hSettled₂

theorem headItemsFor
    (hExpr : Careful all expr)
    (hSettled : Live s → Settled all s.rest) :
    Watches all (reaches (Settled all))
      (Parse.headItemsFor expr k) s := by
  induction k generalizing s with
  | zero => exact reaches_cutOff
  | succ k ih =>
      apply eatComma hSettled
      intro comma s₁ hSettled₁
      cases comma with
      | none => exact pure hSettled₁
      | some _ =>
          apply (skipLineEnds_ready
            fun hLive => (hSettled₁ hLive).toReady).bind
          intro _ s₂ hReady
          apply bind_rest
          split
          · rename_i hAhead
            apply (keywords hExpr hAhead).bind
            intro pairs s₃ hEnd
            exact pure hEnd
          · apply (hExpr 0 .container s₂ hReady).bind
            intro item s₃ hSettled₃
            apply (ih hSettled₃).bind
            intro more s₄ hEnd
            exact pure hEnd

------------------------------------------------------------
-- Clauses and statements
------------------------------------------------------------

theorem openClauseOrStatement
    (hExpr : Careful all expr)
    (hReady : Live s → Ready all s.rest) :
    Watches all (itemized all)
      (Parse.openClauseOrStatement expr) s := by
  apply (hExpr 0 .statement s hReady).bind
  intro first s₁ hSettled
  apply bind_isAt
  apply bind_isAt
  split
  · apply bind_rest
    apply (headItemsFor hExpr hSettled).bind
    intro more s₂ hSettled₂
    apply (finishHead (first :: more) none hSettled₂).bind
    intro c s₃ hHeaded
    exact pure hHeaded
  · exact pure hSettled

theorem clauseOrStatement
    (hExpr : Careful all expr)
    (hReady : Live s → Ready all s.rest) :
    Watches all (itemized all) (Parse.clauseOrStatement expr)
      s := by
  apply bind_eat
  · intro arrow s₁ hKind hBehind
    have hApart : arrow.kind.isApart = true := by
      rw [hKind]
      rfl
    apply pure
    exact fun _ => ⟨hBehind.ready hApart, hBehind.covers hApart⟩
  · intro _
    apply bind_rest
    apply bind_isAt
    split
    · rename_i hHead
      simp only [Bool.and_eq_true] at hHead
      rcases exists_of_isAt hHead.1 with ⟨l, ms, hRest, hKind⟩
      have hApart : l.kind.isApart = true := by
        rw [hKind]
        rfl
      apply (parenthesizedHead hExpr hRest hApart).bind
      intro c s₁ hHeaded
      exact pure hHeaded
    · exact openClauseOrStatement hExpr hReady

------------------------------------------------------------
-- Bodies
------------------------------------------------------------

theorem checkFirstClause
    {c : Clause Node}
    (expressions : List Node)
    (clauses : List (Clause Node))
    (hHeaded : headed all c s) :
    Watches all (reaches (Ready all))
      (Parse.checkFirstClause expressions clauses c) s := by
  unfold Parse.checkFirstClause
  split
  · have hFailure : Watches all noted
        (Parse.failure (.unexpectedToken "->") c.arrow c.arrow)
        s := by
      apply failure
      intro hWatched hLive
      exact .of_covers _ hWatched.scanned (hHeaded hLive).2
    apply reaches_of_noted
    apply hFailure.bind
    intro e s₁ hNoted
    exact pure hNoted
  · exact pure fun hLive => (hHeaded hLive).1

theorem bodyFor
    (hExpr : Careful all expr)
    (hStop : StopsInOrder stop)
    (expressions : List Node)
    (clauses : List (Clause Node))
    (hDigits : s.cutShort = false → NoDigits s.rest) :
    Watches all (finishes all)
      (Parse.bodyFor expr stop k expressions clauses) s := by
  induction k generalizing s expressions clauses with
  | zero =>
      apply cutOff
      intro s' hCut hWhole
      rw [hCut] at hWhole
      cases hWhole
  | succ k ih =>
      apply (skipSeparators hDigits).bind
      intro _ s₁ hDigits₁
      apply bind_peek
      split
      · rename_i hEnds
        exact pure fun _ => closable_of_endsAt hStop hEnds
      · rename_i hEnds
        apply bind_rest
        apply (clauseOrStatement hExpr
          (ready_of_not_endsAt hDigits₁ hEnds)).bind
        rintro (c | node) s₂ hItem
        · apply (checkFirstClause expressions clauses hItem).bind
          intro c' s₃ hReady
          have hRecover : Watches all
              (fun _ s' => s'.cutShort = false →
                NoDigits s'.rest)
              (Parse.recover stop s₁.rest) s₃ :=
            recover s₁.rest (fun _ hStops => hStops.noDigits hStop)
              fun hLive => (hReady hLive).digits
          apply hRecover.bind
          intro _ s₄ hDigits₄
          exact ih _ _ hDigits₄
        · apply (finishStatement s₁.rest hStop hItem).bind
          intro trailing s₃ hDigits₃
          dsimp only
          split
          · exact ih _ _ hDigits₃
          · exact ih _ _ hDigits₃

theorem body
    (hExpr : Careful all expr)
    (hStop : StopsInOrder stop)
    (hDigits : NoDigits s.rest) :
    Watches all (finishes all) (Parse.body expr stop) s := by
  apply bind_rest
  apply isolated
    (P := fun rest cut => cut = false → Closable all rest)
  exact bodyFor hExpr hStop [] [] fun _ => hDigits

------------------------------------------------------------
-- Do blocks
------------------------------------------------------------

theorem unendedSection
    {opened : Span}
    (name : String)
    (b : Body Node)
    (hOpened : Covers all opened) :
    Watches all noted (Parse.unendedSection opened name b)
      s := by
  apply (failure_of_covers _ _ hOpened).bind
  intro e s₁ hNoted
  apply bind_previousSpan
  exact pure hNoted

theorem stopsInOrder_endsBlock :
    StopsInOrder Kind.endsBlock := by
  intro kind hKind
  cases kind <;> first | rfl | cases hKind

theorem sectionsFor
    {opened : Span}
    (hExpr : Careful all expr)
    (hOpened : Covers all opened)
    (name : String)
    (hDigits : NoDigits s.rest) :
    Watches all (reaches (Settled all))
      (Parse.sectionsFor expr opened k name) s := by
  induction k generalizing s name with
  | zero => exact reaches_cutOff
  | succ k ih =>
      rw [sectionsFor_succ]
      apply (body hExpr stopsInOrder_endsBlock hDigits).bind
      intro b s₁ _
      apply bind_peek
      cases sectionCase s₁ with
      | unended hNext =>
          rw [sectionEnd_of_unended hNext]
          exact reaches_of_noted (unendedSection name b hOpened)
      | ended l ms hRest hKind =>
          rw [sectionEnd_of_ended hRest hKind]
          apply bind_skip_one hRest
          intro s₂ _ hBehind
          apply pure
          intro _
          apply hBehind.settled
          rw [hKind]
          rfl
      | further l ms hRest hKind hEnds =>
          rw [sectionEnd_of_further hRest hKind hEnds]
          apply bind_skip_one hRest
          intro s₂ _ hBehind
          have hPart : l.kind.isNumberPart = false := by
            generalize l.kind = kind at hEnds
            cases kind <;> first | rfl | cases hEnds
          apply (ih l.text (hBehind.noDigits hPart)).bind
          rintro ⟨more, span⟩ s₃ hEnd
          exact pure hEnd

theorem doBlock
    (hExpr : Careful all expr)
    (hRest : s.rest = l :: ms)
    (hApart : l.kind.isApart = true) :
    Watches all (reaches (Settled all)) (Parse.doBlock expr)
      s := by
  apply bind_currentSpan_of_cons hRest
  apply bind_skip_one hRest
  intro s₁ _ hBehind
  apply bind_rest
  apply (sectionsFor hExpr (hBehind.covers hApart) "do"
    (hBehind.ready hApart).digits).bind
  rintro ⟨sections, span⟩ s₂ hEnd
  exact pure hEnd

------------------------------------------------------------
-- Anonymous functions
------------------------------------------------------------

theorem stopsInOrder_end :
    StopsInOrder (· == .word .end) := by
  intro kind hKind
  rw [eq_of_beq hKind]
  rfl

theorem fn
    (hExpr : Careful all expr)
    (hRest : s.rest = l :: ms)
    (hApart : l.kind.isApart = true) :
    Watches all (reaches (Settled all)) (Parse.fn expr) s := by
  apply bind_currentSpan_of_cons hRest
  apply bind_skip_one hRest
  intro s₁ _ hBehind
  have hOpened := hBehind.covers hApart
  apply (body hExpr stopsInOrder_end
    (hBehind.ready hApart).digits).bind
  intro b s₂ hClosable
  apply (close .blockEnd hOpened
    fun hLive => hClosable hLive.2).bind
  rintro ⟨trailing, span⟩ s₃ hSettled
  dsimp only
  split
  · exact pure hSettled
  · exact reaches_of_noted (failure_of_covers _ _ hOpened)

end Watches

variable {context : Context}

namespace Watches

------------------------------------------------------------
-- Arguments
------------------------------------------------------------

theorem argumentsFor
    (hExpr : Careful all expr)
    (hReady : Live s → Ready all s.rest) :
    Watches all (reaches (Settled all))
      (Parse.argumentsFor expr context k) s := by
  induction k generalizing s with
  | zero => exact reaches_cutOff
  | succ k ih =>
      apply bind_rest
      split
      · rename_i hAhead
        apply (keywords hExpr hAhead).bind
        intro pairs s₁ hEnd
        exact pure hEnd
      · apply (hExpr 0 .argument s hReady).bind
        intro argument s₁ hSettled
        apply bind_isAt
        split
        · rename_i hComma
          rw [Bool.and_eq_true] at hComma
          rcases exists_of_isAt hComma.2 with
            ⟨l, ms, hRest, hKind⟩
          have hApart : l.kind.isApart = true := by
            rw [hKind]
            rfl
          apply bind_skip_one hRest
          intro s₂ _ hBehind
          apply (skipLineEnds_ready
            fun _ => hBehind.ready hApart).bind
          intro _ s₃ hReady₃
          apply (ih hReady₃).bind
          intro more s₄ hEnd
          exact pure hEnd
        · exact pure hSettled

theorem openSuffix
    (hExpr : Careful all expr)
    (hReady : Live s → Ready all s.rest) :
    Watches all (reaches (Settled all))
      (Parse.openSuffix expr context) s := by
  apply bind_rest
  apply (argumentsFor hExpr hReady).bind
  intro arguments s₁ hSettled
  exact bind_previousSpan (pure hSettled)

theorem callArguments
    (hExpr : Careful all expr)
    (hSettled : Live s → Settled all s.rest) :
    Watches all (reaches (Settled all))
      (Parse.callArguments expr context) s := by
  apply bind_rest
  split
  · rename_i hTouching
    rcases exists_of_head?_any hTouching with
      ⟨l, ms, hRest, hKind⟩
    rw [Bool.and_eq_true] at hKind
    have hApart : l.kind.isApart = true := by
      rw [eq_of_beq hKind.1]
      rfl
    have hSuffix : Watches all (reaches (Settled all))
        (Parse.parenthesizedSuffix expr) s := by
      apply (enclosed hExpr hRest hApart .parenthesis).bind
      rintro ⟨arguments, span⟩ s₁ hEnd
      exact pure hEnd
    apply hSuffix.bind
    intro suffix s₁ hEnd
    exact pure hEnd
  · split
    · apply (openSuffix hExpr
        fun hLive => (hSettled hLive).toReady).bind
      intro suffix s₁ hEnd
      exact pure hEnd
    · split
      · exact bind_currentSpan (pure hSettled)
      · exact pure hSettled

theorem attachDo
    (hExpr : Careful all expr)
    (suffix : Suffix)
    (hSettled : Live s → Settled all s.rest) :
    Watches all (reaches (Settled all))
      (Parse.attachDo expr context suffix) s := by
  apply bind_isAt
  split
  · rename_i hDo
    rw [Bool.and_eq_true] at hDo
    rcases exists_of_isAt hDo.2 with ⟨l, ms, hRest, hKind⟩
    have hApart : l.kind.isApart = true := by
      rw [hKind]
      rfl
    apply (doBlock hExpr hRest hApart).bind
    intro b s₁ hEnd
    exact pure hEnd
  · exact pure hSettled

theorem callSuffix
    (hExpr : Careful all expr)
    (hSettled : Live s → Settled all s.rest) :
    Watches all (reaches (Settled all))
      (Parse.callSuffix expr context) s := by
  apply (callArguments hExpr hSettled).bind
  rintro (_ | suffix) s₁ hSettled₁
  · exact pure hSettled₁
  · apply (attachDo hExpr suffix hSettled₁).bind
    intro suffix' s₂ hEnd
    exact pure hEnd

theorem identifier
    (hExpr : Careful all expr)
    (name : Lexeme)
    (hSettled : Live s → Settled all s.rest) :
    Watches all (reaches (Settled all))
      (Parse.identifier expr context name) s := by
  apply (callSuffix hExpr hSettled).bind
  rintro (_ | suffix) s₁ hEnd
  · exact pure hEnd
  · exact pure hEnd

------------------------------------------------------------
-- Dots
------------------------------------------------------------

theorem remoteCall
    {receiver : Node}
    {name : String}
    {dot nameSpan : Span}
    (hExpr : Careful all expr)
    (hSettled : Live s → Settled all s.rest) :
    Watches all (reaches (Settled all))
      (Parse.remoteCall expr context receiver name dot nameSpan)
      s := by
  apply (callSuffix hExpr hSettled).bind
  intro suffix s₁ hEnd
  exact pure hEnd

theorem quotedRemote
    {receiver : Node}
    {dot : Span}
    (hExpr : Careful all expr)
    (hRest : s.rest = l :: ms)
    (hApart : l.kind.isApart = true) :
    Watches all (reaches (Settled all))
      (Parse.quotedRemote expr context receiver dot) s := by
  apply (text hExpr hRest hApart).bind
  rintro ⟨t, nameSpan⟩ s₁ ⟨hName, hSettled⟩
  dsimp only
  split
  · exact remoteCall hExpr hSettled
  · exact reaches_of_noted (failure_of_covers _ _ hName)

theorem enclosedCall
    {target : Target Node}
    {start : Span}
    (hExpr : Careful all expr)
    (hRest : s.rest = l :: ms)
    (hApart : l.kind.isApart = true)
    (bracket : Bracket) :
    Watches all (reaches (Settled all))
      (Parse.enclosedCall expr bracket target start) s := by
  apply (enclosed hExpr hRest hApart bracket).bind
  rintro ⟨arguments, last⟩ s₁ hEnd
  exact pure hEnd

theorem afterDot
    {receiver : Node}
    {dot : Span}
    (hExpr : Careful all expr)
    (hRest : s.rest = l :: ms)
    (hSettled : Live s → Settled all s.rest) :
    Watches all (reaches (Settled all))
      (Parse.afterDot expr context receiver dot l) s := by
  have hBracket : ∀ b, l.kind = .opening b →
      l.kind.isApart = true := by
    intro b hKind
    rw [hKind]
    rfl
  unfold Parse.afterDot
  split
  · rename_i hKind
    apply bind_skip_one hRest
    intro s₁ _ hBehind
    apply remoteCall hExpr
    intro _
    apply hBehind.settled
    rw [hKind]
    rfl
  · rename_i hKind
    apply bind_skip_one hRest
    intro s₁ _ hBehind
    apply pure
    intro _
    apply hBehind.settled
    rw [hKind]
    rfl
  · rename_i hKind
    exact enclosedCall hExpr hRest (hBracket _ hKind) .parenthesis
  · rename_i hKind
    exact enclosedCall hExpr hRest (hBracket _ hKind) .curly
  · split
    · rename_i hQuote
      exact quotedRemote hExpr hRest
        (isApart_of_isQuotePromoter hQuote)
    · exact reaches_wantedNode _ hSettled

theorem dotted
    {receiver : Node}
    (hExpr : Careful all expr)
    (hRest : s.rest = l :: ms)
    (hSettles : l.kind.settles = true) :
    Watches all (reaches (Settled all))
      (Parse.dotted expr context receiver) s := by
  apply bind_currentSpan
  apply bind_skip_one hRest
  intro s₁ _ hBehind
  have hSettled : Live s₁ → Settled all s₁.rest :=
    fun _ => hBehind.settled hSettles
  apply bind_peek
  cases hNext : s₁.rest with
  | nil =>
      exact reaches_of_noted (errorNode_of_nil _
        (fun hLive => (hSettled hLive).toReady) hNext)
  | cons m ns => exact afterDot hExpr hNext hSettled

------------------------------------------------------------
-- Access
------------------------------------------------------------

theorem accessKey
    (hExpr : Careful all expr)
    (hReady : Live s → Ready all s.rest) :
    Watches all (reaches (Settled all)) (Parse.accessKey expr)
      s := by
  apply (skipLineEnds_ready hReady).bind
  intro _ s₁ hReady₁
  apply bind_rest
  split
  · rename_i hAhead
    exact keywords hExpr hAhead
  · exact hExpr 0 .container s₁ hReady₁

theorem closeAccess
    {opened : Span}
    (hOpened : Covers all opened)
    (key : Node)
    (hSettled : Live s → Settled all s.rest) :
    Watches all (reaches (Settled all))
      (Parse.closeAccess opened key) s := by
  apply (expectClosing (.bracket .square) hOpened
    fun hLive => (hSettled hLive).toClosable).bind
  rintro (e | l) s₁ hFound
  · apply bind_previousSpan
    exact reaches_of_noted (pure hFound)
  · apply pure
    intro _
    apply hFound.2.settled
    rw [hFound.1]
    rfl

theorem access
    {subject : Node}
    (hExpr : Careful all expr)
    (hRest : s.rest = l :: ms)
    (hApart : l.kind.isApart = true) :
    Watches all (reaches (Settled all))
      (Parse.access expr subject) s := by
  apply bind_currentSpan_of_cons hRest
  apply bind_skip_one hRest
  intro s₁ _ hBehind
  apply (accessKey hExpr fun _ => hBehind.ready hApart).bind
  intro key s₂ hSettled
  apply (closeAccess (hBehind.covers hApart) key hSettled).bind
  rintro ⟨key', last⟩ s₃ hEnd
  exact pure hEnd

end Watches

end ElixirReader
