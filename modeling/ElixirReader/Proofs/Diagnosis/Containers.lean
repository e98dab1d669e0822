import ElixirReader.Proofs.Diagnosis.Literals

/-
  This file follows fair errors through what stands between
  brackets: elements, statements in parentheses, maps and
  structs. A bracket that is not closed is blamed at a span
  that covers it.

  Main declarations:
    * `Watches.itemsFor`
    * `Watches.enclosed`
    * `Watches.parenthesized`
    * `Watches.mapBody`
    * `Watches.structOrMap`
-/

namespace ElixirReader

open Parse

variable {all ms : List Lexeme}
variable {l : Lexeme}
variable {k : Nat}
variable {s : ParseState}
variable {expr : ExpressionParser}

namespace Watches

------------------------------------------------------------
-- Elements
------------------------------------------------------------

/- At the end of something the next lexeme is in order. -/
theorem settled_of_endsAt
    {stop : Kind → Bool}
    (hStop : StopsInOrder stop)
    (hReady : Live s → Ready all s.rest)
    (hEnds : endsAt stop s.rest.head? = true)
    (hLive : Live s) :
    Settled all s.rest :=
  ⟨hReady hLive, (closable_of_endsAt hStop hEnds).behind⟩

theorem stopsInOrder_closing
    (bracket : Bracket) :
    StopsInOrder (· == .closing bracket) := by
  intro kind hKind
  rw [eq_of_beq hKind]
  rfl

/- A comma may follow what is settled. -/
theorem eatComma
    {α : Type}
    {f : Option Lexeme → Parse α}
    {post : α → ParseState → Prop}
    (hSettled : Live s → Settled all s.rest)
    (hNext : ∀ comma s', (Live s' → Settled all s'.rest) →
      Watches all post (f comma) s') :
    Watches all post (Parse.eat .comma >>= f) s := by
  apply bind_eat
  · intro comma s₁ hKind hBehind
    apply hNext
    intro _
    apply hBehind.settled
    rw [hKind]
    rfl
  · intro _
    exact hNext none s hSettled

theorem lastItem
    (hExpr : Careful all expr)
    (hAhead : keywordAhead s.rest = true) :
    Watches all (reaches (Settled all)) (Parse.lastItem expr)
      s := by
  apply (keywords hExpr hAhead).bind
  intro pairs s₁ hSettled
  apply (skipLineEnds_settled hSettled).bind
  intro _ s₂ hSettled₂
  apply eatComma hSettled₂
  intro _ s₃ hSettled₃
  exact pure hSettled₃

theorem itemsFor
    (hExpr : Careful all expr)
    (bracket : Bracket)
    (hReady : Live s → Ready all s.rest) :
    Watches all (reaches (Settled all))
      (Parse.itemsFor expr (.closing bracket) k) s := by
  induction k generalizing s with
  | zero => exact reaches_cutOff
  | succ k ih =>
      apply (skipLineEnds_ready hReady).bind
      intro _ s₁ hReady₁
      apply bind_peek
      split
      · rename_i hEnds
        exact pure (settled_of_endsAt
          (stopsInOrder_closing bracket) hReady₁ hEnds)
      · apply bind_rest
        split
        · rename_i hAhead
          exact lastItem hExpr hAhead
        · apply (hExpr 0 .container s₁ hReady₁).bind
          intro item s₂ hSettled
          apply (skipLineEnds_settled hSettled).bind
          intro _ s₃ hSettled₃
          apply eatComma hSettled₃
          intro comma s₄ hSettled₄
          cases comma with
          | none => exact pure hSettled₄
          | some _ =>
              apply (ih fun hLive => (hSettled₄ hLive).toReady).bind
              intro more s₅ hEnd
              exact pure hEnd

theorem items
    (hExpr : Careful all expr)
    (bracket : Bracket)
    (hReady : Live s → Ready all s.rest) :
    Watches all (reaches (Settled all))
      (Parse.items expr (.closing bracket)) s :=
  bind_rest (itemsFor hExpr bracket hReady)

theorem enclosed
    (hExpr : Careful all expr)
    (hRest : s.rest = l :: ms)
    (hApart : l.kind.isApart = true)
    (bracket : Bracket) :
    Watches all (reaches (Settled all))
      (Parse.enclosed expr bracket) s := by
  apply bind_currentSpan_of_cons hRest
  apply bind_skip_one hRest
  intro s₁ _ hBehind
  apply (items hExpr bracket fun _ => hBehind.ready hApart).bind
  intro found s₂ hSettled
  exact close (.bracket bracket) (hBehind.covers hApart)
    fun hLive => (hSettled hLive).toClosable

theorem container
    {form : List Node → Form Node}
    (hExpr : Careful all expr)
    (hRest : s.rest = l :: ms)
    (hApart : l.kind.isApart = true)
    (bracket : Bracket) :
    Watches all (reaches (Settled all))
      (Parse.container expr bracket form) s := by
  apply (enclosed hExpr hRest hApart bracket).bind
  rintro ⟨found, span⟩ s₁ hSettled
  exact pure hSettled

------------------------------------------------------------
-- Parentheses
------------------------------------------------------------

theorem parenthesized
    (hExpr : Careful all expr)
    (hRest : s.rest = l :: ms)
    (hApart : l.kind.isApart = true) :
    Watches all (reaches (Settled all))
      (Parse.parenthesized expr) s := by
  apply bind_currentSpan_of_cons hRest
  apply bind_skip_one hRest
  intro s₁ _ hBehind
  apply (statements hExpr (stopsInOrder_closing .parenthesis)
    (hBehind.ready hApart).digits).bind
  intro body s₂ hClosable
  apply (close (.bracket .parenthesis) (hBehind.covers hApart)
    fun hLive => hClosable hLive.2).bind
  rintro ⟨found, span⟩ s₃ hSettled
  exact pure hSettled

------------------------------------------------------------
-- Maps
------------------------------------------------------------

theorem entriesAfter
    (hExpr : Careful all expr)
    (first : Node)
    (hSettled : Live s → Settled all s.rest) :
    Watches all (reaches (Settled all))
      (Parse.entriesAfter expr first) s := by
  apply eatComma hSettled
  intro comma s₁ hSettled₁
  cases comma with
  | none => exact pure hSettled₁
  | some _ =>
      apply (items hExpr .curly
        fun hLive => (hSettled₁ hLive).toReady).bind
      intro more s₂ hEnd
      exact pure hEnd

theorem entriesFrom
    (hExpr : Careful all expr)
    (hReady : Live s → Ready all s.rest) :
    Watches all (reaches (Settled all))
      (Parse.entriesFrom expr) s := by
  apply (hExpr _ .container s hReady).bind
  intro first s₁ hSettled
  apply (skipLineEnds_settled hSettled).bind
  intro _ s₂ hSettled₂
  apply bind_eat
  · intro pipe s₃ hKind hBehind
    have hApart : pipe.kind.isApart = true := by
      rw [hKind]
      rfl
    apply (items hExpr .curly
      fun _ => hBehind.ready hApart).bind
    intro more s₄ hEnd
    exact pure hEnd
  · intro _
    exact entriesAfter hExpr first hSettled₂

theorem entries
    (hExpr : Careful all expr)
    (hReady : Live s → Ready all s.rest) :
    Watches all (reaches (Settled all)) (Parse.entries expr)
      s := by
  apply (skipLineEnds_ready hReady).bind
  intro _ s₁ hReady₁
  apply bind_rest
  split
  · exact entriesFrom hExpr hReady₁
  · apply (items hExpr .curly hReady₁).bind
    intro found s₂ hEnd
    exact pure hEnd

theorem mapBody
    (hExpr : Careful all expr)
    (hRest : s.rest = l :: ms)
    (hApart : l.kind.isApart = true) :
    Watches all (reaches (Settled all)) (Parse.mapBody expr)
      s := by
  apply bind_currentSpan_of_cons hRest
  apply bind_skip_one hRest
  intro s₁ _ hBehind
  apply (entries hExpr fun _ => hBehind.ready hApart).bind
  rintro ⟨update, found⟩ s₂ hSettled
  apply (close (.bracket .curly) (hBehind.covers hApart)
    fun hLive => (hSettled hLive).toClosable).bind
  rintro ⟨found, span⟩ s₃ hEnd
  exact pure hEnd

------------------------------------------------------------
-- Structs
------------------------------------------------------------

theorem structSegments
    (name : Node)
    (hSettled : Live s → Settled all s.rest) :
    Watches all (reaches (Settled all))
      (Parse.structSegments k name) s := by
  induction k generalizing s name with
  | zero => exact reaches_cutOff
  | succ k ih =>
      rw [structSegments_succ]
      apply bind_rest
      cases hSegment : segmentAhead? s.rest with
      | none => exact pure hSettled
      | some segment =>
          rcases exists_of_segmentAhead? hSegment with
            ⟨dot, back, hRest, _, hKind⟩
          apply of_watched
          intro hWatched
          apply bind_skip 2
          apply ih
          intro _
          have hBehind : Behind all segment (s.advance 2).rest := by
            change Behind all segment (s.rest.drop 2)
            rw [hRest]
            exact @Watched.behind_advance all segment s _ [dot]
              hWatched hRest
          apply hBehind.settled
          rw [hKind]
          rfl

theorem structAttribute
    (hRest : s.rest = l :: ms)
    (hKind : l.kind = .operator .atSign) :
    Watches all (reaches (Settled all))
      (Parse.structAttribute l) s := by
  apply bind_skip_one hRest
  intro s₁ _ hBehind
  have hSettles : l.kind.settles = true := by
    rw [hKind]
    rfl
  apply (expect .identifier .attributeName
    fun _ => hBehind.settled hSettles).bind
  rintro (e | m) s₂ hFound
  · exact reaches_of_noted (pure hFound)
  · apply pure
    intro _
    apply hFound.2.settled
    rw [hFound.1]
    rfl

theorem structHead
    (hSettled : Live s → Settled all s.rest) :
    Watches all (reaches (Settled all)) Parse.structHead s := by
  apply bind_peek
  cases hRest : s.rest with
  | nil =>
      apply reaches_of_noted
      apply (errorNode_of_nil .unexpectedEnd
        (fun hLive => (hSettled hLive).toReady) hRest).bind
      intro e s₁ hNoted
      exact pure hNoted
  | cons l ms =>
      simp only [List.head?_cons]
      split
      · rename_i hKind
        apply bind_skip_one hRest
        intro s₁ _ hBehind
        apply pure
        intro _
        apply hBehind.settled
        rw [hKind]
        rfl
      · rename_i hKind
        apply bind_skip_one hRest
        intro s₁ _ hBehind
        apply pure
        intro _
        apply hBehind.settled
        rw [hKind]
        rfl
      · rename_i hKind
        exact structAttribute hRest hKind
      · apply reaches_of_noted
        apply (wantedNode .structName hSettled).bind
        intro e s₁ hNoted
        exact pure hNoted

theorem structName
    (hSettled : Live s → Settled all s.rest) :
    Watches all (reaches (Settled all)) Parse.structName s := by
  apply (structHead hSettled).bind
  rintro (e | name) s₁ hHead
  · exact pure hHead
  · exact bind_rest (structSegments name hHead)

theorem structOrMap
    (hExpr : Careful all expr)
    (hRest : s.rest = l :: ms)
    (hSettles : l.kind.settles = true) :
    Watches all (reaches (Settled all))
      (Parse.structOrMap expr) s := by
  have hBody : ∀ (f : Entries Node × Span → Node) s',
      s'.rest.head?.any (·.kind == .opening .curly) = true →
        Watches all (reaches (Settled all))
          (do return f (← Parse.mapBody expr)) s' := by
    intro f s' hAt
    rcases exists_of_isAt hAt with ⟨m, ns, hRest', hKind⟩
    have hApart : m.kind.isApart = true := by
      rw [hKind]
      rfl
    apply (mapBody hExpr hRest' hApart).bind
    intro body s₁ hSettled
    exact pure hSettled
  apply bind_currentSpan_of_cons hRest
  apply bind_skip_one hRest
  intro s₁ _ hBehind
  apply bind_isAt
  split
  · rename_i hAt
    exact hBody _ s₁ hAt
  · apply (structName fun _ => hBehind.settled hSettles).bind
    intro name s₂ hSettled
    apply bind_isAt
    split
    · rename_i hAt
      exact hBody _ s₂ hAt
    · exact reaches_wantedNode _ hSettled

end Watches

end ElixirReader
