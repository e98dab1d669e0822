import ElixirReader.Proofs.Errors.Calls
import ElixirReader.Proofs.Spans.Blocks

/-
  This file follows places through calls: their arguments and
  do blocks, what stands behind a dot, and keys in brackets.
  What follows a name trails it, and the span of the call goes
  from the name or receiver to the end of what follows.

  Key definitions include:
    * `Trails`
    * `BehindName`

  Main declarations:
    * `Trails.call`
    * `Proceeds.callSuffix`
    * `Proceeds.dotted`
    * `Proceeds.access`
-/

namespace ElixirReader

open Parse

variable {a c k : Nat}
variable {l : Lexeme}
variable {ls : List Lexeme}
variable {s : ParseState}
variable {expr : ExpressionParser}
variable {context : Context}

------------------------------------------------------------
-- What trails a name
------------------------------------------------------------

/-
  The arguments and the do block of a call lie behind an
  offset, up to the end of the last of them.
-/
def Trails
    (a : Nat)
    (suffix : Suffix)
    (b : Nat) : Prop :=
  ¬ HasError suffix.nodes →
    a ≤ suffix.last.start ∧ Laid a suffix.nodes suffix.last.stop ∧
      suffix.last.stop ≤ b

namespace Trails

variable {b : Nat}
variable {suffix : Suffix}

theorem of_le
    {a' : Nat}
    (hTrails : Trails a suffix b)
    (hLe : a' ≤ a) :
    Trails a' suffix b := by
  intro hNone
  rcases hTrails hNone with ⟨hStart, hLaid, hStop⟩
  exact ⟨Nat.le_trans hLe hStart,
    hLaid.mono hLe (Nat.le_refl _), hStop⟩

/- Arguments in brackets. -/
theorem of_holds
    {arguments : List Node}
    {last : Span}
    (hHolds : Holds a last arguments b) :
    Trails a ⟨arguments, true, none, last⟩ b := by
  have hNodes :
      Suffix.nodes ⟨arguments, true, none, last⟩ = arguments := by
    simp [Suffix.nodes]
  unfold Trails
  rw [hNodes]
  intro hNone
  rcases hHolds hNone with ⟨hStart, hLaid, hStop⟩
  exact ⟨hStart, hLaid.mono hStart (Nat.le_refl _), hStop⟩

/- A name without arguments. -/
theorem bare
    {name : Span}
    (hHolds : Holds a name [] b) :
    Trails a (Suffix.bare name) b := by
  intro _
  rcases hHolds hasError_nil with ⟨hStart, hLaid, hStop⟩
  exact ⟨hStart, hLaid.mono hStart (Nat.le_refl _), hStop⟩

/- A call holds its target and all that trails it. -/
theorem call
    {start : Span}
    (target : Target Node)
    (hTarget : Holds a start target.nodes c)
    (hTrails : Trails c suffix b) :
    Fits a [suffix.call target start] b := by
  apply Holds.fits _ rfl
  have hNodes :
      (Form.call target suffix.arguments suffix.parentheses
          suffix.doBlock).nodes =
        target.nodes ++ suffix.nodes := by
    simp [Form.nodes, Suffix.nodes]
  rw [hNodes]
  intro hNone
  rw [hasError_append, not_or] at hNone
  rcases hTarget hNone.1 with ⟨hStart, hFirst, hStop⟩
  rcases hTrails hNone.2 with ⟨hBegin, hSecond, hEnd⟩
  have hLe := hFirst.le
  have hLater := hSecond.le
  rw [Span.start_merge, Span.stop_merge]
  refine ⟨by omega, ?_, by omega⟩
  refine Laid.append_iff.mpr ⟨c, ?_, ?_⟩
  · exact hFirst.mono (by omega) hStop
  · exact hSecond.mono (Nat.le_refl _) (by omega)

end Trails

------------------------------------------------------------
-- Arguments
------------------------------------------------------------

/-
  Arguments without a do block trail a name, but where there
  are none a do block may have to come first.
-/
structure BehindName
    (a : Nat)
    (context : Context)
    (suffix : Suffix)
    (s' : ParseState) : Prop where
  doBlock : suffix.doBlock = none
  arguments : Fits a suffix.arguments s'.reach
  trails :
    Trails a suffix s'.reach ∨
      (context.doBlocks &&
        s'.rest.head?.any (·.kind == .word .do)) = true

namespace Proceeds

/- There is at least one argument, if any may be taken. -/
theorem argumentsFor
    (hExpr : Orderly expr) :
    Proceeds
      (fun ns s' => Fits s.reach ns s'.reach ∧
        (k ≠ 0 → ns ≠ []))
      (Parse.argumentsFor expr context k) s := by
  induction k generalizing s with
  | zero =>
      apply cutOff
      intro s' hSame
      exact ⟨.nil (Nat.le_of_eq hSame.symm),
        fun hNe => absurd rfl hNe⟩
  | succ k ih =>
      apply bind_rest
      split
      · rename_i hAhead
        apply (keywords hExpr hAhead).bind
        intro pairs s₁ _ _ hPairs
        exact pure ⟨hPairs, fun _ => List.cons_ne_nil _ _⟩
      · apply (hExpr 0 .argument s).bind
        intro argument s₁ _ _ hArgument
        apply bind_isAt
        split
        · rename_i hComma
          rw [Bool.and_eq_true] at hComma
          rcases exists_of_isAt hComma.2 with ⟨l, ls, hRest, _⟩
          apply bind_skip_one hRest
          intro s₂ _ _ hSkip _
          apply skipLineEnds.bind
          intro _ s₃ _ hLines _
          apply ih.bind
          rintro more s₄ _ _ ⟨hMore, _⟩
          have hFirst : Fits s.reach [argument] s₃.reach :=
            Fits.mono hArgument (Nat.le_refl _)
              (hSkip.trans hLines).reach
          exact pure ⟨hFirst.cons hMore,
            fun _ => List.cons_ne_nil _ _⟩
        · exact pure ⟨hArgument, fun _ => List.cons_ne_nil _ _⟩

theorem openSuffix
    (hExpr : Orderly expr) :
    Proceeds (BehindName s.reach context)
      (Parse.openSuffix expr context) s := by
  apply bind_rest
  apply (argumentsFor hExpr).bind
  rintro arguments s₁ _ _ ⟨hArguments, hNe⟩
  apply bind_previousSpan
  apply pure
  refine ⟨rfl, hArguments, .inl ?_⟩
  -- The last argument ends all of them.
  cases hLast : arguments.getLast? with
  | none =>
      exact absurd (List.getLast?_eq_none_iff.mp hLast)
        (hNe (Nat.succ_ne_zero _))
  | some last =>
      rcases List.getLast?_eq_some_iff.mp hLast with
        ⟨front, rfl⟩
      have hNodes :
          Suffix.nodes ⟨front ++ [last], false, none,
              last.span⟩ =
            front ++ [last] := by
        simp [Suffix.nodes]
      change Trails s.reach
        ⟨front ++ [last], false, none, last.span⟩ s₁.reach
      unfold Trails
      rw [hNodes]
      intro hNone
      rcases Laid.append_iff.mp (hArguments hNone) with
        ⟨d, hFront, hEnd⟩
      rcases Laid.singleton_iff.mp hEnd with
        ⟨hStart, hStop, hLaminar⟩
      refine ⟨Nat.le_trans hFront.le hStart, ?_, hStop⟩
      refine Laid.append_iff.mpr ⟨d, hFront, ?_⟩
      exact Laid.singleton_iff.mpr
        ⟨hStart, Nat.le_refl _, hLaminar⟩

theorem callArguments
    (hExpr : Orderly expr) :
    Proceeds
      (fun found s' => ∀ suffix, found = some suffix →
        BehindName s.reach context suffix s')
      (Parse.callArguments expr context) s := by
  apply bind_rest
  split
  · rename_i hTouching
    rcases exists_of_head?_any hTouching with ⟨l, ls, hRest, _⟩
    have hSuffix : Proceeds (BehindName s.reach context)
        (Parse.parenthesizedSuffix expr) s := by
      apply (enclosed hExpr hRest .parenthesis).bind
      rintro ⟨arguments, span⟩ s₁ _ _ hHeld
      apply pure
      exact ⟨rfl, Holds.inside hHeld, .inl (.of_holds hHeld)⟩
    apply hSuffix.bind
    intro suffix s₁ _ _ hBehind
    apply pure
    intro suffix' hSome
    cases hSome
    exact hBehind
  · split
    · apply (openSuffix hExpr).bind
      intro suffix s₁ _ _ hSuffix
      apply pure
      intro suffix' hSome
      cases hSome
      exact hSuffix
    · split
      · rename_i hDo
        apply bind_currentSpan
        apply pure
        intro suffix hSome
        cases hSome
        exact ⟨rfl, Fits.nil (Nat.le_refl _), .inr hDo⟩
      · apply pure
        intro suffix hSome
        cases hSome

theorem attachDo
    {suffix : Suffix}
    (hExpr : Orderly expr)
    (hBehind : BehindName a context suffix s) :
    Proceeds (fun suffix s' => Trails a suffix s'.reach)
      (Parse.attachDo expr context suffix) s := by
  apply bind_isAt
  split
  · rename_i hDo
    rw [Bool.and_eq_true] at hDo
    rcases exists_of_isAt hDo.2 with ⟨l, ls, hRest, _⟩
    apply (doBlock hExpr hRest).bind
    intro b s₁ _ _ hBlock
    apply pure
    have hNodes :
        Suffix.nodes
            { suffix with doBlock := some b, last := b.span } =
          suffix.arguments ++ b.nodes := by
      simp [Suffix.nodes]
    unfold Trails
    rw [hNodes]
    intro hNone
    rw [hasError_append, not_or] at hNone
    have hFirst := hBehind.arguments hNone.1
    rcases hBlock hNone.2 with ⟨hStart, hLaid, hStop⟩
    have hLe := hFirst.le
    refine ⟨Nat.le_trans hLe hStart, ?_, hStop⟩
    exact Laid.append_iff.mpr
      ⟨s.reach, hFirst, hLaid.mono hStart (Nat.le_refl _)⟩
  · rename_i hNot
    rcases hBehind.trails with hTrails | hDo
    · exact pure hTrails
    · exact absurd hDo hNot

/- All that follows the name of a call trails it. -/
theorem callSuffix
    (hExpr : Orderly expr) :
    Proceeds
      (fun found s' => ∀ suffix, found = some suffix →
        Trails s.reach suffix s'.reach)
      (Parse.callSuffix expr context) s := by
  apply (callArguments hExpr).bind
  rintro (_ | suffix) s₁ _ _ hBehind
  · apply pure
    intro suffix hSome
    cases hSome
  · apply (attachDo hExpr (hBehind suffix rfl)).bind
    intro suffix' s₂ _ _ hTrails
    apply pure
    intro suffix'' hSome
    cases hSome
    exact hTrails

theorem identifier
    {name : Lexeme}
    (hExpr : Orderly expr)
    (hName : Holds a name.span [] s.reach) :
    Proceeds (laid nodeOf a) (Parse.identifier expr context name)
      s := by
  apply (callSuffix hExpr).bind
  rintro (_ | suffix) s₁ _ hOnward hTrails
  · apply pure
    exact Holds.fits (f := .identifier name.text)
      (hName.mono (Nat.le_refl a) hOnward.reach) rfl
  · apply pure
    exact Trails.call (.bare name.text) hName
      (hTrails suffix rfl)

------------------------------------------------------------
-- Dots
------------------------------------------------------------

theorem remoteCall
    {receiver : Node}
    {nameSpan : Span}
    (hExpr : Orderly expr)
    (hReceiver : Fits a [receiver] c)
    (hName : Holds c nameSpan [] s.reach)
    (name : String)
    (dot : Span) :
    Proceeds (laid nodeOf a)
      (Parse.remoteCall expr context receiver name dot nameSpan)
      s := by
  apply (callSuffix hExpr).bind
  rintro (_ | suffix) s₁ _ hOnward hTrails
  · apply pure
    exact Trails.call (.remote receiver name dot nameSpan)
      hReceiver.holds
      (.bare (hName.mono (Nat.le_refl c) hOnward.reach))
  · apply pure
    have hLe := (Holds.inside hName hasError_nil).le
    exact Trails.call (.remote receiver name dot nameSpan)
      hReceiver.holds ((hTrails suffix rfl).of_le hLe)

theorem quotedRemote
    {receiver : Node}
    (hExpr : Orderly expr)
    (hReceiver : Fits a [receiver] s.reach)
    (hRest : s.rest = l :: ls)
    (dot : Span) :
    Proceeds (laid nodeOf a)
      (Parse.quotedRemote expr context receiver dot) s := by
  apply (text hExpr hRest).bind
  rintro ⟨t, nameSpan⟩ s₁ _ _ hQuotes
  have hHolds : Holds s.reach nameSpan t.nodes s₁.reach :=
    hQuotes.holds
  simp only
  split
  · rename_i name hLiteral
    rw [nodes_of_literal? hLiteral] at hHolds
    exact remoteCall hExpr hReceiver hHolds name dot
  · exact laid_of_containsError (failure _ _ _)

theorem enclosedCall
    {start : Span}
    (hExpr : Orderly expr)
    (target : Target Node)
    (hTarget : Holds a start target.nodes s.reach)
    (hRest : s.rest = l :: ls)
    (bracket : Bracket) :
    Proceeds (laid nodeOf a)
      (Parse.enclosedCall expr bracket target start) s := by
  apply (enclosed hExpr hRest bracket).bind
  rintro ⟨arguments, last⟩ s₁ _ _ hHeld
  apply pure
  exact Trails.call target hTarget (.of_holds hHeld)

theorem afterDot
    {receiver : Node}
    (hExpr : Orderly expr)
    (hReceiver : Fits a [receiver] s.reach)
    (hRest : s.rest = l :: ls)
    (dot : Span) :
    Proceeds (laid nodeOf a)
      (Parse.afterDot expr context receiver dot l) s := by
  unfold Parse.afterDot
  split
  · apply bind_skip_one hRest
    intro s₁ _ _ _ hTook
    exact remoteCall hExpr hReceiver hTook.holds l.text dot
  · apply bind_skip_one hRest
    intro s₁ _ _ _ hTook
    exact pure (hReceiver.extendAlias hTook.holds)
  · exact enclosedCall hExpr (.anonymous receiver dot)
      hReceiver.holds hRest .parenthesis
  · exact enclosedCall hExpr
      (.remote receiver "\x7b\x7d" dot l.span) hReceiver.holds
      hRest .curly
  · split
    · exact quotedRemote hExpr hReceiver hRest dot
    · exact laid_of_containsError (wantedNode _)

theorem dotted
    {receiver : Node}
    (hExpr : Orderly expr)
    (hReceiver : Fits a [receiver] s.reach)
    (hRest : s.rest = l :: ls) :
    Proceeds (laid nodeOf a)
      (Parse.dotted expr context receiver) s := by
  apply bind_currentSpan
  apply bind_skip_one hRest
  intro s₁ _ _ hOnward _
  apply bind_peek
  cases hRest₁ : s₁.rest with
  | nil => exact laid_of_containsError (errorNode _)
  | cons m ms =>
      exact afterDot hExpr
        (hReceiver.mono (Nat.le_refl a) hOnward.reach) hRest₁ _

------------------------------------------------------------
-- Access
------------------------------------------------------------

theorem accessKey
    (hExpr : Orderly expr) :
    Proceeds (laid nodeOf s.reach) (Parse.accessKey expr) s := by
  apply skipLineEnds.bind
  intro _ s₁ _ hSkip _
  have hLater : ∀ (n : Node) (s' : ParseState), Fits s₁.reach [n] s'.reach →
      Fits s.reach [n] s'.reach :=
    fun n s' hFits => hFits.mono hSkip.reach (Nat.le_refl _)
  apply bind_rest
  split
  · rename_i hAhead
    exact (keywords hExpr hAhead).mono
      fun n s' _ _ hNode => hLater n s' hNode
  · exact (hExpr 0 .container s₁).mono
      fun n s' _ _ hNode => hLater n s' hNode

theorem closeAccess
    {opened : Span}
    {key : Node}
    (hOpened : opened.start ≤ opened.stop)
    (hKey : Fits opened.stop [key] s.reach) :
    Proceeds (heldIn nodeOf opened.start)
      (Parse.closeAccess opened key) s := by
  apply (expectClosing (.bracket .square) opened).bind
  rintro (e | l) s₁ _ _ hFound
  · apply bind_previousSpan
    apply pure
    intro hNone
    have hError : e.containsError = true := hFound
    simp [hError] at hNone
  · have hTook : Took l s s₁ := hFound
    have hStart := hTook.start
    have hStop := hTook.le
    have hReach := hTook.reach_eq
    apply pure
    intro hNone
    have hLaid := hKey hNone
    have hLe := hLaid.le
    simp only [Span.start_merge, Span.stop_merge]
    refine ⟨by omega, ?_, by omega⟩
    exact hLaid.mono (by omega) (by omega)

theorem access
    {subject : Node}
    (hExpr : Orderly expr)
    (hSubject : Fits a [subject] s.reach)
    (hRest : s.rest = l :: ls) :
    Proceeds (laid nodeOf a) (Parse.access expr subject) s := by
  apply bind_currentSpan_of_cons hRest
  apply bind_skip_one hRest
  intro s₁ _ _ _ hTook
  apply (accessKey hExpr).bind
  intro key s₂ _ _ hKey
  have hInside : Fits l.span.stop [key] s₂.reach := by
    rw [← hTook.reach_eq]
    exact hKey
  apply (closeAccess hTook.le hInside).bind
  rintro ⟨key', last⟩ s₃ _ _ hHeld
  apply pure
  have hBracket : Holds s.reach last [key'] s₃.reach :=
    Holds.mono hHeld hTook.start (Nat.le_refl _)
  exact Holds.fits (f := .access subject key')
    (hSubject.holds_before hBracket) rfl

end Proceeds

end ElixirReader
