import ElixirReader.Proofs.Likeness.Blocks
import ElixirReader.Proofs.Likeness.Terms

/-
  This file lets two runs go side by side through calls: their
  arguments and do blocks, what stands behind a dot, and keys
  in brackets.

  Main declarations:
    * `Mirrors.callSuffix`
    * `Mirrors.identifier`
    * `Mirrors.dotted`
    * `Mirrors.access`
-/

namespace ElixirReader

open Parse
open Placed (unplaced)

variable {deep : Bool}
variable {k m : Nat}
variable {ds : Nest}
variable {l l' : Lexeme}
variable {ls ls' : List Lexeme}
variable {s s' : ParseState}
variable {b : Bracket}
variable {context : Context}

------------------------------------------------------------
-- Suffixes
------------------------------------------------------------

instance : Placed Suffix :=
  ⟨fun s => ⟨unplaced s.arguments, s.parentheses,
    unplaced s.doBlock, Span.none⟩⟩

theorem Alike.suffix
    {args args' : List Node}
    {doBlock doBlock' : Option (DoBlock Node)}
    (parentheses : Bool)
    (last last' : Span)
    (hArgs : Alike args args')
    (hBlock : Alike doBlock doBlock') :
    Alike (⟨args, parentheses, doBlock, last⟩ : Suffix)
      ⟨args', parentheses, doBlock', last'⟩ := by
  change Suffix.mk _ _ _ _ = Suffix.mk _ _ _ _
  rw [hArgs, hBlock]

theorem Alike.call
    {suffix suffix' : Suffix}
    {target target' : Target Node}
    (start start' : Span)
    (hTarget : Alike target target')
    (hSuffix : Alike suffix suffix') :
    Alike (suffix.call target start)
      (suffix'.call target' start') := by
  rcases suffix with ⟨args, parentheses, doBlock, last⟩
  rcases suffix' with ⟨args', parentheses', doBlock', last'⟩
  rcases Suffix.mk.inj hSuffix with ⟨hArgs, rfl, hBlock, _⟩
  refine .node _ _ ?_
  change unplaced _ = unplaced _
  simp [show unplaced target = unplaced target' from hTarget,
    hArgs, hBlock]

/- No argument starts with a range. -/
theorem Tight.begins_of_argumentAhead
    (hTight : Tight ls ls')
    (hAhead : argumentAhead ls = true) :
    Begins ls ls' := by
  apply (Heads.of_tight hTight).begins
  rintro l ms rfl hRange
  simp [argumentAhead, hRange, Kind.startsArgument,
    Kind.startsOperand] at hAhead

namespace Mirrors

variable {expr expr' : ExpressionParser}
variable [∀ precedence context, Retains (expr precedence context)]
variable [∀ precedence context, Retains (expr' precedence context)]

------------------------------------------------------------
-- Arguments
------------------------------------------------------------

theorem argumentsFor
    (hExpr : Mirrored deep expr expr')
    (hPaired : Paired ds Begins s s')
    (hCode : ds.isCode = true) :
    Mirrors deep (alike ds Tight) (Parse.argumentsFor expr context k)
      (Parse.argumentsFor expr' context m) s s' := by
  induction k generalizing m s s' with
  | zero => exact cutOff_left
  | succ k ih =>
      cases m with
      | zero => exact cutOff_right
      | succ m =>
          have hHeads := hPaired.heads_of_begins
          apply bind_rest
          rw [hHeads.place.keywordAhead_eq]
          split
          · rename_i hKey
            apply (keywords hExpr hHeads hCode hKey).bind
            rintro pairs pairs' t t' ⟨hPairs, hTight⟩
            exact pure ⟨Alike.cons_iff.mpr ⟨hPairs, rfl⟩, hTight⟩
          · apply (hExpr ds 0 .argument s s' hCode hPaired).bind
            rintro arg arg' t t' ⟨hArg, hTight⟩
            have hNext := hTight.heads_of_tight
            apply bind_isAt hNext.place
            split
            · rename_i hMany
              rw [Bool.and_eq_true] at hMany
              rcases exists_of_isAt hMany.2 with ⟨l, ls, hRest, hKind⟩
              rcases hNext.take_awaits hCode hRest
                (by rw [hKind]; rfl) (by rw [hKind]; rfl) with
                ⟨_, _, _, _, hAwaits⟩
              apply bind_skip
              apply bind_skipLineEnds_begins
                (hAwaits.mono Awaits.afresh) hCode
              intro u u' hBegins
              apply (ih hBegins).bind
              rintro more more' v v' ⟨hMore, hTight'⟩
              exact pure ⟨Alike.cons_iff.mpr ⟨hArg, hMore⟩, hTight'⟩
            · exact pure ⟨Alike.cons_iff.mpr ⟨hArg, rfl⟩, hTight⟩

theorem parenthesizedSuffix
    (hExpr : Mirrored deep expr expr')
    (hPaired : Paired ds Heads s s')
    (hCode : ds.isCode = true)
    (hRest : s.rest = l :: ls)
    (hKind : l.kind = .opening .parenthesis) :
    Mirrors deep (alike ds Tight) (Parse.parenthesizedSuffix expr)
      (Parse.parenthesizedSuffix expr') s s' := by
  apply (enclosed hExpr hPaired hCode hRest hKind).bind
  rintro ⟨args, span⟩ ⟨args', span'⟩ t t' ⟨hArgs, hTight⟩
  exact pure ⟨.suffix _ _ _ hArgs.fst rfl, hTight⟩

theorem openSuffix
    (hExpr : Mirrored deep expr expr')
    (hPaired : Paired ds Begins s s')
    (hCode : ds.isCode = true) :
    Mirrors deep (alike ds Tight) (Parse.openSuffix expr context)
      (Parse.openSuffix expr' context) s s' := by
  apply bind_rest
  apply (argumentsFor hExpr hPaired hCode).bind
  rintro args args' t t' ⟨hArgs, hTight⟩
  apply bind_previousSpan
  intro previous previous'
  exact pure ⟨.suffix _ _ _ hArgs rfl, hTight⟩

theorem attachDo
    {suffix suffix' : Suffix}
    (hExpr : Mirrored deep expr expr')
    (hPaired : Paired ds Tight s s')
    (hCode : ds.isCode = true)
    (hSuffix : Alike suffix suffix') :
    Mirrors deep (alike ds Tight) (Parse.attachDo expr context suffix)
      (Parse.attachDo expr' context suffix') s s' := by
  have hHeads := hPaired.heads_of_tight
  apply bind_isAt hHeads.place
  split
  · rename_i hDo
    rw [Bool.and_eq_true] at hDo
    rcases exists_of_isAt hDo.2 with ⟨l, ls, hRest, hKind⟩
    apply (doBlock hExpr hHeads hCode hRest hKind).bind
    rintro b b' t t' ⟨hBlock, hTight⟩
    rcases suffix with ⟨args, parentheses, doBlock, last⟩
    rcases suffix' with ⟨args', parentheses', doBlock', last'⟩
    rcases Suffix.mk.inj hSuffix with ⟨hArgs, rfl, _⟩
    exact pure ⟨.suffix _ _ _ hArgs (Alike.some_iff.mpr hBlock),
      hTight⟩
  · exact pure ⟨hSuffix, hPaired⟩

theorem callArguments
    (hExpr : Mirrored deep expr expr')
    (hPaired : Paired ds Tight s s')
    (hCode : ds.isCode = true) :
    Mirrors deep (alike ds Tight) (Parse.callArguments expr context)
      (Parse.callArguments expr' context) s s' := by
  have hHeads := hPaired.heads_of_tight
  have hTouches :
      (s'.rest.head?.any fun l =>
          l.kind == .opening .parenthesis && !l.spaced) =
        s.rest.head?.any fun l =>
          l.kind == .opening .parenthesis && !l.spaced := by
    rcases hPaired.place.cases with
      ⟨hRest, hRest'⟩ |
      ⟨l, l', ls, ls', hRest, hRest', hSame, hSpaced, _⟩
    · rw [hRest, hRest']
    · rw [hRest, hRest', List.head?_cons, List.head?_cons,
        Option.any_some, Option.any_some, ← hSame.kind]
      rcases hSpaced with hLine | hSpaced
      · rw [hLine]
        rfl
      · rw [hSpaced]
  apply bind_rest
  rw [hTouches, hPaired.place.argumentAhead_eq,
    hHeads.place.isSome_head?_eq (· == .word .do)]
  split
  · rename_i hOpens
    rcases exists_of_head?_any hOpens with ⟨l, ls, hRest, hKind⟩
    rw [Bool.and_eq_true, beq_iff_eq] at hKind
    apply (parenthesizedSuffix hExpr hHeads hCode hRest hKind.1).bind
    rintro suffix suffix' t t' ⟨hSuffix, hTight⟩
    exact pure ⟨Alike.some_iff.mpr hSuffix, hTight⟩
  · split
    · rename_i hAhead
      have hBegins : Paired ds Begins s s' := hPaired.mono fun h =>
        h.begins_of_argumentAhead hAhead
      apply (openSuffix hExpr hBegins hCode).bind
      rintro suffix suffix' t t' ⟨hSuffix, hTight⟩
      exact pure ⟨Alike.some_iff.mpr hSuffix, hTight⟩
    · split
      · apply bind_currentSpan
        intro last last'
        exact pure ⟨Alike.some_iff.mpr (.suffix _ _ _ rfl rfl),
          hPaired⟩
      · exact pure ⟨rfl, hPaired⟩

theorem callSuffix
    (hExpr : Mirrored deep expr expr')
    (hPaired : Paired ds Tight s s')
    (hCode : ds.isCode = true) :
    Mirrors deep (alike ds Tight) (Parse.callSuffix expr context)
      (Parse.callSuffix expr' context) s s' := by
  refine (callArguments hExpr hPaired hCode).bind_of_retains ?_ ?_ ?_
  · intro o
    cases o <;> infer_instance
  · intro o
    cases o <;> infer_instance
  · rintro o o' t t' ⟨hOption, hTight⟩
    rcases hOption.option_cases with
      ⟨rfl, rfl⟩ | ⟨suffix, suffix', rfl, rfl, hSuffix⟩
    · exact pure ⟨rfl, hTight⟩
    · apply (attachDo hExpr hTight hCode hSuffix).bind
      rintro larger larger' u u' ⟨hLarger, hTight'⟩
      exact pure ⟨Alike.some_iff.mpr hLarger, hTight'⟩

theorem identifier
    (hExpr : Mirrored deep expr expr')
    (hPaired : Paired ds Tight s s')
    (hCode : ds.isCode = true)
    (hText : l.text = l'.text) :
    Mirrors deep (alike ds Tight) (Parse.identifier expr context l)
      (Parse.identifier expr' context l') s s' := by
  refine (callSuffix hExpr hPaired hCode).bind_of_retains ?_ ?_ ?_
  · intro o
    cases o <;> infer_instance
  · intro o
    cases o <;> infer_instance
  · rintro o o' t t' ⟨hOption, hTight⟩
    rcases hOption.option_cases with
      ⟨rfl, rfl⟩ | ⟨suffix, suffix', rfl, rfl, hSuffix⟩
    · exact pure ⟨.node _ _ (congrArg Form.identifier hText),
        hTight⟩
    · refine pure ⟨.call _ _ ?_ hSuffix, hTight⟩
      exact congrArg Target.bare hText

------------------------------------------------------------
-- Dots
------------------------------------------------------------

variable {receiver receiver' : Node}

theorem remoteCall
    {name name' : String}
    (dot dot' nameSpan nameSpan' : Span)
    (hExpr : Mirrored deep expr expr')
    (hPaired : Paired ds Tight s s')
    (hCode : ds.isCode = true)
    (hReceiver : Alike receiver receiver')
    (hName : name = name') :
    Mirrors deep (alike ds Tight)
      (Parse.remoteCall expr context receiver name dot nameSpan)
      (Parse.remoteCall expr' context receiver' name' dot' nameSpan')
      s s' := by
  apply (callSuffix hExpr hPaired hCode).bind
  rintro o o' t t' ⟨hOption, hTight⟩
  refine pure ⟨.call _ _ ?_ ?_, hTight⟩
  · subst hName
    exact congrArg (fun n => Target.remote n name Span.none Span.none)
      hReceiver
  · rcases hOption.option_cases with
      ⟨rfl, rfl⟩ | ⟨suffix, suffix', rfl, rfl, hSuffix⟩
    · exact .suffix _ _ _ rfl rfl
    · exact hSuffix

theorem quotedRemote
    {f : Family}
    {layout : Layout}
    (dot dot' : Span)
    (hExpr : Mirrored deep expr expr')
    (hPaired : Paired ds Heads s s')
    (hCode : ds.isCode = true)
    (hRest : s.rest = l :: ls)
    (hKind : l.kind = .promoter f layout)
    (hReceiver : Alike receiver receiver') :
    Mirrors deep (alike ds Tight)
      (Parse.quotedRemote expr context receiver dot)
      (Parse.quotedRemote expr' context receiver' dot') s s' := by
  refine (text hExpr hPaired hCode hRest hKind).bind_of_retains
    ?_ ?_ ?_
  · rintro ⟨t, span⟩
    dsimp only
    split <;> infer_instance
  · rintro ⟨t, span⟩
    dsimp only
    split <;> infer_instance
  · rintro ⟨t, span⟩ ⟨t', span'⟩ u u' ⟨hText, hTight⟩
    have hLiteral : t'.literal? = t.literal? :=
      hText.fst.literal?_eq.symm
    dsimp only
    rw [hLiteral]
    split
    · exact remoteCall _ _ _ _ hExpr hTight hCode hReceiver rfl
    · exact of_fails hTight fun hClean =>
        errors_report_ne _ _ hClean

theorem enclosedCall
    {target target' : Target Node}
    (start start' : Span)
    (hExpr : Mirrored deep expr expr')
    (hPaired : Paired ds Heads s s')
    (hCode : ds.isCode = true)
    (hRest : s.rest = l :: ls)
    (hKind : l.kind = .opening b)
    (hTarget : Alike target target') :
    Mirrors deep (alike ds Tight)
      (Parse.enclosedCall expr b target start)
      (Parse.enclosedCall expr' b target' start') s s' := by
  apply (enclosed hExpr hPaired hCode hRest hKind).bind
  rintro ⟨args, last⟩ ⟨args', last'⟩ t t' ⟨hArgs, hTight⟩
  exact pure ⟨.call _ _ hTarget (.suffix _ _ _ hArgs.fst rfl), hTight⟩

theorem afterDot
    (dot dot' : Span)
    (hExpr : Mirrored deep expr expr')
    (hPaired : Paired ds Heads s s')
    (hCode : ds.isCode = true)
    (hRest : s.rest = l :: ls)
    (hSame : l.Same l')
    (hReceiver : Alike receiver receiver') :
    Mirrors deep (alike ds Tight)
      (Parse.afterDot expr context receiver dot l)
      (Parse.afterDot expr' context receiver' dot' l') s s' := by
  have hTake : l.kind.isOfStatements = true →
      (∀ next, Before.admitsBreak ⟨l.kind, true⟩ next = false) →
        Paired ds Tight (s.advance 1) (s'.advance 1) := by
    intro hKind hAdmits
    rcases hPaired.take_tight hCode hRest hKind hAdmits with
      ⟨_, _, _, _, hTight⟩
    exact hTight
  unfold Parse.afterDot
  rw [← hSame.kind]
  split
  · rename_i hKind
    rw [hKind] at hTake
    apply bind_skip
    exact remoteCall _ _ _ _ hExpr (hTake rfl fun _ => rfl) hCode
      hReceiver (hSame.text_of hKind (by simp))
  · rename_i hKind
    rw [hKind] at hTake
    apply bind_skip
    exact pure ⟨hReceiver.extendAlias (hSame.text_of hKind (by simp)),
      hTake rfl fun _ => rfl⟩
  · rename_i hKind
    apply enclosedCall _ _ hExpr hPaired hCode hRest hKind
    exact congrArg (fun n => Target.anonymous n Span.none) hReceiver
  · rename_i hKind
    apply enclosedCall _ _ hExpr hPaired hCode hRest hKind
    exact congrArg
      (fun n => Target.remote n "\x7b\x7d" Span.none Span.none)
      hReceiver
  · split
    · rename_i hQuote
      rcases exists_of_isQuotePromoter hQuote with ⟨f, hKind⟩
      exact quotedRemote dot dot' hExpr hPaired hCode hRest hKind
        hReceiver
    · exact wantedNode _ hPaired

theorem dotted
    (hExpr : Mirrored deep expr expr')
    (hPaired : Paired ds Heads s s')
    (hCode : ds.isCode = true)
    (hRest : s.rest = l :: ls)
    (hKind : l.kind = .dot)
    (hReceiver : Alike receiver receiver') :
    Mirrors deep (alike ds Tight) (Parse.dotted expr context receiver)
      (Parse.dotted expr' context receiver') s s' := by
  rcases hPaired.take_tight hCode hRest (by rw [hKind]; rfl)
    (fun _ => by rw [hKind]; rfl) with ⟨_, _, _, _, hTight⟩
  have hHeads := hTight.heads_of_tight
  apply bind_currentSpan
  intro dot dot'
  apply bind_skip
  apply bind_peek
  rcases hHeads.head_cases with
    ⟨hNext, hNext'⟩ | ⟨n, n', ms, ms', hNext, hNext', hSame, _⟩
  · rw [hNext, hNext']
    exact errorNode _ hTight
  · rw [hNext, hNext']
    exact afterDot dot dot' hExpr hHeads hCode hNext hSame hReceiver

------------------------------------------------------------
-- Access
------------------------------------------------------------

theorem accessKey
    (hExpr : Mirrored deep expr expr')
    (hPaired : Paired ds Afresh s s')
    (hCode : ds.isCode = true) :
    Mirrors deep (alike ds Tight) (Parse.accessKey expr)
      (Parse.accessKey expr') s s' := by
  apply bind_skipLineEnds_begins hPaired hCode
  intro t t' hBegins
  have hHeads := hBegins.heads_of_begins
  apply bind_rest
  rw [hHeads.place.keywordAhead_eq]
  split
  · rename_i hKey
    exact keywords hExpr hHeads hCode hKey
  · exact hExpr ds 0 .container t t' hCode hBegins

theorem closeAccess
    {key key' : Node}
    (opened opened' : Span)
    (hPaired : Paired ds Tight s s')
    (hCode : ds.isCode = true)
    (hKey : Alike key key') :
    Mirrors deep (alike ds Tight) (Parse.closeAccess opened key)
      (Parse.closeAccess opened' key') s s' := by
  have hClose : Mirrors deep _ _ _ s s' := expectClosing
    (.bracket .square) opened opened' hPaired.loose_of_tight hCode
  refine hClose.bind_of_retains ?_ ?_ ?_
  · intro r
    cases r <;> infer_instance
  · intro r
    cases r <;> infer_instance
  · rintro (e | l) (e' | l') t t' hTook
    · cases hTook
    · cases hTook
    · cases hTook
    · exact pure ⟨.mk hKey rfl, hTook.2.2.mono fun h =>
        h.tight_of_endsOperand rfl⟩

theorem access
    (hExpr : Mirrored deep expr expr')
    (hPaired : Paired ds Heads s s')
    (hCode : ds.isCode = true)
    (hRest : s.rest = l :: ls)
    (hKind : l.kind = .opening .square)
    (hSubject : Alike receiver receiver') :
    Mirrors deep (alike ds Tight) (Parse.access expr receiver)
      (Parse.access expr' receiver') s s' := by
  rcases hPaired.take_awaits hCode hRest (by rw [hKind]; rfl)
    (by rw [hKind]; rfl) with ⟨_, _, _, _, hAwaits⟩
  apply bind_currentSpan
  intro opened opened'
  apply bind_skip
  apply (accessKey hExpr (hAwaits.mono Awaits.afresh) hCode).bind
  rintro key key' t t' ⟨hKey, hTight⟩
  apply (closeAccess opened opened' hTight hCode hKey).bind
  rintro ⟨found, last⟩ ⟨found', last'⟩ u u' ⟨hFound, hTight'⟩
  refine pure ⟨.node _ _ ?_, hTight'⟩
  change unplaced _ = unplaced _
  simp [show unplaced receiver = unplaced receiver' from hSubject,
    show unplaced found = unplaced found' from hFound.fst]

end Mirrors

end ElixirReader
