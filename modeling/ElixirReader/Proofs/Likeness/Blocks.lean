import ElixirReader.Proofs.Likeness.Containers
import ElixirReader.Proofs.Parser.Blocks

/-
  This file lets two runs go side by side through the bodies
  of blocks, and through what consists of those.

  Key definitions include:
    * `sameItem`

  Main declarations:
    * `Mirrors.clauseOrStatement`
    * `Mirrors.bodyFor`
    * `Mirrors.sectionsFor`
    * `Mirrors.fn`
-/

namespace ElixirReader

open Parse
open Placed (unplaced)

variable {deep : Bool}
variable {k m : Nat}
variable {ds : Nest}
variable {l l' : Lexeme}
variable {ls ls' : List Lexeme}
variable {place : List Lexeme → List Lexeme → Prop}
variable {stop : Kind → Bool}
variable {s s' : ParseState}

------------------------------------------------------------
-- Clauses
------------------------------------------------------------

theorem Alike.clause
    {head head' body body' : List Node}
    {guard guard' : Option Node}
    (arrow arrow' : Span)
    (hHead : Alike head head')
    (hGuard : Alike guard guard')
    (hBody : Alike body body') :
    Alike (⟨head, guard, body, arrow⟩ : Clause Node)
      ⟨head', guard', body', arrow'⟩ := by
  change unplaced _ = unplaced _
  rw [unplaced_clause, unplaced_clause, hHead, hGuard, hBody]

/- A last element carries the same guard. -/
theorem Alike.splitGuard
    {head head' : List Node}
    (hHead : Alike head head') :
    Alike (splitGuard head) (splitGuard head') := by
  unfold ElixirReader.Parse.splitGuard
  rcases hHead.getLast?.option_cases with
    ⟨hNone, hNone'⟩ | ⟨n, n', hSome, hSome', hNode⟩
  · rw [hNone, hNone']
    exact .mk hHead rfl
  · rw [hSome, hSome']
    have hForm := hNode.form
    rcases n with ⟨f, span⟩
    rcases n' with ⟨f', span'⟩
    cases f with
    | binary operator left right at' =>
        cases f' with
        | binary operator' left' right' at'' =>
            rcases Form.binary.inj hForm with
              ⟨rfl, hLeft, hRight, _⟩
            dsimp only
            split
            · exact .mk (hHead.dropLast.append
                (cons_iff.mpr ⟨hLeft, rfl⟩)) (some_iff.mpr hRight)
            · exact .mk hHead rfl
        | _ => cases hForm
    | _ => cases f' <;> first | exact .mk hHead rfl | cases hForm

theorem Alike.pushLast
    {n n' : Node}
    {cs cs' : List (Clause Node)}
    (hNode : Alike n n')
    (hClauses : Alike cs cs') :
    Alike (Clause.pushLast n cs) (Clause.pushLast n' cs') := by
  induction cs generalizing cs' with
  | nil =>
      rcases hClauses.list_cases with ⟨_, rfl⟩ | ⟨_, _, _, _, hNil, _⟩
      · rfl
      · cases hNil
  | cons c cs ih =>
      rcases hClauses.list_cases with
        ⟨hNil, _⟩ | ⟨_, _, c', ds, hCons, rfl, hClause, hMore⟩
      · cases hNil
      · cases hCons
        have hTail := ih hMore
        rcases hMore.list_cases with
          ⟨rfl, rfl⟩ | ⟨_, _, _, _, rfl, rfl, _⟩
        · rcases c with ⟨head, guard, body, arrow⟩
          rcases c' with ⟨head', guard', body', arrow'⟩
          rcases Clause.mk.inj hClause with
            ⟨hHead, hGuard, hBody, _⟩
          exact cons_iff.mpr ⟨.clause _ _ hHead hGuard
            (Alike.append hBody (cons_iff.mpr ⟨hNode, rfl⟩)), rfl⟩
        · exact cons_iff.mpr ⟨hClause, hTail⟩

theorem Alike.push
    {n n' : Node}
    {b b' : Body Node}
    (hNode : Alike n n')
    (hBody : Alike b b') :
    Alike (b.push n) (b'.push n') := by
  cases b with
  | expressions ns =>
      cases b' with
      | expressions ns' =>
          have hNodes : Alike ns ns' := Body.expressions.inj hBody
          exact congrArg Body.expressions
            (hNodes.append (cons_iff.mpr ⟨hNode, rfl⟩))
      | clauses cs' => cases hBody
  | clauses cs =>
      cases b' with
      | expressions ns' => cases hBody
      | clauses cs' =>
          have hClauses : Alike cs cs' := Body.clauses.inj hBody
          exact congrArg Body.clauses (hNode.pushLast hClauses)

theorem Alike.foldl_push
    {ns ns' : List Node}
    {b b' : Body Node}
    (hNodes : Alike ns ns')
    (hBody : Alike b b') :
    Alike (ns.foldl (fun b e => b.push e) b)
      (ns'.foldl (fun b e => b.push e) b') := by
  induction ns generalizing ns' b b' with
  | nil =>
      rcases hNodes.list_cases with ⟨_, rfl⟩ | ⟨_, _, _, _, hNil, _⟩
      · exact hBody
      · cases hNil
  | cons n ns ih =>
      rcases hNodes.list_cases with
        ⟨hNil, _⟩ | ⟨_, _, n', ms, hCons, rfl, hNode, hMore⟩
      · cases hNil
      · cases hCons
        rw [List.foldl_cons, List.foldl_cons]
        exact ih hMore (hNode.push hBody)

theorem Alike.bodyOf
    {ns ns' : List Node}
    {cs cs' : List (Clause Node)}
    (hNodes : Alike ns ns')
    (hClauses : Alike cs cs') :
    Alike (bodyOf ns cs) (bodyOf ns' cs') := by
  unfold ElixirReader.Parse.bodyOf
  rw [hClauses.isEmpty_eq]
  split
  · exact congrArg Body.expressions hNodes
  · exact congrArg Body.clauses hClauses

/- Two clauses that are to be continued, or two expressions. -/
def sameItem
    (ds : Nest) : Post Item
| .clause c, .clause c', s, s' =>
    Alike c c' ∧ Paired ds Awaits s s'
| .expression n, .expression n', s, s' =>
    Alike n n' ∧ Paired ds Tight s s'
| _, _, _, _ => False

namespace Mirrors

variable {expr expr' : ExpressionParser}

------------------------------------------------------------
-- Heads
------------------------------------------------------------

theorem headGuard
    (hExpr : Mirrored deep expr expr')
    (hPaired : Paired ds Tight s s')
    (hCode : ds.isCode = true) :
    Mirrors deep (alike ds Tight) (Parse.headGuard expr)
      (Parse.headGuard expr') s s' := by
  apply bind_eat hPaired hCode (.of_tight hPaired.place) rfl
  · rintro _ _ t t' _ _ hWhen
    have hAwaits : Paired ds Awaits t t' :=
      hWhen.mono fun h => ⟨_, rfl, h⟩
    apply bind_skipLineEnds_begins (hAwaits.mono Awaits.afresh) hCode
    intro u u' hBegins
    apply (hExpr ds _ .statement u u' hCode hBegins).bind
    rintro guard guard' v v' ⟨hGuard, hTight⟩
    exact pure ⟨Alike.some_iff.mpr hGuard, hTight⟩
  · intro _
    exact pure ⟨rfl, hPaired⟩

variable [∀ precedence context, Retains (expr precedence context)]
variable [∀ precedence context, Retains (expr' precedence context)]

/- An arrow that both runs find, or an error in the first. -/
theorem bind_arrow
    {f g : Except Node Lexeme → Parse (Clause Node)}
    (hPaired : Paired ds Tight s s')
    (hCode : ds.isCode = true)
    (hFirst : ∀ r, Retains (f r))
    (hSecond : ∀ r, Retains (g r))
    (hOk : ∀ l l' t t', Paired ds Awaits t t' →
      Mirrors deep (alike ds Awaits) (f (.ok l)) (g (.ok l')) t t') :
    Mirrors deep (alike ds Awaits)
      (Parse.expect (.operator .stab) .arrow >>= f)
      (Parse.expect (.operator .stab) .arrow >>= g) s s' := by
  apply (expect _ hPaired.heads_of_tight hCode rfl).bind_of_retains
    hFirst hSecond
  rintro (e | l) (e' | l') t t' hTook
  · cases hTook
  · cases hTook
  · cases hTook
  · exact hOk l l' t t' (hTook.2.2.mono fun h => ⟨_, rfl, h⟩)

theorem finishHead
    {head head' : List Node}
    {guard guard' : Option Node}
    (hPaired : Paired ds Tight s s')
    (hCode : ds.isCode = true)
    (hHead : Alike head head')
    (hGuard : Alike guard guard') :
    Mirrors deep (alike ds Awaits) (Parse.finishHead head guard)
      (Parse.finishHead head' guard') s s' := by
  rcases hGuard.option_cases with
    ⟨rfl, rfl⟩ | ⟨g, g', rfl, rfl, hBoth⟩
  · refine bind_arrow hPaired hCode ?first ?second ?both
    case first | second =>
      intro r
      cases r <;> infer_instance
    case both =>
      intro arrow arrow' t t' hAwaits
      exact pure ⟨.clause _ _ hHead.splitGuard.fst
        hHead.splitGuard.snd rfl, hAwaits⟩
  · refine bind_arrow hPaired hCode ?first ?second ?both
    case first | second =>
      intro r
      cases r <;> infer_instance
    case both =>
      intro arrow arrow' t t' hAwaits
      exact pure ⟨.clause _ _ hHead (Alike.some_iff.mpr hBoth) rfl,
        hAwaits⟩

theorem parenthesizedHead
    (hExpr : Mirrored deep expr expr')
    (hPaired : Paired ds Heads s s')
    (hCode : ds.isCode = true)
    (hRest : s.rest = l :: ls)
    (hKind : l.kind = .opening .parenthesis) :
    Mirrors deep (alike ds Awaits) (Parse.parenthesizedHead expr)
      (Parse.parenthesizedHead expr') s s' := by
  apply (enclosed hExpr hPaired hCode hRest hKind).bind
  rintro ⟨head, span⟩ ⟨head', span'⟩ t t' ⟨hHead, hTight⟩
  apply (headGuard hExpr hTight hCode).bind
  rintro guard guard' u u' ⟨hGuard, hTight'⟩
  exact finishHead hTight' hCode hHead.fst hGuard

theorem headItemsFor
    (hExpr : Mirrored deep expr expr')
    (hPaired : Paired ds Tight s s')
    (hCode : ds.isCode = true) :
    Mirrors deep (alike ds Tight) (Parse.headItemsFor expr k)
      (Parse.headItemsFor expr' m) s s' := by
  induction k generalizing m s s' with
  | zero => exact cutOff_left
  | succ k ih =>
      cases m with
      | zero => exact cutOff_right
      | succ m =>
          apply bind_eat hPaired hCode (.of_tight hPaired.place) rfl
          · rintro _ _ t t' _ _ hComma
            have hAwaits : Paired ds Awaits t t' :=
              hComma.mono fun h => ⟨_, rfl, h⟩
            apply bind_skipLineEnds_begins
              (hAwaits.mono Awaits.afresh) hCode
            intro u u' hBegins
            have hHeads := hBegins.heads_of_begins
            apply bind_rest
            rw [hHeads.place.keywordAhead_eq]
            split
            · rename_i hKey
              apply (keywords hExpr hHeads hCode hKey).bind
              rintro pairs pairs' v v' ⟨hPairs, hTight⟩
              exact pure ⟨Alike.cons_iff.mpr ⟨hPairs, rfl⟩, hTight⟩
            · apply (hExpr ds 0 .container u u' hCode hBegins).bind
              rintro item item' v v' ⟨hItem, hTight⟩
              apply (ih hTight).bind
              rintro more more' w w' ⟨hMore, hTight'⟩
              exact pure ⟨Alike.cons_iff.mpr ⟨hItem, hMore⟩, hTight'⟩
          · intro _
            exact pure ⟨rfl, hPaired⟩

------------------------------------------------------------
-- Items
------------------------------------------------------------

theorem openClauseOrStatement
    (hExpr : Mirrored deep expr expr')
    (hPaired : Paired ds Begins s s')
    (hCode : ds.isCode = true) :
    Mirrors deep (sameItem ds) (Parse.openClauseOrStatement expr)
      (Parse.openClauseOrStatement expr') s s' := by
  apply (hExpr ds 0 .statement s s' hCode hPaired).bind
  rintro first first' t t' ⟨hFirst, hTight⟩
  have hHeads := hTight.heads_of_tight
  apply bind_isAt hHeads.place
  apply bind_isAt hHeads.place
  split
  · apply bind_rest
    apply (headItemsFor hExpr hTight hCode).bind
    rintro more more' u u' ⟨hMore, hTight'⟩
    have hHead : Mirrors deep _ _ _ u u' := finishHead hTight' hCode
      (Alike.cons_iff.mpr ⟨hFirst, hMore⟩)
      (rfl : Alike (none : Option Node) none)
    apply hHead.bind
    rintro c c' v v' hClause
    exact pure hClause
  · exact pure ⟨hFirst, hTight⟩

theorem clauseOrStatement
    (hExpr : Mirrored deep expr expr')
    (hPaired : Paired ds Begins s s')
    (hCode : ds.isCode = true) :
    Mirrors deep (sameItem ds) (Parse.clauseOrStatement expr)
      (Parse.clauseOrStatement expr') s s' := by
  have hHeads := hPaired.heads_of_begins
  apply bind_eat hHeads hCode hHeads.place rfl
  · rintro arrow arrow' t t' _ _ hArrow
    exact pure ⟨.clause _ _ rfl rfl rfl,
      hArrow.mono fun h => ⟨_, rfl, h⟩⟩
  · intro _
    apply bind_rest
    apply bind_isAt hHeads.place
    rw [hHeads.place.parenthesizedHeadAhead_eq]
    split
    · rename_i hAhead
      rw [Bool.and_eq_true] at hAhead
      rcases exists_of_isAt hAhead.1 with ⟨l, ls, hRest, hKind⟩
      apply (parenthesizedHead hExpr hHeads hCode hRest hKind).bind
      rintro c c' t t' hClause
      exact pure hClause
    · exact openClauseOrStatement hExpr hPaired hCode

/- No clause in order follows expressions. -/
theorem checkFirstClause
    {ns ns' : List Node}
    {cs cs' : List (Clause Node)}
    {c c' : Clause Node}
    (hPaired : Paired ds place s s')
    (hNodes : Alike ns ns')
    (hClauses : Alike cs cs')
    (hClause : Alike c c') :
    Mirrors deep (alike ds place) (Parse.checkFirstClause ns cs c)
      (Parse.checkFirstClause ns' cs' c') s s' := by
  unfold Parse.checkFirstClause
  rw [← hNodes.isEmpty_eq, ← hClauses.isEmpty_eq]
  split
  · exact bind_failure _ _ _ hPaired
  · exact pure ⟨hClause, hPaired⟩

/- Behind what is in order nothing is left out. -/
theorem bind_recover
    {β : Type}
    {post : Post β}
    {f g : Unit → Parse β}
    (start start' : List Lexeme)
    (hPaired : Paired ds place s s')
    (hMirrors : Mirrors deep post (f ()) (g ()) s s') :
    Mirrors deep post (Parse.recover stop start >>= f)
      (Parse.recover stop start' >>= g) s s' := by
  have hClean : ∀ {t : ParseState} (start : List Lexeme),
      t.poisoned = false → Parse.recover stop start t = ((), t) := by
    intro t start hPoisoned
    rw [recover_apply, recovered, hPoisoned]
    rfl
  exact bind_eq (hClean start hPaired.poisoned)
    (hClean start' hPaired.poisoned') hMirrors

theorem bodyFor
    {ns ns' : List Node}
    {cs cs' : List (Clause Node)}
    (hExpr : Mirrored deep expr expr')
    (hPaired : Paired ds (Resumes stop) s s')
    (hCode : ds.isCode = true)
    (hNodes : Alike ns ns')
    (hClauses : Alike cs cs') :
    Mirrors deep (alike ds (Ended stop))
      (Parse.bodyFor expr stop k ns cs)
      (Parse.bodyFor expr' stop m ns' cs') s s' := by
  induction k generalizing m s s' ns ns' cs cs' with
  | zero => exact cutOff_left
  | succ k ih =>
      cases m with
      | zero => exact cutOff_right
      | succ m =>
          apply bind_skipSeparators hPaired hCode
          intro t t' hHeads hBegins
          apply bind_peek
          rw [hHeads.place.endsAt_eq]
          cases hEnds : endsAt stop t.rest.head? with
          | true =>
              exact pure ⟨hNodes.bodyOf hClauses,
                hHeads.mono fun h => ⟨h, hEnds⟩⟩
          | false =>
              rcases hBegins hEnds with ⟨hStarts, hStart⟩
              have hStarts' := hHeads.place.starts hStarts
              apply bind_rest
              have hItem : Mirrors deep _ _ _ t t' :=
                clauseOrStatement hExpr hStart hCode
              refine hItem.bind_later ?first ?second ?both
              case first | second =>
                intro i
                cases i <;> infer_instance
              case both =>
                intro i i' u u' hLater hLater' hSame
                rcases i with c | n <;> rcases i' with c' | n'
                · rcases hSame with ⟨hClause, hAwaits⟩
                  have hCheck : Mirrors deep _ _ _ u u' :=
                    checkFirstClause hAwaits hNodes hClauses hClause
                  apply hCheck.bind
                  rintro d d' v v' ⟨hBoth, hAwaits'⟩
                  apply bind_recover _ _ hAwaits'
                  exact ih (hAwaits'.mono .inl) hNodes
                    (hClauses.append (Alike.cons_iff.mpr ⟨hBoth, rfl⟩))
                · cases hSame
                · cases hSame
                · rcases hSame with ⟨hNode, hTight⟩
                  apply (finishStatement hTight hLater.rest
                    hLater'.rest hStarts hStarts').bind
                  rintro _ _ v v' ⟨rfl, rfl, hResumes⟩
                  rw [hClauses.isEmpty_eq]
                  split
                  · exact ih hResumes (hNodes.append
                      (Alike.cons_iff.mpr ⟨hNode, rfl⟩)) hClauses
                  · exact ih hResumes hNodes (hNode.pushLast hClauses)

theorem body
    (hExpr : Mirrored deep expr expr')
    (hPaired : Paired ds (Resumes stop) s s')
    (hCode : ds.isCode = true) :
    Mirrors deep (alike ds (Ended stop)) (Parse.body expr stop)
      (Parse.body expr' stop) s s' := by
  apply bind_rest
  apply isolated hPaired
  intro t t' hResumes
  exact bodyFor hExpr hResumes hCode rfl rfl

------------------------------------------------------------
-- Do blocks
------------------------------------------------------------

theorem unendedSection
    {post : Post (List (Section Node) × Span)}
    {q : Parse (List (Section Node) × Span)}
    (opened : Span)
    (name : String)
    (b : Body Node)
    (hPaired : Paired ds place s s') :
    Mirrors deep post (Parse.unendedSection opened name b) q s s' :=
  bind_failure _ _ _ hPaired

theorem endsOperand_of_endsBlock
    {kind : Kind}
    (hBlock : kind.endsBlock = true)
    (hEnd : kind ≠ .word .end) :
    kind.isOfStatements = true ∧ kind.endsOperand = false := by
  cases kind with
  | word w =>
      cases w <;> first
        | exact ⟨rfl, rfl⟩
        | exact absurd rfl hEnd
        | cases hBlock
  | _ => cases hBlock

theorem sectionsFor
    (opened opened' : Span)
    (name : String)
    (hExpr : Mirrored deep expr expr')
    (hPaired : Paired ds (Resumes Kind.endsBlock) s s')
    (hCode : ds.isCode = true) :
    Mirrors deep (alike ds Tight)
      (Parse.sectionsFor expr opened k name)
      (Parse.sectionsFor expr' opened' m name) s s' := by
  induction k generalizing m s s' name with
  | zero => exact cutOff_left
  | succ k ih =>
      cases m with
      | zero => exact cutOff_right
      | succ m =>
          refine (body hExpr hPaired hCode).bind_of_retains ?_ ?_ ?_
          · intro b
            refine @Retains.bind _ _ _ _ _ fun o => ?_
            cases o <;> infer_instance
          · intro b
            refine @Retains.bind _ _ _ _ _ fun o => ?_
            cases o <;> infer_instance
          · rintro b b' t t' ⟨hBody, hEnded⟩
            have hHeads : Paired ds Heads t t' := hEnded.mono And.left
            apply bind_peek
            rcases hHeads.head_cases with
              ⟨hRest, hRest'⟩ |
              ⟨l, l', ls, ls', hRest, hRest', hSame, hMore⟩
            · rw [hRest, hRest']
              exact unendedSection opened name b hEnded
            · rw [hRest, hRest']
              dsimp only [List.head?_cons]
              rw [← hSame.kind]
              split
              · rename_i hEnd
                rcases hHeads.take_tight hCode hRest
                  (by rw [hEnd]; rfl) (fun _ => by rw [hEnd]; rfl) with
                  ⟨_, _, _, _, hTight⟩
                apply bind_skip
                refine pure ⟨Alike.mk ?_ rfl, hTight⟩
                exact Alike.cons_iff.mpr
                  ⟨congrArg (Section.mk name) hBody, rfl⟩
              · rename_i hEnd
                split
                · rename_i hBlock
                  rcases endsOperand_of_endsBlock hBlock hEnd with
                    ⟨hKind, hEnds⟩
                  have hText : l.text = l'.text := by
                    apply hSame.text
                    intro hLine
                    rw [hLine] at hBlock
                    cases hBlock
                  rcases hHeads.take_awaits hCode hRest hKind hEnds
                    with ⟨_, _, _, _, hAwaits⟩
                  apply bind_skip
                  rw [← hText]
                  apply (ih l.text (hAwaits.mono .inl)).bind
                  rintro ⟨more, span⟩ ⟨more', span'⟩ u u'
                    ⟨hMore, hTight⟩
                  refine pure ⟨Alike.mk ?_ rfl, hTight⟩
                  exact Alike.cons_iff.mpr
                    ⟨congrArg (Section.mk name) hBody, hMore.fst⟩
                · exact unendedSection opened name b hEnded

theorem doBlock
    (hExpr : Mirrored deep expr expr')
    (hPaired : Paired ds Heads s s')
    (hCode : ds.isCode = true)
    (hRest : s.rest = l :: ls)
    (hKind : l.kind = .word .do) :
    Mirrors deep (alike ds Tight) (Parse.doBlock expr)
      (Parse.doBlock expr') s s' := by
  rcases hPaired.take_awaits hCode hRest (by rw [hKind]; rfl)
    (by rw [hKind]; rfl) with ⟨_, _, _, _, hAwaits⟩
  apply bind_currentSpan
  intro opened opened'
  apply bind_skip
  apply bind_rest
  apply (sectionsFor opened opened' "do" hExpr (hAwaits.mono .inl)
    hCode).bind
  rintro ⟨sections, span⟩ ⟨sections', span'⟩ t t' ⟨hSections, hTight⟩
  refine pure ⟨?_, hTight⟩
  exact congrArg (fun ss => (⟨ss, Span.none⟩ : DoBlock Node))
    hSections.fst

------------------------------------------------------------
-- Anonymous functions
------------------------------------------------------------

theorem fn
    (hExpr : Mirrored deep expr expr')
    (hPaired : Paired ds Heads s s')
    (hCode : ds.isCode = true)
    (hRest : s.rest = l :: ls)
    (hKind : l.kind = .word .fn) :
    Mirrors deep (alike ds Tight) (Parse.fn expr)
      (Parse.fn expr') s s' := by
  rcases hPaired.take_awaits hCode hRest (by rw [hKind]; rfl)
    (by rw [hKind]; rfl) with ⟨_, _, _, _, hAwaits⟩
  apply bind_currentSpan
  intro opened opened'
  apply bind_skip
  refine (body hExpr (hAwaits.mono .inl) hCode).bind_of_retains
    ?first ?second ?both
  case first | second =>
    intro b
    refine @Retains.bind _ _ _ _ _ fun r => ?_
    rcases r with ⟨trailing, span⟩
    dsimp only
    split <;> infer_instance
  case both =>
    rintro b b' t t' ⟨hBody, hEnded⟩
    have hLoose : Paired ds Loose t t' :=
      hEnded.mono fun h => h.1.loose
    have hClose : Mirrors deep _ _ _ t t' := close .blockEnd opened opened' hLoose
      hCode (rfl : Alike ([] : List Node) [])
    refine hClose.bind_of_retains ?first ?second ?both
    case first | second =>
      rintro ⟨trailing, span⟩
      dsimp only
      split <;> infer_instance
    case both =>
      rintro ⟨trailing, span⟩ ⟨trailing', span'⟩ u u'
        ⟨hTrailing, hTight⟩
      have hAll := hTrailing.fst.foldl_push hBody
      dsimp only at hAll ⊢
      generalize trailing.foldl (fun b e => b.push e) b = all at *
      generalize trailing'.foldl (fun b e => b.push e) b' = all' at *
      cases all with
      | expressions ns =>
          exact of_fails hTight fun hClean =>
            errors_report_ne _ _ hClean
      | clauses cs =>
          cases all' with
          | expressions ns' => cases hAll
          | clauses cs' =>
              have hClauses : Alike cs cs' := Body.clauses.inj hAll
              refine pure ⟨.node _ _ ?_, hTight⟩
              change unplaced _ = unplaced _
              simp [show unplaced cs = unplaced cs' from hClauses]

end Mirrors

end ElixirReader
