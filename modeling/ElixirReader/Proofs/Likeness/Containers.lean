import ElixirReader.Proofs.Errors.Containers
import ElixirReader.Proofs.Likeness.Literals

/-
  This file lets two runs go side by side through what stands
  between brackets: elements, statements in parentheses, maps
  and structs.

  Main declarations:
    * `Mirrors.itemsFor`
    * `Mirrors.enclosed`
    * `Mirrors.parenthesized`
    * `Mirrors.mapBody`
    * `Mirrors.structOrMap`
-/

namespace ElixirReader

open Parse
open Placed (unplaced)

variable {deep : Bool}
variable {k m : Nat}
variable {ds : Nest}
variable {l l' : Lexeme}
variable {ls ls' : List Lexeme}
variable {place : List Lexeme → List Lexeme → Prop}
variable {s s' : ParseState}
variable {b : Bracket}

------------------------------------------------------------
-- Nodes
------------------------------------------------------------

theorem Alike.unwrap
    {ns ns' : List Node}
    (span span' : Span)
    (hNodes : Alike ns ns') :
    Alike (unwrap span ns) (unwrap span' ns') := by
  have hBlock : Alike (⟨.block ns, span⟩ : Node)
      ⟨.block ns', span'⟩ := by
    refine .node _ _ ?_
    change unplaced _ = unplaced _
    simp [show unplaced ns = unplaced ns' from hNodes]
  rcases hNodes.list_cases with
    ⟨rfl, rfl⟩ | ⟨n, ms, n', ms', rfl, rfl, hNode, hMore⟩
  · exact hBlock
  · rcases hMore.list_cases with
      ⟨rfl, rfl⟩ | ⟨_, _, _, _, rfl, rfl, _⟩
    · exact hNode
    · exact hBlock

/- The form of a node without its places. -/
theorem Alike.form
    {n n' : Node}
    (hNode : Alike n n') :
    n.form.unplacedParts = n'.form.unplacedParts := by
  rcases n with ⟨f, span⟩
  rcases n' with ⟨f', span'⟩
  have hBoth : unplaced (⟨f, span⟩ : Node) =
      unplaced (⟨f', span'⟩ : Node) := hNode
  rw [unplaced_mk, unplaced_mk] at hBoth
  exact congrArg Node.form hBoth

theorem Alike.extendAlias
    {n n' : Node}
    (hNode : Alike n n')
    (hText : l.text = l'.text) :
    Alike (extendAlias n l) (extendAlias n' l') := by
  have hForm := hNode.form
  rcases n with ⟨f, span⟩
  rcases n' with ⟨f', span'⟩
  have hOther : Alike
      (⟨.alias (some ⟨f, span⟩) [l.text], span.merge l.span⟩ : Node)
      ⟨.alias (some ⟨f', span'⟩) [l'.text],
        span'.merge l'.span⟩ := by
    refine .node _ _ ?_
    change unplaced _ = unplaced _
    rw [unplaced_form, unplaced_form, Form.unplacedParts,
      Form.unplacedParts, unplaced_some, unplaced_some, hNode,
      hText]
  cases f with
  | «alias» base segments =>
      cases f' with
      | «alias» base' segments' =>
          rcases Form.alias.inj hForm with ⟨hBase, rfl⟩
          refine .node _ _ ?_
          change unplaced _ = unplaced _
          rw [unplaced_form, unplaced_form, Form.unplacedParts,
            Form.unplacedParts, hBase, hText]
      | _ => cases hForm
  | _ =>
      cases f' <;> first | exact hOther | cases hForm

theorem Alike.entries
    {update update' : Option Node}
    {found found' : List Node}
    (hUpdate : Alike update update')
    (hFound : Alike found found') :
    Alike (⟨update, found⟩ : Entries Node) ⟨update', found'⟩ := by
  change unplaced _ = unplaced _
  simp [show unplaced update = unplaced update' from hUpdate,
    show unplaced found = unplaced found' from hFound]

------------------------------------------------------------
-- Names
------------------------------------------------------------

/- A dot and a segment stand in both lists. -/
theorem Tight.segments
    {segment : Lexeme}
    (hTight : Tight (l :: segment :: ls) ls')
    (hDot : l.kind = .dot)
    (hSegment : segment.kind = .alias) :
    ∃ l' segment' ms', ls' = l' :: segment' :: ms' ∧
      l'.kind = .dot ∧ segment.Same segment' ∧ Tight ls ms' := by
  rcases hTight.cases with
    ⟨hNil, _⟩ | ⟨_, l', _, ms, hCons, rfl, hSame, _, hMore⟩
  · cases hNil
  · cases hCons
    have hTail : Tight (segment :: ls) ms := by
      apply hMore.tight
      intro next
      rw [hDot]
      rfl
    rcases hTail.cases with
      ⟨hNil, _⟩ | ⟨_, segment', _, ms', hCons, rfl, hSame', _, hMore'⟩
    · cases hNil
    · cases hCons
      refine ⟨l', segment', ms', rfl, hSame.kind.symm.trans hDot,
        hSame', ?_⟩
      apply hMore'.tight_of_endsOperand
      rw [hSegment]
      rfl

/- Whether one more segment of a name comes next. -/
def SegmentNext
    (ls : List Lexeme) : Prop :=
  ∃ l segment ms, ls = l :: segment :: ms ∧ l.kind = .dot ∧
    segment.kind = .alias

theorem structSegments_of_not
    {n : Nat}
    (name : Node)
    (hNot : ¬ SegmentNext s.rest) :
    Parse.structSegments (n + 1) name s = (name, s) := by
  unfold Parse.structSegments
  rw [Parse.rest_bind_apply]
  rcases hRest : s.rest with _ | ⟨l, _ | ⟨segment, ls⟩⟩
  · rfl
  · rfl
  · dsimp only
    rw [if_neg fun hKinds => hNot ⟨l, segment, ls, hRest, hKinds⟩]
    rfl

namespace Mirrors

variable {expr expr' : ExpressionParser}
variable [∀ precedence context, Retains (expr precedence context)]
variable [∀ precedence context, Retains (expr' precedence context)]

------------------------------------------------------------
-- Elements
------------------------------------------------------------

/- A comma behind which newlines may stand, or none. -/
theorem bind_eat_comma
    {β : Type}
    {post : Post β}
    {f g : Option Lexeme → Parse β}
    (hPaired : Paired ds Heads s s')
    (hCode : ds.isCode = true)
    (hSome : ∀ l l' t t', Paired ds Awaits t t' →
      Mirrors deep post (f (some l)) (g (some l')) t t')
    (hNone : Mirrors deep post (f none) (g none) s s') :
    Mirrors deep post (Parse.eat .comma >>= f)
      (Parse.eat .comma >>= g) s s' := by
  apply bind_eat hPaired hCode hPaired.place rfl
  · intro l l' t t' _ _ hComma
    exact hSome l l' t t' (hComma.mono fun h => ⟨_, rfl, h⟩)
  · intro _
    exact hNone

theorem lastItem
    (hExpr : Mirrored deep expr expr')
    (hPaired : Paired ds Heads s s')
    (hCode : ds.isCode = true)
    (hKey : keywordAhead s.rest = true) :
    Mirrors deep (alike ds Loose) (Parse.lastItem expr)
      (Parse.lastItem expr') s s' := by
  apply (keywords hExpr hPaired hCode hKey).bind
  rintro pairs pairs' t t' ⟨hPairs, hTight⟩
  have hItems : Alike [pairs] [pairs'] :=
    Alike.cons_iff.mpr ⟨hPairs, rfl⟩
  apply bind_skipLineEnds hTight.loose_of_tight hCode
  intro u u' hHeads
  apply bind_eat_comma hHeads hCode
  · rintro _ _ v v' hAwaits
    refine pure ⟨hItems, hAwaits.mono ?_⟩
    rintro ⟨_, _, hMatches⟩
    exact hMatches.loose
  · exact pure ⟨hItems, hHeads.loose_of_heads⟩

theorem itemsFor
    (closer : Kind)
    (hExpr : Mirrored deep expr expr')
    (hPaired : Paired ds Afresh s s')
    (hCode : ds.isCode = true) :
    Mirrors deep (alike ds Loose) (Parse.itemsFor expr closer k)
      (Parse.itemsFor expr' closer m) s s' := by
  induction k generalizing m s s' with
  | zero => exact cutOff_left
  | succ k ih =>
      cases m with
      | zero => exact cutOff_right
      | succ m =>
          apply bind_skipLineEnds_begins hPaired hCode
          intro t t' hBegins
          have hHeads := hBegins.heads_of_begins
          apply bind_peek
          rw [hHeads.place.endsAt_eq]
          split
          · exact pure ⟨rfl, hHeads.loose_of_heads⟩
          · apply bind_rest
            rw [hHeads.place.keywordAhead_eq]
            split
            · rename_i hKey
              exact lastItem hExpr hHeads hCode hKey
            · refine (hExpr ds 0 .container t t' hCode
                hBegins).bind_of_retains ?first ?second ?both
              case first | second =>
                intro item
                refine @Retains.bind _ _ _ _ _ fun _ =>
                  @Retains.bind _ _ _ _ _ fun o => ?_
                cases o <;> infer_instance
              case both =>
                rintro item item' u u' ⟨hItem, hTight⟩
                apply bind_skipLineEnds hTight.loose_of_tight hCode
                intro v v' hNext
                apply bind_eat_comma hNext hCode
                · rintro _ _ w w' hAwaits
                  apply (ih (hAwaits.mono Awaits.afresh)).bind
                  rintro more more' x x' ⟨hMore, hLoose⟩
                  exact pure ⟨Alike.cons_iff.mpr ⟨hItem, hMore⟩,
                    hLoose⟩
                · exact pure ⟨Alike.cons_iff.mpr ⟨hItem, rfl⟩,
                    hNext.loose_of_heads⟩

theorem items
    (closer : Kind)
    (hExpr : Mirrored deep expr expr')
    (hPaired : Paired ds Afresh s s')
    (hCode : ds.isCode = true) :
    Mirrors deep (alike ds Loose) (Parse.items expr closer)
      (Parse.items expr' closer) s s' := by
  apply bind_rest
  exact itemsFor closer hExpr hPaired hCode

theorem enclosed
    (hExpr : Mirrored deep expr expr')
    (hPaired : Paired ds Heads s s')
    (hCode : ds.isCode = true)
    (hRest : s.rest = l :: ls)
    (hKind : l.kind = .opening b) :
    Mirrors deep (alike ds Tight) (Parse.enclosed expr b)
      (Parse.enclosed expr' b) s s' := by
  rcases hPaired.take_awaits hCode hRest (by rw [hKind]; rfl)
    (by rw [hKind]; rfl) with ⟨_, _, _, _, hAwaits⟩
  apply bind_currentSpan
  intro opened opened'
  apply bind_skip
  apply (items _ hExpr (hAwaits.mono Awaits.afresh) hCode).bind
  rintro found found' t t' ⟨hFound, hLoose⟩
  exact close _ opened opened' hLoose hCode hFound

theorem container
    {form : List Node → Form Node}
    (hForm : ∀ ns ns', Alike ns ns' → Alike (form ns) (form ns'))
    (hExpr : Mirrored deep expr expr')
    (hPaired : Paired ds Heads s s')
    (hCode : ds.isCode = true)
    (hRest : s.rest = l :: ls)
    (hKind : l.kind = .opening b) :
    Mirrors deep (alike ds Tight) (Parse.container expr b form)
      (Parse.container expr' b form) s s' := by
  apply (enclosed hExpr hPaired hCode hRest hKind).bind
  rintro ⟨found, span⟩ ⟨found', span'⟩ t t' ⟨hFound, hTight⟩
  exact pure ⟨.node _ _ (hForm _ _ hFound.fst), hTight⟩

------------------------------------------------------------
-- Parentheses
------------------------------------------------------------

theorem parenthesized
    (hExpr : Mirrored deep expr expr')
    (hPaired : Paired ds Heads s s')
    (hCode : ds.isCode = true)
    (hRest : s.rest = l :: ls)
    (hKind : l.kind = .opening .parenthesis) :
    Mirrors deep (alike ds Tight) (Parse.parenthesized expr)
      (Parse.parenthesized expr') s s' := by
  rcases hPaired.take_awaits hCode hRest (by rw [hKind]; rfl)
    (by rw [hKind]; rfl) with ⟨_, _, _, _, hAwaits⟩
  apply bind_currentSpan
  intro opened opened'
  apply bind_skip
  apply (statements hExpr (hAwaits.mono .inl) hCode).bind
  rintro body body' t t' ⟨hBody, hEnded⟩
  have hLoose : Paired ds Loose t t' :=
    hEnded.mono fun h => h.1.loose
  apply (close _ opened opened' hLoose hCode hBody).bind
  rintro ⟨found, span⟩ ⟨found', span'⟩ u u' ⟨hFound, hTight⟩
  exact pure ⟨hFound.fst.unwrap _ _, hTight⟩

------------------------------------------------------------
-- Maps
------------------------------------------------------------

theorem entriesAfter
    {first first' : Node}
    (hExpr : Mirrored deep expr expr')
    (hPaired : Paired ds Heads s s')
    (hCode : ds.isCode = true)
    (hFirst : Alike first first') :
    Mirrors deep (alike ds Loose) (Parse.entriesAfter expr first)
      (Parse.entriesAfter expr' first') s s' := by
  apply bind_eat_comma hPaired hCode
  · rintro _ _ t t' hAwaits
    apply (items _ hExpr (hAwaits.mono Awaits.afresh) hCode).bind
    rintro more more' u u' ⟨hMore, hLoose⟩
    exact pure ⟨Alike.entries rfl
      (Alike.cons_iff.mpr ⟨hFirst, hMore⟩), hLoose⟩
  · exact pure ⟨Alike.entries rfl
      (Alike.cons_iff.mpr ⟨hFirst, rfl⟩), hPaired.loose_of_heads⟩

theorem entriesFrom
    (hExpr : Mirrored deep expr expr')
    (hPaired : Paired ds Begins s s')
    (hCode : ds.isCode = true) :
    Mirrors deep (alike ds Loose) (Parse.entriesFrom expr)
      (Parse.entriesFrom expr') s s' := by
  refine (hExpr ds _ .container s s' hCode hPaired).bind_of_retains
    ?first ?second ?both
  case first | second =>
    intro first
    refine @Retains.bind _ _ _ _ _ fun _ =>
      @Retains.bind _ _ _ _ _ fun o => ?_
    cases o <;> infer_instance
  case both =>
    rintro first first' t t' ⟨hFirst, hTight⟩
    apply bind_skipLineEnds hTight.loose_of_tight hCode
    intro u u' hHeads
    apply bind_eat hHeads hCode hHeads.place rfl
    · rintro _ _ v v' _ _ hPipe
      have hAwaits : Paired ds Awaits v v' :=
        hPipe.mono fun h => ⟨_, rfl, h⟩
      apply (items _ hExpr (hAwaits.mono Awaits.afresh) hCode).bind
      rintro more more' w w' ⟨hMore, hLoose⟩
      exact pure ⟨Alike.entries (Alike.some_iff.mpr hFirst) hMore,
        hLoose⟩
    · intro _
      exact entriesAfter hExpr hHeads hCode hFirst

theorem entries
    (hExpr : Mirrored deep expr expr')
    (hPaired : Paired ds Afresh s s')
    (hCode : ds.isCode = true) :
    Mirrors deep (alike ds Loose) (Parse.entries expr)
      (Parse.entries expr') s s' := by
  apply bind_skipLineEnds_begins hPaired hCode
  intro t t' hBegins
  have hHeads := hBegins.heads_of_begins
  have hAhead : entryAhead t'.rest = entryAhead t.rest := by
    rw [entryAhead, entryAhead, hHeads.place.endsAt_eq,
      hHeads.place.keywordAhead_eq]
  apply bind_rest
  rw [hAhead]
  split
  · exact entriesFrom hExpr hBegins hCode
  · apply (items _ hExpr (hBegins.mono Begins.afresh) hCode).bind
    rintro found found' u u' ⟨hFound, hLoose⟩
    exact pure ⟨Alike.entries rfl hFound, hLoose⟩

theorem mapBody
    (hExpr : Mirrored deep expr expr')
    (hPaired : Paired ds Heads s s')
    (hCode : ds.isCode = true)
    (hRest : s.rest = l :: ls)
    (hKind : l.kind = .opening .curly) :
    Mirrors deep (alike ds Tight) (Parse.mapBody expr)
      (Parse.mapBody expr') s s' := by
  rcases hPaired.take_awaits hCode hRest (by rw [hKind]; rfl)
    (by rw [hKind]; rfl) with ⟨_, _, _, _, hAwaits⟩
  apply bind_currentSpan
  intro opened opened'
  apply bind_skip
  apply (entries hExpr (hAwaits.mono Awaits.afresh) hCode).bind
  rintro ⟨update, found⟩ ⟨update', found'⟩ t t' ⟨hBody, hLoose⟩
  have hUpdate : Alike update update' :=
    congrArg Entries.update hBody
  have hFound : Alike found found' :=
    congrArg Entries.entries hBody
  apply (close _ opened opened' hLoose hCode hFound).bind
  rintro ⟨all, span⟩ ⟨all', span'⟩ u u' ⟨hAll, hTight⟩
  exact pure ⟨Alike.mk (Alike.entries hUpdate hAll.fst) rfl, hTight⟩

------------------------------------------------------------
-- Structs
------------------------------------------------------------

theorem structSegments
    {name name' : Node}
    (hPaired : Paired ds Tight s s')
    (hCode : ds.isCode = true)
    (hName : Alike name name') :
    Mirrors deep (alike ds Tight) (Parse.structSegments k name)
      (Parse.structSegments m name') s s' := by
  induction k generalizing m s s' name name' with
  | zero => exact cutOff_left
  | succ k ih =>
      cases m with
      | zero => exact cutOff_right
      | succ m =>
          have hTight := hPaired.place
          by_cases hFound : SegmentNext s.rest
          · rcases hFound with ⟨l, segment, ms, hRest, hDot, hSegment⟩
            rw [hRest] at hTight
            rcases hTight.segments hDot hSegment with
              ⟨l', segment', ms', hRest', hDot', hSame, hMore⟩
            have hSegment' : segment'.kind = .alias :=
              hSame.kind.symm.trans hSegment
            apply bind_rest
            rw [hRest, hRest']
            dsimp only
            rw [if_pos ⟨hDot, hSegment⟩, if_pos ⟨hDot', hSegment'⟩]
            apply bind_skip
            apply ih _ (hName.extendAlias
              (hSame.text_of hSegment (by simp)))
            apply hPaired.advance_of_isOfStatements hCode
            · intro n hMem
              rw [hRest] at hMem
              simp only [List.take_succ_cons, List.take_zero,
                List.mem_cons, List.not_mem_nil, or_false] at hMem
              rcases hMem with rfl | rfl
              · rw [hDot]
                rfl
              · rw [hSegment]
                rfl
            · rw [hRest, hRest']
              exact hMore
          · have hFound' : ¬ SegmentNext s'.rest := by
              rintro ⟨l', segment', ms', hRest', hDot', hSegment'⟩
              have hBack : Tight (l' :: segment' :: ms') s.rest := by
                rw [← hRest']
                exact hTight.symm
              rcases hBack.segments hDot' hSegment' with
                ⟨l, segment, ms, hRest, hDot, hSame, _⟩
              exact hFound ⟨l, segment, ms, hRest, hDot,
                hSame.kind.symm.trans hSegment'⟩
            have hPure : Mirrors deep (alike ds Tight)
                (Pure.pure name) (Pure.pure name') s s' :=
              pure ⟨hName, hPaired⟩
            exact hPure.of_eq (structSegments_of_not name hFound)
              (structSegments_of_not name' hFound')

/- The same name was found, right before what is left. -/
def named
    (ds : Nest) : Post (Except Node Node) :=
  fun r r' s s' => ∃ name name', r = .ok name ∧ r' = .ok name' ∧
    Alike name name' ∧ Paired ds Tight s s'

theorem structAttribute
    (hPaired : Paired ds Heads s s')
    (hCode : ds.isCode = true)
    (hRest : s.rest = l :: ls)
    (hKind : l.kind = .operator .atSign)
    (hSame : l.Same l') :
    Mirrors deep (named ds) (Parse.structAttribute l)
      (Parse.structAttribute l') s s' := by
  rcases hPaired.take_tight hCode hRest (by rw [hKind]; rfl)
    (fun _ => by rw [hKind]; rfl) with ⟨_, _, _, _, hTight⟩
  apply bind_skip
  refine (expect _ hTight.heads_of_tight hCode rfl).bind_of_retains
    ?_ ?_ ?_
  · intro r
    cases r <;> infer_instance
  · intro r
    cases r <;> infer_instance
  · rintro (e | n) (e' | n') t t' hTook
    · cases hTook
    · cases hTook
    · cases hTook
    · rcases hTook with ⟨hFound, hName, hTaken⟩
      apply pure
      refine ⟨_, _, rfl, rfl, .node _ _ ?_, hTaken.mono fun h =>
        h.tight_of_endsOperand rfl⟩
      change unplaced _ = unplaced _
      simp [hSame.text_of hKind (by simp),
        hName.text_of hFound (by simp)]

theorem structHead
    (hPaired : Paired ds Tight s s')
    (hCode : ds.isCode = true) :
    Mirrors deep (named ds) Parse.structHead Parse.structHead
      s s' := by
  have hHeads := hPaired.heads_of_tight
  have hTake : ∀ {l : Lexeme} {ls : List Lexeme},
      s.rest = l :: ls → l.kind = .alias ∨ l.kind = .identifier →
        Paired ds Tight (s.advance 1) (s'.advance 1) := by
    intro l ls hRest hKind
    have hEither : l.kind.isOfStatements = true ∧
        ∀ next, Before.admitsBreak ⟨l.kind, true⟩ next = false := by
      rcases hKind with hKind | hKind <;> rw [hKind] <;>
        exact ⟨rfl, fun _ => rfl⟩
    rcases hHeads.take_tight hCode hRest hEither.1 hEither.2 with
      ⟨_, _, _, _, hTaken⟩
    exact hTaken
  apply bind_peek
  rcases hHeads.head_cases with
    ⟨hRest, hRest'⟩ | ⟨l, l', ls, ls', hRest, hRest', hSame, hMore⟩
  · rw [hRest, hRest']
    exact bind_errorNode _ hPaired
  · rw [hRest, hRest']
    dsimp only [List.head?_cons]
    rw [← hSame.kind]
    split
    · rename_i hKind
      apply bind_skip
      apply pure
      refine ⟨_, _, rfl, rfl, .node _ _ ?_, hTake hRest (.inl hKind)⟩
      rw [hSame.text_of hKind (by simp)]
    · rename_i hKind
      apply bind_skip
      apply pure
      refine ⟨_, _, rfl, rfl, .node _ _ ?_, hTake hRest (.inr hKind)⟩
      rw [hSame.text_of hKind (by simp)]
    · rename_i hKind
      exact structAttribute hHeads hCode hRest hKind hSame
    · exact bind_wantedNode _ hPaired

theorem structName
    (hPaired : Paired ds Tight s s')
    (hCode : ds.isCode = true) :
    Mirrors deep (alike ds Tight) Parse.structName Parse.structName
      s s' := by
  refine (structHead hPaired hCode).bind_of_retains ?_ ?_ ?_
  · intro r
    cases r <;> infer_instance
  · intro r
    cases r <;> infer_instance
  · rintro _ _ t t' ⟨name, name', rfl, rfl, hName, hTight⟩
    apply bind_rest
    exact structSegments hTight hCode hName

theorem structOrMap
    (hExpr : Mirrored deep expr expr')
    (hPaired : Paired ds Heads s s')
    (hCode : ds.isCode = true)
    (hRest : s.rest = l :: ls)
    (hKind : l.kind = .operator .struct) :
    Mirrors deep (alike ds Tight) (Parse.structOrMap expr)
      (Parse.structOrMap expr') s s' := by
  rcases hPaired.take_tight hCode hRest (by rw [hKind]; rfl)
    (fun _ => by rw [hKind]; rfl) with ⟨_, _, _, _, hTight⟩
  have hHeads := hTight.heads_of_tight
  apply bind_currentSpan
  intro percent percent'
  apply bind_skip
  apply bind_isAt hHeads.place
  split
  · rename_i hCurly
    rcases exists_of_isAt hCurly with ⟨c, cs, hNext, hOpening⟩
    apply (mapBody hExpr hHeads hCode hNext hOpening).bind
    rintro ⟨body, span⟩ ⟨body', span'⟩ t t' ⟨hBody, hTaken⟩
    refine pure ⟨.node _ _ ?_, hTaken⟩
    change unplaced _ = unplaced _
    simp [show unplaced body = unplaced body' from hBody.fst]
  · apply (structName hTight hCode).bind
    rintro name name' t t' ⟨hName, hTight'⟩
    have hHeads' := hTight'.heads_of_tight
    apply bind_isAt hHeads'.place
    split
    · rename_i hCurly
      rcases exists_of_isAt hCurly with ⟨c, cs, hNext, hOpening⟩
      apply (mapBody hExpr hHeads' hCode hNext hOpening).bind
      rintro ⟨body, span⟩ ⟨body', span'⟩ u u' ⟨hBody, hTaken⟩
      refine pure ⟨.node _ _ ?_, hTaken⟩
      change unplaced _ = unplaced _
      simp [show unplaced body = unplaced body' from hBody.fst,
        show unplaced name = unplaced name' from hName]
    · exact wantedNode _ hTight'

end Mirrors

end ElixirReader
