import ElixirReader.Proofs.Errors.Literals
import ElixirReader.Proofs.Likeness.Texts

/-
  This file lets two runs go side by side through numbers,
  sigils, characters, atoms, and the pairs of keywords.

  Main declarations:
    * `Mirrors.number`
    * `Mirrors.sigil`
    * `Mirrors.character`
    * `Mirrors.atom`
    * `Mirrors.keywords`
-/

namespace ElixirReader

open Parse
open Placed (unplaced)

variable {α β : Type}
variable {deep : Bool}
variable {k m : Nat}
variable {ds es : Nest}
variable {l l' : Lexeme}
variable {ls ls' : List Lexeme}
variable {place : List Lexeme → List Lexeme → Prop}
variable {s s' : ParseState}

/- Lexemes that are the same touch what is before them alike. -/
theorem Lexeme.Same.touches_iff
    (P : Kind → Prop)
    (hSame : l.Same l')
    (hSpaced : l.kind = .endOfLine ∨ l.spaced = l'.spaced)
    (hLine : ¬ P .endOfLine) :
    (P l'.kind ∧ l'.spaced = false) ↔
      (P l.kind ∧ l.spaced = false) := by
  rw [← hSame.kind]
  rcases hSpaced with hKind | hSpaced
  · rw [hKind]
    exact ⟨fun h => absurd h.1 hLine, fun h => absurd h.1 hLine⟩
  · rw [hSpaced]

/- Nodes are alike if their forms are. -/
theorem Alike.node
    {f f' : Form Node}
    (span span' : Span)
    (hForm : Alike f f') :
    Alike (⟨f, span⟩ : Node) ⟨f', span'⟩ :=
  congrArg (fun f => (⟨f, Span.none⟩ : Node)) hForm

namespace Mirrors

variable {expr expr' : ExpressionParser}
variable [∀ precedence context, Retains (expr precedence context)]
variable [∀ precedence context, Retains (expr' precedence context)]

------------------------------------------------------------
-- Numbers
------------------------------------------------------------

theorem isOfStatements_of_isNumberPart
    {k : Kind}
    (hPart : k.isNumberPart = true) :
    k.isOfStatements = true := by
  cases k <;> first | rfl | cases hPart

theorem number
    (hPaired : Paired ds Heads s s')
    (hCode : ds.isCode = true) :
    Mirrors deep (alike ds Tight) Parse.number Parse.number s s' := by
  apply bind_rest
  rcases hPaired.place.numberParts_cases with
    ⟨hNone, hNone'⟩ |
    ⟨l, ms, l', ms', hParts, hParts', hSame, hTight⟩
  · rw [hNone, hNone']
    exact errorNode _ hPaired
  · have hTake := (numberParts_eq_take s.rest).1
    have hKinds : ∀ n ∈ numberParts s.rest,
        n.kind.isNumberPart = true :=
      fun n hMem => isNumberPart_of_mem_numberParts hMem
    rw [hParts] at hTake hKinds
    rw [hParts, hParts']
    apply bind_skip
    have hTaken : Paired ds Tight (s.advance (ms.length + 1))
        (s'.advance (ms'.length + 1)) := by
      apply hPaired.advance_of_isOfStatements hCode _ hTight
      intro n hMem
      rw [List.length_cons] at hTake
      rw [← hTake] at hMem
      exact isOfStatements_of_isNumberPart (hKinds n hMem)
    have hSound : (l :: ms).any (·.kind.isFaulty) = false := by
      rw [List.any_eq_false]
      intro n hMem
      rw [hTake] at hMem
      have hRight := hPaired.faultless n (List.mem_of_mem_take hMem)
      simp [hRight]
    have hSound' : (l' :: ms').any (·.kind.isFaulty) = false :=
      (hSame.any_eq Kind.isFaulty).trans hSound
    rw [hSound, hSound', if_neg Bool.false_ne_true,
      if_neg Bool.false_ne_true, hSame.numberForm?_eq]
    cases numberForm? (l :: ms) with
    | none =>
        exact of_fails hTaken fun hClean =>
          errors_report_ne _ _ hClean
    | some form => exact pure ⟨.node _ _ rfl, hTaken⟩

------------------------------------------------------------
-- Sigils
------------------------------------------------------------

theorem sigilModifiers
    (span span' : Span)
    (hPaired : Paired ds Tight s s')
    (hCode : ds.isCode = true) :
    Mirrors deep (alike ds Tight) (Parse.sigilModifiers span)
      (Parse.sigilModifiers span') s s' := by
  apply bind_peek
  rcases hPaired.place.cases with
    ⟨hRest, hRest'⟩ |
    ⟨l, l', ls, ls', hRest, hRest', hSame, hSpaced, hMore⟩
  · rw [hRest, hRest']
    exact pure ⟨rfl, hPaired⟩
  · rw [hRest, hRest']
    dsimp only [List.head?_cons]
    have hBoth := hSame.touches_iff (· = .sigilModifiers) hSpaced
      (by simp)
    by_cases hFound : l.kind = .sigilModifiers ∧ l.spaced = false
    · rw [if_pos hFound, if_pos (hBoth.mpr hFound)]
      apply bind_skip
      refine pure ⟨Alike.mk (hSame.text_of hFound.1 (by simp)) rfl, ?_⟩
      apply hPaired.take_statement hCode hRest hRest'
      · rw [hFound.1]
        rfl
      · apply hMore.tight_of_endsOperand
        rw [hFound.1]
        rfl
    · rw [if_neg hFound, if_neg (mt hBoth.mp hFound)]
      exact pure ⟨rfl, hPaired⟩

theorem sigilBody
    {name name' : String}
    (tilde tilde' : Span)
    (hExpr : Mirrored deep expr expr')
    (hPaired : Paired ds Tight s s')
    (hCode : ds.isCode = true)
    (hName : name = name') :
    Mirrors deep (alike ds Tight) (Parse.sigilBody expr tilde name)
      (Parse.sigilBody expr' tilde' name') s s' := by
  subst hName
  have hHeads := hPaired.heads_of_tight
  apply bind_peek
  rw [hHeads.place.isSome_head?_eq isSigilPromoter]
  split
  · rename_i hPromoter
    rcases hHeads.head_cases with
      ⟨hRest, _⟩ | ⟨l, l', ls, ls', hRest, _, _⟩
    · rw [hRest] at hPromoter
      cases hPromoter
    · rw [hRest] at hPromoter
      have hKind : ∃ layout, l.kind = .promoter .sigil layout := by
        change isSigilPromoter l.kind = true at hPromoter
        cases hKind : l.kind with
        | promoter f layout =>
            rw [hKind] at hPromoter
            cases f <;> first | exact ⟨layout, rfl⟩ | cases hPromoter
        | _ =>
            rw [hKind] at hPromoter
            cases hPromoter
      rcases hKind with ⟨layout, hKind⟩
      apply (text hExpr hHeads hCode hRest hKind).bind
      rintro ⟨t, body⟩ ⟨t', body'⟩ u u' ⟨hText, hTight⟩
      apply (sigilModifiers _ _ hTight hCode).bind
      rintro ⟨modifiers, span⟩ ⟨modifiers', span'⟩ v v'
        ⟨hModifiers, hTight'⟩
      refine pure ⟨.node _ _ ?_, hTight'⟩
      change unplaced _ = unplaced _
      have hSame : modifiers = modifiers' := hModifiers.fst
      simp [show unplaced t = unplaced t' from hText.fst, hSame]
  · exact wantedNode _ hHeads

theorem sigil
    (hExpr : Mirrored deep expr expr')
    (hPaired : Paired ds Heads s s')
    (hCode : ds.isCode = true)
    (hRest : s.rest = l :: ls)
    (hKind : l.kind = .tilde) :
    Mirrors deep (alike ds Tight) (Parse.sigil expr)
      (Parse.sigil expr') s s' := by
  rcases hPaired.take_tight hCode hRest (by rw [hKind]; rfl)
    (fun _ => by rw [hKind]; rfl) with ⟨l', ls', hRest', hSame, hTight⟩
  apply bind_currentSpan
  intro tilde tilde'
  apply bind_skip
  have hHeads := hTight.heads_of_tight
  apply bind_peek
  rcases hHeads.head_cases with
    ⟨hNext, hNext'⟩ |
    ⟨m, m', ms, ms', hNext, hNext', hSame', hMore⟩
  · rw [hNext, hNext']
    exact wantedNode _ hHeads
  · rw [hNext, hNext']
    dsimp only [List.head?_cons]
    rw [← hSame'.kind]
    split
    · rename_i hName
      have hNameKind : m.kind.isOfStatements = true ∧
          ∀ next, Before.admitsBreak ⟨m.kind, true⟩ next = false := by
        cases hM : m.kind <;> rw [hM] at hName <;>
          first | exact ⟨rfl, fun _ => rfl⟩ | cases hName
      have hLine : m.kind ≠ .endOfLine := by
        intro hLine
        rw [hLine] at hName
        cases hName
      rcases hHeads.take_tight hCode hNext hNameKind.1 hNameKind.2 with
        ⟨_, _, _, _, hTight'⟩
      apply bind_skip
      exact sigilBody tilde tilde' hExpr hTight' hCode
        (hSame'.text hLine)
    · exact wantedNode _ hHeads

------------------------------------------------------------
-- Characters and atoms
------------------------------------------------------------

theorem character
    (hPaired : Paired ds Heads s s')
    (hCode : ds.isCode = true)
    (hRest : s.rest = l :: ls)
    (hKind : l.kind = .characterMark) :
    Mirrors deep (alike ds Tight) Parse.character Parse.character
      s s' := by
  rcases hPaired.take_tight hCode hRest (by rw [hKind]; rfl)
    (fun _ => by rw [hKind]; rfl) with ⟨l', ls', hRest', hSame, hTight⟩
  apply bind_currentSpan
  intro mark mark'
  apply bind_skip
  apply bind_peek
  rcases hTight.place.cases with
    ⟨hNext, hNext'⟩ |
    ⟨m, m', ms, ms', hNext, hNext', hSame', hSpaced, hMore⟩
  · rw [hNext, hNext']
    exact wantedNode _ hTight
  · rw [hNext, hNext']
    dsimp only [List.head?_cons]
    have hBoth := hSame'.touches_iff (· = .character) hSpaced
      (by simp)
    by_cases hFound : m.kind = .character ∧ m.spaced = false
    · rw [if_pos hFound, if_pos (hBoth.mpr hFound)]
      apply bind_skip
      have hTaken : Paired ds Tight ((s.advance 1).advance 1)
          ((s'.advance 1).advance 1) := by
        apply hTight.take_statement hCode hNext hNext'
        · rw [hFound.1]
          rfl
        · apply hMore.tight_of_endsOperand
          rw [hFound.1]
          rfl
      unfold Parse.characterValue
      rw [← hSame'.text_of hFound.1 (by simp)]
      cases Escape.characterCode? m.text.toList with
      | some code => exact pure ⟨.node _ _ rfl, hTaken⟩
      | none =>
          exact of_fails hTaken fun hClean =>
            errors_report_ne _ _ hClean
    · rw [if_neg hFound, if_neg (mt hBoth.mp hFound)]
      exact wantedNode _ hTight

theorem exists_of_isQuotePromoter
    {k : Kind}
    (hQuote : isQuotePromoter k = true) :
    ∃ f, k = .promoter f .quoted := by
  cases k with
  | promoter f layout =>
      cases f <;> cases layout <;>
        first | exact ⟨_, rfl⟩ | cases hQuote
  | _ => cases hQuote

theorem atom
    (hExpr : Mirrored deep expr expr')
    (hPaired : Paired ds Heads s s')
    (hCode : ds.isCode = true)
    (hRest : s.rest = l :: ls)
    (hKind : l.kind = .colon) :
    Mirrors deep (alike ds Tight) (Parse.atom expr)
      (Parse.atom expr') s s' := by
  rcases hPaired.take_tight hCode hRest (by rw [hKind]; rfl)
    (fun _ => by rw [hKind]; rfl) with ⟨l', ls', hRest', hSame, hTight⟩
  apply bind_currentSpan
  intro colon colon'
  apply bind_skip
  apply bind_peek
  rcases hTight.place.cases with
    ⟨hNext, hNext'⟩ |
    ⟨m, m', ms, ms', hNext, hNext', hSame', hSpaced, hMore⟩
  · rw [hNext, hNext']
    exact wantedNode _ hTight
  · rw [hNext, hNext']
    dsimp only [List.head?_cons]
    have hName := hSame'.touches_iff (· = .atomName) hSpaced
      (by simp)
    have hQuote := hSame'.touches_iff
      (fun k => isQuotePromoter k = true) hSpaced (by decide)
    by_cases hFound : m.kind = .atomName ∧ m.spaced = false
    · rw [if_pos hFound, if_pos (hName.mpr hFound)]
      apply bind_skip
      refine pure ⟨.node _ _ ?_, ?_⟩
      · exact congrArg Form.atom (hSame'.text_of hFound.1 (by simp))
      · apply hTight.take_statement hCode hNext hNext'
        · rw [hFound.1]
          rfl
        · apply hMore.tight
          intro next
          rw [hFound.1]
          rfl
    · rw [if_neg hFound, if_neg (mt hName.mp hFound)]
      by_cases hText : isQuotePromoter m.kind = true ∧
        m.spaced = false
      · rw [if_pos hText, if_pos (hQuote.mpr hText)]
        rcases exists_of_isQuotePromoter hText.1 with ⟨f, hPromoter⟩
        apply (text hExpr hTight.heads_of_tight hCode hNext
          hPromoter).bind
        rintro ⟨t, span⟩ ⟨t', span'⟩ u u' ⟨hAlike, hTaken⟩
        refine pure ⟨.node _ _ ?_, hTaken⟩
        change unplaced _ = unplaced _
        simp [show unplaced t = unplaced t' from hAlike.fst]
      · rw [if_neg hText, if_neg (mt hQuote.mp hText)]
        exact wantedNode _ hTight

------------------------------------------------------------
-- Keyword pairs
------------------------------------------------------------

theorem bareKey
    (hPaired : Paired ds Heads s s')
    (hCode : ds.isCode = true)
    (hRest : s.rest = l :: ls)
    (hKind : l.kind = .atomName)
    (hText : l.text = l'.text) :
    Mirrors deep (alike ds Awaits) (Parse.bareKey l)
      (Parse.bareKey l') s s' := by
  rcases hPaired.exists_head hRest with ⟨m, ms, hRest', _, hMore⟩
  have hTight : Tight ls ms := by
    apply hMore.tight
    intro next
    rw [hKind]
    rfl
  have hTaken : Paired ds (Matches ⟨l.kind, true⟩) (s.advance 1)
      (s'.advance 1) :=
    hPaired.take_statement hCode hRest hRest' (by rw [hKind]; rfl)
      hMore
  have hHeads : Heads (s.advance 1).rest (s'.advance 1).rest := by
    apply Heads.of_tight
    change Tight (s.rest.drop 1) (s'.rest.drop 1)
    rw [hRest, hRest']
    exact hTight
  apply bind_skip
  apply bind_eat hTaken hCode hHeads rfl
  · intro c c' t t' hColon hBoth hPaired'
    exact pure ⟨.node _ _ (congrArg Form.atom hText),
      hPaired'.mono fun h => ⟨_, rfl, h⟩⟩
  · intro _
    refine pure ⟨.node _ _ (congrArg Form.atom hText), ?_⟩
    exact hTaken.mono fun h => ⟨_, by rw [hKind]; rfl, h⟩

theorem exists_of_keywordAhead
    (hKey : keywordAhead (l :: ls) = true)
    (hName : l.kind ≠ .atomName) :
    ∃ f, l.kind = .promoter f .quoted := by
  cases hKind : l.kind with
  | promoter f layout =>
      rw [keywordAhead, hKind] at hKey
      cases layout with
      | quoted => exact ⟨f, rfl⟩
      | heredoc => cases f <;> cases hKey
  | atomName => exact absurd hKind hName
  | _ =>
      rw [keywordAhead, hKind] at hKey
      cases hKey

/- A key is found where one is ahead. -/
theorem keywordKey
    (hExpr : Mirrored deep expr expr')
    (hPaired : Paired ds Heads s s')
    (hCode : ds.isCode = true)
    (hKey : keywordAhead s.rest = true) :
    Mirrors deep
      (fun o o' t t' => ∃ key key', o = some key ∧ o' = some key' ∧
        Alike key key' ∧ Paired ds Awaits t t')
      (Parse.keywordKey expr) (Parse.keywordKey expr') s s' := by
  have hKey' : keywordAhead s'.rest = true :=
    hPaired.place.keywordAhead_eq.trans hKey
  apply bind_peek
  rcases hPaired.head_cases with
    ⟨hRest, _⟩ | ⟨l, l', ls, ls', hRest, hRest', hSame, hMore⟩
  · rw [hRest] at hKey
    cases hKey
  · rw [hRest, hRest']
    dsimp only [List.head?_cons]
    rw [← hSame.kind]
    split
    · rename_i hName
      apply (bareKey hPaired hCode hRest hName
        (hSame.text_of hName (by simp))).bind
      rintro key key' t t' ⟨hAlike, hAwaits⟩
      exact pure ⟨key, key', rfl, rfl, hAlike, hAwaits⟩
    · rename_i hName
      apply bind_rest
      rw [hKey, hKey', if_pos rfl, if_pos rfl]
      rw [hRest] at hKey
      rcases exists_of_keywordAhead hKey hName with ⟨f, hKind⟩
      refine (text hExpr hPaired hCode hRest hKind).bind_of_retains
        ?_ ?_ ?_
      · rintro ⟨t, span⟩
        refine @Retains.bind _ _ _ _ _ fun r => ?_
        cases r <;> infer_instance
      · rintro ⟨t, span⟩
        refine @Retains.bind _ _ _ _ _ fun r => ?_
        cases r <;> infer_instance
      · rintro ⟨t, span⟩ ⟨t', span'⟩ u u' ⟨hText, hTight⟩
        refine (expect .keyColon hTight.heads_of_tight hCode
          rfl).bind_of_retains ?_ ?_ ?_
        · intro r
          cases r <;> infer_instance
        · intro r
          cases r <;> infer_instance
        · rintro (e | c) (e' | c') v v' hTook
          · cases hTook
          · cases hTook
          · cases hTook
          · refine pure ⟨_, _, rfl, rfl, .node _ _ ?_, ?_⟩
            · change unplaced _ = unplaced _
              simp [show unplaced t = unplaced t' from hText.fst]
            · exact hTook.2.2.mono fun h => ⟨_, rfl, h⟩

variable {context : Context}

theorem pairsFor
    (span span' : Span)
    (hExpr : Mirrored deep expr expr')
    (hPaired : Paired ds Heads s s')
    (hCode : ds.isCode = true)
    (hKey : keywordAhead s.rest = true) :
    Mirrors deep (alike ds Tight)
      (Parse.pairsFor expr context k span)
      (Parse.pairsFor expr' context m span') s s' := by
  induction k generalizing m s s' span span' with
  | zero => exact cutOff_left
  | succ k ih =>
      cases m with
      | zero => exact cutOff_right
      | succ m =>
          refine (keywordKey hExpr hPaired hCode hKey).bind_of_retains
            ?first ?second ?both
          case first | second =>
            intro o
            cases o with
            | none => infer_instance
            | some key =>
                refine @Retains.bind _ _ _ _ _ fun _ =>
                  @Retains.bind _ _ _ _ _ fun _ =>
                    @Retains.bind _ _ _ _ _ fun ls => ?_
                cases pairSeparator? ls <;> infer_instance
          case both =>
            rintro _ _ t t' ⟨key, key', rfl, rfl, hAlike, hAwaits⟩
            apply bind_skipLineEnds_begins (hAwaits.mono Awaits.afresh)
              hCode
            intro u u' hBegins
            refine (hExpr ds 0 context u u' hCode hBegins).bind_of_retains
              ?first ?second ?both
            case first | second =>
              intro value
              refine @Retains.bind _ _ _ _ _ fun ls => ?_
              cases pairSeparator? ls <;> infer_instance
            case both =>
              rintro value value' v v' ⟨hValue, hTight⟩
              apply bind_rest
              have hPair : Alike (key, value) (key', value') :=
                Alike.mk hAlike hValue
              rcases hTight.place.pairSeparator?_cases with
                ⟨hNone, hNone'⟩ |
                ⟨n, n', hSome, hSome', hKinds, hNext, hPlace⟩
              · rw [hNone, hNone']
                refine pure ⟨Alike.mk ?_ rfl, hTight⟩
                exact Alike.cons_iff.mpr ⟨hPair, rfl⟩
              · rw [hSome, hSome']
                apply bind_skip
                have hTaken : Paired ds Heads (v.advance n)
                    (v'.advance n') := by
                  apply hTight.advance_of_isOfStatements hCode _
                    (Heads.of_begins hPlace)
                  intro l hMem
                  rcases hKinds l hMem with hSeparator | hComma
                  · exact isOfStatements_of_isSeparator hSeparator
                  · rw [hComma]
                    rfl
                apply (ih _ _ hTaken hNext).bind
                rintro ⟨pairs, last⟩ ⟨pairs', last'⟩ w w'
                  ⟨hPairs, hTight'⟩
                refine pure ⟨Alike.mk ?_ rfl, hTight'⟩
                exact Alike.cons_iff.mpr ⟨hPair, hPairs.fst⟩

theorem keywords
    (hExpr : Mirrored deep expr expr')
    (hPaired : Paired ds Heads s s')
    (hCode : ds.isCode = true)
    (hKey : keywordAhead s.rest = true) :
    Mirrors deep (alike ds Tight) (Parse.keywords expr context)
      (Parse.keywords expr' context) s s' := by
  apply bind_currentSpan
  intro start start'
  apply bind_rest
  apply (pairsFor start start' hExpr hPaired hCode hKey).bind
  rintro ⟨pairs, span⟩ ⟨pairs', span'⟩ t t' ⟨hPairs, hTight⟩
  refine pure ⟨.node _ _ ?_, hTight⟩
  change unplaced _ = unplaced _
  simp [show unplaced pairs = unplaced pairs' from hPairs.fst]

end Mirrors

end ElixirReader
