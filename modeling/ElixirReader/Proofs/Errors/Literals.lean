import ElixirReader.Proofs.Errors.Texts
import ElixirReader.Proofs.Parser.Literals

/-
  This file follows errors through numbers, sigils, characters,
  atoms, and the pairs of keywords. A quoted key shows the
  errors of its interpolations only if its colon is found
  behind it.

  Main declarations:
    * `Reads.number`
    * `Reads.sigil`
    * `Reads.character`
    * `Reads.atom`
    * `head?_text_of_keysClose`
    * `Reads.keywords`
-/

namespace ElixirReader

open Parse

variable {n k : Nat}
variable {l : Lexeme}
variable {ls : List Lexeme}
variable {s s' : ParseState}
variable {ds es : Nest}
variable {seen : List Node}
variable {expr : ExpressionParser}
variable {context : Context}

theorem isComplete_of_isNumberPart
    {k : Kind}
    (hNumber : k.isNumberPart = true) :
    k.isComplete = true := by
  cases k <;> first | rfl | cases hNumber

theorem isNumberPart_of_mem_numberParts
    (hMem : l ∈ numberParts ls) :
    l.kind.isNumberPart = true := by
  cases ls with
  | nil => cases hMem
  | cons m ms =>
      rw [numberParts] at hMem
      split at hMem
      · rename_i hNumber
        rcases List.mem_cons.mp hMem with rfl | hMem
        · exact hNumber
        · have hBoth :=
            List.all_eq_true.mp List.all_takeWhile l hMem
          simp only [Bool.and_eq_true] at hBoth
          exact hBoth.1
      · cases hMem

/- A number is an integer or a float. -/
theorem numberForm?_cases
    {form : Form Node}
    (hForm : numberForm? ls = some form) :
    (∃ i, form = .integer i) ∨ ∃ x, form = .float x := by
  cases ls with
  | nil => cases hForm
  | cons l ls =>
      rw [numberForm?.eq_def] at hForm
      simp only at hForm
      split at hForm
      · cases ls with
        | nil => cases hForm
        | cons letter digits =>
            rcases Option.bind_eq_some_iff.mp hForm with
              ⟨b, _, hBased⟩
            rcases Option.map_eq_some_iff.mp hBased with
              ⟨i, _, rfl⟩
            exact .inl ⟨i, rfl⟩
      · simp only [decimalForm?] at hForm
        split at hForm
        · rcases Option.map_eq_some_iff.mp hForm with
            ⟨x, _, rfl⟩
          exact .inr ⟨x, rfl⟩
        · rcases Option.map_eq_some_iff.mp hForm with
            ⟨i, _, rfl⟩
          exact .inl ⟨i, rfl⟩

namespace Reads

------------------------------------------------------------
-- Numbers
------------------------------------------------------------

/- The digits that the lexer has reported are not in order. -/
theorem poisoned
    {a : Node}
    (hView : a.containsError = true)
    (hFaulty : ∃ l ∈ s.rest.take k, l.kind.isFaulty = true) :
    Reads ds es seen nodeOf
      (do
        Parse.skip k
        Parse.poison
        return a) s := by
  refine ⟨suffix_advance k s, List.prefix_refl _,
    fun _ _ => (hasError_nodeOf a).mpr hView, ?_⟩
  intro trailing fs _ hCalm _
  rcases hFaulty with ⟨l, hMem, hL⟩
  rw [hCalm.faultless l (List.mem_of_mem_take hMem)] at hL
  cases hL

theorem number :
    Reads [] [] [] nodeOf Parse.number s := by
  apply bind_rest
  have hTake := numberParts_eq_take s.rest
  cases hParts : numberParts s.rest with
  | nil => exact errorNode _
  | cons l ls =>
      rw [hParts, List.length_cons] at hTake
      by_cases hFaulty :
          (l :: ls).any (·.kind.isFaulty) = true
      · simp only [hFaulty, if_true]
        apply poisoned (containsError_failure _ _)
        rw [← hTake.1]
        exact List.any_eq_true.mp hFaulty
      · simp only [hFaulty]
        have hSkip : Reads [] [] [] noNodes
            (Parse.skip (ls.length + 1)) s := by
          apply skip
          intro m hMem
          rw [← hTake.1, ← hParts] at hMem
          have hNumber := isNumberPart_of_mem_numberParts hMem
          exact ⟨Kind.isFlat_of_isPlain
            (isPlain_of_isNumberPart hNumber),
            isComplete_of_isNumberPart hNumber⟩
        apply hSkip.bind_silent
        intro _ s' _
        cases hForm : numberForm? (l :: ls) with
        | none => exact failure _ _ _
        | some form =>
            apply pure
            rcases numberForm?_cases hForm with
              ⟨i, rfl⟩ | ⟨x, rfl⟩ <;>
              (rw [hasError_nodeOf, containsError_mk _ rfl]; rfl)

------------------------------------------------------------
-- Sigils
------------------------------------------------------------

theorem sigilModifiers
    (span : Span) :
    Reads [] [] [] noNodes (Parse.sigilModifiers span) s := by
  apply bind_peek
  cases hRest : s.rest with
  | nil => exact pure (by simp)
  | cons l ls =>
      simp only [List.head?_cons]
      split
      · rename_i hModifiers
        apply bind_skip_flat hRest
        · rw [hModifiers.1]
          rfl
        · left
          apply Lexeme.isUnfinished_of_isComplete
          rw [hModifiers.1]
          rfl
        · intro s' _
          exact pure (by simp)
      · exact pure (by simp)

theorem sigilBody
    (hExpr : Candid n expr)
    (tilde : Span)
    (name : String) :
    Reads [] [] [] nodeOf (Parse.sigilBody expr tilde name)
      s := by
  apply bind_peek
  cases hPromoter : s.rest.head?.any (isSigilPromoter ·.kind) with
  | false => exact wantedNode _
  | true =>
      rcases (Option.any_eq_true _ _).mp hPromoter with
        ⟨l, hHead, hSigil⟩
      rcases List.head?_eq_some_iff.mp hHead with ⟨ls, hRest⟩
      rcases exists_of_isSigilPromoter hSigil with
        ⟨layout, hKind⟩
      apply (text hExpr hRest hKind).bind
      rintro ⟨t, body⟩ s₁ _
      apply (sigilModifiers _).bind_silent
      rintro ⟨modifiers, span⟩ s₂ _
      apply pure
      rw [hasError_nodeOf, containsError_mk _ rfl]
      simp [Form.nodes, textNodes]

theorem sigil
    (hExpr : Candid n expr)
    (hRest : s.rest = l :: ls)
    (hKind : l.kind = .tilde) :
    Reads [] [] [] nodeOf (Parse.sigil expr) s := by
  apply bind_currentSpan
  intro tilde
  apply bind_skip_flat hRest (by rw [hKind]; rfl)
    (.inl (Lexeme.isUnfinished_of_isComplete (by rw [hKind]; rfl)))
  intro s' hRest'
  apply bind_peek
  rw [hRest']
  cases ls with
  | nil => exact wantedNode _
  | cons m ms =>
      simp only [List.head?_cons]
      split
      · rename_i hName
        have hPlain := isPlain_of_isSigilName hName
        apply bind_skip_flat hRest'
          (Kind.isFlat_of_isPlain hPlain)
        · left
          apply Lexeme.isUnfinished_of_isComplete
          cases hKind' : m.kind <;> rw [hKind'] at hName <;>
            first | rfl | cases hName
        · intro s'' _
          exact sigilBody hExpr tilde m.text
      · exact wantedNode _

------------------------------------------------------------
-- Characters and atoms
------------------------------------------------------------

/- A question mark has to be followed by a character. -/
theorem character
    (hRest : s.rest = l :: ls)
    (hKind : l.kind = .characterMark) :
    Reads [] [] [] nodeOf Parse.character s := by
  have hTake := ParseState.take_one hRest
  apply bind_currentSpan
  intro mark
  have hFlat : ∀ m ∈ s.rest.take 1, m.kind.isFlat = true := by
    intro m hMem
    rw [hTake.1, List.mem_singleton] at hMem
    rw [hMem, hKind]
    rfl
  apply bind_skip hFlat
  · intro hNil
    right
    intro hClean
    rw [Parse.bind_apply, peek_of_nil hNil]
    exact fails_wantedNode _ hClean
  · apply bind_peek
    rw [hTake.2]
    cases ls with
    | nil => exact wantedNode _
    | cons m ms =>
        simp only [List.head?_cons]
        split
        · rename_i hCharacter
          have hTake' := ParseState.take_one hTake.2
          apply bind_skip
          · intro c hMem
            rw [hTake'.1, List.mem_singleton] at hMem
            rw [hMem, hCharacter.1]
            rfl
          · intro _
            rw [hTake'.1]
            unfold Parse.characterValue
            cases hCode : Escape.characterCode? m.text.toList with
            | some code =>
                left
                intro c hMem
                rw [List.mem_singleton] at hMem
                rw [hMem]
                simp [Lexeme.isUnfinished, hCharacter.1, hCode]
            | none =>
                right
                exact errors_report_ne _ _
          · unfold Parse.characterValue
            cases Escape.characterCode? m.text.toList with
            | some code =>
                apply pure
                rw [hasError_nodeOf, containsError_mk _ rfl]
                rfl
            | none => exact failure _ _ _
        · exact wantedNode _

/- A colon that starts an atom has to be followed by a name. -/
theorem atom
    (hExpr : Candid n expr)
    (hRest : s.rest = l :: ls)
    (hKind : l.kind = .colon) :
    Reads [] [] [] nodeOf (Parse.atom expr) s := by
  have hTake := ParseState.take_one hRest
  apply bind_currentSpan
  intro colon
  have hFlat : ∀ m ∈ s.rest.take 1, m.kind.isFlat = true := by
    intro m hMem
    rw [hTake.1, List.mem_singleton] at hMem
    rw [hMem, hKind]
    rfl
  apply bind_skip hFlat
  · intro hNil
    right
    intro hClean
    rw [Parse.bind_apply, peek_of_nil hNil]
    exact fails_wantedNode _ hClean
  · apply bind_peek
    rw [hTake.2]
    cases ls with
    | nil => exact wantedNode _
    | cons m ms =>
        simp only [List.head?_cons]
        split
        · rename_i hName
          apply bind_skip_flat hTake.2 (by rw [hName.1]; rfl)
            (.inl (Lexeme.isUnfinished_of_isComplete
              (by rw [hName.1]; rfl)))
          intro s' _
          apply pure
          rw [hasError_nodeOf, containsError_mk _ rfl]
          rfl
        · split
          · rename_i hQuote
            rcases exists_of_isQuotePromoter hQuote.1 with
              ⟨f, hPromoter, _⟩
            apply (text hExpr hTake.2 hPromoter).bind
            rintro ⟨t, span⟩ s' _
            apply pure
            rw [hasError_nodeOf, containsError_mk _ rfl]
            rfl
          · exact wantedNode _

end Reads

------------------------------------------------------------
-- Quoted keys
------------------------------------------------------------

/-
  What is behind the place where everything is closed. Before
  that place nothing closes all that is open.
-/
theorem Nest.exists_of_closed?
    {ds : Nest}
    {ls back : List Lexeme}
    (hClosed : ds.closed? ls = some back) :
    ∃ front, ls = front ++ back ∧ ds.behind? front = some [] ∧
      ∀ part more, front = part ++ more → part ≠ [] →
        ds.behind? part = some [] → more = [] := by
  induction ls generalizing ds with
  | nil => cases hClosed
  | cons l ls ih =>
      rw [closed?] at hClosed
      cases hNext : ds.next? l.kind with
      | none =>
          rw [hNext] at hClosed
          cases hClosed
      | some es =>
          rw [hNext] at hClosed
          cases es with
          | nil =>
              cases hClosed
              refine ⟨[l], rfl, ?_, ?_⟩
              · rw [behind?_cons, hNext]
                rfl
              · intro part more hSplit hNe _
                cases part with
                | nil => exact absurd rfl hNe
                | cons m part =>
                    simp only [List.cons_append,
                      List.cons.injEq] at hSplit
                    exact (List.append_eq_nil_iff.mp
                      hSplit.2.symm).2
          | cons e es =>
              rcases ih hClosed with
                ⟨front, rfl, hBehind, hFirst⟩
              refine ⟨l :: front, rfl, ?_, ?_⟩
              · rw [behind?_cons, hNext]
                exact hBehind
              · intro part more hSplit hNe hPart
                cases part with
                | nil => exact absurd rfl hNe
                | cons m part =>
                    rw [List.cons_append, List.cons.injEq]
                      at hSplit
                    rcases hSplit with ⟨rfl, rfl⟩
                    rw [behind?_cons, hNext] at hPart
                    apply hFirst part more rfl _ hPart
                    rintro rfl
                    cases hPart

/- A key that closes is read up to its colon. -/
theorem head?_text_of_keysClose
    {f : Family}
    (hExpr : Sound n expr)
    (hRest : s.rest = l :: ls)
    (hKind : l.kind = .promoter f .quoted)
    (hAhead : keywordAhead s.rest = true)
    (hKeys : keysClose s.rest = true) :
    ∃ colon back, (text expr s).2.rest = colon :: back ∧
      colon.kind = .colon := by
  have hTail := (ParseState.take_one hRest).2
  rw [hRest] at hAhead hKeys
  simp only [keysClose, keyCloses, hKind, hAhead,
    Bool.not_true, Bool.false_or, Bool.and_eq_true] at hKeys
  rcases (Option.any_eq_true _ _).mp hKeys.1 with
    ⟨back, hClosed, hColon⟩
  rcases Nest.exists_of_closed? hClosed with
    ⟨front, hFront, hBehind, hFirst⟩
  have hWithin : Within [.literal f .quoted] back
      (s.advance 1) := by
    refine ⟨front, ?_, hBehind⟩
    rw [hTail]
    exact hFront
  have hBound : (s.advance 1).rest.length <
      (s.advance 1).rest.length + 1 := Nat.lt_succ_self _
  rcases within_segmentsFor l.span hExpr hBound hWithin with
    ⟨_, ⟨more, hMore, hBalanced⟩, _⟩
  rcases steady_segmentsFor l.span hExpr hBound with
    ⟨taken, hSteady⟩
  have hState : (text expr s).2.rest =
      (segmentsFor expr ((s.advance 1).rest.length + 1) l.span
        (s.advance 1)).2.rest := by
    rw [text_of_cons hRest]
    simp only [promoterText_of_promoter hKind]
    unfold poisonedIf
    split <;> rfl
  -- The text ends at the first place where it may.
  have hSplit : front = taken ++ more := by
    have hRest' := hSteady.rest
    rw [hMore, hTail, hFront, ← List.append_assoc] at hRest'
    exact List.append_cancel_right hRest'
  rw [hSplit] at hBehind
  rcases Nest.exists_of_behind?_append hBehind with
    ⟨es, hTaken, hLater⟩
  have hLength := Nest.length_add_of_behind? hLater hBalanced
  have hEs : es = [] := by
    rw [← List.length_eq_zero_iff]
    simpa using hLength
  subst hEs
  have hMoreNil : more = [] := by
    apply hFirst taken more hSplit _ hTaken
    rintro rfl
    cases hTaken
  rw [hState, hMore, hMoreNil, List.nil_append]
  cases back with
  | nil => cases hColon
  | cons colon back =>
      refine ⟨colon, back, rfl, ?_⟩
      simp only [keyColonAhead, Bool.and_eq_true,
        beq_iff_eq] at hColon
      exact hColon.1.1

------------------------------------------------------------
-- Pairs
------------------------------------------------------------

/- The trees in pairs that come with their span. -/
def pairNodes
    (r : List (Node × Node) × Span) : List Node :=
  r.1.flatMap fun (k, v) => [k, v]

namespace Reads

theorem pairsAfter
    (span : Span)
    (key value : Node)
    (hNext : ∀ span s',
      ElixirReader.keywordAhead s'.rest = true →
        Reads [] [] [] pairNodes
          (pairsFor expr context k span) s') :
    Reads [] [] [key, value] pairNodes
      (ElixirReader.pairsAfter expr context k span key value)
      s := by
  apply bind_rest
  cases hSeparator : pairSeparator? s.rest with
  | none =>
      apply pure
      simp [pairNodes]
  | some m =>
      rcases take_of_pairSeparator? hSeparator with
        ⟨hPlain, _, _, hAhead⟩
      apply bind_skip
      · exact fun l hMem => Kind.isFlat_of_isPlain (hPlain l hMem)
      · intro hNil
        change s.rest.drop m = [] at hNil
        rw [hNil] at hAhead
        cases hAhead
      · apply (hNext span (s.advance m) hAhead).bind
        rintro ⟨pairs, span⟩ s' _
        apply pure
        simp [pairNodes]

theorem pairsBehind
    (hExpr : Candid n expr)
    (span : Span)
    (key : Node)
    (hNext : ∀ span s',
      ElixirReader.keywordAhead s'.rest = true →
        Reads [] [] [] pairNodes
          (pairsFor expr context k span) s') :
    Reads [] [] [key] pairNodes
      (ElixirReader.pairsBehind expr context k span (some key))
      s := by
  have hSkip : Reads [] [] [] noNodes Parse.skipLineEnds s :=
    skipLineEnds
  apply hSkip.bind_silent
  intro _ s₁ _
  apply (hExpr.reads 0 context s₁).bind
  intro value s₂ _
  exact pairsAfter _ key value hNext

end Reads

/- The colon behind a name ends its key. -/
theorem bareKey_of_eat
    {colon : Option Lexeme}
    (l : Lexeme)
    (hEat : eat .colon (s.advance 1) = (colon, s')) :
    bareKey l s =
      (⟨.atom l.text,
        (colon.map (l.span.merge ·.span)).getD l.span⟩, s') := by
  rw [bareKey, Parse.bind_apply]
  change (eat .colon >>= _ : Parse Node) (s.advance 1) = _
  rw [Parse.bind_apply, hEat]
  cases colon <;> rfl

/- A key that is a name, and the colon that may follow it. -/
theorem keywordKey_of_atomName
    (hRest : s.rest = l :: ls)
    (hKind : l.kind = .atomName) :
    ∃ m span,
      keywordKey expr s =
          (some ⟨.atom l.text, span⟩, s.advance m) ∧
        ∀ k ∈ s.rest.take m, k.kind.isFlat = true := by
  have hTake := ParseState.take_one hRest
  have hFlat : l.kind.isFlat = true := by
    rw [hKind]
    rfl
  have hKey : keywordKey expr s =
      (some (bareKey l s).1, (bareKey l s).2) := by
    rw [keywordKey, Parse.bind_apply, peek_of_cons hRest]
    simp only [hKind, if_true]
    rfl
  rcases head?_cases .colon (s.advance 1) with
    ⟨colon, back, hRest', hColon⟩ | hNone
  · have hLs : ls = colon :: back := hTake.2.symm.trans hRest'
    have hTwo : (s.advance 1).advance 1 = s.advance 2 := by
      simp [ParseState.advance, hRest, hLs]
    refine ⟨2, l.span.merge colon.span, ?_, ?_⟩
    · rw [hKey, bareKey_of_eat l (eat_of_cons hRest' hColon),
        hTwo]
      rfl
    · intro k hMem
      rw [hRest, hLs] at hMem
      simp only [List.take_succ_cons, List.take_zero,
        List.mem_cons, List.not_mem_nil, or_false] at hMem
      rcases hMem with rfl | rfl
      · exact hFlat
      · rw [hColon]
        rfl
  · refine ⟨1, l.span, ?_, ?_⟩
    · rw [hKey, bareKey_of_eat l (eat_of_ne hNone)]
      rfl
    · intro k hMem
      rw [hTake.1, List.mem_singleton] at hMem
      rw [hMem]
      exact hFlat

namespace Reads

/-
  At the end of the text a key has no value, which is an
  error.
-/
theorem pairsFor_of_atomName
    (hExpr : Candid n expr)
    (span : Span)
    (hRest : s.rest = l :: ls)
    (hKind : l.kind = .atomName)
    (hNext : ∀ span s',
      ElixirReader.keywordAhead s'.rest = true →
        Reads [] [] [] pairNodes
          (pairsFor expr context k span) s') :
    Reads [] [] [] pairNodes
      (pairsFor expr context (k + 1) span) s := by
  rcases @keywordKey_of_atomName l ls s expr hRest hKind with
    ⟨m, keySpan, hKey, hFlat⟩
  have hReads : Reads [] [] [] pairNodes
      (Parse.skip m >>= fun _ =>
        ElixirReader.pairsBehind expr context k span
          (some ⟨.atom l.text, keySpan⟩)) s := by
    apply bind_skip hFlat
    · exact fun hNil =>
        .inr (fails_pairsBehind hExpr.toSound _ _ hNil)
    · apply (pairsBehind hExpr span _ hNext).congr_seen
      have hAtom : Node.containsError ⟨.atom l.text, keySpan⟩ =
          false := rfl
      simp [hAtom]
  apply hReads.of_eq
  rw [pairsFor_succ, Parse.bind_apply, hKey]
  rfl

/-
  A key in quotes. If its colon is not found, the error and
  the trees in the key are lost, which is no case of a key
  that closes.
-/
theorem pairsFor_of_promoter
    {f : Family}
    (hExpr : Candid n expr)
    (span : Span)
    (hRest : s.rest = l :: ls)
    (hKind : l.kind = .promoter f .quoted)
    (hAhead : ElixirReader.keywordAhead s.rest = true)
    (hNext : ∀ span s',
      ElixirReader.keywordAhead s'.rest = true →
        Reads [] [] [] pairNodes
          (pairsFor expr context k span) s') :
    Reads [] [] [] pairNodes
      (pairsFor expr context (k + 1) span) s := by
  have hText := text hExpr hRest hKind
  have hEq : pairsFor expr context (k + 1) span s =
      (Parse.text expr >>= fun t =>
        pairsBehindColon expr context k span fun colon =>
          ⟨.quotedAtom t.1, t.2.merge colon.span⟩) s := by
    rw [pairsFor_succ]
    exact keywordKey_of_quoted hRest hKind hAhead span
  rcases head?_cases .colon (Parse.text expr s).2 with
    ⟨colon, back, hRest', hColon⟩ | hNone
  · have hReads : Reads [] [] [] pairNodes
        (Parse.text expr >>= fun t =>
          Parse.skip 1 >>= fun _ =>
            ElixirReader.pairsBehind expr context k span
              (some ⟨.quotedAtom t.1, t.2.merge colon.span⟩))
        s := by
      apply hText.bind
      rintro ⟨t, textSpan⟩ s₁ hT
      rw [hT] at hRest'
      apply bind_skip
      · intro m hMem
        rw [(ParseState.take_one hRest').1,
          List.mem_singleton] at hMem
        rw [hMem, hColon]
        rfl
      · exact fun hNil =>
          .inr (fails_pairsBehind hExpr.toSound _ _ hNil)
      · apply (pairsBehind hExpr span _ hNext).congr_seen
        rw [hasError_cons, containsError_mk _ rfl]
        simp [Form.nodes, textNodes]
    apply hReads.of_eq
    rw [hEq, Parse.bind_apply, Parse.bind_apply]
    simp only [pairsBehindColon]
    rw [Parse.bind_apply, expect_of_cons _ hRest' hColon]
    rfl
  · have hState : pairsFor expr context (k + 1) span s =
        (([], span), (Parse.wantedNode .keyColon
          (Parse.text expr s).2).2) := by
      rw [hEq, Parse.bind_apply]
      simp only [pairsBehindColon]
      rw [Parse.bind_apply, expect_of_ne _ hNone]
      rfl
    have hWanted : Reads [] [] [] nodeOf
        (Parse.wantedNode .keyColon) (Parse.text expr s).2 :=
      wantedNode _
    have hFails : Fails (Parse.wantedNode .keyColon)
        (Parse.text expr s).2 := fails_wantedNode _
    refine ⟨?_, ?_, ?_, ?_⟩
    · rw [hState]
      exact hWanted.rest.trans hText.rest
    · rw [hState]
      exact hText.errors.trans hWanted.errors
    · intro hKeys _
      rcases head?_text_of_keysClose hExpr.toSound hRest hKind
        hAhead hKeys with ⟨colon, back, hRest', hColon⟩
      exact absurd hColon (hNone colon (by rw [hRest']; rfl))
    · intro trailing fs hCode hCalm hErrors
      rw [hState] at hErrors
      have hBack : (Parse.text expr s).2.errors <+: s.errors := by
        rw [← hErrors]
        exact hWanted.errors
      have hSame : (Parse.text expr s).2.errors = s.errors :=
        hBack.eq_of_length_le hText.errors.length_le
      have hCalm' := (hText.calm hCode hCalm hSame).1
      exact absurd (hErrors.trans hSame.symm)
        (hFails hCalm'.poisoned)

theorem pairsFor
    (hExpr : Candid n expr)
    (span : Span)
    (hAhead : ElixirReader.keywordAhead s.rest = true) :
    Reads [] [] [] pairNodes
      (Parse.pairsFor expr context k span) s := by
  induction k generalizing s span with
  | zero =>
      have hPure : Reads [] [] [] pairNodes
          (Pure.pure ([], span) :
            Parse (List (Node × Node) × Span)) s :=
        pure (by simp [pairNodes])
      exact hPure.cutOff
  | succ k ih =>
      rcases exists_of_keywordAhead hAhead with
        ⟨l, ls, hRest, hKind | ⟨f, hKind, _⟩⟩
      · exact pairsFor_of_atomName hExpr span hRest hKind
          fun span s' hAhead' => ih span hAhead'
      · exact pairsFor_of_promoter hExpr span hRest hKind hAhead
          fun span s' hAhead' => ih span hAhead'

theorem keywords
    (hExpr : Candid n expr)
    (hAhead : ElixirReader.keywordAhead s.rest = true) :
    Reads [] [] [] nodeOf (Parse.keywords expr context) s := by
  apply bind_currentSpan
  intro start
  apply bind_rest
  apply (pairsFor hExpr start hAhead).bind
  rintro ⟨pairs, span⟩ s' _
  apply pure
  rw [hasError_nodeOf, containsError_mk _ rfl]
  rfl

end Reads

end ElixirReader
