import ElixirReader.Proofs.Parser.Lookahead

/-
  This file compares runs over the literals that are no texts,
  and over the pairs of keywords.

  Main declarations:
    * `Run.number`
    * `Run.sigil`
    * `Run.character`
    * `Run.atom`
    * `fails_pairsFor`
    * `Run.keywords`
-/

namespace ElixirReader

open Parse

variable {h : Setting}
variable {inside : Bool}
variable {n : Nat}
variable {s s' : ParseState}
variable {expr : ExpressionParser}
variable {l : Lexeme}
variable {ls : List Lexeme}

------------------------------------------------------------
-- Numbers
------------------------------------------------------------

/- The parts of a number come first, and are plain. -/
theorem numberParts_eq_take
    (ls : List Lexeme) :
    numberParts ls = ls.take (numberParts ls).length ∧
      ∀ l ∈ numberParts ls, l.kind.isPlain = true := by
  cases ls with
  | nil => exact ⟨rfl, fun _ hMem => by cases hMem⟩
  | cons l ls =>
      cases hNumber : l.kind.isNumberPart with
      | false => simp [numberParts, hNumber]
      | true =>
          simp only [numberParts, hNumber, if_true]
          constructor
          · rw [List.length_cons, List.take_succ_cons]
            congr 1
            exact List.prefix_iff_eq_take.mp
              (List.takeWhile_prefix _)
          · intro m hMem
            apply isPlain_of_isNumberPart
            rcases List.mem_cons.mp hMem with rfl | hTail
            · exact hNumber
            · have hAll := List.all_eq_true.mp
                List.all_takeWhile m hTail
              simp only [Bool.and_eq_true] at hAll
              exact hAll.1

theorem Run.number :
    Run h n inside Parse.number Parse.number s := by
  apply Run.bind_rest
  have hTake := numberParts_eq_take s.rest
  apply Run.of_eq _ fun hSees => by
    rw [hSees.numberParts_append]
  cases hParts : numberParts s.rest with
  | nil => exact Run.errorNode _
  | cons l ls =>
      rw [hParts, List.length_cons] at hTake
      have hPlain :
          ∀ m ∈ s.rest.take (ls.length + 1),
            m.kind.isPlain = true := by
        rw [← hTake.1]
        exact hTake.2
      have hLength : ls.length + 1 ≤ s.rest.length := by
        have hLe := congrArg List.length hTake.1
        rw [List.length_cons, List.length_take] at hLe
        omega
      by_cases hFaulty :
          (l :: ls).any (·.kind.isFaulty) = true
      · simp only [hFaulty, if_true]
        apply Run.poison _ hPlain hLength
        rw [← hTake.1]
        exact List.any_eq_true.mp hFaulty
      · simp only [hFaulty]
        apply (Run.skip hPlain hLength).bind
        intro _ s' _
        cases numberForm? (l :: ls) with
        | some form => exact Run.pure _
        | none => exact Run.failure _ _ _

------------------------------------------------------------
-- Sigils
------------------------------------------------------------

theorem Run.sigilModifiers
    (span : Span) :
    Run h n inside (Parse.sigilModifiers span)
      (Parse.sigilModifiers span) s := by
  apply Run.bind_peek_ends
  · intro l ls hRest
    by_cases hKind :
        l.kind = .sigilModifiers ∧ l.spaced = false
    · simp only [hKind, and_self, if_true]
      apply Run.bind_skip hRest (by rw [hKind.1]; rfl)
      intro s' _ _
      exact Run.pure _
    · simp only [hKind, if_false]
      exact Run.pure _
  · intro _
    exact Run.pure _
  · intro l hKind
    rcases Kind.endsText_cases hKind with
      hKind | hKind | hKind | hKind <;> simp [hKind]

theorem exists_of_isSigilPromoter
    {k : Kind}
    (hPromoter : isSigilPromoter k = true) :
    ∃ layout, k = .promoter .sigil layout := by
  unfold isSigilPromoter at hPromoter
  split at hPromoter
  · exact ⟨_, rfl⟩
  · cases hPromoter

theorem Run.sigilBody
    (hExpr : Sound n expr)
    (tilde : Span)
    (name : String) :
    Run h n inside (Parse.sigilBody expr tilde name)
      (Parse.sigilBody expr tilde name) s := by
  apply Run.bind_peek_ends
  · intro l ls hRest
    cases hPromoter : isSigilPromoter l.kind with
    | false =>
        simp only [Option.any_some, hPromoter]
        exact Run.wantedNode _
    | true =>
        simp only [Option.any_some, hPromoter, if_true]
        rcases exists_of_isSigilPromoter hPromoter with
          ⟨layout, hKind⟩
        apply (Run.text hExpr hRest hKind).bind
        rintro ⟨t, body⟩ s' _
        apply (Run.sigilModifiers _).bind
        rintro ⟨modifiers, span⟩ s'' _
        exact Run.pure _
  · intro _
    exact Run.wantedNode _
  · intro l hKind
    rcases Kind.endsText_cases hKind with
      hKind | hKind | hKind | hKind <;> simp [hKind, isSigilPromoter]

theorem isPlain_of_isSigilName
    {k : Kind}
    (hName : isSigilName k = true) :
    k.isPlain = true := by
  cases k <;> first | rfl | cases hName

theorem Run.sigil
    (hExpr : Sound n expr)
    (hRest : s.rest = l :: ls)
    (hPlain : l.kind.isPlain = true) :
    Run h n inside (Parse.sigil expr) (Parse.sigil expr) s := by
  apply Run.bind_currentSpan hRest
  apply Run.bind_skip hRest hPlain
  intro s' _ _
  apply Run.bind_peek_or_fails
  · intro m ms hRest'
    cases hName : isSigilName m.kind with
    | false =>
        simp only [hName]
        exact Run.wantedNode _
    | true =>
        simp only [hName, if_true]
        apply Run.bind_skip hRest' (isPlain_of_isSigilName hName)
        intro s'' _ _
        exact Run.sigilBody hExpr _ _
  · intro _
    exact ⟨Run.wantedNode _, fails_wantedNode _⟩

------------------------------------------------------------
-- Characters and atoms
------------------------------------------------------------

theorem Run.characterValue
    (text : String)
    (span : Span) :
    Run h n inside (Parse.characterValue text span)
      (Parse.characterValue text span) s := by
  unfold Parse.characterValue
  cases Escape.characterCode? text.toList with
  | some code => exact Run.pure _
  | none => exact Run.failure _ _ _

theorem Run.character
    (hRest : s.rest = l :: ls)
    (hPlain : l.kind.isPlain = true) :
    Run h n inside Parse.character Parse.character s := by
  apply Run.bind_currentSpan hRest
  apply Run.bind_skip hRest hPlain
  intro s' _ _
  apply Run.bind_peek_or_fails
  · intro m ms hRest'
    by_cases hKind : m.kind = .character ∧ m.spaced = false
    · simp only [hKind, and_self, if_true]
      apply Run.bind_skip hRest' (by rw [hKind.1]; rfl)
      intro s'' _ _
      exact Run.characterValue _ _
    · simp only [hKind, if_false]
      exact Run.wantedNode _
  · intro _
    exact ⟨Run.wantedNode _, fails_wantedNode _⟩

theorem exists_of_isQuotePromoter
    {k : Kind}
    (hPromoter : isQuotePromoter k = true) :
    ∃ f, k = .promoter f .quoted ∧ f ≠ .sigil := by
  unfold isQuotePromoter at hPromoter
  split at hPromoter
  · exact ⟨.string, rfl, by simp⟩
  · exact ⟨.charlist, rfl, by simp⟩
  · cases hPromoter

theorem Run.atom
    (hExpr : Sound n expr)
    (hRest : s.rest = l :: ls)
    (hPlain : l.kind.isPlain = true) :
    Run h n inside (Parse.atom expr) (Parse.atom expr) s := by
  apply Run.bind_currentSpan hRest
  apply Run.bind_skip hRest hPlain
  intro s' _ _
  apply Run.bind_peek_or_fails
  · intro m ms hRest'
    by_cases hName : m.kind = .atomName ∧ m.spaced = false
    · simp only [hName, and_self, if_true]
      apply Run.bind_skip hRest' (by rw [hName.1]; rfl)
      intro s'' _ _
      exact Run.pure _
    · simp only [hName, if_false]
      by_cases hQuoted :
          isQuotePromoter m.kind = true ∧ m.spaced = false
      · simp only [hQuoted, and_self, if_true]
        rcases exists_of_isQuotePromoter hQuoted.1 with
          ⟨f, hKind, _⟩
        apply (Run.text hExpr hRest' hKind).bind
        rintro ⟨t, span⟩ s'' _
        exact Run.pure _
      · simp only [hQuoted, if_false]
        exact Run.wantedNode _
  · intro _
    exact ⟨Run.wantedNode _, fails_wantedNode _⟩

------------------------------------------------------------
-- Keys
------------------------------------------------------------

theorem Run.bareKey
    (hRest : s.rest = l :: ls)
    (hKind : l.kind = .atomName) :
    Run h n inside (Parse.bareKey l) (Parse.bareKey l) s := by
  apply Run.bind_skip hRest (by rw [hKind]; rfl)
  intro s' _ _
  apply Run.bind_eat rfl rfl
  · intro colon s'' _ _ _
    exact Run.pure _
  · intro _
    exact Run.pure _

theorem Run.quotedKey
    {f : Family}
    (hExpr : Sound n expr)
    (hRest : s.rest = l :: ls)
    (hKind : l.kind = .promoter f .quoted) :
    Run h n inside (Parse.quotedKey expr)
      (Parse.quotedKey expr) s := by
  apply (Run.text hExpr hRest hKind).bind
  rintro ⟨t, span⟩ s' _
  apply (Run.expect .keyColon rfl rfl).bind
  rintro (e | colon) s'' _
  · exact Run.pure _
  · exact Run.pure _

/- A key is a name, or a text between two quotes. -/
theorem exists_of_keywordAhead
    (hAhead : keywordAhead s.rest = true) :
    ∃ l ls, s.rest = l :: ls ∧
      (l.kind = .atomName ∨
        ∃ f, l.kind = .promoter f .quoted ∧ f ≠ .sigil) := by
  cases hRest : s.rest with
  | nil =>
      rw [hRest] at hAhead
      cases hAhead
  | cons l ls =>
      refine ⟨l, ls, rfl, ?_⟩
      rw [hRest] at hAhead
      simp only [keywordAhead] at hAhead
      split at hAhead
      · rename_i hKind
        exact .inl hKind
      · rename_i hKind
        exact .inr ⟨_, hKind, by simp⟩
      · rename_i hKind
        exact .inr ⟨_, hKind, by simp⟩
      · cases hAhead

theorem Run.keywordKey
    (hExpr : Sound n expr)
    (hAhead : ElixirReader.keywordAhead s.rest = true)
    (hNot : inside = true ∨ ¬ EndsInKey s) :
    Run h n inside (Parse.keywordKey expr)
      (Parse.keywordKey expr) s := by
  rcases exists_of_keywordAhead hAhead with
    ⟨l, ls, hRest, hKey⟩
  apply Run.bind_peek_of_cons hRest
  by_cases hName : l.kind = .atomName
  · simp only [hName, if_true]
    apply (Run.bareKey hRest hName).bind
    intro key s' _
    exact Run.pure _
  · simp only [hName, if_false]
    apply Run.keywordAhead
    · intro _
      rcases hKey with hName' | ⟨f, hKind, _⟩
      · exact absurd hName' hName
      · exact Run.quotedKey hExpr hRest hKind
    · intro hNone
      rw [hNone] at hAhead
      cases hAhead
    · intro hInside _ hEnds
      rcases hNot with hTrue | hNot
      · rw [hInside] at hTrue
        cases hTrue
      · exact absurd hEnds hNot

------------------------------------------------------------
-- Pairs
------------------------------------------------------------

/- What follows the value of a pair. -/
def pairsAfter
    (expr : ExpressionParser)
    (context : Context)
    (k : Nat)
    (span : Span)
    (key value : Node) :
    Parse (List (Node × Node) × Span) := do
  match pairSeparator? (← rest) with
  | none => return ([(key, value)], span)
  | some m => do
      skip m
      let (pairs, span) ← pairsFor expr context k span
      return ((key, value) :: pairs, span)

/- What follows the key of a pair. -/
def pairsBehind
    (expr : ExpressionParser)
    (context : Context)
    (k : Nat)
    (span : Span) :
    Option Node → Parse (List (Node × Node) × Span)
| none => return ([], span)
| some key => do
    skipLineEnds
    let value ← expr 0 context
    pairsAfter expr context k (span.merge value.span) key value

theorem pairsFor_succ
    (expr : ExpressionParser)
    (context : Context)
    (k : Nat)
    (span : Span) :
    pairsFor expr context (k + 1) span =
      keywordKey expr >>= pairsBehind expr context k span :=
  rfl

section Pairs

variable {context : Context}
variable {k m : Nat}

/- Where further pairs are seen, there are fewer lexemes left. -/
theorem Run.pairsAfter
    (span : Span)
    (key value : Node)
    (hNext : ∀ span s',
      ElixirReader.keywordAhead s'.rest = true →
        s'.rest.length < s.rest.length →
          Run h n inside (pairsFor expr context k span)
            (pairsFor expr context m span) s')
    (hFails : ∀ span s', inside = false →
      h.Clean inside s' → EndsInKey s' →
        s'.rest.length < s.rest.length →
          Fails (pairsFor expr context k span) s') :
    Run h n inside
      (ElixirReader.pairsAfter expr context k span key value)
      (ElixirReader.pairsAfter expr context m span key value)
      s := by
  apply Run.bind_rest
  cases hSeparator : pairSeparator? s.rest with
  | none =>
      apply Run.of_eq (Run.pure _)
      intro hSees
      rcases hSees.pairSeparator?_append with
        hSame | ⟨m, hSome, _⟩
      · rw [hSame, hSeparator]
      · rw [hSome] at hSeparator
        cases hSeparator
  | some j =>
      rcases take_of_pairSeparator? hSeparator with
        ⟨hPlain, hPos, hLength, hAhead⟩
      have hSkip : Run h n inside (Parse.skip j) (Parse.skip j) s :=
        Run.skip hPlain hLength
      have hTakes := Takes.advance n j s hPlain
      have hLess : (s.advance j).rest.length < s.rest.length := by
        change (s.rest.drop j).length < _
        rw [List.length_drop]
        omega
      have hLater := hNext span (s.advance j) hAhead hLess
      have hRun :
          Run h n inside
            (do
              Parse.skip j
              let (pairs, span) ← pairsFor expr context k span
              return ((key, value) :: pairs, span))
            (do
              Parse.skip j
              let (pairs, span) ← pairsFor expr context m span
              return ((key, value) :: pairs, span)) s := by
        apply hSkip.bind
        intro _ s' hEq
        cases hEq
        apply hLater.bind
        rintro ⟨pairs, span⟩ s' _
        exact Run.pure _
      apply Run.of_eq_or_fails hRun
      · intro hWhole
        rw [hWhole.1, List.append_nil, hSeparator]
      · intro hClean
        have hSees : h.Sees inside s := .inr hClean
        rcases hSees.pairSeparator?_append with
          hSame | ⟨j', hSome, hInside, hEnds⟩
        · left
          rw [hSame, hSeparator]
        · right
          rw [hSeparator] at hSome
          cases hSome
          rcases hLater.takes with ⟨taken, hTaken⟩
          apply Fails.of_bind (p := Parse.skip j) hClean hTakes
            hTaken.toMoves
          intro hClean'
          apply Fails.bind
          · exact hFails span _ hInside hClean' hEnds hLess
          · exact hTaken.toMoves
          · exact Moves.refl n _

/- Where no lexeme is left there is no value of a pair. -/
theorem fails_pairValue
    (hExpr : Sound n expr)
    (span : Span)
    (key : Node)
    (hRest : s.rest = []) :
    Fails (do
      let value ← expr 0 context
      ElixirReader.pairsAfter expr context k
        (span.merge value.span) key value) s := by
  have hFails := hExpr.fails 0 context s hRest
  rcases hExpr.takes 0 context s with ⟨taken, hTakes⟩
  have hNil := hExpr.rest_eq_nil 0 context hRest
  have hAfter :
      Run Setting.any n true
        (ElixirReader.pairsAfter expr context k
          (span.merge (expr 0 context s).1.span) key
          (expr 0 context s).1)
        (ElixirReader.pairsAfter expr context k
          (span.merge (expr 0 context s).1.span) key
          (expr 0 context s).1)
        (expr 0 context s).2 := by
    apply Run.pairsAfter
    · intro _ _ _ hLess
      rw [hNil] at hLess
      cases hLess
    · intro _ _ hInside
      cases hInside
  rcases hAfter.takes with ⟨taken', hTakes'⟩
  apply hFails.bind hTakes.toMoves
  rw [Parse.bind_apply]
  exact hTakes'.toMoves

theorem Run.pairsBehind
    (hExpr : Sound n expr)
    (span : Span)
    (key : Option Node)
    (hNext : ∀ span s',
      ElixirReader.keywordAhead s'.rest = true →
        s'.rest.length < s.rest.length →
          Run h n inside (pairsFor expr context k span)
            (pairsFor expr context m span) s')
    (hFails : ∀ span s', inside = false →
      h.Clean inside s' → EndsInKey s' →
        s'.rest.length < s.rest.length →
          Fails (pairsFor expr context k span) s') :
    Run h n inside
      (ElixirReader.pairsBehind expr context k span key)
      (ElixirReader.pairsBehind expr context m span key) s := by
  cases key with
  | none => exact Run.pure _
  | some key =>
      apply Run.bind_skipLineEnds
      · intro s₁ hLe
        apply (hExpr.run h inside 0 context s₁).bind_le
        intro value s₂ hLe' _
        apply Run.pairsAfter
        · intro span s' hAhead hLess
          exact hNext span s' hAhead (by omega)
        · intro span s' hInside hClean hEnds hLess
          exact hFails span s' hInside hClean hEnds (by omega)
      · intro s₁ hNil
        exact fails_pairValue hExpr span key hNil

/- One pair, if a key without a value is not seen. -/
theorem Run.pairsFor_succ
    (hExpr : Sound n expr)
    (span : Span)
    (hAhead : ElixirReader.keywordAhead s.rest = true)
    (hNot : inside = true ∨ ¬ EndsInKey s)
    (hNext : ∀ span s',
      ElixirReader.keywordAhead s'.rest = true →
        s'.rest.length < s.rest.length →
          Run h n inside (Parse.pairsFor expr context k span)
            (Parse.pairsFor expr context m span) s')
    (hFails : ∀ span s', inside = false →
      h.Clean inside s' → EndsInKey s' →
        s'.rest.length < s.rest.length →
          Fails (Parse.pairsFor expr context k span) s') :
    Run h n inside (Parse.pairsFor expr context (k + 1) span)
      (Parse.pairsFor expr context (m + 1) span) s := by
  apply (Run.keywordKey hExpr hAhead hNot).bind_le
  intro key s₁ hLe _
  apply Run.pairsBehind hExpr
  · intro span s' hAhead' hLess
    exact hNext span s' hAhead' (by omega)
  · intro span s' hInside hClean hEnds hLess
    exact hFails span s' hInside hClean hEnds (by omega)

/- Inside of delimiters every key has something behind it. -/
theorem Run.pairsFor_of_inside
    (hExpr : Sound n expr)
    (span : Span)
    (hAhead : ElixirReader.keywordAhead s.rest = true)
    (hBound : s.rest.length < k)
    (hBound' : s.rest.length + h.after.length < m) :
    Run h n true (Parse.pairsFor expr context k span)
      (Parse.pairsFor expr context m span) s := by
  induction k generalizing m s span with
  | zero => omega
  | succ k ih =>
      cases m with
      | zero => omega
      | succ m =>
          apply Run.pairsFor_succ hExpr span hAhead (.inl rfl)
          · intro span s' hAhead' hLess
            exact ih span hAhead' (by omega) (by omega)
          · intro _ _ hInside
            cases hInside

/- Behind a quoted key without a value there is a colon at most. -/
theorem length_rest_text
    {f : Family}
    {t colon : Lexeme}
    {inner : List Lexeme}
    (hExpr : Sound n expr)
    (hRest : s.rest = l :: (inner ++ [t, colon]))
    (hKind : l.kind = .promoter f .quoted)
    (hEnds : Terminated f [] [] inner t)
    (hBalanced : Nest.behind? [] s.rest = some []) :
    (text expr s).2.rest.length ≤ 1 := by
  rcases passes_text hExpr hRest hKind with ⟨taken, hPasses⟩
  rcases (hPasses.within [] [] True.intro
    ⟨s.rest, by simp, hBalanced⟩).1 with ⟨back, hBack, hNil⟩
  rw [List.append_nil] at hBack
  have hSplit : inner ++ [t, colon] = taken ++ back := by
    have hAll := hPasses.rest
    rw [hRest, hBack] at hAll
    exact (List.cons.inj hAll).2
  -- What is taken leaves nothing open.
  rw [hPasses.rest, hBack] at hBalanced
  rcases Nest.exists_of_behind?_append hBalanced with
    ⟨ds, hTaken, hDs⟩
  have hLength := Nest.length_add_of_behind? hDs hNil
  have hClosed : ds = [] :=
    List.length_eq_zero_iff.mp (by simpa using hLength)
  subst hClosed
  rcases Nest.exists_of_behind?_cons hTaken with
    ⟨es, hNext, hTaken'⟩
  have hOpen : es = [.literal f .quoted] :=
    Nest.next?_of_opener? (by rw [hKind]; rfl) hNext
  subst hOpen
  rw [hBack]
  rcases List.append_eq_append_iff.mp hSplit with
    ⟨more, hMore, hLast⟩ | ⟨more, hMore, hLast⟩
  · cases more with
    | nil =>
        exfalso
        rcases hEnds.remains inner [] (by simp) with ⟨gs, hGs⟩
        rw [List.append_nil] at hMore
        rw [hMore] at hTaken'
        rw [List.nil_append] at hGs
        rw [hTaken'] at hGs
        simp at hGs
    | cons m more =>
        have hLengths := congrArg List.length hLast
        simp only [List.length_cons, List.length_nil,
          List.length_append] at hLengths
        omega
  · exfalso
    rcases hEnds.remains taken more hMore with ⟨gs, hGs⟩
    rw [List.nil_append] at hGs
    rw [hTaken'] at hGs
    simp at hGs

/- Any setting will do for what further pairs do to the state. -/
theorem Run.pairsBehind_any
    (hExpr : Sound n expr)
    (span : Span)
    (key : Option Node)
    (hBound : s.rest.length ≤ k) :
    Run Setting.any n true
      (ElixirReader.pairsBehind expr context k span key)
      (ElixirReader.pairsBehind expr context k span key) s := by
  apply Run.pairsBehind hExpr
  · intro span s' hAhead hLess
    apply Run.pairsFor_of_inside hExpr span hAhead
    · omega
    · change s'.rest.length + 0 < k
      omega
  · intro _ _ hInside
    cases hInside

/- Behind a key there has to be a value. -/
theorem fails_pairsBehind
    (hExpr : Sound n expr)
    (span : Span)
    (key : Node)
    (hRest : s.rest = []) :
    Fails (pairsBehind expr context k span (some key)) s := by
  have hSkip : (skipLineEnds s).2.rest = [] := by
    change s.rest.drop _ = []
    rw [hRest, List.drop_nil]
  exact fails_pairValue hExpr span key hSkip

/- The pairs from the colon of a quoted key on, if it is there. -/
def pairsBehindColon
    (expr : ExpressionParser)
    (context : Context)
    (k : Nat)
    (span : Span)
    (key : Lexeme → Node) :
    Parse (List (Node × Node) × Span) := do
  match ← expect .colon .keyColon with
  | .ok colon =>
      pairsBehind expr context k span (some (key colon))
  | .error _ => pairsBehind expr context k span none

/- Behind a quoted key, a colon and a value are missing. -/
theorem fails_keyColon
    (hExpr : Sound n expr)
    (span : Span)
    (key : Lexeme → Node)
    (hLength : s.rest.length ≤ 1) :
    Fails (pairsBehindColon expr context k span key) s := by
  intro hClean
  rcases head?_cases .colon s with
    ⟨colon, ls, hRest, hKind⟩ | hOther
  · have hNil : ls = [] := by
      rw [hRest, List.length_cons] at hLength
      exact List.length_eq_zero_iff.mp (by omega)
    rw [pairsBehindColon, Parse.bind_apply,
      expect_of_cons _ hRest hKind]
    have hFails :=
      @fails_pairsBehind n (s.advance 1) expr context k hExpr
        span (key colon)
        ((ParseState.take_one hRest).2.trans hNil)
    exact hFails hClean
  · rw [pairsBehindColon, Parse.bind_apply,
      expect_of_ne _ hOther]
    exact fails_wantedNode _ hClean

/- What follows the text of a quoted key. -/
theorem keywordKey_of_quoted
    {f : Family}
    (hRest : s.rest = l :: ls)
    (hKind : l.kind = .promoter f .quoted)
    (hAhead : keywordAhead s.rest = true)
    (span : Span) :
    (keywordKey expr >>= pairsBehind expr context k span) s =
      (text expr >>= fun t =>
        pairsBehindColon expr context k span fun colon =>
          ⟨.quotedAtom t.1, t.2.merge colon.span⟩) s := by
  have hName : l.kind ≠ .atomName := by
    rw [hKind]
    simp
  have hKey : keywordKey expr s = quotedKey expr s := by
    rw [keywordKey, Parse.bind_apply, peek_of_cons hRest]
    simp only [hName, if_false]
    change (if keywordAhead s.rest = true then _ else _ : Parse _)
      s = _
    rw [if_pos hAhead]
  rw [Parse.bind_apply, hKey, quotedKey, Parse.bind_apply,
    Parse.bind_apply]
  simp only [pairsBehindColon]
  rw [Parse.bind_apply, Parse.bind_apply]
  cases (expect .colon .keyColon (text expr s).2).1 <;> rfl

theorem fails_pairsFor
    (hExpr : Sound n expr)
    (span : Span)
    (hClean : h.Clean inside s)
    (hEnds : EndsInKey s)
    (hBound : s.rest.length < k) :
    Fails (pairsFor expr context k span) s := by
  rcases hEnds with
    ⟨f, l, t, colon, inner, hRest, hKind, hT, hNil, hAhead⟩
  cases k with
  | zero => omega
  | succ k =>
      have hText := length_rest_text hExpr hRest hKind hT hNil
      rcases passes_text hExpr hRest hKind with
        ⟨taken, hPasses⟩
      -- Behind the text there is an error in any case.
      have hBehind :
          ∀ key : Lexeme → Node,
            Run Setting.any n true
              (pairsBehindColon expr context k span key)
              (pairsBehindColon expr context k span key)
              (text expr s).2 := by
        intro key
        have hLess := hPasses.length_rest
        rw [List.length_cons] at hLess
        apply (Run.expect .keyColon rfl rfl).bind_le
        rintro (e | colon) s' hLe _
        · exact Run.pairsBehind_any hExpr _ _ (by omega)
        · exact Run.pairsBehind_any hExpr _ _ (by omega)
      rw [pairsFor_succ]
      intro hPoisoned
      rw [keywordKey_of_quoted hRest hKind hAhead]
      rcases (hBehind fun colon =>
        ⟨.quotedAtom (text expr s).1.1,
          (text expr s).1.2.merge colon.span⟩).takes with
        ⟨taken', hTakes⟩
      have hFails := Fails.of_bind
        (p := text expr)
        (f := fun t =>
          pairsBehindColon expr context k span fun colon =>
            ⟨.quotedAtom t.1, t.2.merge colon.span⟩)
        hClean hPasses.takes hTakes.toMoves
        (fun _ => fails_keyColon hExpr span _ hText)
      exact hFails hPoisoned

theorem Run.pairsFor
    (hExpr : Sound n expr)
    (span : Span)
    (hAhead : ElixirReader.keywordAhead s.rest = true)
    (hBound : s.rest.length < k)
    (hBound' : s.rest.length + h.after.length < m) :
    Run h n inside (Parse.pairsFor expr context k span)
      (Parse.pairsFor expr context m span) s := by
  induction k generalizing m s span with
  | zero => omega
  | succ k ih =>
      cases m with
      | zero => omega
      | succ m =>
          by_cases hEnds : EndsInKey s
          · -- The first run fails, whatever the second one does.
            have hInside : Run h n true
                (Parse.pairsFor expr context (k + 1) span)
                (Parse.pairsFor expr context (m + 1) span) s :=
              Run.pairsFor_of_inside hExpr span hAhead hBound
                hBound'
            refine ⟨hInside.takes, ?_⟩
            rintro (hWhole | ⟨hClean, hErrors⟩)
            · exact hInside.tracks (.inl hWhole)
            · exact absurd hErrors
                (fails_pairsFor hExpr span hClean hEnds hBound
                  hClean.poisoned)
          · apply Run.pairsFor_succ hExpr span hAhead (.inr hEnds)
            · intro span s' hAhead' hLess
              exact ih span hAhead' (by omega) (by omega)
            · intro span s' _ hClean hEnds' hLess
              exact fails_pairsFor hExpr span hClean hEnds'
                (by omega)

theorem Run.keywords
    (hExpr : Sound n expr)
    (hAhead : ElixirReader.keywordAhead s.rest = true) :
    Run h n inside (Parse.keywords expr context)
      (Parse.keywords expr context) s := by
  rcases exists_of_keywordAhead hAhead with ⟨l, ls, hRest, _⟩
  apply Run.bind_currentSpan hRest
  apply Run.bind_rest
  have hPairs :
      Run h n inside
        (Parse.pairsFor expr context (s.rest.length + 1) l.span)
        (Parse.pairsFor expr context
          ((s.rest ++ h.after).length + 1) l.span) s := by
    apply Run.pairsFor hExpr l.span hAhead
    · omega
    · rw [List.length_append]
      omega
  apply hPairs.bind
  rintro ⟨pairs, span⟩ s' _
  exact Run.pure _

theorem fails_keywords
    (hExpr : Sound n expr)
    (hClean : h.Clean inside s)
    (hEnds : EndsInKey s) :
    Fails (keywords expr context) s := by
  intro hPoisoned hErrors
  exact fails_pairsFor hExpr s.currentSpan hClean hEnds
    (Nat.lt_succ_self s.rest.length) hPoisoned hErrors

end Pairs

end ElixirReader
