import ElixirReader.Proofs.Embedding.Lexing
import ElixirReader.Proofs.Embedding.Statements
import ElixirReader.Proofs.Quote.Segments

/-
  This file quotes a source inside of another one. The parser
  runs over a source that stands in parentheses, or in an
  interpolation: one level deeper than the source may be nested
  on its own, it is read there without errors, and its term is
  the same. So only the limits of nesting may be in the way.

  A name that reaches up to a colon at the end of the source
  is left out: white space behind the colon makes a key of it.

  Key definitions include:
    * `Term.interpolated`

  Main declarations:
    * `AreEmbedded.yields_statements`
    * `AreEmbedded.yields_parenthesized`
    * `AreEmbedded.yields_text`
    * `quoteSource_of_deeper`
    * `quoteSource_embedded`
-/

namespace ElixirReader

open Parse

variable {source : String}
variable {ls breaks cs : List Lexeme}
variable {c : Lexeme}

------------------------------------------------------------
-- Statements between delimiters
------------------------------------------------------------

/- What is added to the statements of a source that is embedded. -/
def ParseState.surroundings
    (s : ParseState)
    (after : List Lexeme) : Setting :=
  ⟨s.before, [], 0, s.deepest, after, s.last, s.cutShort, s.halted⟩

/- The same statements on their own. -/
def ParseState.alone
    (s : ParseState)
    (ls : List Lexeme) : ParseState :=
  { ParseState.start ls with
    active := s.active
    deepest := s.deepest }

theorem place_alone
    {s : ParseState}
    {after : List Lexeme}
    (hStands : Stands (ls ++ after) s) :
    (s.surroundings after).place (s.alone ls) = s := by
  rcases hStands with ⟨hRest, hErrors, hPoisoned⟩
  cases s
  subst hRest hErrors hPoisoned
  simp [ParseState.surroundings, ParseState.alone, Setting.place,
    ParseState.start]

/- Statements where nothing has been found faulty. -/
theorem statements_of_clean
    {expr : ExpressionParser}
    {stop : Kind → Bool}
    {s : ParseState}
    (hPoisoned : s.poisoned = false) :
    Parse.statements expr stop s =
      ((statementsFor expr stop (s.rest.length + 1) s).1,
        { (statementsFor expr stop (s.rest.length + 1) s).2 with
          poisoned := false }) := by
  have hClean : { s with poisoned := false } = s := by
    rw [← hPoisoned]
  change Parse.isolated
    (statementsFor expr stop (s.rest.length + 1)) s = _
  rw [isolated_apply, hClean, hPoisoned]

theorem AreEmbedded.encloses
    {s : ParseState}
    (hEmbedded : AreEmbedded source ls breaks)
    (hKind : c.kind = .closing .parenthesis ∨
      c.kind = .interpolationEnd) :
    (s.surroundings (breaks ++ c :: cs)).Encloses c cs := by
  refine ⟨?_, hKind⟩
  have hLength := hEmbedded.length_le
  have hBreaks := hEmbedded.areLineEnds
  rcases breaks with _ | ⟨l, _ | ⟨l', breaks⟩⟩
  · exact .inl rfl
  · exact .inr ⟨l, rfl, hBreaks l List.mem_cons_self⟩
  · simp at hLength

/-
  The statements of a source that is embedded are those that
  it has on its own. They end at the closing delimiter.
-/
theorem AreEmbedded.yields_statements
    (cs : List Lexeme)
    (hEmbedded : AreEmbedded source ls breaks)
    (hLexical : (tokenize source).2 = [])
    (hSyntactic :
      (parseLexemes
        (Lexeme.ofTokens (tokenize source).1)).2.errors = [])
    (hFaultless : Faultless ls)
    (hKind : c.kind = .closing .parenthesis ∨
      c.kind = .interpolationEnd) :
    Yields (fun _ => False)
      (Parse.statements (Parse.expression maxNesting maxHeight)
        (· == c.kind))
      (ls ++ (breaks ++ c :: cs)) (c :: cs)
      (fun nodes =>
        Alike (parseLexemes (Lexeme.ofTokens (tokenize source).1)).1
          nodes) := by
  intro s hStands
  right
  have hAlone : Stands ls (s.alone ls) := ⟨rfl, rfl, rfl⟩
  rcases hEmbedded.same.alike_statements
      (faultless_ofTokens_tokenize hLexical)
      (framedBehind?_ofTokens_tokenize hLexical) ⟨rfl, rfl, rfl⟩
      hAlone rfl rfl (.inr (Nat.le_refl maxNesting))
      (.inr (Nat.le_refl maxHeight)) hSyntactic
      (fun hDeep : false = true =>
        absurd hDeep Bool.false_ne_true) with
    ⟨hErrors, hAlike⟩
  have hEncloses :
      (s.surroundings (breaks ++ c :: cs)).Encloses c cs :=
    hEmbedded.encloses hKind
  rcases hEncloses.exists_ends with ⟨l, ls', hEnds⟩
  have hFits : (s.surroundings (breaks ++ c :: cs)).Fits false [] []
      (s.alone ls) :=
    ⟨.ends l ls' hEnds (fun hInside => by cases hInside),
      ⟨ls, (List.append_nil ls).symm, hEmbedded.balanced⟩, rfl,
      hFaultless⟩
  rcases statementsFor_place
      (sound_expression maxNesting maxHeight) hEncloses hFits
      (Nat.lt_succ_self _)
      (show ls.length < s.rest.length + 1 by
        rw [hStands.rest, List.length_append]
        omega) hErrors with
    ⟨hNodes, hRest, hErrors', hPoisoned⟩
  rw [place_alone hStands] at hNodes hRest hErrors' hPoisoned
  rw [statements_of_clean hStands.poisoned]
  refine ⟨?_, hRest, hErrors', rfl⟩
  rw [hNodes]
  exact hAlike

------------------------------------------------------------
-- Terms
------------------------------------------------------------

/- The string that consists of an interpolation of a term. -/
def Term.interpolated
    (t : Term) : Term :=
  .call (.atom "<<>>") (.list [])
    (.list [.call (.atom "::") (.list [])
      (.list [
        .call
          (.call (.atom ".") (.list [])
            (.list [.moduleAtom "Kernel", .atom "to_string"]))
          (.list []) (.list [t]),
        .call (.atom "binary") (.list []) .nil])])

/- What parentheses hold is quoted as statements are. -/
theorem quote_unwrap
    (m : Metadata)
    (span : Span)
    (ns : List Node) :
    (unwrap span ns).quote m = .block (Node.quoteAll m ns) := by
  unfold unwrap
  split <;> rfl

/- Trees that are alike are quoted as the same block. -/
theorem Alike.block_eq
    {ns ms : List Node}
    (hAlike : Alike ns ms) :
    Term.block (Node.quoteAll .none ms) =
      .block (Node.quoteAll .none ns) := by
  rw [Node.quoteAll_eq, Node.quoteAll_eq, hAlike.map_quote_eq]

/- A string with an interpolation of statements, and nothing else. -/
theorem quote_interpolated
    (ns : List Node)
    (inner outer : Span) :
    Node.quote .none
        ⟨.text ⟨.string, false, 0, [.interpolation ⟨.block ns, inner⟩]⟩,
          outer⟩ =
      (Term.block (Node.quoteAll .none ns)).interpolated :=
  rfl

------------------------------------------------------------
-- Quoted keys
------------------------------------------------------------

/- What a kind does to a nest it does above another one. -/
theorem Nest.Step.append
    {k : Kind}
    {ds es : Nest}
    (fs : Nest)
    (hStep : Nest.Step k ds es) :
    Nest.Step k (ds ++ fs) (es ++ fs) := by
  cases hStep with
  | opens d ds hOpener => exact .opens d (ds ++ fs) hOpener
  | closes d ds hCloser => exact .closes d (es ++ fs) hCloser
  | keeps ds hFlat => exact .keeps (ds ++ fs) hFlat
  | startsText f ds hKind => exact .startsText f (ds ++ fs) hKind

/-
  No text is ended by what an interpolation holds, as long as
  that is balanced.
-/
theorem quotedKeyAhead_of_behind?
    {ds : Nest}
    (more : List Lexeme)
    (hBehind : ds.behind? ls = some []) :
    quotedKeyAhead
        (List.count .interpolation (ds ++ [Delimiter.interpolation]))
        (ls ++ more) =
      quotedKeyAhead 1 more := by
  induction ls generalizing ds with
  | nil =>
      cases hBehind
      rfl
  | cons l ls ih =>
      rcases Nest.exists_of_behind?_cons hBehind with
        ⟨es, hNext, hRest⟩
      have hStep := (Nest.step_of_next? hNext).append [.interpolation]
      have hAbove : AboveLiteral (ds ++ [.interpolation]) :=
        .inr List.getLast?_concat
      rw [List.cons_append, ← ih hRest]
      generalize hLower : ds ++ [Delimiter.interpolation] = fs
        at hStep hAbove
      cases fs with
      | nil => exact absurd hLower (by simp)
      | cons f fs => exact (quotedKeyAhead_of_step hAbove hStep).2 _

/- A string with nothing behind it is no key. -/
theorem keywordAhead_eq_false
    {opened starts ends closed : Lexeme}
    (hOpened : opened.kind = .promoter .string .quoted)
    (hStarts : starts.kind = .interpolationStart)
    (hEnds : ends.kind = .interpolationEnd)
    (hClosed : closed.kind = .terminator .string .quoted)
    (hEmbedded : AreEmbedded source ls breaks) :
    keywordAhead (opened :: starts ::
      (ls ++ (breaks ++ [ends, closed]))) = false := by
  have hInner := quotedKeyAhead_of_behind?
    (breaks ++ [ends, closed]) hEmbedded.balanced
  rw [keywordAhead_of_promoter _ hOpened (by decide),
    quotedKeyAhead_of_opener? 0 _ (by rw [hStarts]; rfl)]
  change quotedKeyAhead 1 _ = false
  refine hInner.trans ?_
  rw [quotedKeyAhead_append 1 hEmbedded.areLineEnds]
  simp [quotedKeyAhead, hEnds, hClosed, keyColonAhead]

section Embedded

variable
  (hEmbedded : AreEmbedded source ls breaks)
  (hLexical : (tokenize source).2 = [])
  (hSyntactic :
    (parseLexemes
      (Lexeme.ofTokens (tokenize source).1)).2.errors = [])
  (hFaultless : Faultless ls)

include hEmbedded hLexical hSyntactic hFaultless

/- Parentheses stand for what is in them. -/
theorem AreEmbedded.yields_parenthesized
    {opened closed : Lexeme}
    (hOpened : opened.kind = .opening .parenthesis)
    (hClosed : closed.kind = .closing .parenthesis) :
    Yields (fun _ => False)
      (primaryAt (Parse.expression maxNesting maxHeight) .statement
        opened)
      (opened :: (ls ++ (breaks ++ [closed]))) []
      (fun node => node.quote .none = (quoteSource .none source).1) := by
  have hPrimary :
      primaryAt (Parse.expression maxNesting maxHeight) .statement
          opened =
        Parse.parenthesized
          (Parse.expression maxNesting maxHeight) := by
    unfold primaryAt
    rw [hOpened]
    rfl
  have hBody := hEmbedded.yields_statements [] hLexical hSyntactic
    hFaultless (.inl hClosed)
  rw [hClosed] at hBody
  rw [hPrimary]
  unfold Parse.parenthesized
  refine (steps_currentSpan opened).bind
    ((steps_skip_one opened).bind (hBody.bind ?_ ?_))
  · exact fun nodes => (grows_close _ _ nodes).bind fun _ => .pure _
  · intro nodes hAlike
    have hCloser : closed.kind = (Closer.bracket .parenthesis).kind :=
      hClosed
    refine (steps_close opened.span nodes hCloser).bind (.pure ?_)
    rw [quote_unwrap, hAlike.block_eq, quoteSource_eq]

/- An interpolation holds the statements that are in it. -/
theorem AreEmbedded.yields_interpolation
    {starts ends : Lexeme}
    (more : List Lexeme)
    (opened : Span)
    (hEnds : ends.kind = .interpolationEnd) :
    Yields (fun _ => False)
      (Parse.interpolation (Parse.expression maxNesting maxHeight)
        opened)
      (starts :: (ls ++ (breaks ++ ends :: more))) more
      (fun node => ∃ nodes span, node = ⟨.block nodes, span⟩ ∧
        Alike
          (parseLexemes (Lexeme.ofTokens (tokenize source).1)).1
          nodes) := by
  have hBody := hEmbedded.yields_statements more hLexical hSyntactic
    hFaultless (.inr hEnds)
  have hEnd : Steps (interpolationEnd opened) (ends :: more) more
      (opened.merge ends.span) := by
    intro s hStands
    rw [interpolationEnd_of_cons opened hStands.rest hEnds]
    exact ⟨rfl, (steps_skip_one ends s hStands).2⟩
  have hGrows : Grows (interpolationEnd opened) := by
    intro s
    rcases steady_interpolationEnd 0 opened s with ⟨taken, hSteady⟩
    exact hSteady.errors
  rw [hEnds] at hBody
  unfold Parse.interpolation
  refine (steps_skip_one starts).bind (hBody.bind ?_ ?_)
  · exact fun _ => hGrows.bind fun _ => .pure _
  · exact fun nodes hAlike =>
      hEnd.bind (.pure ⟨nodes, _, rfl, hAlike⟩)

/- A string that consists of an interpolation has one segment. -/
theorem AreEmbedded.yields_segmentsFor
    {starts ends closed : Lexeme}
    (span : Span)
    (hStarts : starts.kind = .interpolationStart)
    (hEnds : ends.kind = .interpolationEnd)
    (hClosed : closed.kind = .terminator .string .quoted) :
    Yields (fun _ => False)
      (segmentsFor (Parse.expression maxNesting maxHeight)
        ((starts :: (ls ++ (breaks ++ [ends, closed]))).length + 1)
        span)
      (starts :: (ls ++ (breaks ++ [ends, closed]))) []
      (fun i => i.closed = true ∧ ∃ nodes inner,
        i.segments = [.interpolation ⟨.block nodes, inner⟩] ∧
          Alike
            (parseLexemes (Lexeme.ofTokens (tokenize source).1)).1
            nodes) := by
  have hPlain : plainSegment? starts = none := by
    simp [plainSegment?, hStarts]
  intro s hStands
  rw [segmentsFor_of_interpolation hStands.rest hPlain hStarts]
  rcases hEmbedded.yields_interpolation hLexical hSyntactic
      hFaultless [closed] starts.span hEnds s hStands with
    ⟨_, _, hFalse⟩ | ⟨⟨nodes, inner, hNode, hAlike⟩, hStands'⟩
  · exact hFalse.elim
  · right
    have hNone : plainSegment? closed = none := by
      simp [plainSegment?, hClosed]
    dsimp only
    rw [List.length_cons,
      segmentsFor_of_terminator hStands'.rest hNone hClosed, hNode]
    exact ⟨⟨rfl, nodes, inner, rfl, hAlike⟩,
      (steps_skip_one closed _ hStands').2⟩

/- A string that consists of an interpolation of a source. -/
theorem AreEmbedded.yields_text
    {opened starts ends closed : Lexeme}
    (hOpened : opened.kind = .promoter .string .quoted)
    (hStarts : starts.kind = .interpolationStart)
    (hEnds : ends.kind = .interpolationEnd)
    (hClosed : closed.kind = .terminator .string .quoted) :
    Yields (fun _ => False)
      (primaryAt (Parse.expression maxNesting maxHeight) .statement
        opened)
      (opened :: starts :: (ls ++ (breaks ++ [ends, closed]))) []
      (fun node => node.quote .none =
        (quoteSource .none source).1.interpolated) := by
  have hPrimary :
      primaryAt (Parse.expression maxNesting maxHeight) .statement
          opened =
        promoterOperand (Parse.expression maxNesting maxHeight)
          .statement := by
    unfold primaryAt
    rw [hOpened]
  have hKey := keywordAhead_eq_false hOpened hStarts hEnds hClosed
    hEmbedded
  have hText : promoterText (some opened) = (.string, false) := by
    simp [promoterText, hOpened]
  rw [hPrimary]
  unfold promoterOperand
  refine steps_rest.bind ?_
  rw [hKey, if_neg Bool.false_ne_true]
  intro s hStands
  rcases hEmbedded.yields_segmentsFor hLexical hSyntactic hFaultless
      opened.span hStarts hEnds hClosed _
      (steps_skip_one opened s hStands).2 with
    ⟨_, _, hFalse⟩ |
      ⟨⟨hEnded, nodes, inner, hSegments, hAlike⟩, hLast⟩
  · exact hFalse.elim
  · right
    change (segmentsFor _ _ _ (s.advance 1)).1.closed = true at hEnded
    change (segmentsFor _ _ _ (s.advance 1)).1.segments = _
      at hSegments
    unfold Parse.textNode
    rw [Parse.bind_apply, text_of_quoted hStands.rest hText]
    dsimp only
    rw [hEnded, hSegments]
    refine ⟨?_, hLast⟩
    rw [quoteSource_eq, ← hAlike.block_eq]
    exact quote_interpolated nodes inner _

end Embedded

------------------------------------------------------------
-- Sources in a source
------------------------------------------------------------

/-
  A source that is in order if it may be nested one level more
  is in order anyway, unless it is found to be nested too
  deeply.
-/
theorem quoteSource_of_deeper
    {l : Lexeme}
    {more : List Lexeme}
    {t : Term}
    (hLexical : (tokenize source).2 = [])
    (hLexemes : Lexeme.ofTokens (tokenize source).1 = l :: more)
    (hKind : l.kind.startsPrimary = true)
    (hSeparator : isSeparator l.kind = false)
    (hPrimary :
      Yields (fun _ => False)
        (primaryAt (Parse.expression maxNesting maxHeight)
          .statement l)
        (l :: more) [] (fun node => node.quote .none = t))
    (hShallow :
      ∀ e ∈ (quoteSource .none source).2, ¬ e.IsTooDeep) :
    quoteSource .none source = (t, []) := by
  have hFaultless := faultless_ofTokens_tokenize hLexical
  have hFramed := framedBehind?_ofTokens_tokenize hLexical
  have hStart : Stands (l :: more) (ParseState.start (l :: more)) :=
    ⟨rfl, rfl, rfl⟩
  rw [quoteSource_eq, hLexical, hLexemes] at hShallow ⊢
  rw [hLexemes] at hFaultless hFramed
  rcases yields_statements_of_primary hPrimary hKind hSeparator _
      hStart with
    ⟨_, _, hFalse⟩ | ⟨⟨node, hNodes, hTerm⟩, hDeeper⟩
  · exact hFalse.elim
  · have hSame : Matches .start (l :: more) (l :: more) := by
      rw [← hLexemes]
      exact .of_areSame (Lexeme.areSame_ofTokensAfter false rfl)
    rcases hSame.alike_statements hFaultless hFramed hStart hStart
        rfl rfl (.inl rfl) (.inl rfl) hDeeper.errors
        (fun _ e hMem hFault => hShallow (.parse e)
          (List.mem_append_right _ (List.mem_map_of_mem hMem))
          hFault) with
      ⟨hErrors, hAlike⟩
    rw [hNodes] at hAlike
    exact Prod.ext (hAlike.block_eq.trans hTerm)
      (congrArg (SourceError.all []) hErrors)

/-
  A source without errors, in parentheses or interpolated, has
  no errors but those of nesting, and is quoted as it is on its
  own.
-/
theorem quoteSource_embedded
    (hMark : source.toList.head? ≠ some Lexer.byteOrderMark)
    (hClean : (quoteSource .none source).2 = [])
    (hKeys : Token.lateKeys [] (tokenize source).1 = false) :
    ((∀ e ∈ (quoteSource .none (inParentheses source)).2,
        ¬ e.IsTooDeep) →
      quoteSource .none (inParentheses source) =
        quoteSource .none source) ∧
    ((∀ e ∈ (quoteSource .none (inInterpolation source)).2,
        ¬ e.IsTooDeep) →
      quoteSource .none (inInterpolation source) =
        ((quoteSource .none source).1.interpolated, [])) := by
  rcases (quoteSource_eq_nil_iff .none source).mp hClean with
    ⟨hLexical, hSyntactic⟩
  constructor
  · intro hShallow
    rcases exists_ofTokens_inParentheses hMark hLexical hSyntactic
        hKeys with
      ⟨hLexical', opened, ls, breaks, closed, hLexemes, hOpened,
        hEmbedded, hClosed⟩
    rw [List.append_assoc] at hLexemes
    have hFaultless := faultless_ofTokens_tokenize hLexical'
    rw [hLexemes] at hFaultless
    have hInner : Faultless ls := fun l hMem =>
      hFaultless l (List.mem_cons_of_mem _
        (List.mem_append_left _ hMem))
    have hPrimary := hEmbedded.yields_parenthesized hLexical
      hSyntactic hInner hOpened hClosed
    rw [quoteSource_of_deeper hLexical' hLexemes
      (by rw [hOpened]; rfl) (by rw [hOpened]; rfl) hPrimary
      hShallow, ← hClean]
  · intro hShallow
    rcases exists_ofTokens_inInterpolation hMark hLexical hSyntactic
        hKeys with
      ⟨hLexical', opened, starts, ls, breaks, ends, closed, hLexemes,
        hOpened, hStarts, hEmbedded, hEnds, hClosed⟩
    rw [List.append_assoc] at hLexemes
    have hFaultless := faultless_ofTokens_tokenize hLexical'
    rw [hLexemes] at hFaultless
    have hInner : Faultless ls := fun l hMem =>
      hFaultless l (List.mem_cons_of_mem _ (List.mem_cons_of_mem _
        (List.mem_append_left _ hMem)))
    have hPrimary := hEmbedded.yields_text hLexical hSyntactic
      hInner hOpened hStarts hEnds hClosed
    exact quoteSource_of_deeper hLexical' hLexemes
      (by rw [hOpened]; rfl) (by rw [hOpened]; rfl) hPrimary hShallow

/- Two lines with a map, and a string with an interpolation. -/
theorem quoteSource_embedded_lines :
    inParentheses "f x,\n%\x7b\x7d; \"#\x7by\x7d\"" =
        "(f x,\n%\x7b\x7d; \"#\x7by\x7d\"\n)" ∧
      inInterpolation "f x,\n%\x7b\x7d; \"#\x7by\x7d\"" =
        "\"#\x7bf x,\n%\x7b\x7d; \"#\x7by\x7d\"\n\x7d\"" ∧
      quoteSource .none
          (inParentheses "f x,\n%\x7b\x7d; \"#\x7by\x7d\"") =
        quoteSource .none "f x,\n%\x7b\x7d; \"#\x7by\x7d\"" ∧
      quoteSource .none
          (inInterpolation "f x,\n%\x7b\x7d; \"#\x7by\x7d\"") =
        ((quoteSource .none
          "f x,\n%\x7b\x7d; \"#\x7by\x7d\"").1.interpolated, []) := by
  have hBoth :=
    @quoteSource_embedded "f x,\n%\x7b\x7d; \"#\x7by\x7d\""
      (by decide +kernel) (by decide +kernel) (by decide +kernel)
  exact ⟨by decide, by decide,
    hBoth.1 (by decide +kernel), hBoth.2 (by decide +kernel)⟩

/-
  A reserved word, an attribute and the character of a colon.
  With white space behind it the colon makes a key of them, so
  that neither the parentheses nor the interpolation are in
  order.
-/
theorem quoteSource_embedded_late_key :
    (quoteSource .none "not@?:").2 = [] ∧
      "not@?:".toList.head? ≠ some Lexer.byteOrderMark ∧
      Token.lateKeys [] (tokenize "not@?:").1 = true ∧
      (∀ e ∈ (quoteSource .none (inParentheses "not@?:")).2,
        ¬ e.IsTooDeep) ∧
      (quoteSource .none (inParentheses "not@?:")).2 ≠ [] ∧
      (∀ e ∈ (quoteSource .none (inInterpolation "not@?:")).2,
        ¬ e.IsTooDeep) ∧
      (quoteSource .none (inInterpolation "not@?:")).2 ≠ [] := by
  decide +kernel

end ElixirReader
