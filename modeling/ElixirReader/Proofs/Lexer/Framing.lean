import ElixirReader.Proofs.Lexer.Nesting

/-
  This file follows the literals and interpolations of a
  source without a look at its brackets and blocks. The lexer
  keeps a frame for each of them, so in a source that it finds
  in order each is ended in turn.

  Key definitions include:
    * `Kind.isUnframed`
    * `Nest.framed?`
    * `Nest.framedBehind?`
    * `Nest.framed`

  Main declarations:
    * `Lexer.Coherent.framed_past`
    * `framedBehind?_ofTokens_tokenize`
-/

namespace ElixirReader

open Parse

------------------------------------------------------------
-- Literals and interpolations
------------------------------------------------------------

/- The kinds that open or close a bracket or a block. -/
def Kind.isUnframed
    (k : Kind) : Bool :=
  (k.opener?.or k.closer?).any Delimiter.isUnframed

namespace Nest

variable {ls : List Lexeme}

/-
  The literals and interpolations that are open behind a kind.
  Brackets and blocks are passed over.
-/
def framed?
    (ds : Nest)
    (k : Kind) : Option Nest :=
  if ds.isCode && k.isUnframed then some ds else ds.next? k

/- The literals and interpolations open behind some lexemes. -/
def framedBehind?
    (ds : Nest)
    (ls : List Lexeme) : Option Nest :=
  ls.foldlM (fun ds l => framed? ds l.kind) ds

@[simp] theorem framedBehind?_nil
    (ds : Nest) :
    ds.framedBehind? [] = some ds :=
  rfl

@[simp] theorem framedBehind?_cons
    (ds : Nest)
    (l : Lexeme)
    (ls : List Lexeme) :
    ds.framedBehind? (l :: ls) =
      (ds.framed? l.kind).bind (·.framedBehind? ls) :=
  rfl

theorem framedBehind?_append
    (ds : Nest)
    (ls ms : List Lexeme) :
    ds.framedBehind? (ls ++ ms) =
      (ds.framedBehind? ls).bind (·.framedBehind? ms) := by
  simp [framedBehind?, List.foldlM_append]

/- The kinds that leave literals and interpolations alone. -/
theorem framed?_of_isCode
    {ds : Nest}
    {k : Kind}
    (hCode : ds.isCode = true)
    (hKind : k.isFlat = true ∨ k.isUnframed = true) :
    ds.framed? k = some ds := by
  unfold framed?
  rcases hKind with hFlat | hUnframed
  · cases hUnframed : k.isUnframed with
    | true => simp [hCode]
    | false =>
        simp only [Kind.isFlat, Bool.and_eq_true,
          Option.isNone_iff_eq_none] at hFlat
        have hOfCode : k.isOfCode = true := by
          cases k with
          | interpolationStart => cases hFlat.1
          | terminator f l => cases hFlat.2
          | _ => rfl
        rw [Bool.and_false, if_neg Bool.false_ne_true,
          next?_of_isCode k hCode, inCode?, if_pos hOfCode,
          hFlat.1, hFlat.2]
        rfl
  · simp [hCode, hUnframed]

theorem framedBehind?_of_isFlat
    {ds : Nest}
    (hFlat : ∀ l ∈ ls, l.kind.isFlat = true)
    (hCode : ds.isCode = true) :
    ds.framedBehind? ls = some ds := by
  induction ls with
  | nil => rfl
  | cons l ls ih =>
      rw [framedBehind?_cons, framed?_of_isCode hCode
        (.inl (hFlat l List.mem_cons_self))]
      exact ih fun m hMem =>
        hFlat m (List.mem_cons_of_mem l hMem)

/- All other kinds count, and in a literal every kind does. -/
theorem framed?_eq_next?
    {ds : Nest}
    {k : Kind}
    (hCounts : ds.isCode = false ∨ k.isUnframed = false) :
    ds.framed? k = ds.next? k := by
  unfold framed?
  rcases hCounts with hText | hFramed
  · simp [hText]
  · simp [hFramed]

/- The literals and interpolations of a nest. -/
def framed
    (ds : Nest) : Nest :=
  ds.filter (fun d => !d.isUnframed)

@[simp] theorem framed_nil :
    framed [] = [] :=
  rfl

/- In a literal stands nothing that opens a bracket or block. -/
theorem next?_eq_none
    {ds : Nest}
    {k : Kind}
    (hText : ds.isCode = false)
    (hUnframed : k.isUnframed = true) :
    ds.next? k = none := by
  cases ds with
  | nil => cases hText
  | cons d ds =>
      cases d with
      | literal f layout =>
          cases k <;> first | rfl | cases hUnframed
      | promoterLine f =>
          cases k <;> first | rfl | cases hUnframed
      | _ => cases hText

/- No bracket or block is kept. -/
theorem framed_of_framed?
    {ds es : Nest}
    {k : Kind}
    (hFramed : ds.framed = ds)
    (hNext : ds.framed? k = some es) :
    es.framed = es := by
  unfold framed? at hNext
  split at hNext
  · cases hNext
    exact hFramed
  · rename_i hCounts
    rw [framed, List.filter_eq_self] at hFramed ⊢
    cases step_of_next? hNext with
    | opens d _ hOpener =>
        have hKept : d.isUnframed = false := by
          cases hUnframed : d.isUnframed with
          | false => rfl
          | true =>
              have hKind : k.isUnframed = true := by
                simp [Kind.isUnframed, hOpener, hUnframed]
              cases hCode : ds.isCode with
              | true => simp [hCode, hKind] at hCounts
              | false =>
                  rw [next?_eq_none hCode hKind] at hNext
                  cases hNext
        intro e hMem
        rcases List.mem_cons.mp hMem with rfl | hMem
        · simp [hKept]
        · exact hFramed e hMem
    | closes d _ _ =>
        exact fun e hMem =>
          hFramed e (List.mem_cons_of_mem d hMem)
    | keeps _ _ => exact hFramed
    | startsText f _ _ =>
        intro e hMem
        rcases List.mem_cons.mp hMem with rfl | hMem
        · rfl
        · exact hFramed e (List.mem_cons_of_mem _ hMem)

------------------------------------------------------------
-- Tokens
------------------------------------------------------------

/- What is open behind a token, which trivia leave as it is. -/
def framedToken?
    (ds : Nest)
    (k : Kind) : Option Nest :=
  if k.isTrivia then some ds else ds.framed? k

theorem framedBehind?_ofTokensAfter_cons
    (ds : Nest)
    (spaced : Bool)
    (t : Token)
    (ts : List Token) :
    ds.framedBehind? (Lexeme.ofTokensAfter spaced (t :: ts)) =
      (ds.framedToken? t.kind).bind
        (·.framedBehind?
          (Lexeme.ofTokensAfter t.kind.isTrivia ts)) := by
  unfold framedToken?
  rw [Lexeme.ofTokensAfter]
  cases t.kind.isTrivia <;> rfl

/- Outside of literals trivia might as well be lexemes. -/
theorem framedToken?_of_isCode
    {ds : Nest}
    (k : Kind)
    (hCode : ds.isCode = true) :
    ds.framedToken? k = ds.framed? k := by
  unfold framedToken?
  split
  · rename_i hTrivia
    rw [framed?_of_isCode hCode]
    left
    cases k <;> first | rfl | cases hTrivia
  · rfl

/-
  Without a literal among the frames no literal and no
  interpolation is open.
-/
theorem Reflects.framed_eq_nil
    {ds : Nest}
    {fs : List Frame}
    (hReflects : Reflects ds fs)
    (hNone : (Lexer.unterminated? fs).isNone = true) :
    ds.framed = [] := by
  induction hReflects with
  | none => rfl
  | unframed d ds fs hUnframed _ ih =>
      rw [framed, List.filter_cons_of_neg (by simp [hUnframed])]
      exact ih hNone
  | interpolation curlies resume g opened ds fs _ _ _ =>
      rw [Option.isNone_iff_eq_none, Lexer.unterminated?,
        Option.map_eq_none_iff, Lexer.outermostGroup?,
        List.findSome?_eq_none_iff] at hNone
      have hGroup := hNone (.group g opened) (by simp)
      cases hGroup

end Nest

namespace Lexer

variable {l : Lexer}
variable {t : Transition}
variable {ds : Nest}

------------------------------------------------------------
-- One token
------------------------------------------------------------

theorem isFlat_or_isUnframed_of_isOrdinary
    {k : Kind}
    (hOrdinary : k.isOrdinary = true) :
    k.isFlat = true ∨ k.isUnframed = true := by
  cases k with
  | word w => cases w <;> first | exact .inl rfl | exact .inr rfl
  | _ =>
      first
      | exact .inl rfl
      | exact .inr rfl
      | cases hOrdinary

/- A token outside of literals, over the frames of the lexer. -/
theorem framed_past_of_outside
    (text rest : List Char)
    (hReflects : ds.Reflects l.frames)
    (hFramed : ds.framed = ds)
    (hToken : t.Outside l.frames.head?) :
    ∃ ds', ds.framed? t.kind = some ds' ∧
      (l.past t text rest).Shows ds' := by
  have hCode := hReflects.isCode
  cases hToken with
  | keeps hKeeps =>
      refine ⟨ds, Nest.framed?_of_isCode hCode
        (isFlat_or_isUnframed_of_isOrdinary hKeeps.kind),
        .outside ds hKeeps.mode ?_⟩
      have hFrames : (l.past t text rest).frames = l.frames := by
        simp [past, hKeeps.change, Change.apply]
      rw [hFrames]
      exact hReflects
  | opensCurly hEq =>
      subst hEq
      exact ⟨ds, Nest.framed?_of_isCode hCode (.inr rfl),
        .outside ds rfl (hReflects.applyCurly _ (.inl rfl))⟩
  | closesCurly hEq hTop =>
      subst hEq
      exact ⟨ds, Nest.framed?_of_isCode hCode (.inr rfl),
        .outside ds rfl (hReflects.applyCurly _ (.inr rfl))⟩
  | opens g hEq =>
      subst hEq
      have hOpener := g.delimiter_startMode
      refine ⟨g.delimiter g.startMode :: ds, ?_, ?_⟩
      · change ds.framed? g.promoterKind = _
        have hKind : g.promoterKind.isUnframed = false := by
          rw [Kind.isUnframed, hOpener]
          unfold Group.delimiter
          split <;> rfl
        rw [Nest.framed?_eq_next? (.inr hKind),
          Nest.next?_of_isCode _ hCode, Nest.inCode?,
          if_pos (by rfl), hOpener]
        rfl
      · exact .inside g (l.here.spanOf text) ds l.frames rfl
          hReflects
  | resumes resume hTop hEq =>
      subst hEq
      rcases List.head?_eq_some_iff.mp hTop with ⟨fs, hFrames⟩
      rw [hFrames] at hReflects
      -- Nothing but the interpolation itself is innermost.
      cases hReflects with
      | unframed d ds _ hUnframed _ =>
          rw [Nest.framed, List.filter_eq_self] at hFramed
          have hKept := hFramed d List.mem_cons_self
          simp [hUnframed] at hKept
      | interpolation curlies _ g opened ds fs hResume hRest =>
          refine ⟨.literal g.family g.layout :: ds, rfl, ?_⟩
          have hTail :
              (l.past
                { Transition.plain .interpolationEnd 0 resume
                  with change := .close } text rest).frames =
                .group g opened :: fs := by
            simp [past, Change.apply, hFrames]
          have hDelimiter :
              g.delimiter resume = .literal g.family g.layout :=
            if_neg hResume
          rw [← hDelimiter]
          exact .inside g opened ds fs hTail hRest

/- In a literal every kind that may stand there is awaited. -/
theorem exists_awaited?_of_inside
    {g : Group}
    {mode : Mode}
    (ds : Nest)
    (hIn : mode.isIn g.layout = true)
    (hToken : t.Inside g mode) :
    ∃ es, t.kind.awaited?
      (Nest.endings (g.delimiter mode :: ds)) = some es := by
  have hEnding := Group.ending_delimiter hIn
  rw [Nest.endings, List.map_cons, hEnding]
  cases hToken with
  | onFirstLine hMode hKind hStays hChange hSigil =>
      rcases hKind with hKind | hKind <;> rw [hKind] <;>
        exact ⟨_, rfl⟩
  | endsFirstLine hMode hKind hNext hChange hSigil =>
      rw [hKind]
      exact ⟨_, rfl⟩
  | segment hMode hKind hNextIn hBody hChange hSigil =>
      rcases hKind with hKind | hKind | hKind <;> rw [hKind] <;>
        exact ⟨_, rfl⟩
  | interpolates hMode hEq =>
      subst hEq
      exact ⟨_, rfl⟩
  | ends hMode hEq =>
      subst hEq
      exact ⟨_, if_pos rfl⟩

/- Every token stands where the frames of the lexer have it. -/
theorem Coherent.framed_past
    (c : Char)
    (cs text rest : List Char)
    (hCoherent : Coherent l)
    (hShows : l.Shows ds)
    (hFramed : ds.framed = ds) :
    ∃ ds',
      ds.framedToken? (l.transition c cs).kind = some ds' ∧
        ds'.framed = ds' ∧
        (l.past (l.transition c cs) text rest).Shows ds' := by
  cases hShows with
  | outside ds hMode hReflects =>
      rcases framed_past_of_outside text rest hReflects hFramed
          (Transition.of_outside l.sigil hMode) with
        ⟨ds', hNext, hShows'⟩
      refine ⟨ds', ?_, Nest.framed_of_framed? hFramed hNext,
        hShows'⟩
      rw [Nest.framedToken?_of_isCode _ hReflects.isCode]
      exact hNext
  | inside g opened ds fs hFrames hReflects =>
      have hIn := hCoherent.isIn hFrames
      have hToken :
          (l.transition c cs).Inside g l.mode := by
        unfold transition
        rw [hFrames]
        exact Transition.of_inside l.sigil opened hIn
      rcases exists_awaited?_of_inside ds hIn hToken with
        ⟨es, hAwaited⟩
      rcases shows_past_of_inside text rest hFrames hReflects
          hIn hToken hAwaited with
        ⟨ds', hNext, _, hShows'⟩
      have hText :
          Nest.isCode (g.delimiter l.mode :: ds) = false := by
        unfold Group.delimiter
        split <;> rfl
      unfold Nest.token? at hNext
      unfold Nest.framedToken?
      rw [Nest.framed?_eq_next? (.inl hText)]
      refine ⟨ds', hNext, ?_, hShows'⟩
      split at hNext
      · cases hNext
        exact hFramed
      · rw [← Nest.framed?_eq_next? (.inl hText)] at hNext
        exact Nest.framed_of_framed? hFramed hNext

------------------------------------------------------------
-- Any number of tokens
------------------------------------------------------------

/- At the end of a source in order nothing is left open. -/
theorem Shows.eq_nil
    (hShows : l.Shows ds)
    (hFramed : ds.framed = ds)
    (hNone : (unterminated? l.frames).isNone = true) :
    ds = [] := by
  cases hShows with
  | outside ds hMode hReflects =>
      rw [← hFramed]
      exact hReflects.framed_eq_nil hNone
  | inside g opened ds fs hFrames hReflects =>
      rw [Option.isNone_iff_eq_none, unterminated?,
        Option.map_eq_none_iff, outermostGroup?,
        List.findSome?_eq_none_iff] at hNone
      have hGroup := hNone (.group g opened) (by simp [hFrames])
      cases hGroup

/- A run to the end of a source that is in order. -/
theorem Shows.framedBehind?_take
    {n : Nat}
    (spaced : Bool)
    (hCoherent : Coherent l)
    (hShows : l.Shows ds)
    (hFramed : ds.framed = ds)
    (hRuns : l.raised = false ∧ l.stopped = false ∧ l.ended = false)
    (hEnough : l.rest.length < n)
    (hErrors : (l.take n).2.errors = []) :
    ds.framedBehind?
        (Lexeme.ofTokensAfter spaced ((l.take n).1.map (·.1))) =
      some [] := by
  induction n generalizing l ds spaced with
  | zero => omega
  | succ n ih =>
      rcases hRuns with ⟨hRaised, hStopped, hEnded⟩
      cases hRest : l.rest with
      | nil =>
          have hNext : l.next = (none, l.finish) := by
            unfold next
            rw [hStopped, hRaised, hRest]
            rfl
          rw [take_of_none n (by rw [hNext])] at hErrors ⊢
          rw [hNext, finish, hEnded] at hErrors
          have hNone :
              (unterminated? l.frames).isNone = true := by
            have hAll := (List.append_eq_nil_iff.mp hErrors).2
            rw [Option.toList_eq_nil_iff.mp hAll]
            rfl
          rw [hShows.eq_nil hFramed hNone]
          rfl
      | cons c cs =>
          have hNext :
              l.next =
                (some (l.tokenOf (l.transition c cs)
                    (c :: cs.take (l.transition c cs).more)),
                  l.past (l.transition c cs)
                    (c :: cs.take (l.transition c cs).more)
                    (cs.drop (l.transition c cs).more)) := by
            unfold next
            rw [hStopped, hRaised, hRest]
            rfl
          have hFewer :
              (cs.drop (l.transition c cs).more).length < n := by
            rw [List.length_drop]
            rw [hRest, List.length_cons] at hEnough
            omega
          rcases hCoherent.framed_past c cs
              (c :: cs.take (l.transition c cs).more)
              (cs.drop (l.transition c cs).more) hShows hFramed
            with ⟨ds', hToken, hFramed', hShows'⟩
          rw [take_of_some n (by rw [hNext]), hNext] at hErrors
          rw [take_of_some n (by rw [hNext]), hNext,
            List.map_cons, Nest.framedBehind?_ofTokensAfter_cons]
          change (ds.framedToken? (l.transition c cs).kind).bind _
            = _
          rw [hToken]
          exact ih _ (hCoherent.past c cs _ _) hShows' hFramed'
            ⟨hRaised, hStopped, hEnded⟩ hFewer hErrors

end Lexer

/-
  In a source without lexical errors every literal and every
  interpolation is ended in turn.
-/
theorem framedBehind?_ofTokens_tokenize
    {source : String}
    (hErrors : (tokenize source).2 = []) :
    Nest.framedBehind? [] (Lexeme.ofTokens (tokenize source).1) =
      some [] := by
  have hShows : (Lexer.ofSource source).Shows [] :=
    .outside [] rfl .none
  exact hShows.framedBehind?_take false
    (Lexer.coherent_startingIn .initial source) rfl
    ⟨rfl, rfl, rfl⟩ (Nat.lt_succ_self _) hErrors

end ElixirReader
