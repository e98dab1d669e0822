import ElixirReader.Proofs.Lexer.Frames
import ElixirReader.Proofs.Parser.Moves

/-
  This file says when the delimiters among some tokens are
  ended each by its own kind, and shows that the lexemes of
  such a source then are balanced. The lexer takes care that
  only the parts of a literal stand in it; for brackets and
  blocks it does nothing of the kind.

  Key definitions include:
    * `Kind.awaited?`
    * `Token.awaited?`
    * `Token.AreBalanced`
    * `Token.AreJoined`
    * `Nest.Reflects`
    * `Lexer.Shows`

  Main declarations:
    * `Lexer.Coherent.shows_past`
    * `Lexer.Shows.take`
    * `behind?_ofTokens_tokenize`
    * `isJoined_ofTokens_tokenize`
    * `faultless_ofTokens_tokenize`
-/

namespace ElixirReader

open Parse

------------------------------------------------------------
-- Delimiters by type
------------------------------------------------------------

namespace Kind

/- The kind that ends what a kind starts. -/
def ending? : Kind → Option Kind
| opening b => some (closing b)
| word .do => some (word .end)
| word .fn => some (word .end)
| interpolationStart => some interpolationEnd
| promoter f l => some (terminator f l)
| _ => none

/-
  The kinds that have yet to come behind a kind, the next one
  first. There are none if it ends what was not started last.
-/
def awaited?
    (es : List Kind)
    (k : Kind) : Option (List Kind) :=
  match k.ending? with
  | some e => some (e :: es)
  | none =>
      if k.closes then
        match es with
        | [] => none
        | e :: es => if e = k then some es else none
      else
        some es

theorem isOfCode_of_isOrdinary
    {k : Kind}
    (hOrdinary : k.isOrdinary = true) :
    k.isOfCode = true := by
  cases k <;> first | rfl | cases hOrdinary

end Kind

namespace Token

/- The kinds that have yet to come behind some tokens. -/
def awaited?
    (es : List Kind)
    (tokens : List Token) : Option (List Kind) :=
  tokens.foldlM (fun es t => t.kind.awaited? es) es

/- Every delimiter is ended by its own kind. -/
def AreBalanced
    (tokens : List Token) : Prop :=
  awaited? [] tokens = some []

/- Outside of all delimiters nothing separates statements. -/
def AreJoined
    (tokens : List Token) : Prop :=
  ∀ i (h : i < tokens.length),
    awaited? [] (tokens.take i) = some [] →
      isSeparator tokens[i].kind = false

instance
    (tokens : List Token) :
    Decidable (AreBalanced tokens) :=
  inferInstanceAs (Decidable (_ = _))

instance
    (tokens : List Token) :
    Decidable (AreJoined tokens) :=
  Nat.decidableBallLT _ _

@[simp] theorem awaited?_cons
    (es : List Kind)
    (t : Token)
    (ts : List Token) :
    awaited? es (t :: ts) =
      (t.kind.awaited? es).bind (awaited? · ts) :=
  rfl

theorem awaited?_append
    (es : List Kind)
    (ts us : List Token) :
    awaited? es (ts ++ us) =
      (awaited? es ts).bind (awaited? · us) := by
  simp [awaited?, List.foldlM_append]

end Token

------------------------------------------------------------
-- Delimiters and the kinds that end them
------------------------------------------------------------

/- The kind that ends a delimiter. -/
def Delimiter.ending : Delimiter → Kind
| bracket b => .closing b
| block => .word .end
| interpolation => .interpolationEnd
| promoterLine f => .terminator f .heredoc
| literal f l => .terminator f l

/- The delimiters that the lexer keeps no frame for. -/
def Delimiter.isUnframed : Delimiter → Bool
| bracket _ => true
| block => true
| _ => false

namespace Nest

/- The kinds that end what is open, the innermost first. -/
def endings
    (ds : Nest) : List Kind :=
  ds.map Delimiter.ending

theorem ending?_eq
    (k : Kind) :
    k.ending? = k.opener?.map Delimiter.ending := by
  cases k with
  | word w => cases w <;> rfl
  | promoter f l => cases l <;> rfl
  | _ => rfl

/- In code the kind that ends a delimiter tells which one it is. -/
theorem closer?_ending
    {d : Delimiter}
    (hCode : d.isText = false) :
    d.ending.closer? = some d := by
  cases d <;> first | rfl | cases hCode

/- In code a kind that ends what it should is in its place. -/
theorem exists_next?_of_awaited?
    {ds : Nest}
    {k : Kind}
    {es : List Kind}
    (hCode : ds.isCode = true)
    (hOfCode : k.isOfCode = true)
    (hAwaited : k.awaited? ds.endings = some es) :
    ∃ ds', ds.next? k = some ds' ∧ ds'.endings = es := by
  have hNext :
      ds.next? k = turn? k.opener? k.closer? ds := by
    rw [next?_of_isCode k hCode, inCode?, if_pos hOfCode]
  unfold Kind.awaited? at hAwaited
  rw [ending?_eq, Kind.closes_eq] at hAwaited
  cases hOpener : k.opener? with
  | some d =>
      rw [hOpener] at hNext hAwaited
      cases hAwaited
      exact ⟨d :: ds, hNext, rfl⟩
  | none =>
      rw [hOpener] at hNext hAwaited
      cases hCloser : k.closer? with
      | none =>
          rw [hCloser] at hNext hAwaited
          cases hAwaited
          exact ⟨ds, hNext, rfl⟩
      | some d =>
          rw [hCloser] at hNext hAwaited
          cases ds with
          | nil => cases hAwaited
          | cons e ds =>
              have hText : e.isText = false := by
                simpa [isCode] using hCode
              change (if e.ending = k then _ else _) = _
                at hAwaited
              split at hAwaited
              · rename_i hEnding
                cases hAwaited
                have hSame := closer?_ending hText
                rw [hEnding, hCloser] at hSame
                cases hSame
                refine ⟨ds, ?_, rfl⟩
                rw [hNext]
                exact if_pos rfl
              · cases hAwaited

------------------------------------------------------------
-- Delimiters and frames
------------------------------------------------------------

/-
  What is open, over the frames of a lexer outside of quoted
  literals. Between the frames are brackets and blocks, which
  the lexer does not keep. An interpolation goes on in the
  text of its literal.
-/
inductive Reflects : Nest → List Frame → Prop where
| none :
    Reflects [] []
| unframed
    (d : Delimiter)
    (ds : Nest)
    (fs : List Frame)
    (hUnframed : d.isUnframed = true)
    (hRest : Reflects ds fs) :
    Reflects (d :: ds) fs
| interpolation
    (curlies : Nat)
    (resume : Mode)
    (g : Group)
    (opened : Span)
    (ds : Nest)
    (fs : List Frame)
    (hResume : resume ≠ .heredocStart)
    (hRest : Reflects ds fs) :
    Reflects (.interpolation :: .literal g.family g.layout :: ds)
      (.interpolation curlies resume :: .group g opened :: fs)

theorem Reflects.isCode
    {ds : Nest}
    {fs : List Frame}
    (hReflects : Reflects ds fs) :
    ds.isCode = true := by
  cases hReflects with
  | none => rfl
  | unframed d ds fs hUnframed hRest =>
      cases d <;> first | rfl | cases hUnframed
  | interpolation _ _ _ _ _ _ _ _ => rfl

theorem Reflects.tail
    {d : Delimiter}
    {ds : Nest}
    {fs : List Frame}
    (hReflects : Reflects (d :: ds) fs)
    (hUnframed : d.isUnframed = true) :
    Reflects ds fs := by
  cases hReflects with
  | unframed _ _ _ _ hRest => exact hRest
  | interpolation _ _ _ _ _ _ _ _ => cases hUnframed

/- Curlies are counted without any change to what is open. -/
theorem Reflects.setCurlies
    {ds : Nest}
    {fs : List Frame}
    {n : Nat}
    {m : Mode}
    (k : Nat)
    (hReflects : Reflects ds (.interpolation n m :: fs)) :
    Reflects ds (.interpolation k m :: fs) := by
  generalize hFrames : Frame.interpolation n m :: fs = gs
    at hReflects
  induction hReflects with
  | none => cases hFrames
  | unframed d ds gs hUnframed _ ih =>
      exact .unframed d ds _ hUnframed (ih hFrames)
  | interpolation _ _ g opened ds fs hResume hRest _ =>
      cases hFrames
      exact .interpolation k m g opened ds fs hResume hRest

theorem Reflects.applyCurly
    {ds : Nest}
    {fs : List Frame}
    {change : Change}
    (span : Span)
    (hReflects : Reflects ds fs)
    (hChange : change = .openCurly ∨ change = .closeCurly) :
    Reflects ds (change.apply span fs) := by
  cases fs with
  | nil => rcases hChange with rfl | rfl <;> exact hReflects
  | cons f fs =>
      cases f with
      | group g opened =>
          rcases hChange with rfl | rfl <;> exact hReflects
      | interpolation n m =>
          rcases hChange with rfl | rfl
          · exact hReflects.setCurlies (n + 1)
          · exact hReflects.setCurlies (n - 1)

/- Behind an interpolation the text around it goes on. -/
theorem Reflects.resumes
    {ds : Nest}
    {fs : List Frame}
    {n : Nat}
    {resume : Mode}
    (hReflects :
      Reflects (.interpolation :: ds)
        (.interpolation n resume :: fs)) :
    resume ≠ .heredocStart ∧
      ∃ g opened ds' fs',
        ds = .literal g.family g.layout :: ds' ∧
          fs = .group g opened :: fs' ∧
          Reflects ds' fs' := by
  cases hReflects with
  | unframed _ _ _ hUnframed _ => cases hUnframed
  | interpolation _ _ g opened ds fs hResume hRest =>
      exact ⟨hResume, g, opened, ds, fs, rfl, rfl, hRest⟩

/-
  What an ordinary kind does to what is open, the lexer does
  not keep.
-/
theorem Reflects.next
    {ds es : Nest}
    {fs : List Frame}
    {k : Kind}
    (hReflects : Reflects ds fs)
    (hOpens : ∀ d, k.opener? = some d → d.isUnframed = true)
    (hCloses : ∀ d, k.closer? = some d → d.isUnframed = true)
    (hNext : ds.next? k = some es) :
    Reflects es fs := by
  cases step_of_next? hNext with
  | opens d _ hOpener =>
      exact .unframed d ds fs (hOpens d hOpener) hReflects
  | closes d _ hCloser =>
      exact hReflects.tail (hCloses d hCloser)
  | keeps _ _ => exact hReflects
  | startsText f _ _ => cases hReflects.isCode

------------------------------------------------------------
-- Tokens
------------------------------------------------------------

/- What is open behind a token, which trivia leave as it is. -/
def token?
    (ds : Nest)
    (k : Kind) : Option Nest :=
  if k.isTrivia then some ds else ds.next? k

/- In code trivia might as well be lexemes. -/
theorem token?_of_isCode
    {ds : Nest}
    (k : Kind)
    (hCode : ds.isCode = true) :
    ds.token? k = ds.next? k := by
  unfold token?
  split
  · rename_i hTrivia
    rw [next?_of_isCode k hCode]
    cases k <;> first | rfl | cases hTrivia
  · rfl

theorem behind?_ofTokensAfter_cons
    (ds : Nest)
    (spaced : Bool)
    (t : Token)
    (ts : List Token) :
    ds.behind? (Lexeme.ofTokensAfter spaced (t :: ts)) =
      (ds.token? t.kind).bind
        (·.behind?
          (Lexeme.ofTokensAfter t.kind.isTrivia ts)) := by
  unfold token?
  rw [Lexeme.ofTokensAfter]
  cases t.kind.isTrivia <;> rfl

end Nest

/- What is open innermost in a mode inside of a literal. -/
def Group.delimiter
    (g : Group)
    (mode : Mode) : Delimiter :=
  if mode = .heredocStart then .promoterLine g.family
  else .literal g.family g.layout

theorem Group.delimiter_startMode
    (g : Group) :
    (g.promoterKind).opener? =
      some (g.delimiter g.startMode) := by
  unfold delimiter startMode promoterKind
  cases hLayout : g.layout <;> rfl

namespace Lexer

/- What is open where a lexer stands. -/
inductive Shows
    (l : Lexer) : Nest → Prop where
| outside
    (ds : Nest)
    (hMode : l.mode.isGroup = false)
    (hReflects : ds.Reflects l.frames) :
    Shows l ds
| inside
    (g : Group)
    (opened : Span)
    (ds : Nest)
    (fs : List Frame)
    (hFrames : l.frames = .group g opened :: fs)
    (hReflects : ds.Reflects fs) :
    Shows l (g.delimiter l.mode :: ds)

------------------------------------------------------------
-- One token
------------------------------------------------------------

variable {l : Lexer}
variable {t : Transition}
variable {ds : Nest}
variable {es : List Kind}

theorem isUnframed_of_isOrdinary
    {k : Kind}
    {d : Delimiter}
    (hOrdinary : k.isOrdinary = true)
    (hDelimiter : k.opener? = some d ∨ k.closer? = some d) :
    d.isUnframed = true := by
  cases k with
  | opening b =>
      rcases hDelimiter with hOpener | hCloser
      · cases hOpener
        rfl
      · cases hCloser
  | closing b =>
      rcases hDelimiter with hOpener | hCloser
      · cases hOpener
      · cases hCloser
        rfl
  | word w =>
      cases w <;> rcases hDelimiter with hEq | hEq <;>
        cases hEq <;> rfl
  | _ =>
      first
      | exact absurd hOrdinary Bool.false_ne_true
      | (rcases hDelimiter with hEq | hEq <;> cases hEq)

/- A token outside of literals stands where the parser has it. -/
theorem shows_past_of_outside
    (text rest : List Char)
    (hReflects : ds.Reflects l.frames)
    (hToken : t.Outside l.frames.head?)
    (hAwaited : t.kind.awaited? ds.endings = some es) :
    ∃ ds', ds.token? t.kind = some ds' ∧ ds'.endings = es ∧
      (l.past t text rest).Shows ds' := by
  have hCode := hReflects.isCode
  rw [Nest.token?_of_isCode _ hCode]
  cases hToken with
  | keeps hKeeps =>
      have hOrdinary := hKeeps.kind
      rcases Nest.exists_next?_of_awaited? hCode
          (Kind.isOfCode_of_isOrdinary hOrdinary) hAwaited with
        ⟨ds', hNext, hEndings⟩
      refine ⟨ds', hNext, hEndings, .outside ds' hKeeps.mode ?_⟩
      have hFrames : (l.past t text rest).frames = l.frames := by
        simp [past, hKeeps.change, Change.apply]
      rw [hFrames]
      exact hReflects.next
        (fun d hOpener =>
          isUnframed_of_isOrdinary hOrdinary (.inl hOpener))
        (fun d hCloser =>
          isUnframed_of_isOrdinary hOrdinary (.inr hCloser))
        hNext
  | opensCurly hEq =>
      subst hEq
      rcases Nest.exists_next?_of_awaited? hCode (by rfl)
        hAwaited with ⟨ds', hNext, hEndings⟩
      refine ⟨ds', hNext, hEndings, .outside ds' rfl ?_⟩
      exact Nest.Reflects.applyCurly _
        (hReflects.next
          (fun d hOpener => by cases hOpener; rfl)
          (fun d hCloser => by cases hCloser) hNext)
        (.inl rfl)
  | closesCurly hEq hTop =>
      subst hEq
      rcases Nest.exists_next?_of_awaited? hCode (by rfl)
        hAwaited with ⟨ds', hNext, hEndings⟩
      refine ⟨ds', hNext, hEndings, .outside ds' rfl ?_⟩
      exact Nest.Reflects.applyCurly _
        (hReflects.next
          (fun d hOpener => by cases hOpener)
          (fun d hCloser => by cases hCloser; rfl) hNext)
        (.inr rfl)
  | opens g hEq =>
      subst hEq
      rcases Nest.exists_next?_of_awaited? hCode (by rfl)
        hAwaited with ⟨ds', hNext, hEndings⟩
      have hOpen :=
        Nest.next?_of_opener? g.delimiter_startMode hNext
      subst hOpen
      refine ⟨_, hNext, hEndings, ?_⟩
      exact .inside g (l.here.spanOf text) ds l.frames rfl
        hReflects
  | resumes resume hTop hEq =>
      subst hEq
      rcases Nest.exists_next?_of_awaited? hCode (by rfl)
        hAwaited with ⟨ds', hNext, hEndings⟩
      have hClosed :=
        Nest.next?_of_closer? (d := .interpolation) rfl hNext
      refine ⟨ds', hNext, hEndings, ?_⟩
      subst hClosed
      rcases List.head?_eq_some_iff.mp hTop with ⟨fs, hFrames⟩
      rw [hFrames] at hReflects
      rcases hReflects.resumes with
        ⟨hResume, g, opened, ds, fs, rfl, rfl, hRest⟩
      have hTail :
          (l.past
            { Transition.plain .interpolationEnd 0 resume
              with change := .close } text rest).frames =
            .group g opened :: fs := by
        simp [past, Change.apply, hFrames]
      have hDelimiter :
          g.delimiter resume = .literal g.family g.layout :=
        if_neg hResume
      rw [← hDelimiter]
      exact .inside g opened ds fs hTail hRest

/- In a literal the kind that ends it is awaited. -/
theorem Group.ending_delimiter
    {g : Group}
    {mode : Mode}
    (hIn : mode.isIn g.layout = true) :
    (g.delimiter mode).ending = g.terminatorKind := by
  unfold Group.delimiter Group.terminatorKind
  split
  · rename_i hMode
    rw [hMode] at hIn
    rw [Mode.layout_of_heredocStart hIn]
    rfl
  · rfl

/- So does one inside of a literal. -/
theorem shows_past_of_inside
    {g : Group}
    {opened : Span}
    {fs : List Frame}
    (text rest : List Char)
    (hFrames : l.frames = .group g opened :: fs)
    (hReflects : ds.Reflects fs)
    (hIn : l.mode.isIn g.layout = true)
    (hToken : t.Inside g l.mode)
    (hAwaited :
      t.kind.awaited?
        (Nest.endings (g.delimiter l.mode :: ds)) = some es) :
    ∃ ds',
      Nest.token? (g.delimiter l.mode :: ds) t.kind = some ds' ∧
        ds'.endings = es ∧ (l.past t text rest).Shows ds' := by
  -- A token that keeps the open constructs and stays inside.
  have hKept :
      t.change = .keep →
        (l.past t text rest).Shows
          (g.delimiter t.mode :: ds) := by
    intro hChange
    have hSame :
        (l.past t text rest).frames = .group g opened :: fs := by
      simp [past, hChange, Change.apply, hFrames]
    exact .inside g opened ds fs hSame hReflects
  -- In the text itself the literal has its own layout.
  have hText :
      ∀ mode, mode ≠ .heredocStart →
        g.delimiter mode = .literal g.family g.layout :=
    fun mode hMode => if_neg hMode
  have hEnding := Group.ending_delimiter hIn
  rw [Nest.endings, List.map_cons, hEnding] at hAwaited
  cases hToken with
  | onFirstLine hMode hKind hStays hChange hSigil =>
      have hNext := hKept hChange
      rw [hStays, ← hMode] at hNext
      refine ⟨_, ?_, ?_, hNext⟩
      · rw [hMode]
        rcases hKind with hKind | hKind <;> rw [hKind] <;> rfl
      · rw [Nest.endings, List.map_cons, hEnding]
        rcases hKind with hKind | hKind <;>
          rw [hKind] at hAwaited <;> exact Option.some.inj hAwaited
  | endsFirstLine hMode hKind hNext hChange hSigil =>
      have hLayout : g.layout = .heredoc := by
        rw [hMode] at hIn
        exact Mode.layout_of_heredocStart hIn
      have hShows := hKept hChange
      rw [hNext, hText .heredocLineStart (by decide), hLayout]
        at hShows
      refine ⟨_, ?_, ?_, hShows⟩
      · rw [hMode, hKind]
        rfl
      · rw [hKind, Group.terminatorKind, hLayout] at hAwaited
        exact Option.some.inj hAwaited
  | segment hMode hKind hNextIn hBody hChange hSigil =>
      have hShows := hKept hChange
      rw [hText _ hBody] at hShows
      rw [hText _ hMode]
      refine ⟨_, ?_, ?_, hShows⟩
      · rcases hKind with hKind | hKind | hKind <;>
          rw [hKind] <;> rfl
      · rcases hKind with hKind | hKind | hKind <;>
          rw [hKind] at hAwaited <;>
            exact Option.some.inj hAwaited
  | interpolates hMode hEq =>
      subst hEq
      rw [hText _ hMode]
      refine ⟨_, rfl, Option.some.inj hAwaited, ?_⟩
      apply Shows.outside _ rfl
      change Nest.Reflects _ (.interpolation 0 g.bodyMode ::
        l.frames)
      rw [hFrames]
      apply Nest.Reflects.interpolation _ _ _ _ _ _ _ hReflects
      unfold Group.bodyMode
      cases g.layout <;> decide
  | ends hMode hEq =>
      subst hEq
      rw [hText _ hMode]
      refine ⟨ds, ?_, ?_, ?_⟩
      · change (if g.family = g.family ∧ g.layout = g.layout
          then some ds else none) = some ds
        exact if_pos ⟨rfl, rfl⟩
      · change (if g.terminatorKind = g.terminatorKind then _
          else _) = _ at hAwaited
        rw [if_pos rfl] at hAwaited
        exact Option.some.inj hAwaited
      · apply Shows.outside _ g.isGroup_endMode
        change ds.Reflects l.frames.tail
        rw [hFrames]
        exact hReflects

/- Every token stands where the parser has it. -/
theorem Coherent.shows_past
    (c : Char)
    (cs text rest : List Char)
    (hCoherent : Coherent l)
    (hShows : l.Shows ds)
    (hAwaited :
      (l.transition c cs).kind.awaited? ds.endings = some es) :
    ∃ ds',
      ds.token? (l.transition c cs).kind = some ds' ∧
        ds'.endings = es ∧
        (l.past (l.transition c cs) text rest).Shows ds' := by
  cases hShows with
  | outside ds hMode hReflects =>
      exact shows_past_of_outside text rest hReflects
        (Transition.of_outside l.sigil hMode) hAwaited
  | inside g opened ds fs hFrames hReflects =>
      have hIn := hCoherent.isIn hFrames
      have hToken :
          (l.transition c cs).Inside g l.mode := by
        unfold transition
        rw [hFrames]
        exact Transition.of_inside l.sigil opened hIn
      exact shows_past_of_inside text rest hFrames hReflects
        hIn hToken hAwaited

------------------------------------------------------------
-- Any number of tokens
------------------------------------------------------------

/- A request finds no token, or that of the next transition. -/
theorem next_cases
    (l : Lexer) :
    l.next.1 = none ∨
      ∃ c cs text rest, text ≠ [] ∧
        l.next =
          (some (l.tokenOf (l.transition c cs) text),
            l.past (l.transition c cs) text rest) := by
  unfold next
  split
  · exact .inl rfl
  · split
    · exact .inl rfl
    · split
      · exact .inl rfl
      · rename_i c cs _
        exact .inr ⟨c, cs, _, _, List.cons_ne_nil _ _, rfl⟩

/-
  As long as every delimiter is ended by its own kind, the
  lexemes of a run of tokens leave open what the kinds that
  are awaited end.
-/
theorem Shows.take
    {n : Nat}
    {front back : List Token}
    (spaced : Bool)
    (hCoherent : Coherent l)
    (hShows : l.Shows ds)
    (hSplit : (l.take n).1.map (·.1) = front ++ back)
    (hAwaited : Token.awaited? ds.endings front = some es) :
    ∃ ds',
      ds.behind? (Lexeme.ofTokensAfter spaced front) =
          some ds' ∧
        ds'.endings = es := by
  induction n generalizing l ds front spaced with
  | zero =>
      rw [(List.append_eq_nil_iff.mp hSplit.symm).1] at hAwaited ⊢
      exact ⟨ds, rfl, Option.some.inj hAwaited⟩
  | succ n ih =>
      cases front with
      | nil => exact ⟨ds, rfl, Option.some.inj hAwaited⟩
      | cons token front =>
          rcases l.next_cases with
            hNone | ⟨c, cs, text, rest, _, hNext⟩
          · rw [take_of_none n hNone] at hSplit
            cases hSplit
          · rw [take_of_some n (by rw [hNext])] at hSplit
            rcases List.cons.inj hSplit with ⟨rfl, hFront⟩
            rw [Token.awaited?_cons] at hAwaited
            rcases Option.bind_eq_some_iff.mp hAwaited with
              ⟨es', hToken, hLater⟩
            rcases hCoherent.shows_past c cs text rest hShows
              hToken with ⟨ds', hNest, rfl, hShows'⟩
            rw [hNext] at hFront
            rcases ih _ (hCoherent.past c cs text rest) hShows'
              hFront hLater with ⟨ds'', hBehind, hEndings⟩
            refine ⟨ds'', ?_, hEndings⟩
            rw [Nest.behind?_ofTokensAfter_cons]
            change (ds.token? (l.transition c cs).kind).bind _ =
              _
            rw [hNest]
            exact hBehind

/- A token of a faulty kind shows an error. -/
theorem isFaulty_of_errorOf?
    {text : List Char}
    (hText : text ≠ [])
    (hNone : l.errorOf? t text = none) :
    t.kind.isFaulty = false := by
  have hFault : t.kind.fault? text = none := by
    rw [errorOf?, Option.map_eq_none_iff,
      Option.or_eq_none_iff] at hNone
    exact hNone.2
  cases hKind : t.kind with
  | badCharacter =>
      rw [hKind] at hFault
      cases text with
      | nil => exact absurd rfl hText
      | cons c cs => cases hFault
  | badDigits r =>
      rw [hKind] at hFault
      cases hFault
  | badBaseDigits =>
      rw [hKind] at hFault
      cases hFault
  | _ => rfl

theorem errors_next
    (l : Lexer) :
    l.errors <+: l.next.2.errors := by
  unfold next
  split
  · exact List.prefix_refl _
  · split
    · exact List.prefix_refl _
    · split
      · unfold finish
        split
        · exact List.prefix_refl _
        · exact List.prefix_append _ _
      · exact List.prefix_append _ _

/- Errors of tokens are kept to the end of a run. -/
theorem errors_take
    {n : Nat}
    (hErrors : (l.take n).2.errors = []) :
    l.errors = [] ∧
      ∀ t ∈ (l.take n).1, t.1.kind.isFaulty = false := by
  induction n generalizing l with
  | zero =>
      exact ⟨hErrors,
        fun _ hMem => (List.not_mem_nil hMem).elim⟩
  | succ n ih =>
      have hBefore := l.errors_next
      rcases l.next_cases with
        hNone | ⟨c, cs, text, rest, hText, hNext⟩
      · rw [take_of_none n hNone] at hErrors ⊢
        rw [hErrors] at hBefore
        exact ⟨List.prefix_nil.mp hBefore,
          fun _ hMem => (List.not_mem_nil hMem).elim⟩
      · rw [take_of_some n (by rw [hNext])] at hErrors ⊢
        rcases ih hErrors with ⟨hNil, hTokens⟩
        rw [hNil] at hBefore
        refine ⟨List.prefix_nil.mp hBefore, ?_⟩
        intro t hMem
        rcases List.mem_cons.mp hMem with rfl | hMem
        · rw [hNext] at hNil
          apply isFaulty_of_errorOf? hText (l := l)
            (t := l.transition c cs)
          exact Option.toList_eq_nil_iff.mp
            (List.append_eq_nil_iff.mp hNil).2
        · exact hTokens t hMem

end Lexer

------------------------------------------------------------
-- Sources
------------------------------------------------------------

/- The tokens of a source are a run of the lexer at its start. -/
theorem tokenize_eq
    (source : String) :
    ∃ n,
      tokenize source =
        (((Lexer.ofSource source).take n).1.map (·.1),
          ((Lexer.ofSource source).take n).2.errors) :=
  ⟨(Lexer.ofSource source).rest.length + 1, rfl⟩

/- The tokens of a source up to one of them. -/
theorem exists_behind?_ofTokens
    {source : String}
    {front back : List Token}
    {es : List Kind}
    (hSplit : (tokenize source).1 = front ++ back)
    (hAwaited : Token.awaited? [] front = some es) :
    ∃ ds,
      Nest.behind? [] (Lexeme.ofTokens front) = some ds ∧
        ds.endings = es := by
  rcases tokenize_eq source with ⟨n, hTokens⟩
  rw [hTokens] at hSplit
  exact Lexer.Shows.take false
    (Lexer.coherent_startingIn .initial source)
    (.outside [] rfl .none) hSplit hAwaited

/-
  If every delimiter of a source is ended by its own kind,
  then nothing is left open, and only parts of literals stand
  in literals.
-/
theorem behind?_ofTokens_tokenize
    {source : String}
    (hBalanced : Token.AreBalanced (tokenize source).1) :
    Nest.behind? [] (Lexeme.ofTokens (tokenize source).1) =
      some [] := by
  rcases exists_behind?_ofTokens
      (List.append_nil (tokenize source).1).symm hBalanced with
    ⟨ds, hBehind, hEndings⟩
  rw [List.map_eq_nil_iff.mp hEndings] at hBehind
  exact hBehind

/- What is behind some of the lexemes of tokens. -/
theorem Lexeme.exists_of_ofTokensAfter
    {spaced : Bool}
    {tokens : List Token}
    {l : Lexeme}
    {front back : List Lexeme}
    (hSplit :
      ofTokensAfter spaced tokens = front ++ l :: back) :
    ∃ before t after,
      tokens = before ++ t :: after ∧
        ofTokensAfter spaced before = front ∧
        t.kind = l.kind := by
  induction tokens generalizing spaced front with
  | nil => simp [ofTokensAfter] at hSplit
  | cons t ts ih =>
      rw [ofTokensAfter] at hSplit
      cases hTrivia : t.kind.isTrivia with
      | true =>
          rw [if_pos hTrivia] at hSplit
          rcases ih hSplit with ⟨before, u, after, rfl, hFront, hKind⟩
          refine ⟨t :: before, u, after, rfl, ?_, hKind⟩
          rw [ofTokensAfter, if_pos hTrivia, hFront]
      | false =>
          rw [hTrivia, if_neg Bool.false_ne_true] at hSplit
          cases front with
          | nil =>
              rcases List.cons.inj hSplit with ⟨rfl, _⟩
              exact ⟨[], t, ts, rfl, rfl, rfl⟩
          | cons m front =>
              rcases List.cons.inj hSplit with ⟨rfl, hLater⟩
              rcases ih hLater with
                ⟨before, u, after, rfl, hFront, hKind⟩
              refine ⟨t :: before, u, after, rfl, ?_, hKind⟩
              rw [ofTokensAfter, hTrivia,
                if_neg Bool.false_ne_true, hFront]

theorem Lexeme.exists_of_mem_ofTokens
    {tokens : List Token}
    {l : Lexeme}
    (hMem : l ∈ ofTokens tokens) :
    ∃ t ∈ tokens, t.kind = l.kind := by
  rcases List.append_of_mem hMem with ⟨front, back, hSplit⟩
  rcases exists_of_ofTokensAfter hSplit with
    ⟨before, t, after, rfl, _, hKind⟩
  exact ⟨t, by simp, hKind⟩

/-
  With nothing open, no lexeme of one statement separates
  statements.
-/
theorem isJoined_ofTokens_tokenize
    {source : String}
    {l : Lexeme}
    {front back : List Lexeme}
    (hBalanced : Token.AreBalanced (tokenize source).1)
    (hJoined : Token.AreJoined (tokenize source).1)
    (hSplit :
      Lexeme.ofTokens (tokenize source).1 =
        front ++ l :: back)
    (hFront : Nest.behind? [] front = some []) :
    isSeparator l.kind = false := by
  rcases Lexeme.exists_of_ofTokensAfter hSplit with
    ⟨before, t, after, hTokens, hBefore, hKind⟩
  have hAwaited := hBalanced
  rw [Token.AreBalanced, hTokens, Token.awaited?_append]
    at hAwaited
  rcases Option.bind_eq_some_iff.mp hAwaited with
    ⟨es, hEs, _⟩
  rcases exists_behind?_ofTokens hTokens hEs with
    ⟨ds, hBehind, hEndings⟩
  change Nest.behind? [] (Lexeme.ofTokensAfter false before) = _
    at hBehind
  rw [hBefore, hFront] at hBehind
  cases hBehind
  cases hEndings
  have hLess : before.length < (tokenize source).1.length := by
    rw [hTokens]
    simp
  have hToken := hJoined before.length hLess
  simp only [hTokens, List.take_left] at hToken
  rw [← hKind]
  simpa using hToken hEs

/- A source without lexical errors has no faulty lexemes. -/
theorem faultless_ofTokens_tokenize
    {source : String}
    (hErrors : (tokenize source).2 = []) :
    Faultless (Lexeme.ofTokens (tokenize source).1) := by
  intro l hMem
  rcases Lexeme.exists_of_mem_ofTokens hMem with
    ⟨t, hToken, hKind⟩
  rcases tokenize_eq source with ⟨n, hTake⟩
  rw [hTake] at hToken hErrors
  rcases List.mem_map.mp hToken with ⟨u, hMem', rfl⟩
  rw [← hKind]
  exact (Lexer.errors_take hErrors).2 u hMem'

end ElixirReader
