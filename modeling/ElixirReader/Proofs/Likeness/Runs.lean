import ElixirReader.Proofs.Likeness.Fronts
import ElixirReader.Proofs.Likeness.Shapes
import ElixirReader.Proofs.Parser.Termination
import ElixirReader.Proofs.Errors.Documents

/-
  This file takes a source without errors for a run of its
  lexer, and such a run for a source. It says what is open in
  the middle of a run, and where a run may be continued.

  Key definitions include:
    * `Before.past`
    * `Before.Explains`

  Main declarations:
    * `Lexer.Takes.split`
    * `Lexer.exists_takes_tokenize`
    * `Lexer.tokenize_of_takes`
    * `Lexer.Takes.mirrored`
    * `Lexer.Takes.explains`
    * `behind?_ofTokens_of_clean`
-/

namespace ElixirReader

open Parse

------------------------------------------------------------
-- Runs
------------------------------------------------------------

namespace Lexer

variable {l mid last : Lexer}
variable {tokens earlier later : List Token}
variable {source : String}

/- Two lexers at the starts of their sources. -/
theorem abreast_ofSource
    (source source' : String) :
    Abreast none [] (ofSource source) (ofSource source') :=
  ⟨⟨0, .none, rfl⟩, fun _ _ hMem => (List.not_mem_nil hMem).elim,
    coherent_startingIn _ _, ⟨rfl, rfl, rfl, rfl⟩,
    ⟨rfl, rfl, rfl, rfl⟩⟩

/- A run of one token without an error. -/
theorem takes_one
    {t : Transition}
    {c : Char}
    {cs rest : List Char}
    (hClean : l.Clean)
    (hRest : l.rest = c :: (cs ++ rest))
    (hT : l.transition c (cs ++ rest) = t)
    (hMore : t.more = cs.length)
    (hNone : l.errorOf? t (c :: cs) = none) :
    Takes l [l.tokenOf t (c :: cs)] (l.past t (c :: cs) rest) ∧
      (l.past t (c :: cs) rest).Clean := by
  have hNext := next_of_rest_cons hClean.raised hClean.stopped hRest
  rw [hT, hMore, List.take_left, List.drop_left] at hNext
  refine ⟨.token l _ [] _ (by rw [hNext])
    (by rw [hNext]; exact .none _), ?_, hClean.raised,
    hClean.stopped, hClean.ended⟩
  simp [past, hClean.errors, hNone]

/- Space that is in order shows no error. -/
theorem errorOf?_of_isSpacing
    {t : Transition}
    (text : List Char)
    (hFault : t.fault = none)
    (hSpacing : t.kind.isSpacing = true) :
    l.errorOf? t text = none := by
  unfold errorOf?
  rw [hFault]
  generalize t.kind = k at hSpacing
  cases k <;> first | rfl | cases hSpacing

/- A run is made of that of its first tokens and that of the others. -/
theorem Takes.split
    (hTakes : Takes l (earlier ++ later) last) :
    ∃ mid, Takes l earlier mid ∧ Takes mid later last := by
  induction earlier generalizing l with
  | nil => exact ⟨l, .none l, hTakes⟩
  | cons t earlier ih =>
      cases hTakes with
      | token _ _ _ _ hNext hRest =>
          rcases ih hRest with ⟨mid, hFront, hBack⟩
          exact ⟨mid, .token l t earlier mid hNext hFront, hBack⟩

/- Without errors the tokens up to the end are a clean run. -/
theorem exists_takes
    {n : Nat}
    (hRuns : l.raised = false ∧ l.stopped = false ∧ l.ended = false)
    (hEnough : l.rest.length < n)
    (hErrors : (l.take n).2.errors = []) :
    ∃ last, Takes l ((l.take n).1.map (·.1)) last ∧ last.Clean ∧
      last.rest = [] ∧ unterminated? last.frames = none := by
  induction n generalizing l with
  | zero => omega
  | succ n ih =>
      rcases hRuns with ⟨hRaised, hStopped, hEnded⟩
      cases hRest : l.rest with
      | nil =>
          have hNext := next_of_rest_nil hRaised hStopped hRest
          rw [take_of_none n (by rw [hNext]), hNext] at hErrors ⊢
          unfold finish at hErrors
          rw [hEnded] at hErrors
          rcases List.append_eq_nil_iff.mp hErrors with ⟨hOld, hOpen⟩
          exact ⟨l, .none l, ⟨hOld, hRaised, hStopped, hEnded⟩, hRest,
            Option.toList_eq_nil_iff.mp hOpen⟩
      | cons c cs =>
          have hNext := next_of_rest_cons hRaised hStopped hRest
          have hSome : l.next.1 = some (l.tokenOf (l.transition c cs)
              (c :: cs.take (l.transition c cs).more)) := by
            rw [hNext]
          have hFewer := length_rest_next hSome
          rw [take_of_some n hSome] at hErrors ⊢
          rcases ih (by rw [hNext]; exact ⟨hRaised, hStopped, hEnded⟩)
              (by omega) hErrors with
            ⟨last, hTakes, hEnd⟩
          exact ⟨last, .token l _ _ last hSome hTakes, hEnd⟩

/- So are the tokens of a source without lexical errors. -/
theorem exists_takes_tokenize
    (hErrors : (tokenize source).2 = []) :
    ∃ last, Takes (ofSource source) (tokenize source).1 last ∧
      last.Clean ∧ last.rest = [] ∧
      unterminated? last.frames = none :=
  exists_takes ⟨rfl, rfl, rfl⟩ (Nat.lt_succ_self _) hErrors

/- A clean run to the end gives all tokens of a source. -/
theorem tokenize_of_takes
    (hTakes : Takes (ofSource source) tokens last)
    (hClean : last.Clean)
    (hRest : last.rest = [])
    (hClosed : unterminated? last.frames = none) :
    tokenize source = (tokens, []) := by
  have hDrain : (ofSource source).drain =
      (ofSource source).take
        (tokens.length + ((ofSource source).rest.length + 1)) :=
    take_eq_take (Nat.lt_succ_self _)
      (Nat.lt_add_left _ (Nat.lt_succ_self _))
  have hTake := hTakes.take_add ((ofSource source).rest.length + 1)
  have hNext := next_of_rest_nil hClean.raised hClean.stopped hRest
  rw [take_of_none _ (by rw [hNext]), hNext] at hTake
  apply Prod.ext
  · change (ofSource source).drain.1.map (·.1) = tokens
    rw [hDrain, hTake.1, List.map_nil, List.append_nil]
  · change (ofSource source).drain.2.errors = []
    rw [hDrain, hTake.2, finish, hClean.ended, hClosed,
      hClean.errors]
    rfl

/- The tokens of a run show what is open behind it. -/
theorem Takes.mirrored
    {es : List Enclosure}
    (hTakes : Takes l tokens last)
    (hClean : last.Clean)
    (hMirrored : Mirrored es l)
    (hCoherent : Coherent l) :
    ∃ es', Token.enclosures? es tokens = some es' ∧
      Mirrored es' last ∧ Coherent last := by
  induction tokens generalizing l es with
  | nil =>
      cases hTakes
      exact ⟨es, rfl, hMirrored, hCoherent⟩
  | cons t tokens ih =>
      rcases hTakes.exists_first hClean with
        ⟨c, cs, _, rfl, _, hLater⟩
      rcases hMirrored.past c cs _ hCoherent with
        ⟨es', hEnclosed, hPast⟩
      rw [Token.enclosures?, List.foldlM_cons, hEnclosed]
      exact ih hLater hPast (hCoherent.past c cs _ _)

/- A mode is outside of literals where the tokens say so. -/
theorem Mirrored.isGroup_eq
    {es : List Enclosure}
    (hMirrored : Mirrored es l)
    (hCoherent : Coherent l)
    (hOutside : Enclosure.isOutside es = true) :
    l.mode.isGroup = false := by
  rw [Bool.eq_false_iff]
  intro hGroup
  rcases hCoherent.group_iff.mp hGroup with
    ⟨g, opened, fs, hFrames⟩
  unfold Mirrored at hMirrored
  rw [hFrames] at hMirrored
  cases hMirrored with
  | cons hHead _ =>
      cases hHead
      cases hOutside

end Lexer

------------------------------------------------------------
-- Where a newline is white space
------------------------------------------------------------

/- Behind one more token. -/
def Before.past
    (b : Before)
    (k : Kind) : Before :=
  if k.isTrivia then b else b.step k

theorem Before.through_ofTokensAfter_cons
    (b : Before)
    (spaced : Bool)
    (t : Token)
    (tokens : List Token) :
    b.through (Lexeme.ofTokensAfter spaced (t :: tokens)) =
      (b.past t.kind).through
        (Lexeme.ofTokensAfter t.kind.isTrivia tokens) := by
  rw [Lexeme.ofTokensAfter, Before.past]
  cases t.kind.isTrivia <;> rfl

/- A lexer is in a mode that goes on only behind such a lexeme. -/
def Before.Explains
    (b : Before)
    (mode : Mode) : Prop :=
  mode.isContinued = true → b.kind.leavesOpen = true

namespace Lexer

variable {l last : Lexer}
variable {b : Before}
variable {tokens : List Token}

/- An interpolation resumes the text of a literal. -/
theorem Coherent.isGroup_resume
    {n : Nat}
    {resume : Mode}
    (hCoherent : Coherent l)
    (hTop : l.frames.head? = some (.interpolation n resume)) :
    resume.isGroup = true := by
  have hAlternate := hCoherent.alternate
  generalize l.frames = fs at hTop hAlternate
  cases hAlternate with
  | none => cases hTop
  | literal _ _ => cases hTop
  | nested _ _ _ _ _ _ => cases hTop
  | interpolation _ _ g _ _ hQuoted hHeredoc _ =>
      cases hTop
      cases hLayout : g.layout with
      | quoted =>
          rw [hQuoted hLayout]
          rfl
      | heredoc =>
          rw [hHeredoc hLayout]
          rfl

theorem isContinued_of_isGroup
    {mode : Mode}
    (hGroup : mode.isGroup = true) :
    mode.isContinued = false := by
  cases mode <;> first | rfl | cases hGroup

/- No token of a literal leads to a mode that goes on. -/
theorem isContinued_of_inside
    {g : Group}
    {mode : Mode}
    {t : Transition}
    (hInside : t.Inside g mode) :
    t.mode.isContinued = false := by
  cases hInside with
  | onFirstLine _ _ hStays _ _ =>
      rw [hStays]
      rfl
  | endsFirstLine _ _ hNext _ _ =>
      rw [hNext]
      rfl
  | segment _ _ hIn _ _ _ =>
      exact isContinued_of_isGroup
        ((Mode.isGroup_iff_isIn _).mpr ⟨g.layout, hIn⟩)
  | interpolates _ hEq =>
      rw [hEq]
      rfl
  | ends _ hEq =>
      rw [hEq]
      change g.endMode.isContinued = false
      unfold Group.endMode
      cases g.family <;> cases g.layout <;> rfl

/- One token keeps the mode explained. -/
theorem Coherent.explains_past
    (c : Char)
    (cs text rest : List Char)
    (hCoherent : Coherent l)
    (hExplains : b.Explains l.mode) :
    (b.past (l.transition c cs).kind).Explains
      (l.past (l.transition c cs) text rest).mode := by
  intro hContinued
  change (l.transition c cs).mode.isContinued = true at hContinued
  rcases hCoherent.token_cases c cs with
    ⟨hMode, _⟩ | ⟨g, opened, fs, _, hInside⟩
  · have hContinues :
        Transition.Continues l.mode (l.transition c cs) :=
      Transition.of_continues
        (fun _ _ hTop =>
          isContinued_of_isGroup (hCoherent.isGroup_resume hTop))
        l.sigil hMode
    rcases hContinues hContinued with hOpen | ⟨hTrivia, hBefore⟩
    · change (l.transition c cs).kind.leavesOpen = true at hOpen
      have hPlain : (l.transition c cs).kind.isTrivia = false := by
        generalize (l.transition c cs).kind = k at hOpen ⊢
        cases k <;> first | rfl | cases hOpen
      rw [Before.past, hPlain]
      exact hOpen
    · change (l.transition c cs).kind.isTrivia = true at hTrivia
      rw [Before.past, if_pos hTrivia]
      exact hExplains hBefore
  · rw [isContinued_of_inside hInside] at hContinued
    cases hContinued

/- So does a run. -/
theorem Takes.explains
    (spaced : Bool)
    (hTakes : Takes l tokens last)
    (hClean : last.Clean)
    (hCoherent : Coherent l)
    (hExplains : b.Explains l.mode) :
    (b.through (Lexeme.ofTokensAfter spaced tokens)).Explains
      last.mode := by
  induction tokens generalizing l b spaced with
  | nil =>
      cases hTakes
      exact hExplains
  | cons t tokens ih =>
      rcases hTakes.exists_first hClean with
        ⟨c, cs, _, rfl, _, hLater⟩
      rw [Before.through_ofTokensAfter_cons]
      exact ih _ hLater (hCoherent.past c cs _ _)
        (hCoherent.explains_past c cs _ _ hExplains)

end Lexer

------------------------------------------------------------
-- Sources without errors
------------------------------------------------------------

/- What a source without errors opens it closes. -/
theorem behind?_ofTokens_of_clean
    {source : String}
    (hLexical : (tokenize source).2 = [])
    (hSyntactic :
      (parseLexemes
        (Lexeme.ofTokens (tokenize source).1)).2.errors = []) :
    Nest.behind? [] (Lexeme.ofTokens (tokenize source).1) =
      some [] := by
  rcases (reads_parse _).calm rfl (calm_start hLexical) hSyntactic
    with ⟨_, ⟨taken, hTaken, hBalances⟩, _⟩
  have hRest := (parse_consumes_all (tokenize source).1).1
  change Lexeme.ofTokens (tokenize source).1 = _ at hTaken
  change (statements _ _ _).2.rest = [] at hRest
  rw [hRest, List.append_nil] at hTaken
  rw [hTaken]
  exact hBalances [] rfl

end ElixirReader
