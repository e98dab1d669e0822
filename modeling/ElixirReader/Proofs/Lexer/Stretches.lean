import ElixirReader.Parser.State
import ElixirReader.Proofs.Lexer.Tiling

/-
  This file says what the lexer makes of a stretch of text: it
  takes all of it and no more, finds no error in it, and what
  is said about the mode behind it and about its lexemes
  holds. What is said about two stretches side by side follows
  from what is said about each.

  Key definitions include:
    * `Lexer.StandsAt`
    * `Transition.Covers`
    * `Lexer.Takes`
    * `Lexes`
    * `IsLexeme`
    * `LexesSolid`
    * `IsTouching`

  Main declarations:
    * `Lexes.append`
    * `lexes_token`
    * `lexes_trivia`
    * `lexes_enclosed`
    * `LexesSolid.append`
    * `Lexes.tokenize`
-/

namespace ElixirReader

------------------------------------------------------------
-- Places
------------------------------------------------------------

/-
  A lexer that nobody stops stands in front of some characters,
  in a mode and inside of some constructs, and has found no
  error so far.
-/
structure Lexer.StandsAt
    (frames : List Frame)
    (mode : Mode)
    (rest : List Char)
    (l : Lexer) : Prop where
  rest_eq : l.rest = rest
  mode_eq : l.mode = mode
  frames_eq : l.frames = frames
  sigil : l.sigil = none
  errors : l.errors = []
  raised : l.raised = false
  stopped : l.stopped = false

/- A transition takes a text, and finds no fault in it. -/
structure Transition.Covers
    (t : Transition)
    (text : List Char) : Prop where
  length_eq : t.more + 1 = text.length
  sigil : t.sigil = none
  fault : t.fault = none
  kind : t.kind.fault? text = none

variable {frames : List Frame}
variable {mode : Mode}
variable {text rest : List Char}

namespace Lexer

/- The token in front of a lexer, and where it leads. -/
theorem StandsAt.next
    {l : Lexer}
    {c : Char}
    {cs : List Char}
    {t : Transition}
    (hStands : StandsAt frames mode (c :: cs ++ rest) l)
    (hOf :
      Transition.of mode none frames.head? c (cs ++ rest) = t)
    (hCovers : t.Covers (c :: cs)) :
    ∃ token,
      l.next.1 = some token ∧ token.kind = t.kind ∧
        token.text = String.ofList (c :: cs) ∧
        ∃ span,
          StandsAt (t.change.apply span frames) t.mode rest
            l.next.2 := by
  have hLength : t.more = cs.length :=
    Nat.succ.inj hCovers.length_eq
  have hTransition : l.transition c (cs ++ rest) = t := by
    unfold transition
    rw [hStands.mode_eq, hStands.sigil, hStands.frames_eq]
    exact hOf
  have hTaken : (cs ++ rest).take t.more = cs := by
    rw [hLength, List.take_left]
  have hLeft : (cs ++ rest).drop t.more = rest := by
    rw [hLength, List.drop_left]
  have hNext :
      l.next =
        (some (l.tokenOf t (c :: cs)),
          l.past t (c :: cs) rest) := by
    unfold Lexer.next
    rw [hStands.stopped, hStands.raised, hStands.rest_eq]
    simp only [List.cons_append, hTransition, hTaken, hLeft]
    rfl
  have hNoError : l.errorOf? t (c :: cs) = none := by
    unfold errorOf?
    rw [hCovers.fault, hCovers.kind]
    rfl
  rw [hNext]
  refine ⟨_, rfl, rfl, rfl, l.here.spanOf (c :: cs), ?_⟩
  refine ⟨rfl, rfl, ?_, hCovers.sigil, ?_, hStands.raised,
    hStands.stopped⟩
  · rw [← hStands.frames_eq]
    rfl
  · unfold past
    rw [hNoError, hStands.errors]
    rfl

/- A run of tokens, one after the other. -/
inductive Takes : Lexer → List Token → Lexer → Prop where
| none
    (l : Lexer) :
    Takes l [] l
| token
    (l : Lexer)
    (token : Token)
    (tokens : List Token)
    (last : Lexer)
    (hNext : l.next.1 = some token)
    (hRest : Takes l.next.2 tokens last) :
    Takes l (token :: tokens) last

theorem Takes.trans
    {l mid last : Lexer}
    {tokens tokens' : List Token}
    (hFirst : Takes l tokens mid)
    (hSecond : Takes mid tokens' last) :
    Takes l (tokens ++ tokens') last := by
  induction hFirst with
  | none l => exact hSecond
  | token l t ts last hNext hRest ih =>
      exact .token l t _ _ hNext (ih hSecond)

theorem Takes.take_add
    {l last : Lexer}
    {tokens : List Token}
    (n : Nat)
    (hTakes : Takes l tokens last) :
    (l.take (tokens.length + n)).1.map (·.1) =
        tokens ++ (last.take n).1.map (·.1) ∧
      (l.take (tokens.length + n)).2 = (last.take n).2 := by
  induction hTakes with
  | none l =>
      rw [List.length_nil, Nat.zero_add]
      exact ⟨rfl, rfl⟩
  | token l t ts last hNext hRest ih =>
      rw [List.length_cons, Nat.add_right_comm,
        take_of_some _ hNext]
      exact ⟨congrArg (t :: ·) ih.1, ih.2⟩

/- Behind the last character there are no tokens and no errors. -/
theorem StandsAt.take_succ
    {l : Lexer}
    (n : Nat)
    (hStands : StandsAt [] mode [] l) :
    (l.take (n + 1)).1 = [] ∧
      (l.take (n + 1)).2.errors = [] := by
  have hNext : l.next = (none, l.finish) := by
    unfold Lexer.next
    rw [hStands.stopped, hStands.raised, hStands.rest_eq]
    rfl
  rw [take_of_none n (by rw [hNext]), hNext]
  refine ⟨rfl, ?_⟩
  unfold finish
  split
  · exact hStands.errors
  · simp [hStands.errors, hStands.frames_eq, unterminated?,
      outermostGroup?]

end Lexer

------------------------------------------------------------
-- Stretches of text
------------------------------------------------------------

/-
  In front of some more characters, a text is taken apart into
  lexemes, whether trivia stand before it or not, and what is
  open stays open.
-/
def Lexes
    (frames : List Frame)
    (mode : Mode)
    (text rest : List Char)
    (Result : Mode → List Lexeme → Prop) : Prop :=
  ∀ l spaced,
    Lexer.StandsAt frames mode (text ++ rest) l →
      ∃ tokens mode' last,
        Lexer.Takes l tokens last ∧
          Lexer.StandsAt frames mode' rest last ∧
          Result mode' (Lexeme.ofTokensAfter spaced tokens)

variable {Result Result' Mid : Mode → List Lexeme → Prop}

/- Lexemes are put together like the tokens that they are. -/
theorem Lexeme.exists_ofTokensAfter_append
    (spaced : Bool)
    (tokens : List Token) :
    ∃ spaced', ∀ tokens',
      ofTokensAfter spaced (tokens ++ tokens') =
        ofTokensAfter spaced tokens ++
          ofTokensAfter spaced' tokens' := by
  induction tokens generalizing spaced with
  | nil => exact ⟨spaced, fun _ => rfl⟩
  | cons t ts ih =>
      cases hTrivia : t.kind.isTrivia with
      | true =>
          rcases ih true with ⟨spaced', hAppend⟩
          refine ⟨spaced', fun tokens' => ?_⟩
          simp [ofTokensAfter, hTrivia, hAppend]
      | false =>
          rcases ih false with ⟨spaced', hAppend⟩
          refine ⟨spaced', fun tokens' => ?_⟩
          simp [ofTokensAfter, hTrivia, hAppend]

namespace Lexes

theorem mono
    (hLexes : Lexes frames mode text rest Result)
    (hResult :
      ∀ mode' ls, Result mode' ls → Result' mode' ls) :
    Lexes frames mode text rest Result' := by
  intro l spaced hStands
  rcases hLexes l spaced hStands with
    ⟨tokens, mode', last, hTakes, hStands', hDone⟩
  exact ⟨tokens, mode', last, hTakes, hStands',
    hResult _ _ hDone⟩

theorem nil
    (hResult : Result mode []) :
    Lexes frames mode [] rest Result :=
  fun l _ hStands => ⟨[], mode, l, .none l, hStands, hResult⟩

/- Two stretches side by side. -/
theorem append
    {text' : List Char}
    (hFirst : Lexes frames mode text (text' ++ rest) Mid)
    (hSecond : ∀ mode' ls,
      Mid mode' ls →
        Lexes frames mode' text' rest
          (fun mode'' ls' => Result mode'' (ls ++ ls'))) :
    Lexes frames mode (text ++ text') rest Result := by
  intro l spaced hStands
  rw [List.append_assoc] at hStands
  rcases hFirst l spaced hStands with
    ⟨tokens, mode', mid, hTakes, hStands', hMid⟩
  rcases Lexeme.exists_ofTokensAfter_append spaced tokens with
    ⟨spaced', hAppend⟩
  rcases hSecond mode' _ hMid mid spaced' hStands' with
    ⟨tokens', mode'', last, hTakes', hStands'', hDone⟩
  refine ⟨tokens ++ tokens', mode'', last,
    hTakes.trans hTakes', hStands'', ?_⟩
  rw [hAppend]
  exact hDone

end Lexes

/- The lexemes are one of a kind and a text, and a mode follows. -/
def IsLexeme
    (kind : Kind)
    (text : List Char)
    (mode : Mode) : Mode → List Lexeme → Prop :=
  fun mode' ls =>
    mode' = mode ∧
      ∃ l, ls = [l] ∧ l.kind = kind ∧ l.text = String.ofList text

/- There are no lexemes, and a mode follows. -/
def IsTrivia
    (mode : Mode) : Mode → List Lexeme → Prop :=
  fun mode' ls => mode' = mode ∧ ls = []

/- A stretch that is one token. -/
theorem lexes_one
    (frames : List Frame)
    {c : Char}
    {cs : List Char}
    {t : Transition}
    (hOf :
      Transition.of mode none frames.head? c (cs ++ rest) = t)
    (hCovers : t.Covers (c :: cs))
    (hChange : ∀ span, t.change.apply span frames = frames)
    (hResult : ∀ spaced token,
      token.kind = t.kind →
        token.text = String.ofList (c :: cs) →
          Result t.mode (Lexeme.ofTokensAfter spaced [token])) :
    Lexes frames mode (c :: cs) rest Result := by
  intro l spaced hStands
  rcases hStands.next hOf hCovers with
    ⟨token, hNext, hKind, hText, span, hStands'⟩
  rw [hChange] at hStands'
  exact ⟨[token], t.mode, l.next.2,
    .token l token [] _ hNext (.none _), hStands',
    hResult spaced token hKind hText⟩

theorem lexes_token
    (frames : List Frame)
    {c : Char}
    {cs : List Char}
    {t : Transition}
    (hOf :
      Transition.of mode none frames.head? c (cs ++ rest) = t)
    (hCovers : t.Covers (c :: cs))
    (hChange : ∀ span, t.change.apply span frames = frames)
    (hTrivia : t.kind.isTrivia = false) :
    Lexes frames mode (c :: cs) rest
      (IsLexeme t.kind (c :: cs) t.mode) := by
  apply lexes_one frames hOf hCovers hChange
  intro spaced token hKind hText
  simp only [Lexeme.ofTokensAfter, hKind, hTrivia]
  exact ⟨rfl, _, rfl, rfl, hText⟩

theorem lexes_trivia
    (frames : List Frame)
    {c : Char}
    {cs : List Char}
    {t : Transition}
    (hOf :
      Transition.of mode none frames.head? c (cs ++ rest) = t)
    (hCovers : t.Covers (c :: cs))
    (hChange : ∀ span, t.change.apply span frames = frames)
    (hTrivia : t.kind.isTrivia = true) :
    Lexes frames mode (c :: cs) rest (IsTrivia t.mode) := by
  apply lexes_one frames hOf hCovers hChange
  intro spaced token hKind _
  simp only [Lexeme.ofTokensAfter, hKind, hTrivia, if_true]
  exact ⟨rfl, rfl⟩

/- A token that changes nothing of what is open. -/
theorem lexes_plain
    (frames : List Frame)
    {c : Char}
    {cs : List Char}
    {kind : Kind}
    {mode' : Mode}
    (hOf :
      Transition.of mode none frames.head? c (cs ++ rest) =
        .plain kind cs.length mode')
    (hFault : kind.fault? (c :: cs) = none)
    (hTrivia : kind.isTrivia = false) :
    Lexes frames mode (c :: cs) rest
      (IsLexeme kind (c :: cs) mode') :=
  lexes_token frames hOf ⟨rfl, rfl, rfl, hFault⟩ (fun _ => rfl) hTrivia

------------------------------------------------------------
-- Several tokens
------------------------------------------------------------

/- Two tokens side by side; nothing separates them. -/
theorem lexes_touching
    (frames : List Frame)
    {c d : Char}
    {cs ds : List Char}
    {kind kind' : Kind}
    {mid mode' : Mode}
    (hFirst :
      Transition.of mode none frames.head? c
          (cs ++ (d :: ds ++ rest)) =
        .plain kind cs.length mid)
    (hSecond :
      Transition.of mid none frames.head? d (ds ++ rest) =
        .plain kind' ds.length mode')
    (hKind :
      kind.fault? (c :: cs) = none ∧ kind.isTrivia = false)
    (hKind' :
      kind'.fault? (d :: ds) = none ∧ kind'.isTrivia = false) :
    Lexes frames mode (c :: cs ++ d :: ds) rest
      (fun m ls =>
        m = mode' ∧
          ∃ l l', ls = [l, l'] ∧ l.kind = kind ∧
            l'.kind = kind' ∧ l'.text = String.ofList (d :: ds) ∧
            l'.spaced = false) := by
  intro l spaced hStands
  rw [List.append_assoc] at hStands
  rcases hStands.next hFirst ⟨rfl, rfl, rfl, hKind.1⟩ with
    ⟨token, hNext, hTokenKind, _, _, hMid⟩
  have hCovers :
      (Transition.plain kind' ds.length mode').Covers (d :: ds) :=
    ⟨rfl, rfl, rfl, hKind'.1⟩
  rcases hMid.next hSecond hCovers with
    ⟨token', hNext', hTokenKind', hText, _, hLast⟩
  have hPlain : token.kind.isTrivia = false := by
    rw [hTokenKind]
    exact hKind.2
  have hPlain' : token'.kind.isTrivia = false := by
    rw [hTokenKind']
    exact hKind'.2
  refine ⟨[token, token'], mode', _,
    .token l token _ _ hNext (.token _ token' _ _ hNext' (.none _)),
    hLast, rfl, ?_⟩
  simp only [Lexeme.ofTokensAfter, hPlain, hPlain']
  exact ⟨_, _, rfl, hTokenKind, hTokenKind', hText, rfl⟩

/-
  The tokens of a stretch between a token that opens a construct
  and one that closes it. The first one is behind trivia or not.
-/
theorem Lexer.StandsAt.takes_enclosed
    {frames : List Frame}
    {inner : Span → List Frame}
    {c d : Char}
    {cs ds : List Char}
    {t t' : Transition}
    {l : Lexer}
    (spaced : Bool)
    (hStands :
      Lexer.StandsAt frames mode
        (c :: cs ++ text ++ d :: ds ++ rest) l)
    (hOpen :
      Transition.of mode none frames.head? c
          (cs ++ (text ++ (d :: ds ++ rest))) = t)
    (hCovers : t.Covers (c :: cs))
    (hTrivia : t.kind.isTrivia = false)
    (hChange : ∀ span, t.change.apply span frames = inner span)
    (hBody : ∀ span,
      Lexes (inner span) t.mode text (d :: ds ++ rest) Mid)
    (hClose : ∀ span mode' ls,
      Mid mode' ls →
        Transition.of mode' none (inner span).head? d
          (ds ++ rest) = t')
    (hCovers' : t'.Covers (d :: ds))
    (hTrivia' : t'.kind.isTrivia = false)
    (hChange' : ∀ span span',
      t'.change.apply span' (inner span) = frames) :
    ∃ tokens token last,
      Lexer.Takes l (tokens ++ [token]) last ∧
        token.kind.isTrivia = false ∧
        Lexer.StandsAt frames t'.mode rest last ∧
        ∃ opened body closed mode',
          Lexeme.ofTokensAfter spaced (tokens ++ [token]) =
              opened :: (body ++ [closed]) ∧
            opened.spaced = spaced ∧ opened.kind = t.kind ∧
            closed.kind = t'.kind ∧ Mid mode' body := by
  rw [List.append_assoc, List.append_assoc] at hStands
  rcases hStands.next hOpen hCovers with
    ⟨token, hNext, hKind, _, span, hInside⟩
  rw [hChange] at hInside
  rcases hBody span _ false hInside with
    ⟨tokens, mode', mid, hTakes, hStands', hMid⟩
  rcases hStands'.next (hClose span mode' _ hMid) hCovers' with
    ⟨token', hNext', hKind', _, span', hLast⟩
  rw [hChange'] at hLast
  have hPlain : token.kind.isTrivia = false := by
    rw [hKind]
    exact hTrivia
  have hPlain' : token'.kind.isTrivia = false := by
    rw [hKind']
    exact hTrivia'
  rcases Lexeme.exists_ofTokensAfter_append false tokens with
    ⟨spaced', hAppend⟩
  refine ⟨token :: tokens, token', _,
    .token l token _ _ hNext
      (hTakes.trans (.token _ token' _ _ hNext' (.none _))),
    hPlain', hLast, ?_⟩
  simp only [List.cons_append, Lexeme.ofTokensAfter, hPlain, hAppend,
    hPlain']
  exact ⟨_, _, _, mode', rfl, rfl, hKind, hKind', hMid⟩

/-
  A stretch between a token that opens a construct and one that
  closes it.
-/
theorem lexes_enclosed
    (frames : List Frame)
    {inner : Span → List Frame}
    {c d : Char}
    {cs ds : List Char}
    {t t' : Transition}
    (hOpen :
      Transition.of mode none frames.head? c
          (cs ++ (text ++ (d :: ds ++ rest))) = t)
    (hCovers : t.Covers (c :: cs))
    (hTrivia : t.kind.isTrivia = false)
    (hChange : ∀ span, t.change.apply span frames = inner span)
    (hBody : ∀ span,
      Lexes (inner span) t.mode text (d :: ds ++ rest) Mid)
    (hClose : ∀ span mode' ls,
      Mid mode' ls →
        Transition.of mode' none (inner span).head? d
          (ds ++ rest) = t')
    (hCovers' : t'.Covers (d :: ds))
    (hTrivia' : t'.kind.isTrivia = false)
    (hChange' : ∀ span span',
      t'.change.apply span' (inner span) = frames) :
    Lexes frames mode (c :: cs ++ text ++ d :: ds) rest
      (fun m ls =>
        m = t'.mode ∧
          ∃ opened body closed mode',
            ls = opened :: (body ++ [closed]) ∧
              opened.kind = t.kind ∧ closed.kind = t'.kind ∧
              Mid mode' body) := by
  intro l spaced hStands
  rcases hStands.takes_enclosed spaced hOpen hCovers hTrivia hChange
      hBody hClose hCovers' hTrivia' hChange' with
    ⟨tokens, token, last, hTakes, _, hLast, opened, body, closed,
      mode', hLexemes, _, hKind, hKind', hMid⟩
  refine ⟨tokens ++ [token], t'.mode, last, hTakes, hLast, rfl, ?_⟩
  exact ⟨opened, body, closed, mode', hLexemes, hKind, hKind', hMid⟩

------------------------------------------------------------
-- Stretches that end in a token
------------------------------------------------------------

variable {spaced : Bool}

/-
  A text is taken apart into lexemes, the first behind trivia or
  not, and its last token is no trivia.
-/
def LexesSolid
    (mode : Mode)
    (spaced : Bool)
    (text rest : List Char)
    (Result : Mode → List Lexeme → Prop) : Prop :=
  ∀ l,
    Lexer.StandsAt [] mode (text ++ rest) l →
      ∃ tokens token mode' last,
        Lexer.Takes l (tokens ++ [token]) last ∧
          token.kind.isTrivia = false ∧
          Lexer.StandsAt [] mode' rest last ∧
          Result mode'
            (Lexeme.ofTokensAfter spaced (tokens ++ [token]))

/- Behind a token that is no trivia, none stand before the next. -/
theorem Lexeme.ofTokensAfter_append_of_solid
    (tokens more : List Token)
    {token : Token}
    (hSolid : token.kind.isTrivia = false) :
    ofTokensAfter spaced (tokens ++ [token] ++ more) =
      ofTokensAfter spaced (tokens ++ [token]) ++
        ofTokensAfter false more := by
  induction tokens generalizing spaced with
  | nil => simp [ofTokensAfter, hSolid]
  | cons t ts ih =>
      cases hTrivia : t.kind.isTrivia with
      | true => simpa [ofTokensAfter, hTrivia] using ih
      | false => simpa [ofTokensAfter, hTrivia] using ih

namespace LexesSolid

theorem mono
    (hLexes : LexesSolid mode spaced text rest Result)
    (hResult :
      ∀ mode' ls, Result mode' ls → Result' mode' ls) :
    LexesSolid mode spaced text rest Result' := by
  intro l hStands
  rcases hLexes l hStands with
    ⟨tokens, token, mode', last, hTakes, hSolid, hStands', hDone⟩
  exact ⟨tokens, token, mode', last, hTakes, hSolid, hStands',
    hResult _ _ hDone⟩

theorem lexes
    (hLexes : ∀ spaced, LexesSolid mode spaced text rest Result) :
    Lexes [] mode text rest Result := by
  intro l spaced hStands
  rcases hLexes spaced l hStands with
    ⟨tokens, token, mode', last, hTakes, _, hStands', hDone⟩
  exact ⟨_, mode', last, hTakes, hStands', hDone⟩

/- What comes next touches the last token. -/
theorem append
    {text' : List Char}
    (hFirst : LexesSolid mode spaced text (text' ++ rest) Mid)
    (hSecond : ∀ mode' ls,
      Mid mode' ls →
        LexesSolid mode' false text' rest
          (fun mode'' ls' => Result mode'' (ls ++ ls'))) :
    LexesSolid mode spaced (text ++ text') rest Result := by
  intro l hStands
  rw [List.append_assoc] at hStands
  rcases hFirst l hStands with
    ⟨tokens, token, mode', mid, hTakes, hSolid, hStands', hMid⟩
  rcases hSecond mode' _ hMid mid hStands' with
    ⟨tokens', token', mode'', last, hTakes', hSolid', hStands'',
      hDone⟩
  refine ⟨tokens ++ [token] ++ tokens', token', mode'', last, ?_,
    hSolid', hStands'', ?_⟩
  · rw [List.append_assoc (tokens ++ [token])]
    exact hTakes.trans hTakes'
  · rw [List.append_assoc (tokens ++ [token]),
      Lexeme.ofTokensAfter_append_of_solid _ _ hSolid]
    exact hDone

/- A stretch behind which a token comes at the end. -/
theorem behind
    {text' : List Char}
    (hFirst : Lexes [] mode text (text' ++ rest) Mid)
    (hSecond : ∀ mode' ls spaced',
      Mid mode' ls →
        LexesSolid mode' spaced' text' rest
          (fun mode'' ls' => Result mode'' (ls ++ ls'))) :
    LexesSolid mode spaced (text ++ text') rest Result := by
  intro l hStands
  rw [List.append_assoc] at hStands
  rcases hFirst l spaced hStands with
    ⟨tokens, mode', mid, hTakes, hStands', hMid⟩
  rcases Lexeme.exists_ofTokensAfter_append spaced tokens with
    ⟨spaced', hAppend⟩
  rcases hSecond mode' _ spaced' hMid mid hStands' with
    ⟨tokens', token', mode'', last, hTakes', hSolid', hStands'',
      hDone⟩
  refine ⟨tokens ++ tokens', token', mode'', last, ?_, hSolid',
    hStands'', ?_⟩
  · rw [List.append_assoc]
    exact hTakes.trans hTakes'
  · rw [List.append_assoc, hAppend]
    exact hDone

end LexesSolid

/- The lexemes are one that trivia stand in front of, or not. -/
def IsTouching
    (kind : Kind)
    (text : List Char)
    (spaced : Bool)
    (mode : Mode) : Mode → List Lexeme → Prop :=
  fun mode' ls =>
    mode' = mode ∧
      ∃ l, ls = [l] ∧ l.kind = kind ∧
        l.text = String.ofList text ∧ l.spaced = spaced

/- A token that changes nothing of what is open. -/
theorem lexesSolid_plain
    {c : Char}
    {cs : List Char}
    {kind : Kind}
    {mode' : Mode}
    (hOf :
      Transition.of mode none none c (cs ++ rest) =
        .plain kind cs.length mode')
    (hFault : kind.fault? (c :: cs) = none)
    (hTrivia : kind.isTrivia = false) :
    LexesSolid mode spaced (c :: cs) rest
      (IsTouching kind (c :: cs) spaced mode') := by
  intro l hStands
  rcases hStands.next hOf ⟨rfl, rfl, rfl, hFault⟩ with
    ⟨token, hNext, hKind, hText, span, hStands'⟩
  have hKind' : token.kind = kind := hKind
  refine ⟨[], token, mode', l.next.2,
    .token l token [] _ hNext (.none _), ?_, hStands', ?_⟩
  · rw [hKind', hTrivia]
  · simp only [List.nil_append, Lexeme.ofTokensAfter, hKind',
      hTrivia]
    exact ⟨rfl, _, rfl, rfl, hText, rfl⟩

/- A construct ends in the token that closes it. -/
theorem lexesSolid_enclosed
    {inner : Span → List Frame}
    {c d : Char}
    {cs ds : List Char}
    {t t' : Transition}
    (hOpen :
      Transition.of mode none none c
          (cs ++ (text ++ (d :: ds ++ rest))) = t)
    (hCovers : t.Covers (c :: cs))
    (hTrivia : t.kind.isTrivia = false)
    (hChange : ∀ span, t.change.apply span [] = inner span)
    (hBody : ∀ span,
      Lexes (inner span) t.mode text (d :: ds ++ rest) Mid)
    (hClose : ∀ span mode' ls,
      Mid mode' ls →
        Transition.of mode' none (inner span).head? d
          (ds ++ rest) = t')
    (hCovers' : t'.Covers (d :: ds))
    (hTrivia' : t'.kind.isTrivia = false)
    (hChange' : ∀ span span',
      t'.change.apply span' (inner span) = []) :
    LexesSolid mode spaced (c :: cs ++ text ++ d :: ds) rest
      (fun m ls =>
        m = t'.mode ∧
          ∃ opened body closed mode',
            ls = opened :: (body ++ [closed]) ∧
              opened.spaced = spaced ∧ opened.kind = t.kind ∧
              closed.kind = t'.kind ∧ Mid mode' body) := by
  intro l hStands
  rcases hStands.takes_enclosed spaced hOpen hCovers hTrivia hChange
      hBody hClose hCovers' hTrivia' hChange' with
    ⟨tokens, token, last, hTakes, hSolid, hLast, hLexemes⟩
  exact ⟨tokens, token, t'.mode, last, hTakes, hSolid, hLast, rfl,
    hLexemes⟩

------------------------------------------------------------
-- Whole sources
------------------------------------------------------------

/- A source that is one stretch has no lexical error. -/
theorem Lexes.tokenize
    {source : String}
    (hMark : source.toList.head? ≠ some Lexer.byteOrderMark)
    (hLexes : Lexes [] .initial source.toList [] Result) :
    (tokenize source).2 = [] ∧
      ∃ mode, Result mode (Lexeme.ofTokens (tokenize source).1) := by
  let l := Lexer.ofSource source
  have hBody : l.rest = source.toList := by
    change Lexer.body source.toList = _
    cases hList : source.toList with
    | nil => rfl
    | cons c cs =>
        rw [hList] at hMark
        exact if_neg fun hEq => hMark (congrArg some hEq)
  have hStands : Lexer.StandsAt [] .initial (source.toList ++ []) l :=
    ⟨by rw [hBody, List.append_nil], rfl, rfl, rfl, rfl, rfl,
      rfl⟩
  rcases hLexes l false hStands with
    ⟨tokens, mode, last, hTakes, hStands', hDone⟩
  have hDrain :
      l.drain = l.take (tokens.length + (l.rest.length + 1)) :=
    Lexer.take_eq_take (Nat.lt_succ_self _)
      (Nat.lt_add_left _ (Nat.lt_succ_self _))
  have hTake := hTakes.take_add (l.rest.length + 1)
  have hEnd := hStands'.take_succ l.rest.length
  have hTokens : (ElixirReader.tokenize source).1 = tokens := by
    change l.drain.1.map (·.1) = tokens
    rw [hDrain, hTake.1, hEnd.1, List.map_nil,
      List.append_nil]
  have hErrors : (ElixirReader.tokenize source).2 = [] := by
    change l.drain.2.errors = []
    rw [hDrain, hTake.2, hEnd.2]
  rw [hTokens]
  exact ⟨hErrors, mode, hDone⟩

end ElixirReader
