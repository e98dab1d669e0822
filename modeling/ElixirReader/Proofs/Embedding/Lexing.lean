import ElixirReader.Proofs.Likeness.Comments
import ElixirReader.Proofs.Likeness.Endings

/-
  This file lets the lexer read a source inside of another
  one, with a newline behind it. If the source is in order, and
  the newline makes no key of a name in it, it consists of the
  same lexemes there, but for newlines in front.

  Key definitions include:
    * `inParentheses`
    * `inInterpolation`
    * `AreEmbedded`
    * `Lexer.Enclosed`

  Main declarations:
    * `Matches.trans_areSame`
    * `isUnfinished_getLast?_of_clean`
    * `Lexer.exists_enclosed`
    * `exists_ofTokens_inParentheses`
    * `exists_ofTokens_inInterpolation`
-/

namespace ElixirReader

open Parse Transition

variable {source : String}
variable {ls ls' ls'' ms : List Lexeme}
variable {tokens tokens' more more' gaps gaps' : List Token}

------------------------------------------------------------
-- Sources inside of others
------------------------------------------------------------

/- A source in parentheses, with a newline behind it. -/
def inParentheses
    (source : String) : String :=
  String.ofList ('(' :: (source.toList ++ ['\n', ')']))

/- A source in the interpolation that a string consists of. -/
def inInterpolation
    (source : String) : String :=
  String.ofList
    ('"' :: '#' :: '\x7b' :: (source.toList ++ ['\n', '\x7d', '"']))

/-
  Lexemes are those of a source, but for their places and for
  newlines in front, and the newline behind it may be one, too.
-/
structure AreEmbedded
    (source : String)
    (ls breaks : List Lexeme) : Prop where
  same : Matches .start (Lexeme.ofTokens (tokenize source).1) ls
  balanced : Nest.behind? [] ls = some []
  areLineEnds : AreLineEnds breaks
  length_le : breaks.length ≤ 1

------------------------------------------------------------
-- Lexemes that are the same
------------------------------------------------------------

namespace Lexeme.AreSame

theorem areLineEnds
    (hSame : AreSame ls ls')
    (hBreaks : AreLineEnds ls) :
    AreLineEnds ls' := by
  induction hSame with
  | nil => exact hBreaks
  | cons hHead _ ih =>
      rintro l (_ | ⟨_, hMem⟩)
      · rw [← hHead.1.kind]
        exact hBreaks _ List.mem_cons_self
      · exact ih (fun l hMem => hBreaks l (List.mem_cons_of_mem _ hMem))
          l hMem

theorem exists_of_append
    (hSame : AreSame (ls ++ ms) ls') :
    ∃ front back, ls' = front ++ back ∧ AreSame ls front ∧
      AreSame ms back := by
  induction ls generalizing ls' with
  | nil => exact ⟨[], ls', rfl, .nil, hSame⟩
  | cons l ls ih =>
      cases hSame with
      | cons hHead hTail =>
          rcases ih hTail with ⟨front, back, rfl, hFront, hBack⟩
          exact ⟨_ :: front, back, rfl, .cons hHead hFront, hBack⟩

/- What is open behind lexemes does not hang on their places. -/
theorem behind?_eq
    (ds : Nest)
    (hSame : AreSame ls ls') :
    ds.behind? ls' = ds.behind? ls := by
  induction hSame generalizing ds with
  | nil => rfl
  | cons hHead _ ih =>
      rw [Nest.behind?_cons, Nest.behind?_cons, hHead.1.kind]
      exact congrArg (Option.bind _) (funext ih)

end Lexeme.AreSame

/- In a matching list all lexemes may be moved. -/
theorem Matches.trans_areSame
    {b : Before}
    (hMatches : Matches b ls ls')
    (hSame : Lexeme.AreSame ls' ls'') :
    Matches b ls ls'' := by
  induction hMatches generalizing ls'' with
  | nil b =>
      cases hSame
      exact .nil b
  | next hHead hSpaced _ ih =>
      cases hSame with
      | cons hHead' hTail =>
          have hKind := hHead.kind
          refine .next ⟨hKind.trans hHead'.1.kind, ?_⟩ ?_ (ih hTail)
          · intro hLine
            exact (hHead.text hLine).trans
              (hHead'.1.text (hKind ▸ hLine))
          · exact hSpaced.imp_right fun hEq => hEq.trans hHead'.2
  | ends hAdmits hBreaks hBreaks' =>
      exact .ends hAdmits hBreaks (hSame.areLineEnds hBreaks')
  | goesOn hAdmits hBreaks hBreaks' hSpaced hSpaced' hHead hLine _
      ih =>
      rcases hSame.exists_of_append with
        ⟨breaks'', back, rfl, hFront, hBack⟩
      cases hBack with
      | cons hHead' hTail =>
          have hKind := hHead.kind
          refine .goesOn hAdmits hBreaks (hFront.areLineEnds hBreaks')
            hSpaced ?_ ⟨hKind.trans hHead'.1.kind, ?_⟩ hLine
            (ih hTail)
          · rintro rfl
            cases hFront
            exact hHead'.2.symm.trans (hSpaced' rfl)
          · intro _
            exact (hHead.text hLine).trans
              (hHead'.1.text (hKind ▸ hLine))

------------------------------------------------------------
-- Tokens of a source
------------------------------------------------------------

/- Whether a name becomes a key is told from the texts alone. -/
theorem Token.lateKeys_congr
    {rest : List Char}
    (hTexts : tokens.map Token.text = tokens'.map Token.text) :
    lateKeys rest tokens = lateKeys rest tokens' := by
  induction tokens generalizing tokens' with
  | nil => rw [List.map_eq_nil_iff.mp hTexts.symm]
  | cons t tokens ih =>
      cases tokens' with
      | nil => cases hTexts
      | cons t' tokens' =>
          have hChars : charsOf (t :: tokens) =
              charsOf (t' :: tokens') := by
            unfold charsOf
            rw [← List.flatMap_map, hTexts, List.flatMap_map]
          rw [lateKeys, lateKeys, hChars,
            ih (List.cons.inj hTexts).2]

/- The last token of a source without errors is finished. -/
theorem isUnfinished_getLast?_of_clean
    (hLexical : (tokenize source).2 = [])
    (hSyntactic :
      (parseLexemes
        (Lexeme.ofTokens (tokenize source).1)).2.errors = []) :
    ∀ t ∈ (tokenize source).1.getLast?, t.isUnfinished = false := by
  intro t hLast
  rw [Bool.eq_false_iff]
  intro hUnfinished
  rcases List.getLast?_eq_some_iff.mp hLast with ⟨init, hTokens⟩
  have hPlain : t.kind.isTrivia = false := by
    rw [Token.isUnfinished, Lexeme.isUnfinished] at hUnfinished
    generalize t.kind = k at hUnfinished
    cases k <;> first | rfl | cases hUnfinished
  -- The lexeme of such a token would be left, but none is.
  have hCalm : Calm true []
      (ParseState.start (Lexeme.ofTokens (tokenize source).1)) := by
    refine { calm_start hLexical with unfinished := fun _ => ?_ }
    change ∃ l, (Lexeme.ofTokens (tokenize source).1).getLast? =
      some l ∧ _
    rw [hTokens, Lexeme.ofTokens, Lexeme.ofTokensAfter_append,
      Lexeme.ofTokensAfter, hPlain, if_neg Bool.false_ne_true,
      Lexeme.ofTokensAfter, List.getLast?_concat]
    exact ⟨_, rfl, hUnfinished⟩
  rcases ((reads_parse _).calm rfl hCalm hSyntactic).1.unfinished rfl
    with ⟨l, hLeft, _⟩
  have hRest := (parse_consumes_all (tokenize source).1).1
  change (statements _ _ _).2.rest = [] at hRest
  rw [hRest] at hLeft
  cases hLeft

/- White space in front opens and closes nothing. -/
theorem behind?_of_isPause
    (spaced : Bool)
    (more : List Token)
    (hGaps : gaps.all Token.isPause = true) :
    Nest.behind? [] (Lexeme.ofTokensAfter spaced (gaps ++ more)) =
      Nest.behind? [] (Lexeme.ofTokensAfter false more) := by
  have hBreaks := areLineEnds_ofTokensAfter spaced hGaps
  have hFlat : Nest.behind? [] (Lexeme.ofTokensAfter spaced gaps) =
      some [] := by
    apply Balances.of_isFlat _ [] rfl
    intro l hMem
    rw [hBreaks l hMem]
    rfl
  rw [Lexeme.ofTokensAfter_append, Nest.behind?_append, hFlat,
    Option.bind_some]
  cases more with
  | nil => rfl
  | cons t more =>
      rw [Lexeme.ofTokensAfter, Lexeme.ofTokensAfter]
      split <;> rfl

theorem Token.isUnfinished_of_shape
    {t t' : Token}
    (hShape : t.shape = t'.shape) :
    t.isUnfinished = t'.isUnfinished := by
  rcases Prod.mk.inj hShape with ⟨hKind, hText⟩
  rw [isUnfinished, isUnfinished, Lexeme.isUnfinished,
    Lexeme.isUnfinished, hKind, hText]

/- Other white space in front leaves the last token finished. -/
theorem isUnfinished_getLast?_of_isPause
    (hGaps : gaps'.all Token.isPause = true)
    (hShapes : more.map Token.shape = more'.map Token.shape)
    (hFinished :
      ∀ t ∈ (gaps ++ more).getLast?, t.isUnfinished = false) :
    ∀ t ∈ (gaps' ++ more').getLast?, t.isUnfinished = false := by
  intro t hMem
  rw [Option.mem_def, List.getLast?_append] at hMem
  cases hLast : more'.getLast? with
  | none =>
      rw [hLast, Option.none_or] at hMem
      have hPause := List.all_eq_true.mp hGaps t
        (List.mem_of_getLast? hMem)
      rw [Token.isPause, Bool.or_eq_true, beq_iff_eq, beq_iff_eq]
        at hPause
      rcases hPause with hKind | hKind <;>
        simp [Token.isUnfinished, Lexeme.isUnfinished, hKind]
  | some u =>
      rw [hLast, Option.some_or] at hMem
      cases hMem
      have hSame := congrArg List.getLast? hShapes
      rw [List.getLast?_map, List.getLast?_map, hLast] at hSame
      rcases Option.map_eq_some_iff.mp hSame with
        ⟨u', hLast', hShape⟩
      rw [← Token.isUnfinished_of_shape hShape]
      apply hFinished
      rw [Option.mem_def, List.getLast?_append, hLast']
      rfl

/- White space that leaves no lexeme separates what follows. -/
theorem Token.spacedBehind_of_ne_nil
    (spaced : Bool)
    (hSome : gaps ≠ [])
    (hNone : Lexeme.ofTokensAfter spaced gaps = []) :
    spacedBehind spaced gaps = true := by
  cases gaps with
  | nil => exact absurd rfl hSome
  | cons t gaps =>
      rw [Lexeme.ofTokensAfter] at hNone
      split at hNone
      · rename_i hTrivia
        rw [spacedBehind, List.foldl_cons, hTrivia]
        exact spacedBehind_of_ofTokensAfter hNone
      · cases hNone

/- White space in front of a source does not matter. -/
theorem matches_of_isPause
    (hGaps : gaps.all Token.isPause = true)
    (hGaps' : gaps'.all Token.isPause = true)
    (hTexts : gaps.map Token.text = gaps'.map Token.text)
    (hShapes : more.map Token.shape = more'.map Token.shape) :
    Matches .start (Lexeme.ofTokens (gaps ++ more))
      (Lexeme.ofTokens (gaps' ++ more')) := by
  rw [Lexeme.ofTokens, Lexeme.ofTokens,
    Lexeme.ofTokensAfter_append, Lexeme.ofTokensAfter_append]
  cases gaps with
  | nil =>
      rw [List.map_eq_nil_iff.mp hTexts.symm]
      exact .of_areSame (Lexeme.areSame_ofTokensAfter false hShapes)
  | cons t gaps =>
      cases gaps' with
      | nil => cases hTexts
      | cons t' gaps' =>
          exact .of_shapes_behind_breaks hShapes
            (areLineEnds_ofTokensAfter false hGaps)
            (areLineEnds_ofTokensAfter false hGaps')
            (Token.spacedBehind_of_ne_nil false
              (List.cons_ne_nil t gaps))
            (Token.spacedBehind_of_ne_nil false
              (List.cons_ne_nil t' gaps')) rfl

------------------------------------------------------------
-- A source inside of another
------------------------------------------------------------

namespace Lexer

variable {base : Option (Mode × List Frame)}
variable {back : List Char}
variable {l : Lexer}

/-
  A lexer has taken the lexemes of a source and a newline, as
  the tokens of another one, and nothing that it has opened
  there is left open.
-/
structure Enclosed
    (source : String)
    (base : Option (Mode × List Frame))
    (back : List Char)
    (tokens : List Token)
    (last : Lexer) : Prop where
  lexemes :
    ∃ ls breaks,
      Lexeme.ofTokensAfter false tokens = ls ++ breaks ∧
        AreEmbedded source ls breaks
  clean : last.Clean
  frames : last.frames = Frame.floor base 0
  rest_eq : last.rest = back
  mode : last.mode.readsSpace = true

/- The tokens of a source, read where an expression may start. -/
theorem exists_takes_startingIn
    {mode : Mode}
    (hLexical : (tokenize source).2 = [])
    (hSyntactic :
      (parseLexemes
        (Lexeme.ofTokens (tokenize source).1)).2.errors = [])
    (hFresh : mode.isFresh = true) :
    ∃ tokens last,
      Takes (startingIn mode source) tokens last ∧ last.Clean ∧
        last.rest = [] ∧ unterminated? last.frames = none ∧
        tokens.map Token.text = (tokenize source).1.map Token.text ∧
        (∀ t ∈ tokens.getLast?, t.isUnfinished = false) ∧
        Matches .start (Lexeme.ofTokens (tokenize source).1)
          (Lexeme.ofTokens tokens) ∧
        Nest.behind? [] (Lexeme.ofTokens tokens) = some [] := by
  have hBehind := behind?_ofTokens_of_clean hLexical hSyntactic
  have hFinished :=
    isUnfinished_getLast?_of_clean hLexical hSyntactic
  rcases exists_takes_tokenize hLexical with
    ⟨last, hTakes, hLast, hEnd, hClosed⟩
  have hAbreast :
      Abreast none [] (ofSource source) (startingIn mode source) := by
    refine ⟨⟨0, ?_, rfl⟩, fun _ _ hMem => (List.not_mem_nil hMem).elim,
      coherent_startingIn _ _, ⟨rfl, rfl, rfl, rfl⟩,
      ⟨rfl, rfl, rfl, rfl⟩⟩
    cases mode <;> first | exact .none | cases hFresh
  rcases hAbreast.takes_beside false rfl hFresh rfl hTakes hLast
      hBehind with
    ⟨gaps, gaps', more, more', last', hTokens, hGaps, hGaps', hTexts,
      hShapes, hTakes', hEnds, hRest, _⟩
  have hKinds : Nest.behind? [] (Lexeme.ofTokensAfter false more') =
      Nest.behind? [] (Lexeme.ofTokensAfter false more) :=
    (Lexeme.areSame_ofTokensAfter false hShapes).behind?_eq []
  rw [hTokens] at hBehind hFinished ⊢
  refine ⟨_, last', hTakes', hEnds.clean', hRest.symm.trans hEnd,
    hEnds.unterminated?_eq_none hClosed, ?_, ?_, ?_, ?_⟩
  · have hSame := congrArg (List.map Prod.snd) hShapes
    rw [List.map_map, List.map_map] at hSame
    rw [List.map_append, List.map_append, hTexts]
    exact congrArg _ hSame.symm
  · exact isUnfinished_getLast?_of_isPause hGaps' hShapes hFinished
  · exact matches_of_isPause hGaps hGaps' hTexts hShapes
  · rw [Lexeme.ofTokens, behind?_of_isPause false more' hGaps',
      hKinds, ← behind?_of_isPause false more hGaps]
    exact hBehind

/-
  Behind the start of an expression a source is read as it is
  on its own, and so is a newline behind it.
-/
theorem exists_enclosed
    (hMark : source.toList.head? ≠ some byteOrderMark)
    (hLexical : (tokenize source).2 = [])
    (hSyntactic :
      (parseLexemes
        (Lexeme.ofTokens (tokenize source).1)).2.errors = [])
    (hKeys : Token.lateKeys [] (tokenize source).1 = false)
    (hClean : l.Clean)
    (hFresh : l.mode.isFresh = true)
    (hSigil : l.sigil = none)
    (hFrames : l.frames = Frame.floor base 0)
    (hRest : l.rest = source.toList ++ '\n' :: back) :
    ∃ tokens last, Takes l tokens last ∧
      Enclosed source base back tokens last := by
  rcases exists_takes_startingIn hLexical hSyntactic hFresh with
    ⟨tokens, last, hTakes, hLast, hEnd, hClosed, hTexts, hFinished,
      hMatches, hBehind⟩
  have hStart := coherent_startingIn l.mode source
  have hFramesStart : (startingIn l.mode source).frames = [] := by
    generalize l.mode = mode at hFresh
    cases mode <;> first | rfl | cases hFresh
  have hAbreast : Abreast base [] (startingIn l.mode source) l := by
    refine ⟨⟨0, ?_, ?_⟩, ?_, hStart, ⟨rfl, rfl, rfl, rfl⟩, hClean⟩
    · rw [hFramesStart, hFrames]
      exact .none
    · rw [hFramesStart]
      rfl
    · intro g opened hMem
      rw [hFramesStart] at hMem
      cases hMem
  -- Nothing is open at the end, so that code is read there.
  have hCoherent := hTakes.coherent hStart
  have hFramesEnd := hCoherent.frames_eq_nil hClosed
  have hOutside : last.mode.isGroup = false := by
    rw [Bool.eq_false_iff, Ne, hCoherent.group_iff, hFramesEnd]
    rintro ⟨g, opened, fs, hNone⟩
    cases hNone
  have hMode := hTakes.readsSpace_of_isFinished hLast hStart
    (by
      intro hCharacter
      change l.mode = .character at hCharacter
      rw [hCharacter] at hFresh
      cases hFresh) hOutside hFinished
  have hChars := hTakes.rest_eq hLast
  rw [hEnd, List.append_nil] at hChars
  change body source.toList = _ at hChars
  have hBody : body source.toList = source.toList := by
    generalize source.toList = cs at hMark
    cases cs with
    | nil => rfl
    | cons c cs => exact if_neg fun hEq => hMark (congrArg some hEq)
  rw [hBody] at hChars
  rw [← Token.lateKeys_congr hTexts] at hKeys
  rw [hChars] at hRest
  rcases hAbreast.takes_ending false ⟨rfl, hSigil.symm⟩ hTakes hLast
      hMode hEnd hFinished hKeys hRest hBehind with
    ⟨tokens', last', hTakes', hPast⟩
  rcases hPast.same with ⟨ls, breaks, hLexemes, hSame, hBreaks⟩
  have hBalanced := (hSame.behind?_eq []).trans hBehind
  refine ⟨tokens', last', hTakes', ⟨ls, breaks, hLexemes,
    hMatches.trans_areSame hSame, hBalanced, hBreaks.1, hBreaks.2⟩,
    hPast.abreast.clean', ?_, hPast.rest_eq, hPast.mode⟩
  rcases hPast.abreast.frames with ⟨n, hOver, hCurlies⟩
  rw [hFramesEnd] at hOver hCurlies
  have hNone : n = 0 := hCurlies
  rw [hNone] at hOver
  generalize last'.frames = fs at hOver ⊢
  cases hOver with
  | none => rfl

end Lexer

------------------------------------------------------------
-- What stands around a source
------------------------------------------------------------

namespace Transition

variable {mode : Mode}
variable {pending : Option Bool}
variable {top : Option Frame}
variable {cs : List Char}

/- A parenthesis that is read in code closes one. -/
theorem of_closingParenthesis
    (hMode : mode.readsSpace = true) :
    Transition.of mode pending top ')' cs =
      plain (.closing .parenthesis) 0 .afterOperand := by
  cases mode <;>
    first | rfl | (cases pending <;> rfl) | cases hMode

/- A curly of an interpolation itself ends it. -/
theorem of_interpolationEnd
    {resume : Mode}
    (hMode : mode.readsSpace = true) :
    Transition.of mode pending
        (some (.interpolation 0 resume)) '\x7d' cs =
      closeCurly (some (.interpolation 0 resume)) := by
  cases mode <;>
    first | rfl | (cases pending <;> rfl) | cases hMode

end Transition

/- A token of one character that is in order. -/
theorem Lexer.takes_character
    {l : Lexer}
    {t : Transition}
    {c : Char}
    {cs : List Char}
    (hClean : l.Clean)
    (hRest : l.rest = c :: cs)
    (hT : l.transition c cs = t)
    (hMore : t.more = 0)
    (hNone : l.errorOf? t [c] = none) :
    Takes l [l.tokenOf t [c]] (l.past t [c] cs) ∧
      (l.past t [c] cs).Clean :=
  takes_one hClean (show l.rest = c :: ([] ++ cs) from hRest) hT
    hMore hNone

section Sources

open Lexer

variable
  (hMark : source.toList.head? ≠ some byteOrderMark)
  (hLexical : (tokenize source).2 = [])
  (hSyntactic :
    (parseLexemes
      (Lexeme.ofTokens (tokenize source).1)).2.errors = [])
  (hKeys : Token.lateKeys [] (tokenize source).1 = false)

include hMark hLexical hSyntactic hKeys

/- What the lexer makes of a source in parentheses. -/
theorem exists_ofTokens_inParentheses :
    (tokenize (inParentheses source)).2 = [] ∧
      ∃ opened ls breaks closed,
        Lexeme.ofTokens (tokenize (inParentheses source)).1 =
            opened :: (ls ++ breaks ++ [closed]) ∧
          opened.kind = .opening .parenthesis ∧
          AreEmbedded source ls breaks ∧
          closed.kind = .closing .parenthesis := by
  have hStart : (ofSource (inParentheses source)).rest =
      '(' :: (source.toList ++ ['\n', ')']) := by
    change body (String.ofList _).toList = _
    rw [String.toList_ofList]
    rfl
  rcases takes_character ⟨rfl, rfl, rfl, rfl⟩ hStart rfl rfl rfl with
    ⟨hOpens, hOpened⟩
  rcases exists_enclosed hMark hLexical hSyntactic hKeys hOpened rfl
      rfl (rfl : _ = Frame.floor none 0) rfl with
    ⟨tokens, last, hTakes, hInner⟩
  rcases hInner.lexemes with ⟨ls, breaks, hLexemes, hEmbedded⟩
  have hT : last.transition ')' [] =
      plain (.closing .parenthesis) 0 .afterOperand :=
    of_closingParenthesis hInner.mode
  rcases takes_character hInner.clean hInner.rest_eq hT rfl rfl with
    ⟨hCloses, hClosed⟩
  have hFrames : unterminated? (last.past
      (plain (.closing .parenthesis) 0 .afterOperand) [')']
        []).frames = none := by
    change unterminated? last.frames = none
    rw [hInner.frames]
    rfl
  rw [tokenize_of_takes (hOpens.trans (hTakes.trans hCloses)) hClosed
    rfl hFrames]
  have hAll := Lexeme.ofTokensAfter_append false tokens
    [last.tokenOf (plain (.closing .parenthesis) 0 .afterOperand)
      [')']]
  rw [hLexemes] at hAll
  exact ⟨rfl, _, ls, breaks, _, congrArg (List.cons _) hAll, rfl,
    hEmbedded, rfl⟩

/- What the lexer makes of a source in an interpolation. -/
theorem exists_ofTokens_inInterpolation :
    (tokenize (inInterpolation source)).2 = [] ∧
      ∃ opened starts ls breaks ends closed,
        Lexeme.ofTokens (tokenize (inInterpolation source)).1 =
            opened :: starts :: (ls ++ breaks ++ [ends, closed]) ∧
          opened.kind = .promoter .string .quoted ∧
          starts.kind = .interpolationStart ∧
          AreEmbedded source ls breaks ∧
          ends.kind = .interpolationEnd ∧
          closed.kind = .terminator .string .quoted := by
  have hStart : (ofSource (inInterpolation source)).rest =
      '"' :: '#' :: '\x7b' :: (source.toList ++ ['\n', '\x7d', '"']) := by
    change body (String.ofList _).toList = _
    rw [String.toList_ofList]
    rfl
  rcases takes_character ⟨rfl, rfl, rfl, rfl⟩ hStart rfl rfl rfl with
    ⟨hOpens, hOpened⟩
  rcases takes_one hOpened
      (show _ = '#' :: (['\x7b'] ++
        (source.toList ++ ['\n', '\x7d', '"'])) from rfl)
      rfl rfl rfl with
    ⟨hStarts, hStarted⟩
  rcases exists_enclosed hMark hLexical hSyntactic hKeys hStarted rfl
      rfl (rfl : _ = Frame.floor
        (some (.group, [.group (Group.string .quoted) _])) 0) rfl with
    ⟨tokens, last, hTakes, hInner⟩
  rcases hInner.lexemes with ⟨ls, breaks, hLexemes, hEmbedded⟩
  have hT : last.transition '\x7d' ['"'] =
      closeCurly (some (.interpolation 0 .group)) := by
    unfold Lexer.transition
    rw [hInner.frames]
    exact of_interpolationEnd hInner.mode
  rcases takes_character hInner.clean hInner.rest_eq hT rfl rfl with
    ⟨hEnds, hEnded⟩
  -- Behind the interpolation the string is all that is open.
  generalize hLast : last.past
    (closeCurly (some (.interpolation 0 .group))) ['\x7d'] ['"'] =
      text at hEnds hEnded
  have hText : text.mode = .group ∧ text.rest = ['"'] ∧
      text.frames = last.frames.tail := by
    rw [← hLast]
    exact ⟨rfl, rfl, rfl⟩
  rw [hInner.frames] at hText
  have hT' : text.transition '"' [] =
      terminator (Group.string .quoted) := by
    unfold Lexer.transition
    rw [hText.1, hText.2.2]
    rfl
  rcases takes_character hEnded hText.2.1 hT' rfl rfl with
    ⟨hCloses, hClosed⟩
  have hFrames : unterminated? (text.past
      (terminator (Group.string .quoted)) ['"'] []).frames = none := by
    change unterminated? text.frames.tail = none
    rw [hText.2.2]
    rfl
  rw [tokenize_of_takes (hOpens.trans (hStarts.trans
    (hTakes.trans (hEnds.trans hCloses)))) hClosed rfl hFrames]
  have hAll := Lexeme.ofTokensAfter_append false tokens
    [last.tokenOf (closeCurly (some (.interpolation 0 .group)))
      ['\x7d'], text.tokenOf (terminator (Group.string .quoted)) ['"']]
  rw [hLexemes] at hAll
  exact ⟨rfl, _, _, ls, breaks, _, _,
    congrArg (List.cons _) (congrArg (List.cons _) hAll), rfl, rfl,
    hEmbedded, rfl, rfl⟩

end Sources

end ElixirReader
