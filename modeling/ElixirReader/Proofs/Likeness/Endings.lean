import ElixirReader.Proofs.Lexer.Lengths
import ElixirReader.Proofs.Lexer.Literals
import ElixirReader.Proofs.Lexer.Effect
import ElixirReader.Proofs.Likeness.Runs

/-
  This file lets a lexer go on where a source ends. With a
  newline behind the source it takes the same tokens, unless
  the last one is a carriage return that takes the newline.

  Key definitions include:
    * `Token.isUnfinished`
    * `Lexer.PastNewline`

  Main declarations:
    * `Lexer.Takes.readsSpace_of_isFinished`
    * `Lexer.Abreast.takes_ending`
-/

namespace ElixirReader

open Parse Transition

variable {mode : Mode}
variable {pending : Option Bool}
variable {top : Option Frame}
variable {c : Char}
variable {cs back : List Char}

------------------------------------------------------------
-- White space and comments at the end
------------------------------------------------------------

namespace Transition

/- A line break at the end may take the newline behind it. -/
theorem lineBreakTail_newline
    (back : List Char)
    (hAll : lineBreakTail c cs = cs.length) :
    lineBreakTail c (cs ++ '\n' :: back) = cs.length ∨
      lineBreakTail c (cs ++ '\n' :: back) = cs.length + 1 := by
  cases cs with
  | nil =>
      unfold lineBreakTail
      split
      · exact .inr rfl
      · exact .inl rfl
  | cons d cs => exact .inl hAll

/- A line that goes on is read as in code, whatever the mode. -/
theorem exists_of_backslash
    (hMode : mode.readsSpace = true) :
    ∃ m, ∀ d ds, isLineBreak d = true →
      Transition.of mode pending top '\\' (d :: ds) =
        backslash m (d :: ds) := by
  have hBase : ∀ d ds, isLineBreak d = true →
      Transition.of mode pending top '\\' (d :: ds) =
        backslash (if mode = .afterDot then .initial else mode.base)
          (d :: ds) := by
    intro d ds hBreak
    simp only [isLineBreak, Bool.or_eq_true, beq_iff_eq] at hBreak
    rcases hBreak with rfl | rfl <;> cases mode <;>
      first | rfl | (cases pending <;> rfl) | cases hMode
  exact ⟨_, hBase⟩

/-
  White space or a comment up to the end is the same token in
  front of a newline, or takes the newline, too.
-/
theorem exists_plain_of_startsGap
    (back : List Char)
    (hMode : mode.readsSpace = true)
    (hGap : startsGap (c :: cs) = true)
    (hAll : (Transition.of mode pending top c cs).more =
      cs.length) :
    ∃ kind next more,
      kind.isSpacing = true ∧ next.readsSpace = true ∧
        Transition.of mode pending top c cs =
          plain kind cs.length next ∧
        Transition.of mode pending top c (cs ++ '\n' :: back) =
          plain kind more next ∧
        (more = cs.length ∨ more = cs.length + 1) := by
  rw [startsGap, isSpace, Bool.or_eq_true, Bool.or_eq_true,
    Bool.or_eq_true, Bool.and_eq_true, beq_iff_eq, beq_iff_eq]
    at hGap
  rcases hGap with ((hBlank | hBreak) | rfl) | ⟨rfl, hBreak⟩
  · rw [of_of_isBlank hMode hBlank] at hAll ⊢
    rw [of_of_isBlank hMode hBlank]
    have hBlanks : ∀ d ∈ cs, isBlank d = true :=
      forall_of_countWhile (by rw [List.append_nil]; exact hAll)
    refine ⟨.whiteSpace, mode.base.afterBlank, cs.length, rfl,
      Mode.readsSpace_afterBlank _,
      congrArg (plain _ · _) hAll, congrArg (plain _ · _) ?_,
      .inl rfl⟩
    exact countWhile_append_of_forall hBlanks
      (fun d hHead => by cases hHead; rfl)
  · rw [of_of_isLineBreak hMode hBreak] at hAll ⊢
    rw [of_of_isLineBreak hMode hBreak]
    unfold lineBreak at hAll ⊢
    split at hAll
    · rename_i hContinued
      rw [if_pos hContinued, if_pos hContinued]
      exact ⟨.whiteSpace, mode.base, _, rfl,
        Mode.readsSpace_base hMode, congrArg (plain _ · _) hAll,
        rfl, lineBreakTail_newline back hAll⟩
    · rename_i hEnds
      rw [if_neg hEnds, if_neg hEnds]
      exact ⟨.endOfLine, .initial, _, rfl, rfl,
        congrArg (plain _ · _) hAll, rfl,
        lineBreakTail_newline back hAll⟩
  · rw [of_hash hMode] at hAll ⊢
    rw [of_hash hMode]
    have hText : ∀ d ∈ cs, (!isLineBreak d) = true :=
      forall_of_countWhile (by rw [List.append_nil]; exact hAll)
    refine ⟨.comment, mode.afterComment, cs.length, rfl,
      Mode.readsSpace_afterComment mode,
      congrArg (plain _ · _) hAll, congrArg (plain _ · _) ?_,
      .inl rfl⟩
    exact countWhile_append_of_forall hText
      (fun d hHead => by cases hHead; rfl)
  · rcases exists_of_backslash hMode with ⟨m, hOf⟩
    cases cs with
    | nil => cases hBreak
    | cons d cs =>
        change isLineBreak d = true at hBreak
        rw [hOf d _ hBreak, backslash, if_pos hBreak] at hAll
        rw [List.cons_append, hOf d _ hBreak, hOf d _ hBreak,
          backslash, backslash, if_pos hBreak, if_pos hBreak]
        change 1 + lineBreakTail d cs = cs.length + 1 at hAll
        refine ⟨.whiteSpace, m.afterBlank, _, rfl,
          Mode.readsSpace_afterBlank m,
          congrArg (plain _ · _) hAll, rfl, ?_⟩
        have hTail : lineBreakTail d cs = cs.length := by omega
        rcases lineBreakTail_newline back hTail with hSame | hMore
        · left
          rw [hSame, List.length_cons]
          omega
        · right
          rw [hMore, List.length_cons]
          omega

------------------------------------------------------------
-- Characters at the end
------------------------------------------------------------

/- A character literal that stands for one ends with it. -/
theorem character_newline
    (back : List Char)
    (hCode : (Escape.characterCode? (c :: cs)).isSome = true) :
    character c (cs ++ '\n' :: back) = character c cs := by
  have hSoft : Soft ('\n' :: back) := soft_newline rfl
  unfold character
  by_cases hBackslash : c = '\\'
  · subst hBackslash
    rw [if_pos rfl, if_pos rfl]
    cases cs with
    | nil => cases hCode
    | cons d cs =>
        have hReturn : d ≠ '\r' := by
          rintro rfl
          cases hCode
        simp [backslashTail, escapeTail, lineBreakTail, hReturn,
          hSoft.hexTail_append]
  · rw [if_neg hBackslash, if_neg hBackslash]

end Transition

/- A token behind which something has to follow. -/
def Token.isUnfinished
    (t : Token) : Bool :=
  Lexeme.isUnfinished ⟨t.kind, t.text, t.span, false⟩

namespace Lexer

variable {base : Option (Mode × List Frame)}
variable {ds es : Nest}
variable {l l' last : Lexer}
variable {token : Token}
variable {tokens : List Token}

theorem ne_character_of_isGroup
    (hGroup : mode.isGroup = true) :
    mode ≠ .character := by
  rintro rfl
  cases hGroup

/- A character follows nothing but its mark. -/
theorem Coherent.marks
    (c : Char)
    (cs : List Char)
    (hCoherent : Coherent l)
    (hMode : l.mode ≠ .character) :
    (l.transition c cs).Marks := by
  rcases hCoherent.token_cases c cs with
    ⟨hGroup, _⟩ | ⟨g, opened, fs, _, hInside⟩
  · exact Transition.of_marks
      (fun _ _ hTop =>
        ne_character_of_isGroup (hCoherent.isGroup_resume hTop))
      l.sigil hGroup hMode
  · cases hInside with
    | onFirstLine _ hKind hStays _ _ =>
        refine .of_ne (by simp [hStays]) ?_
        rcases hKind with hKind | hKind <;> simp [hKind]
    | endsFirstLine _ hKind hNext _ _ =>
        exact .of_ne (by simp [hNext]) (by simp [hKind])
    | segment _ hKind hIn _ _ _ =>
        refine .of_ne (ne_character_of_isGroup ?_) ?_
        · exact (Mode.isGroup_iff_isIn _).mpr ⟨g.layout, hIn⟩
        · rcases hKind with hKind | hKind | hKind <;> simp [hKind]
    | interpolates _ hEq =>
        rw [hEq]
        exact .of_ne Mode.noConfusion Kind.noConfusion
    | ends _ hEq =>
        rw [hEq]
        refine .of_ne ?_ Kind.noConfusion
        change g.endMode ≠ .character
        unfold Group.endMode
        cases g.family <;> cases g.layout <;> exact Mode.noConfusion

------------------------------------------------------------
-- The end of a source
------------------------------------------------------------

theorem Takes.coherent
    (hTakes : Takes l tokens last)
    (hCoherent : Coherent l) :
    Coherent last := by
  induction hTakes with
  | none l => exact hCoherent
  | token l token tokens last _ _ ih =>
      exact ih (coherent_next hCoherent)

/- Where no literal is left open nothing is. -/
theorem Coherent.frames_eq_nil
    (hCoherent : Coherent l)
    (hClosed : unterminated? l.frames = none) :
    l.frames = [] := by
  have hAlternate := hCoherent.alternate
  rw [unterminated?, Option.map_eq_none_iff, outermostGroup?,
    List.findSome?_eq_none_iff] at hClosed
  have hNoGroup : ∀ g opened, .group g opened ∉ l.frames := by
    intro g opened hMem
    cases hClosed _ (List.mem_reverse.mpr hMem)
  generalize l.frames = fs at hAlternate hNoGroup
  cases hAlternate with
  | none => rfl
  | literal g opened =>
      exact absurd List.mem_cons_self (hNoGroup g opened)
  | nested g opened _ _ _ _ =>
      exact absurd List.mem_cons_self (hNoGroup g opened)
  | interpolation _ _ g opened _ _ _ _ =>
      exact absurd (List.mem_cons_of_mem _ List.mem_cons_self)
        (hNoGroup g opened)

/- Behind a finished token outside of literals space is read. -/
theorem Takes.readsSpace_of_isFinished
    (hTakes : Takes l tokens last)
    (hClean : last.Clean)
    (hCoherent : Coherent l)
    (hMode : l.mode ≠ .character)
    (hOutside : last.mode.isGroup = false)
    (hFinished : ∀ t ∈ tokens.getLast?, t.isUnfinished = false) :
    last.mode.readsSpace = true := by
  rw [Mode.readsSpace, hOutside, Bool.not_false, Bool.true_and,
    bne_iff_ne]
  rcases List.eq_nil_or_concat tokens with rfl | ⟨init, token, rfl⟩
  · cases hTakes
    exact hMode
  · rw [List.concat_eq_append] at hTakes hFinished
    rcases hTakes.split with ⟨mid, hInit, hLast⟩
    rcases hLast.exists_first hClean with ⟨c, cs, _, rfl, _, hNone⟩
    cases hNone
    intro hCharacter
    change (mid.transition c cs).mode = .character at hCharacter
    by_cases hMid : mid.mode = .character
    · unfold transition at hCharacter
      rw [hMid] at hCharacter
      cases hCharacter
    · have hMarks := (hInit.coherent hCoherent).marks c cs hMid
      have hUnfinished := hFinished _
        (by rw [List.getLast?_concat]; rfl)
      simp [Token.isUnfinished, Lexeme.isUnfinished, tokenOf,
        hMarks.kind_eq hCharacter] at hUnfinished

/- No text in front of a newline at the end is taken for a key. -/
theorem fits_end
    {t : Transition}
    (back : List Char)
    (hMore : t.more = cs.length)
    (hOutside : t.mode.isGroup = false)
    (hNone : l.errorOf? t (c :: cs) = none)
    (hKey : isLateKey (c :: cs) = false)
    (hLast : t.kind.endsFirmly = true ∨
      t.kind ≠ .colon ∧ t.kind ≠ .character ∧
        startsGap (c :: cs) = false) :
    t.Fits c cs [] ('\n' :: back) := by
  refine ⟨Nat.le_of_eq hMore, ?_, ?_, ?_, .inr hKey⟩
  · intro hGroup
    rw [hOutside] at hGroup
    cases hGroup
  · intro hBad
    have hFaulty := isFaulty_of_errorOf? (List.cons_ne_nil _ _) hNone
    rw [hBad] at hFaulty
    cases hFaulty
  · rcases hLast with hFirm | hFits
    · exact .inr (.inl hFirm)
    · exact .inr (.inr (.inr hFits))

/-
  The token up to the end is the same in front of a newline,
  unless it is white space that takes the newline, too.
-/
theorem Abreast.transition_newline
    {t : Transition}
    (back : List Char)
    (hAbreast : Abreast base ds l l')
    (hT : l.transition c cs = t)
    (hMore : t.more = cs.length)
    (hOutside : t.mode.isGroup = false)
    (hNone : l.errorOf? t (c :: cs) = none)
    (hFinished : (l.tokenOf t (c :: cs)).isUnfinished = false)
    (hKey : isLateKey (c :: cs) = false) :
    l.transition c (cs ++ '\n' :: back) = t ∨
      ∃ kind next,
        kind.isSpacing = true ∧ next.readsSpace = true ∧
          t = plain kind cs.length next ∧
          l.transition c (cs ++ '\n' :: back) =
            plain kind (cs.length + 1) next := by
  have hColon : t.kind ≠ .colon := by
    intro hKind
    simp [Token.isUnfinished, Lexeme.isUnfinished, tokenOf, hKind]
      at hFinished
  by_cases hMode : l.mode = .character
  · left
    have hRead : ∀ ds, l.transition c ds = character c ds := by
      intro ds
      unfold Lexer.transition
      rw [hMode]
      rfl
    rw [hRead] at hT ⊢
    rw [← hT] at hFinished ⊢
    apply character_newline back
    simpa [Token.isUnfinished, Lexeme.isUnfinished, tokenOf,
      Transition.character, plain, Option.isSome_iff_ne_none]
      using hFinished
  · have hMarks := hAbreast.coherent.marks c cs hMode
    rw [hT] at hMarks
    have hSame : ∀ hLast : t.kind.endsFirmly = true ∨
        t.kind ≠ .colon ∧ t.kind ≠ .character ∧
          startsGap (c :: cs) = false,
        l.transition c (cs ++ '\n' :: back) = t := by
      intro hLast
      have hFits : (l.transition c (cs ++ [])).Fits c cs []
          ('\n' :: back) := by
        rw [List.append_nil, hT]
        exact fits_end back hMore hOutside hNone hKey hLast
      have hSoft : Soft [] := fun _ hHead => by cases hHead
      have hAppend : l.transition c (cs ++ '\n' :: back) =
          l.transition c (cs ++ []) :=
        of_append hSoft (soft_newline rfl)
          hAbreast.isSpace_terminator hFits
      rwa [List.append_nil, hT] at hAppend
    by_cases hSpacing : t.kind.isSpacing = true
    · by_cases hGap : startsGap (c :: cs) = true
      · have hReads : l.mode.readsSpace = true := by
          subst hT
          exact hAbreast.coherent.readsSpace hSpacing hOutside
        rcases exists_plain_of_startsGap back hReads hGap
            (hT ▸ hMore) with
          ⟨kind, next, more, hKind, hNext, hOld, hNew, hAll⟩
        rcases hAll with rfl | rfl
        · exact .inl (hNew.trans (hOld.symm.trans hT))
        · exact .inr ⟨kind, next, hKind, hNext,
            hT.symm.trans hOld, hNew⟩
      · exact .inl (hSame (.inr ⟨hColon, hMarks.kind_ne,
          Bool.eq_false_iff.mpr hGap⟩))
    · left
      apply hSame
      left
      have hCharacter := hMarks.kind_ne
      generalize t.kind = k at hSpacing hColon hCharacter
      cases k <;>
        first
        | rfl
        | exact absurd rfl hSpacing
        | exact absurd rfl hColon
        | exact absurd rfl hCharacter

------------------------------------------------------------
-- A newline behind the end
------------------------------------------------------------

/-
  A second lexer that has taken the same lexemes as the first
  one, and a newline behind them.
-/
structure PastNewline
    (base : Option (Mode × List Frame))
    (es : Nest)
    (spaced : Bool)
    (tokens tokens' : List Token)
    (back : List Char)
    (last last' : Lexer) : Prop where
  same :
    ∃ ls breaks,
      Lexeme.ofTokensAfter spaced tokens' = ls ++ breaks ∧
        Lexeme.AreSame (Lexeme.ofTokensAfter spaced tokens) ls ∧
        AreLineEnds breaks ∧ breaks.length ≤ 1
  abreast : Abreast base es last last'
  rest_eq : last'.rest = back
  mode : last'.mode.readsSpace = true

/- White space, or the end of a line, is no other lexeme. -/
theorem areLineEnds_singleton
    (spaced : Bool)
    (hPause : token.isPause = true) :
    AreLineEnds (Lexeme.ofTokensAfter spaced [token]) ∧
      (Lexeme.ofTokensAfter spaced [token]).length ≤ 1 := by
  refine ⟨areLineEnds_ofTokensAfter spaced (by simp [hPause]), ?_⟩
  unfold Lexeme.ofTokensAfter Lexeme.ofTokensAfter
  split <;> simp

/- The newline itself, where space is read. -/
theorem exists_takes_newline
    (hClean : l.Clean)
    (hMode : l.mode.readsSpace = true)
    (hRest : l.rest = '\n' :: back) :
    ∃ token last, Takes l [token] last ∧ token.isPause = true ∧
      last.Clean ∧ last.frames = l.frames ∧ last.rest = back ∧
      last.mode.readsSpace = true := by
  have hT : l.transition '\n' ([] ++ back) =
      lineBreak l.mode.base '\n' back :=
    of_of_isLineBreak hMode rfl
  have hPlain : ∃ kind next,
      lineBreak l.mode.base '\n' back = plain kind 0 next ∧
        (kind = .whiteSpace ∨ kind = .endOfLine) ∧
        next.readsSpace = true := by
    unfold lineBreak
    split
    · exact ⟨_, _, rfl, .inl rfl, Mode.readsSpace_base hMode⟩
    · exact ⟨_, _, rfl, .inr rfl, rfl⟩
  rcases hPlain with ⟨kind, next, hPlain, hKind, hNext⟩
  rw [hPlain] at hT
  have hNone : l.errorOf? (plain kind 0 next) ['\n'] = none := by
    apply errorOf?_of_isSpacing _ rfl
    rcases hKind with rfl | rfl <;> rfl
  rcases takes_one hClean hRest hT rfl hNone with ⟨hTakes, hLast⟩
  refine ⟨_, _, hTakes, ?_, hLast, rfl, rfl, hNext⟩
  rcases hKind with rfl | rfl <;> rfl

/- The newline behind tokens that both have taken. -/
theorem Abreast.exists_pastNewline
    {tokens' : List Token}
    {mid' : Lexer}
    (spaced : Bool)
    (hTakes : Takes l' tokens' mid')
    (hShapes : tokens.map Token.shape = tokens'.map Token.shape)
    (hAbreast : Abreast base es last mid')
    (hMode : mid'.mode.readsSpace = true)
    (hRest : mid'.rest = '\n' :: back) :
    ∃ tokens' last', Takes l' tokens' last' ∧
      PastNewline base es spaced tokens tokens' back last last' := by
  rcases exists_takes_newline hAbreast.clean' hMode hRest with
    ⟨token, last', hNewline, hPause, hClean, hFrames, hBack, hNext⟩
  refine ⟨_, last', hTakes.trans hNewline,
    ⟨_, _, Lexeme.ofTokensAfter_append spaced tokens' [token],
      Lexeme.areSame_ofTokensAfter spaced hShapes,
      areLineEnds_singleton _ hPause⟩,
    hAbreast.congr_right hFrames hClean, hBack, hNext⟩

/- The last token, and the newline behind it. -/
theorem Abreast.takes_last_newline
    (spaced : Bool)
    (hAbreast : Abreast base ds l l')
    (hReads : ReadsAlike l l')
    (hTakes : Takes l [token] last)
    (hClean : last.Clean)
    (hMode : last.mode.readsSpace = true)
    (hEnd : last.rest = [])
    (hFinished : token.isUnfinished = false)
    (hKey : isLateKey token.text.toList = false)
    (hRest' : l'.rest = token.text.toList ++ '\n' :: back)
    (hNext : ds.token? token.kind = some es) :
    ∃ tokens' last', Takes l' tokens' last' ∧
      PastNewline base es spaced [token] tokens' back last last' := by
  rcases hTakes.exists_first hClean with
    ⟨c, cs, _, hToken, hNone, hLater⟩
  cases hLater
  change cs.drop _ = [] at hEnd
  have hMore : (l.transition c cs).more = cs.length :=
    Nat.le_antisymm (hAbreast.coherent.more_le c cs)
      (List.drop_eq_nil_iff.mp hEnd)
  rw [hMore, List.take_length] at hToken hNone hMode ⊢
  rw [List.drop_length] at hMode ⊢
  rw [hToken] at hFinished hKey hRest' hNext ⊢
  change isLateKey (String.ofList (c :: cs)).toList = false at hKey
  change l'.rest = (String.ofList (c :: cs)).toList ++ _ at hRest'
  rw [String.toList_ofList] at hKey hRest'
  rw [List.cons_append] at hRest'
  generalize hT : l.transition c cs = t at *
  change t.mode.readsSpace = true at hMode
  have hOutside : t.mode.isGroup = false := by
    rw [Mode.readsSpace, Bool.and_eq_true, Bool.not_eq_true'] at hMode
    exact hMode.1
  have hPast := hAbreast.past [] ('\n' :: back) (hT ▸ hNext)
    (hT ▸ hNone)
  rw [hT] at hPast
  have hSame : ∀ t', l.transition c (cs ++ '\n' :: back) = t' →
      t'.kind = t.kind →
        l'.transition c (cs ++ '\n' :: back) = t' := by
    intro t' hT' hKind
    rw [← hT']
    apply hAbreast.transition c _ hReads
    rw [hT', hKind]
    exact hNext
  rcases hAbreast.transition_newline back hT hMore hOutside hNone
      hFinished hKey with
    hAfter | ⟨kind, next, hSpacing, hNextMode, rfl, hAfter⟩
  · have hAfter' := hSame t hAfter rfl
    rcases takes_one hAbreast.clean' hRest' hAfter' hMore
        (errorOf?_eq_none_of l' hNone) with
      ⟨hTakes', _⟩
    exact hPast.exists_pastNewline spaced hTakes' rfl hMode rfl
  · have hAfter' := hSame _ hAfter rfl
    rw [List.append_cons] at hRest' hAfter'
    rcases takes_one hAbreast.clean' hRest' hAfter'
        (by rw [List.length_append]; rfl)
        (errorOf?_of_isSpacing _ rfl hSpacing) with
      ⟨hTakes', hClean'⟩
    refine ⟨_, _, hTakes', ⟨_, [], (List.append_nil _).symm, ?_,
      fun _ hMem => (List.not_mem_nil hMem).elim, Nat.zero_le 1⟩,
      hPast.congr_right rfl hClean', rfl, hNextMode⟩
    rw [Lexeme.ofTokensAfter, Lexeme.ofTokensAfter]
    change Lexeme.AreSame (if kind.isTrivia = true then _ else _)
      (if kind.isTrivia = true then _ else _)
    split
    · exact .nil
    · rename_i hPlain
      refine .cons ⟨⟨rfl, fun hLine => ?_⟩, rfl⟩ .nil
      rw [Kind.isSpacing, Bool.or_eq_true, beq_iff_eq] at hSpacing
      exact absurd (hSpacing.resolve_left hPlain) hLine

/- No name becomes a key in front of white space. -/
theorem lateKeys_append
    {rest : List Char}
    {earlier later : List Token}
    (hKeys : Token.lateKeys rest (earlier ++ later) = false) :
    Token.lateKeys (Token.charsOf later ++ rest) earlier = false ∧
      Token.lateKeys rest later = false := by
  induction earlier with
  | nil => exact ⟨rfl, hKeys⟩
  | cons t earlier ih =>
      rw [List.cons_append, Token.lateKeys, Bool.or_eq_false_iff]
        at hKeys
      rcases ih hKeys.2 with ⟨hEarlier, hLater⟩
      refine ⟨?_, hLater⟩
      rw [Token.lateKeys, hEarlier, Bool.or_false]
      simpa [Token.charsOf] using hKeys.1

/-
  All tokens up to the end of a source, and the newline behind
  them.
-/
theorem Abreast.takes_ending
    (spaced : Bool)
    (hAbreast : Abreast base ds l l')
    (hReads : ReadsAlike l l')
    (hTakes : Takes l tokens last)
    (hClean : last.Clean)
    (hMode : last.mode.readsSpace = true)
    (hEnd : last.rest = [])
    (hFinished : ∀ t ∈ tokens.getLast?, t.isUnfinished = false)
    (hKeys : Token.lateKeys [] tokens = false)
    (hRest' : l'.rest = Token.charsOf tokens ++ '\n' :: back)
    (hBehind :
      ds.behind? (Lexeme.ofTokensAfter spaced tokens) = some es) :
    ∃ tokens' last', Takes l' tokens' last' ∧
      PastNewline base es spaced tokens tokens' back last last' := by
  rcases List.eq_nil_or_concat tokens with rfl | ⟨init, token, rfl⟩
  · cases hTakes
    cases hBehind
    exact hAbreast.exists_pastNewline spaced (.none l') rfl
      (hReads.mode ▸ hMode) hRest'
  · rw [List.concat_eq_append] at *
    rcases hTakes.split with ⟨before, hInit, hLast⟩
    have hBefore := hLast.clean hClean
    have hChars := hLast.rest_eq hClean
    rw [hEnd, Token.charsOf_cons, Token.charsOf_nil,
      List.append_nil] at hChars
    rw [Lexeme.ofTokensAfter_append] at hBehind
    rcases Nest.exists_of_behind?_append hBehind with
      ⟨ds', hBehindInit, hBehindLast⟩
    rw [Nest.behind?_ofTokensAfter_cons] at hBehindLast
    rcases Option.bind_eq_some_iff.mp hBehindLast with
      ⟨es', hNext, hEs⟩
    cases hEs
    rcases lateKeys_append hKeys with ⟨hKeysInit, hKeysLast⟩
    have hFront : token.text.toList ≠ [] := by
      rcases hLast.exists_first hClean with
        ⟨c, cs, _, rfl, _, _⟩
      change (String.ofList _).toList ≠ []
      rw [String.toList_ofList]
      exact List.cons_ne_nil _ _
    have hSoft : Soft ('\n' :: back) := soft_newline rfl
    rcases hAbreast.takes_front spaced hReads
        (fun _ hHead => by cases hHead) hSoft hInit hBefore
        hChars hFront (by simp [hRest', Token.charsOf])
        (.inr (by simpa [Token.charsOf] using hKeysInit))
        hBehindInit with
      ⟨init', before', hInit', hShapes, hAbreast', hReads', hRest''⟩
    rcases hAbreast'.takes_last_newline
        (Token.spacedBehind spaced init) hReads' hLast hClean hMode
        hEnd (hFinished token (by rw [List.getLast?_concat]; rfl))
        (by simpa [Token.lateKeys, Token.charsOf] using hKeysLast)
        hRest'' hNext with
      ⟨last', mid', hLast', hPast⟩
    rcases hPast.same with ⟨ls, breaks, hLexemes, hSame, hBreaks⟩
    refine ⟨init' ++ last', mid', hInit'.trans hLast',
      ⟨Lexeme.ofTokensAfter spaced init' ++ ls, breaks, ?_, ?_,
        hBreaks⟩, hPast.abreast, hPast.rest_eq, hPast.mode⟩
    · rw [Lexeme.ofTokensAfter_append,
        ← Token.spacedBehind_of_shapes spaced hShapes, hLexemes,
        ← List.append_assoc]
    · rw [Lexeme.ofTokensAfter_append]
      exact List.rel_append
        (Lexeme.areSame_ofTokensAfter spaced hShapes) hSame

end Lexer

end ElixirReader
