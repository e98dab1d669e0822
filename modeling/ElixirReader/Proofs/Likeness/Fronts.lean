import ElixirReader.Proofs.Likeness.Abreast

/-
  This file lets two lexers go side by side through a text in
  front of two tails. Up to its last token both take the same
  tokens; so they do with the last one, if the tails are not
  a part of it. From the start of an expression, where one of
  them takes a newline for white space and the other does not,
  they take the same characters up to the first token that is
  neither; from there on, the same tokens.

  Key definitions include:
    * `Token.lateKeys`
    * `Mode.isFresh`
    * `Transition.Pauses`
    * `Transition.Beside`
    * `Token.isPause`

  Main declarations:
    * `Lexer.Takes.rest_eq`
    * `Lexer.Abreast.exists_next`
    * `Lexer.Abreast.takes_front`
    * `Transition.beside_of_isFresh`
    * `Lexer.Abreast.takes_beside`
-/

namespace ElixirReader

open Transition

/-
  Whether a name among some tokens becomes a key if white space
  comes behind the characters that follow them.
-/
def Token.lateKeys
    (rest : List Char) : List Token → Bool
| [] => false
| t :: ts =>
    isLateKey (charsOf (t :: ts) ++ rest) || lateKeys rest ts

namespace Lexer

variable {base : Option (Mode × List Frame)}
variable {ds es : Nest}
variable {l l' mid : Lexer}
variable {c : Char}
variable {cs front tail tail' : List Char}
variable {tokens : List Token}

/- A run takes the texts of its tokens off the front. -/
theorem Takes.rest_eq
    (hTakes : Takes l tokens mid)
    (hClean : mid.Clean) :
    l.rest = Token.charsOf tokens ++ mid.rest := by
  induction tokens generalizing l with
  | nil =>
      cases hTakes
      rfl
  | cons token tokens ih =>
      rcases hTakes.exists_first hClean with
        ⟨c, cs, hChars, rfl, _, hLater⟩
      have hRest := ih hLater
      change cs.drop _ = _ at hRest
      rw [Token.charsOf_cons, List.append_assoc, ← hRest, hChars]
      change _ = (String.ofList _).toList ++ _
      rw [String.toList_ofList, List.cons_append,
        List.take_append_drop]

/- The next token of both, if the tails are not a part of it. -/
theorem Abreast.next
    {t : Transition}
    (hT : l.transition c (cs ++ tail) = t)
    (hAbreast : Abreast base ds l l')
    (hReads : ReadsAlike l l')
    (hSoft : Soft tail)
    (hSoft' : Soft tail')
    (hRest' : l'.rest = c :: (cs ++ tail'))
    (hFits : t.Fits c cs tail tail')
    (hNext : ds.token? t.kind = some es)
    (hNone : l.errorOf? t (c :: cs.take t.more) = none) :
    l'.next =
        (some (l'.tokenOf t (c :: cs.take t.more)),
          l'.past t (c :: cs.take t.more)
            (cs.drop t.more ++ tail')) ∧
      Abreast base es
        (l.past t (c :: cs.take t.more) (cs.drop t.more ++ tail))
        (l'.past t (c :: cs.take t.more)
          (cs.drop t.more ++ tail')) := by
  subst hT
  have hSame : l.transition c (cs ++ tail') =
      l.transition c (cs ++ tail) :=
    of_append hSoft hSoft' hAbreast.isSpace_terminator hFits
  have hToken := hAbreast.transition c (cs ++ tail') hReads
    (by rw [hSame]; exact hNext)
  rw [hSame] at hToken
  have hNext' := next_of_rest_cons hAbreast.clean'.raised
    hAbreast.clean'.stopped hRest'
  rw [hToken, List.take_append_of_le_length hFits.within,
    List.drop_append_of_le_length hFits.within] at hNext'
  exact ⟨hNext', hAbreast.past _ _ hNext hNone⟩

/-
  Both take the same tokens in front of the tails, as long as
  some character is left before these.
-/
theorem Abreast.takes_front
    (spaced : Bool)
    (hAbreast : Abreast base ds l l')
    (hReads : ReadsAlike l l')
    (hSoft : Soft tail)
    (hSoft' : Soft tail')
    (hTakes : Takes l tokens mid)
    (hClean : mid.Clean)
    (hMid : mid.rest = front ++ tail)
    (hFront : front ≠ [])
    (hRest' : l'.rest = Token.charsOf tokens ++ (front ++ tail'))
    (hKeys : tail.isEmpty = tail'.isEmpty ∨
      Token.lateKeys front tokens = false)
    (hBehind :
      ds.behind? (Lexeme.ofTokensAfter spaced tokens) = some es) :
    ∃ tokens' mid',
      Takes l' tokens' mid' ∧
        tokens.map Token.shape = tokens'.map Token.shape ∧
        Abreast base es mid mid' ∧ ReadsAlike mid mid' ∧
        mid'.rest = front ++ tail' := by
  induction tokens generalizing l l' ds spaced with
  | nil =>
      cases hTakes
      cases hBehind
      exact ⟨[], l', .none l', rfl, hAbreast, hReads, hRest'⟩
  | cons token tokens ih =>
      have hChars := hTakes.rest_eq hClean
      rcases hTakes.exists_first hClean with
        ⟨c, cs', hFirst, hToken, hNone, hLater⟩
      have hText : token.text.toList =
          c :: cs'.take (l.transition c cs').more := by
        rw [hToken]
        exact String.toList_ofList
      have hMore := hLater.rest_eq hClean
      change cs'.drop _ = _ at hMore
      -- What the token leaves is in front of the tails.
      obtain ⟨cs, rfl⟩ : ∃ cs, cs' = cs ++ tail := by
        refine ⟨cs'.take (l.transition c cs').more ++
          (Token.charsOf tokens ++ front), ?_⟩
        rw [List.append_assoc, List.append_assoc, ← hMid, ← hMore,
          List.take_append_drop]
      rw [Nest.behind?_ofTokensAfter_cons] at hBehind
      rcases Option.bind_eq_some_iff.mp hBehind with
        ⟨ds', hNext, hBehind'⟩
      rw [hToken] at hNext hBehind'
      generalize hT : l.transition c (cs ++ tail) = t at *
      have hLess : t.more < cs.length := by
        have hPos := List.length_pos_iff.mpr hFront
        have hLength := congrArg List.length hMore
        rw [hMid] at hLength
        simp only [List.length_drop, List.length_append] at hLength
        omega
      have hLe := Nat.le_of_lt hLess
      rw [List.drop_append_of_le_length hLe] at hMore hLater
      rw [List.take_append_of_le_length hLe] at hToken hText hNone hLater
      rw [hMid, ← List.append_assoc] at hMore
      have hDrop := List.append_cancel_right hMore
      have hAll : Token.charsOf (token :: tokens) ++ front =
          c :: cs := by
        rw [Token.charsOf_cons, hText, List.append_assoc, ← hDrop,
          List.cons_append, List.take_append_drop]
      have hFits : t.Fits c cs tail tail' := by
        refine ⟨hLe, fun _ => hLess, ?_, .inl hLess, ?_⟩
        · intro hBad
          have hFaulty := isFaulty_of_errorOf?
            (List.cons_ne_nil _ _) hNone
          rw [hBad] at hFaulty
          cases hFaulty
        · apply hKeys.imp_right
          intro hNone
          rw [← hAll]
          exact (Bool.or_eq_false_iff.mp hNone).1
      rw [← List.append_assoc, hAll, List.cons_append] at hRest'
      rcases hAbreast.next hT hReads hSoft hSoft' hRest' hFits hNext
        hNone with ⟨hNext', hPast⟩
      have hKeys' : tail.isEmpty = tail'.isEmpty ∨
          Token.lateKeys front tokens = false :=
        hKeys.imp_right fun hNone => (Bool.or_eq_false_iff.mp hNone).2
      rcases ih _ hPast ⟨rfl, rfl⟩ hLater (by
          change cs.drop t.more ++ tail' = _
          rw [hDrop, List.append_assoc]) hKeys' hBehind' with
        ⟨tokens', mid', hTakes', hShapes, hEnd⟩
      refine ⟨_, mid', .token l' _ tokens' mid' (by rw [hNext'])
        (by rw [hNext']; exact hTakes'), ?_, hEnd⟩
      rw [List.map_cons, List.map_cons, hShapes, hToken]
      rfl

end Lexer

------------------------------------------------------------
-- The start of an expression
------------------------------------------------------------

/- The modes at the start of an expression. -/
def Mode.isFresh : Mode → Bool
| initial => true
| afterOpening => true
| afterOperator => true
| _ => false

namespace Transition

/- White space or newlines, behind which an expression starts. -/
structure Pauses
    (t : Transition) : Prop where
  kind : t.kind = .whiteSpace ∨ t.kind = .endOfLine
  mode : t.mode.isFresh = true
  change : t.change = .keep
  fault : t.fault = none

/- The same transition, or the same space before an expression. -/
inductive Beside
    (t : Transition) : Transition → Prop where
| same :
    Beside t t
| pauses
    {t' : Transition}
    (hPauses : t.Pauses)
    (hPauses' : t'.Pauses)
    (hMore : t'.more = t.more) :
    Beside t t'

variable {mode mode' : Mode}
variable {pending pending' : Option Bool}

theorem isFresh_afterBlank
    (hFresh : mode.isFresh = true) :
    mode.afterBlank.isFresh = true := by
  cases mode <;> first | rfl | cases hFresh

theorem pauses_blanks
    (cs : List Char)
    (hFresh : mode.isFresh = true) :
    (blanks mode cs).Pauses :=
  ⟨.inl rfl, isFresh_afterBlank hFresh, rfl, rfl⟩

theorem pauses_lineBreak
    (c : Char)
    (cs : List Char)
    (hFresh : mode.isFresh = true) :
    (lineBreak mode c cs).Pauses := by
  unfold lineBreak
  split
  · exact ⟨.inl rfl, hFresh, rfl, rfl⟩
  · exact ⟨.inr rfl, rfl, rfl, rfl⟩

theorem more_lineBreak
    (mode : Mode)
    (c : Char)
    (cs : List Char) :
    (lineBreak mode c cs).more = lineBreakTail c cs := by
  unfold lineBreak
  split <;> rfl

/- At the start of an expression no sign joins two operands. -/
theorem operator_of_isFresh
    (c : Char)
    (cs : List Char)
    (hFresh : mode.isFresh = true) :
    operator mode c cs = operator .initial c cs := by
  cases mode <;> first | rfl | cases hFresh

theorem beside_backslash
    (cs : List Char)
    (hFresh : mode.isFresh = true)
    (hFresh' : mode'.isFresh = true) :
    (backslash mode cs).Beside (backslash mode' cs) := by
  cases cs with
  | nil => exact .same
  | cons c cs =>
      by_cases hBreak : isLineBreak c = true
      · rw [backslash, backslash, if_pos hBreak, if_pos hBreak]
        exact .pauses
          ⟨.inl rfl, isFresh_afterBlank hFresh, rfl, rfl⟩
          ⟨.inl rfl, isFresh_afterBlank hFresh', rfl, rfl⟩ rfl
      · rw [backslash, backslash, if_neg hBreak, if_neg hBreak]
        exact .same

theorem beside_symbol
    (top : Option Frame)
    (c : Char)
    (cs : List Char)
    (hFresh : mode.isFresh = true)
    (hFresh' : mode'.isFresh = true) :
    (symbol mode top c cs).Beside (symbol mode' top c cs) := by
  by_cases hBackslash : c = '\\'
  · subst hBackslash
    exact beside_backslash cs hFresh hFresh'
  · have hSame : symbol mode top c cs = symbol mode' top c cs := by
      unfold symbol
      split <;>
        first
        | rfl
        | exact absurd rfl hBackslash
        | rw [operator_of_isFresh _ cs hFresh,
            operator_of_isFresh _ cs hFresh']
    rw [hSame]
    exact .same

theorem of_of_isFresh
    (top : Option Frame)
    (c : Char)
    (cs : List Char)
    (hFresh : mode.isFresh = true) :
    Transition.of mode pending top c cs =
      expression mode top c cs := by
  cases mode <;> first | rfl | cases hFresh

/- Fresh modes differ in how they take white space. -/
theorem beside_of_isFresh
    (top : Option Frame)
    (c : Char)
    (cs : List Char)
    (hFresh : mode.isFresh = true)
    (hFresh' : mode'.isFresh = true) :
    (Transition.of mode pending top c cs).Beside
      (Transition.of mode' pending' top c cs) := by
  rw [of_of_isFresh top c cs hFresh, of_of_isFresh top c cs hFresh']
  unfold expression
  split
  · exact .pauses (pauses_blanks cs hFresh)
      (pauses_blanks cs hFresh') rfl
  · split
    · refine .pauses (pauses_lineBreak c cs hFresh)
        (pauses_lineBreak c cs hFresh') ?_
      rw [more_lineBreak, more_lineBreak]
    · split
      · exact .same
      · split
        · exact .same
        · exact beside_symbol top c cs hFresh hFresh'

end Transition

------------------------------------------------------------
-- Two lexers at the start of an expression
------------------------------------------------------------

/- White space, or a newline that ends a line. -/
def Token.isPause
    (t : Token) : Bool :=
  t.kind == .whiteSpace || t.kind == .endOfLine

namespace Lexer

variable {base : Option (Mode × List Frame)}
variable {ds es : Nest}
variable {l l' last : Lexer}
variable {tokens : List Token}
variable {t : Transition}
variable {c : Char}
variable {cs : List Char}

/- The next tokens differ in nothing but white space. -/
theorem Abreast.beside
    (hAbreast : Abreast base ds l l')
    (hFresh : l.mode.isFresh = true)
    (hFresh' : l'.mode.isFresh = true)
    (hNext : ds.token? (l.transition c cs).kind = some es) :
    (l.transition c cs).Beside (l'.transition c cs) := by
  -- The second lexer is put into the mode of the first.
  have hTwin : Abreast base ds l
      { l' with mode := l.mode, sigil := l.sigil } :=
    { hAbreast with clean' := ⟨hAbreast.clean'.errors,
        hAbreast.clean'.raised, hAbreast.clean'.stopped,
        hAbreast.clean'.ended⟩ }
  have hSame := hTwin.transition c cs ⟨rfl, rfl⟩ hNext
  rw [← hSame]
  exact beside_of_isFresh _ c cs hFresh hFresh'

theorem isPause_of_pauses
    (hPauses : t.Pauses)
    (text : List Char) :
    (l.tokenOf t text).isPause = true := by
  rcases hPauses.kind with hKind | hKind <;>
    simp [Token.isPause, tokenOf, hKind]

/- White space is no error. -/
theorem errorOf?_of_pauses
    (text : List Char)
    (hPauses : t.Pauses) :
    l.errorOf? t text = none := by
  unfold errorOf?
  rw [hPauses.fault]
  rcases hPauses.kind with hKind | hKind <;> rw [hKind] <;> rfl

/- Of the second lexer only the frames and the errors matter. -/
theorem Abreast.congr_right
    {l'' : Lexer}
    (hAbreast : Abreast base ds l l')
    (hFrames : l''.frames = l'.frames)
    (hClean : l''.Clean) :
    Abreast base ds l l'' := by
  refine ⟨?_, hAbreast.terminators, hAbreast.coherent,
    hAbreast.clean, hClean⟩
  rw [hFrames]
  exact hAbreast.frames

/- Both lexers are past white space. -/
theorem Abreast.past_pauses
    {t' : Transition}
    (text rest : List Char)
    (hAbreast : Abreast base ds l l')
    (hNext : ds.token? (l.transition c cs).kind = some es)
    (hPauses : (l.transition c cs).Pauses)
    (hPauses' : t'.Pauses) :
    Abreast base es (l.past (l.transition c cs) text rest)
      (l'.past t' text rest) := by
  have hPast := hAbreast.past rest rest hNext
    (errorOf?_of_pauses text hPauses)
  have hClean' := hAbreast.clean'
  apply hPast.congr_right
  · simp only [Lexer.past, hPauses.change, hPauses'.change,
      Change.apply]
  · refine ⟨?_, hClean'.raised, hClean'.stopped, hClean'.ended⟩
    simp [Lexer.past, hClean'.errors,
      errorOf?_of_pauses _ hPauses']

/-
  Up to the first token that is no white space both take the
  same characters, and behind it the same tokens.
-/
theorem Abreast.takes_beside
    (spaced : Bool)
    (hAbreast : Abreast base ds l l')
    (hFresh : l.mode.isFresh = true)
    (hFresh' : l'.mode.isFresh = true)
    (hRest : l.rest = l'.rest)
    (hTakes : Takes l tokens last)
    (hClean : last.Clean)
    (hBehind :
      ds.behind? (Lexeme.ofTokensAfter spaced tokens) = some es) :
    ∃ gaps gaps' more more' last',
      tokens = gaps ++ more ∧
        gaps.all Token.isPause = true ∧
        gaps'.all Token.isPause = true ∧
        gaps.map Token.text = gaps'.map Token.text ∧
        more.map Token.shape = more'.map Token.shape ∧
        Takes l' (gaps' ++ more') last' ∧
        Abreast base es last last' ∧ last.rest = last'.rest ∧
        (ReadsAlike last last' ∨
          more = [] ∧ last.mode.isFresh = true ∧
            last'.mode.isFresh = true) := by
  induction tokens generalizing l l' ds spaced with
  | nil =>
      cases hTakes
      cases hBehind
      exact ⟨[], [], [], [], l', rfl, rfl, rfl, rfl, rfl, .none l',
        hAbreast, hRest, .inr ⟨rfl, hFresh, hFresh'⟩⟩
  | cons token tokens ih =>
      rcases hTakes.exists_first hClean with
        ⟨c, cs, hChars, hToken, hNone, hLater⟩
      rw [Nest.behind?_ofTokensAfter_cons] at hBehind
      rcases Option.bind_eq_some_iff.mp hBehind with
        ⟨ds', hNext, hBehind'⟩
      rw [hToken] at hNext
      have hChars' : l'.rest = c :: cs := hRest.symm.trans hChars
      have hBeside := hAbreast.beside hFresh hFresh' hNext
      generalize hT' : l'.transition c cs = t' at hBeside
      cases hBeside with
      | same =>
          have hPast := hAbreast.past
            (cs.drop (l.transition c cs).more)
            (cs.drop (l.transition c cs).more) hNext hNone
          rcases hPast.takes _ ⟨rfl, rfl⟩ rfl hLater hClean hBehind'
            with ⟨tokens', last', hTakes', hShapes, hEnd, hReads, hLast⟩
          rw [← hT'] at hTakes'
          refine ⟨[], [], token :: tokens, _, last', rfl, rfl, rfl, rfl,
            ?_, .cons hAbreast.clean' hChars' hTakes', hEnd, hLast,
            .inl hReads⟩
          rw [List.map_cons, List.map_cons, hShapes, hToken, hT']
          rfl
      | pauses hPauses hPauses' hMore =>
          have hPast := hAbreast.past_pauses
            (c :: cs.take (l.transition c cs).more)
            (cs.drop (l.transition c cs).more) hNext hPauses
            hPauses'
          rcases ih _ hPast hPauses.mode hPauses'.mode rfl hLater
              hBehind' with
            ⟨gaps, gaps', more, more', last', rfl, hGaps, hGaps',
              hTexts, hShapes, hTakes', hEnd⟩
          rw [← hT'] at hPauses' hMore hTakes'
          rw [← hMore] at hTakes'
          refine ⟨token :: gaps, _ :: gaps', more, more', last', rfl,
            ?_, ?_, ?_, hShapes,
            .cons hAbreast.clean' hChars' hTakes', hEnd⟩
          · rw [List.all_cons, hGaps, hToken,
              isPause_of_pauses hPauses]
            rfl
          · rw [List.all_cons, hGaps', isPause_of_pauses hPauses']
            rfl
          · rw [List.map_cons, List.map_cons, hTexts, hToken, hMore]
            rfl

end Lexer

end ElixirReader
