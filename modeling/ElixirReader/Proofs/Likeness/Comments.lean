import ElixirReader.Proofs.Lexer.Literals
import ElixirReader.Proofs.Likeness.Documents
import ElixirReader.Proofs.Likeness.Runs

/-
  This file puts comments in front of newlines. Behind one the
  lexer takes a newline for the end of a line that it would
  have taken for white space before. The parser skips such
  ends of lines, but for those behind an operator that it does
  not let go on in the next line.

  Key definitions include:
    * `Token.isNewline`
    * `Token.areInCode`
    * `Before.resists`
    * `commented`
    * `Lexer.SkipsTo`
    * `Lexer.PastComment`

  Main declarations:
    * `Lexer.Abreast.takes_commented`
    * `Lexer.Abreast.takes_behind_comment`
    * `quoteSource_commented`
-/

namespace ElixirReader

open Parse Transition

------------------------------------------------------------
-- Sources with comments
------------------------------------------------------------

/- A newline that ends a line, or is white space between two. -/
def Token.isNewline
    (t : Token) : Bool :=
  t.isPause && t.text.toList.head?.any isLineBreak

/- Whether code is read behind some tokens, and no literal. -/
def Token.areInCode
    (tokens : List Token) : Bool :=
  (Token.enclosures? [] tokens).any Enclosure.isOutside

/-
  Whether it matters that newlines come before a kind, if the
  lexeme in front of them is an operator.
-/
def Before.resists
    (b : Before)
    (next : Kind) : Bool :=
  match b.kind with
  | .operator o => !operatorAdmits b.joins next o
  | _ => false

/- A source with a comment put between its two parts. -/
def commented
    (front : List Char)
    (comment : String)
    (back : List Char) : String :=
  String.ofList (front ++ ' ' :: '#' :: (comment.toList ++ back))

/- What leaves an expression open admits newlines otherwise. -/
theorem Before.admitsBreak_of_leavesOpen
    {b : Before}
    {next : Kind}
    (hOpen : b.kind.leavesOpen = true)
    (hResists : b.resists next = false) :
    b.admitsBreak next = true := by
  rcases b with ⟨k, joins⟩
  cases k with
  | operator o => simpa [resists, admitsBreak] using hResists
  | _ => first | rfl | exact hOpen

------------------------------------------------------------
-- A comment in front of a newline
------------------------------------------------------------

namespace Lexer

variable {base : Option (Mode × List Frame)}
variable {ds es : Nest}
variable {l l' mid mid' last : Lexer}
variable {n c : Char}
variable {ns cs comment : List Char}

/-
  A lexer takes trivia, the last of which is a comment, up to
  some characters.
-/
structure SkipsTo
    (rest : List Char)
    (gap : List Token)
    (l last : Lexer) : Prop where
  takes : Takes l gap last
  trivia : ∀ t ∈ gap, t.kind.isTrivia = true
  ends : ∃ init t, gap = init ++ [t]
  rest_eq : last.rest = rest
  mode : last.mode = l.mode.afterComment
  frames : last.frames = l.frames
  clean : last.Clean

/- A newline behind code stands where white space is read. -/
theorem Takes.readsSpace
    {t : Token}
    {later : List Token}
    (hTakes : Takes l (t :: later) last)
    (hClean : last.Clean)
    (hGroup : l.mode.isGroup = false)
    (hPause : t.isPause = true) :
    l.mode.readsSpace = true := by
  rw [Mode.readsSpace, hGroup, Bool.not_false, Bool.true_and,
    bne_iff_ne]
  intro hCharacter
  rcases hTakes.exists_first hClean with
    ⟨c, cs, _, rfl, _, _⟩
  unfold transition at hPause
  rw [hCharacter] at hPause
  cases hPause

/- A comment goes up to the newline. -/
theorem exists_skipsTo_of_hash
    (comment : List Char)
    (hClean : l.Clean)
    (hMode : l.mode.readsSpace = true)
    (hBreak : isLineBreak n = true)
    (hComment : ∀ c ∈ comment, isLineBreak c = false)
    (hRest : l.rest = '#' :: (comment ++ n :: ns)) :
    ∃ gap last, SkipsTo (n :: ns) gap l last := by
  have hT : l.transition '#' (comment ++ n :: ns) =
      Transition.comment l.mode.afterComment (comment ++ n :: ns) :=
    of_hash hMode
  have hMore : (Transition.comment l.mode.afterComment
      (comment ++ n :: ns)).more = comment.length :=
    countWhile_append_of_forall
      (fun c hMem => by rw [hComment c hMem]; rfl)
      (fun c hHead => by cases hHead; rw [hBreak]; rfl)
  rcases takes_one hClean hRest hT hMore
      (errorOf?_of_isSpacing _ rfl rfl) with
    ⟨hTakes, hLast⟩
  refine ⟨_, _, hTakes, ?_, ⟨[], _, rfl⟩, rfl, rfl, rfl, hLast⟩
  intro t hMem
  rw [List.mem_singleton.mp hMem]
  rfl

theorem afterComment_afterBlank
    (mode : Mode) :
    mode.base.afterBlank.afterComment = mode.afterComment := by
  cases mode <;> rfl

/- So it does behind blanks. -/
theorem exists_skipsTo_of_isBlank
    (c : Char)
    (cs : List Char)
    (hClean : l.Clean)
    (hMode : l.mode.readsSpace = true)
    (hBreak : isLineBreak n = true)
    (hComment : ∀ c ∈ comment, isLineBreak c = false)
    (hBlanks : ∀ d ∈ c :: cs, isBlank d = true)
    (hRest : l.rest = c :: (cs ++ '#' :: (comment ++ n :: ns))) :
    ∃ gap last, SkipsTo (n :: ns) gap l last := by
  have hT : l.transition c (cs ++ '#' :: (comment ++ n :: ns)) =
      blanks l.mode.base (cs ++ '#' :: (comment ++ n :: ns)) :=
    of_of_isBlank hMode (hBlanks c List.mem_cons_self)
  have hMore : (blanks l.mode.base
      (cs ++ '#' :: (comment ++ n :: ns))).more = cs.length :=
    countWhile_append_of_forall
      (fun d hMem => hBlanks d (List.mem_cons_of_mem _ hMem))
      (fun d hHead => by cases hHead; rfl)
  rcases takes_one hClean hRest hT hMore
      (errorOf?_of_isSpacing _ rfl rfl) with
    ⟨hTakes, hPast⟩
  rcases exists_skipsTo_of_hash comment hPast
      (Mode.readsSpace_afterBlank _) hBreak hComment
      rfl with
    ⟨gap, last, hSkips⟩
  refine ⟨_, last, hTakes.trans hSkips.takes, ?_, ?_,
    hSkips.rest_eq, ?_, hSkips.frames, hSkips.clean⟩
  · intro t hMem
    rcases List.mem_cons.mp hMem with rfl | hMem
    · rfl
    · exact hSkips.trivia t hMem
  · rcases hSkips.ends with ⟨init, t, rfl⟩
    exact ⟨_ :: init, t, rfl⟩
  · rw [hSkips.mode]
    exact afterComment_afterBlank l.mode

------------------------------------------------------------
-- Up to the newline
------------------------------------------------------------

/- Trivia in front of a newline are no lexemes. -/
theorem SkipsTo.areSame
    {rest : List Char}
    {gap tokens : List Token}
    (spaced : Bool)
    (tokens' : List Token)
    (hSkips : SkipsTo rest gap l last)
    (hSame : Lexeme.AreSame (Lexeme.ofTokensAfter spaced tokens)
      (Lexeme.ofTokensAfter spaced tokens')) :
    Lexeme.AreSame (Lexeme.ofTokensAfter spaced tokens)
      (Lexeme.ofTokensAfter spaced (tokens' ++ gap)) := by
  rw [Lexeme.ofTokensAfter_append,
    Lexeme.ofTokensAfter_of_isTrivia _ hSkips.trivia,
    List.append_nil]
  exact hSame

/- What comes next stands behind a comment. -/
theorem SkipsTo.spacedBehind
    {rest : List Char}
    {gap : List Token}
    (spaced : Bool)
    (tokens : List Token)
    (hSkips : SkipsTo rest gap l last) :
    Token.spacedBehind spaced (tokens ++ gap) = true := by
  rcases hSkips.ends with ⟨init, t, rfl⟩
  rw [← List.append_assoc, Token.spacedBehind_append]
  exact hSkips.trivia t
    (List.mem_append.mpr (.inr List.mem_cons_self))

/- What both have taken does not hang on trivia of the second. -/
theorem SkipsTo.abreast
    {rest : List Char}
    {gap : List Token}
    (hSkips : SkipsTo rest gap l' last)
    (hAbreast : Abreast base ds l l') :
    Abreast base ds l last :=
  hAbreast.congr_right hSkips.frames hSkips.clean

/-
  A second lexer that has taken the same lexemes as the first
  one, and a comment behind them.
-/
structure PastComment
    (base : Option (Mode × List Frame))
    (es : Nest)
    (spaced : Bool)
    (tokens tokens' : List Token)
    (mid mid' : Lexer) : Prop where
  same :
    Lexeme.AreSame (Lexeme.ofTokensAfter spaced tokens)
      (Lexeme.ofTokensAfter spaced tokens')
  spaced : Token.spacedBehind spaced tokens' = true
  abreast : Abreast base es mid mid'
  rest_eq : mid'.rest = mid.rest
  mode : mid'.mode = mid.mode.afterComment

/- White space, or a comment, goes on up to the newline. -/
theorem exists_skipsTo_behind_gap
    (hClean : l'.Clean)
    (hMode : l.mode.readsSpace = true)
    (hReads : ReadsAlike l l')
    (hStart : isBlank c = true ∨ c = '#')
    (hMore : (l.transition c (cs ++ n :: ns)).more = cs.length)
    (hBreak : isLineBreak n = true)
    (hComment : ∀ c ∈ comment, isLineBreak c = false)
    (hRest' : l'.rest =
      c :: (cs ++ ' ' :: '#' :: (comment ++ n :: ns))) :
    (l.transition c (cs ++ n :: ns)).mode.afterComment =
        l.mode.afterComment ∧
      ∃ gap last, SkipsTo (n :: ns) gap l' last := by
  rcases hStart with hBlank | rfl
  · have hT : l.transition c (cs ++ n :: ns) =
        blanks l.mode.base (cs ++ n :: ns) :=
      of_of_isBlank hMode hBlank
    have hBlanks : ∀ d ∈ cs, isBlank d = true :=
      forall_of_countWhile (by rw [← hMore, hT]; rfl)
    rw [hT]
    refine ⟨afterComment_afterBlank l.mode,
      exists_skipsTo_of_isBlank c (cs ++ [' ']) hClean
        (hReads.mode ▸ hMode) hBreak hComment ?_
        (by rw [hRest']; simp)⟩
    simpa [hBlank, or_imp, forall_and] using ⟨hBlanks, rfl⟩
  · have hT : l.transition '#' (cs ++ n :: ns) =
        Transition.comment l.mode.afterComment (cs ++ n :: ns) :=
      of_hash hMode
    have hText : ∀ d ∈ cs, (!isLineBreak d) = true :=
      forall_of_countWhile (by rw [← hMore, hT]; rfl)
    rw [hT]
    refine ⟨by cases l.mode <;> rfl, exists_skipsTo_of_hash
      (cs ++ ' ' :: '#' :: comment) hClean
      (hReads.mode ▸ hMode) hBreak ?_ (by rw [hRest']; simp)⟩
    simp only [List.mem_append, List.mem_cons, or_imp, forall_and,
      forall_eq]
    exact ⟨fun d hMem => by simpa using hText d hMem, rfl, rfl,
      hComment⟩

/- Any other token ends where the newline, or a blank, is. -/
theorem fits_newline
    {t : Transition}
    (rest : List Char)
    (hMore : t.more = cs.length)
    (hCode : t.mode.isGroup = false)
    (hNone : l.errorOf? t (c :: cs) = none)
    (hGap : ¬ (t.kind.isTrivia = true ∧
      (isBlank c = true ∨ c = '#'))) :
    t.Fits c cs (n :: ns) (' ' :: rest) := by
  refine ⟨Nat.le_of_eq hMore, ?_, ?_,
    .inr (.inr (.inl ⟨⟨rfl, ?_⟩, ?_, ?_⟩)), .inl rfl⟩
  · intro hGroup
    rw [hCode] at hGroup
    cases hGroup
  · intro hBad
    have hFaulty := isFaulty_of_errorOf? (List.cons_ne_nil _ _) hNone
    rw [hBad] at hFaulty
    cases hFaulty
  · intro hHead
    cases hHead
  · intro hBlank hKind
    exact hGap ⟨by rw [hKind]; rfl, .inl hBlank⟩
  · intro hHash hKind
    exact hGap ⟨by rw [hKind]; rfl, .inr hHash⟩

/-
  The last token in front of a newline, and the same one with
  a comment behind it. Where it is white space, or a comment
  itself, it goes on up to the new comment or through it.
-/
theorem Abreast.takes_last
    {token : Token}
    (spaced : Bool)
    (hAbreast : Abreast base ds l l')
    (hReads : ReadsAlike l l')
    (hTakes : Takes l [token] mid)
    (hClean : mid.Clean)
    (hMode : mid.mode.readsSpace = true)
    (hMid : mid.rest = n :: ns)
    (hBreak : isLineBreak n = true)
    (hComment : ∀ c ∈ comment, isLineBreak c = false)
    (hRest' : l'.rest =
      token.text.toList ++ ' ' :: '#' :: (comment ++ n :: ns))
    (hNext : ds.token? token.kind = some es) :
    ∃ tokens' mid', Takes l' tokens' mid' ∧
      PastComment base es spaced [token] tokens' mid mid' := by
  rcases hTakes.exists_first hClean with
    ⟨c, cs', _, hToken, hNone, hLater⟩
  cases hLater
  change cs'.drop _ = n :: ns at hMid
  obtain ⟨cs, rfl⟩ : ∃ cs, cs' = cs ++ n :: ns :=
    ⟨_, by rw [← hMid, List.take_append_drop]⟩
  have hMore : (l.transition c (cs ++ n :: ns)).more = cs.length := by
    have hLength := congrArg List.length hMid
    simp only [List.length_drop, List.length_append,
      List.length_cons] at hLength
    omega
  rw [hMore, List.take_left] at hToken hNone
  rw [hMore, List.take_left, List.drop_left] at hMode ⊢
  rw [hToken] at hRest' hNext ⊢
  change l'.rest = (String.ofList (c :: cs)).toList ++ _ at hRest'
  rw [String.toList_ofList, List.cons_append] at hRest'
  generalize hT : l.transition c (cs ++ n :: ns) = t at *
  change t.mode.readsSpace = true at hMode
  have hCode : t.mode.isGroup = false := by
    rw [Mode.readsSpace, Bool.and_eq_true, Bool.not_eq_true'] at hMode
    exact hMode.1
  by_cases hGap :
      t.kind.isTrivia = true ∧ (isBlank c = true ∨ c = '#')
  · rcases hGap with ⟨hTrivia, hStart⟩
    have hSpacing : t.kind.isSpacing = true := by
      rw [Kind.isSpacing, hTrivia]
      rfl
    have hSame : ds = es := by
      change ds.token? t.kind = some es at hNext
      rw [Nest.token?, if_pos hTrivia] at hNext
      exact Option.some.inj hNext
    subst hSame hT
    rcases exists_skipsTo_behind_gap hAbreast.clean'
        (hAbreast.coherent.readsSpace hSpacing hCode) hReads hStart
        hMore hBreak hComment hRest' with
      ⟨hModes, gap, last, hSkips⟩
    refine ⟨gap, last, hSkips.takes, ?_, ?_,
      hSkips.abreast (hAbreast.past_left _ hTrivia hNone),
      hSkips.rest_eq, ?_⟩
    · rw [Lexeme.ofTokensAfter_of_isTrivia _ hSkips.trivia,
        Lexeme.ofTokensAfter, if_pos (by exact hTrivia)]
      exact .nil
    · exact hSkips.spacedBehind spaced []
    · rw [hSkips.mode, ← hReads.mode]
      exact hModes.symm
  · rcases hAbreast.next hT hReads (soft_newline hBreak)
        (soft_blank _) hRest' (fits_newline _ hMore hCode hNone hGap)
        hNext (by rw [hMore, List.take_length]; exact hNone) with
      ⟨hNext', hPast⟩
    rw [hMore, List.take_length, List.drop_length] at hNext' hPast
    rcases exists_skipsTo_of_isBlank ' ' []
        hPast.clean' hMode hBreak hComment
        (by simp [isBlank]) rfl with
      ⟨gap, last, hSkips⟩
    refine ⟨_, last, .token l' _ gap last (by rw [hNext'])
      (by rw [hNext']; exact hSkips.takes), ?_,
      hSkips.spacedBehind spaced [_], hSkips.abreast hPast,
      hSkips.rest_eq, hSkips.mode⟩
    apply hSkips.areSame spaced [_]
    exact Lexeme.areSame_ofTokensAfter spaced rfl

/- All tokens in front of a newline, and a comment behind them. -/
theorem Abreast.takes_commented
    {tokens : List Token}
    (spaced : Bool)
    (hAbreast : Abreast base ds l l')
    (hReads : ReadsAlike l l')
    (hTakes : Takes l tokens mid)
    (hClean : mid.Clean)
    (hMode : mid.mode.readsSpace = true)
    (hMid : mid.rest = n :: ns)
    (hBreak : isLineBreak n = true)
    (hComment : ∀ c ∈ comment, isLineBreak c = false)
    (hRest' : l'.rest =
      Token.charsOf tokens ++ ' ' :: '#' :: (comment ++ n :: ns))
    (hBehind :
      ds.behind? (Lexeme.ofTokensAfter spaced tokens) = some es) :
    ∃ tokens' mid', Takes l' tokens' mid' ∧
      PastComment base es spaced tokens tokens' mid mid' := by
  rcases List.eq_nil_or_concat tokens with rfl | ⟨init, token, rfl⟩
  · cases hTakes
    cases hBehind
    rcases exists_skipsTo_of_isBlank ' ' []
        hAbreast.clean' (hReads.mode ▸ hMode) hBreak hComment
        (by simp [isBlank]) hRest' with
      ⟨gap, mid', hSkips⟩
    exact ⟨gap, mid', hSkips.takes,
      hSkips.areSame spaced [] .nil,
      hSkips.spacedBehind spaced [], hSkips.abreast hAbreast,
      hSkips.rest_eq.trans hMid.symm, hReads.mode ▸ hSkips.mode⟩
  · rw [List.concat_eq_append] at *
    rcases hTakes.split with ⟨before, hInit, hLast⟩
    have hBefore := hLast.clean hClean
    have hChars := hLast.rest_eq hClean
    rw [hMid, Token.charsOf_cons, Token.charsOf_nil,
      List.append_nil] at hChars
    rw [Lexeme.ofTokensAfter_append] at hBehind
    rcases Nest.exists_of_behind?_append hBehind with
      ⟨ds', hBehindInit, hBehindLast⟩
    rw [Nest.behind?_ofTokensAfter_cons] at hBehindLast
    rcases Option.bind_eq_some_iff.mp hBehindLast with
      ⟨es', hNext, hEs⟩
    cases hEs
    have hFront : token.text.toList ≠ [] := by
      rcases hLast.exists_first hClean with
        ⟨c, cs, _, rfl, _, _⟩
      change (String.ofList _).toList ≠ []
      rw [String.toList_ofList]
      exact List.cons_ne_nil _ _
    rcases hAbreast.takes_front spaced hReads (soft_newline hBreak)
        (soft_blank ('#' :: (comment ++ n :: ns))) hInit hBefore
        hChars hFront (by simp [hRest', Token.charsOf]) (.inl rfl)
        hBehindInit with
      ⟨init', before', hInit', hShapes, hAbreast', hReads', hRest''⟩
    rcases hAbreast'.takes_last (Token.spacedBehind spaced init)
        hReads' hLast hClean hMode hMid hBreak hComment hRest''
        hNext with
      ⟨last', mid', hLast', hPast⟩
    refine ⟨init' ++ last', mid', hInit'.trans hLast', ?_, ?_,
      hPast.abreast, hPast.rest_eq, hPast.mode⟩
    · rw [Lexeme.ofTokensAfter_append, Lexeme.ofTokensAfter_append,
        ← Token.spacedBehind_of_shapes spaced hShapes]
      exact List.rel_append
        (Lexeme.areSame_ofTokensAfter spaced hShapes) hPast.same
    · rw [Token.spacedBehind_append,
        ← Token.spacedBehind_of_shapes spaced hShapes]
      exact hPast.spaced

------------------------------------------------------------
-- From the newline on
------------------------------------------------------------

/- Only behind a dot is a newline white space in both. -/
theorem newlineIsBlank_afterComment
    {mode : Mode}
    (hBlank : mode.base.newlineIsBlank = false) :
    mode.afterComment.base.newlineIsBlank = false := by
  cases mode <;> first | rfl | cases hBlank

theorem isContinued_of_newlineIsBlank
    {mode : Mode}
    (hBlank : mode.base.newlineIsBlank = true)
    (hDot : mode ≠ .afterDot) :
    mode.isContinued = true ∧ mode.base.isFresh = true ∧
      mode.afterComment = .initial := by
  cases mode <;>
    first | exact ⟨rfl, rfl, rfl⟩ | exact absurd rfl hDot | cases hBlank

/-
  Where the newline is the same token for both, all that follow
  are the same.
-/
theorem Abreast.takes_newline
    {b : Before}
    {later : List Token}
    {t : Token}
    (spaced : Bool)
    (hAbreast : Abreast base ds mid mid')
    (hRest : mid.rest = mid'.rest)
    (hTakes : Takes mid (t :: later) last)
    (hClean : last.Clean)
    (hPause : t.isPause = true)
    (hSame : ∀ c cs, mid.rest = c :: cs →
      mid'.transition c cs = mid.transition c cs)
    (hBehind :
      ds.behind? (Lexeme.ofTokensAfter spaced (t :: later)) =
        some es) :
    ∃ tokens' last', Takes mid' tokens' last' ∧
      Matches b (Lexeme.ofTokensAfter spaced (t :: later))
        (Lexeme.ofTokensAfter true tokens') ∧
      Abreast base es last last' ∧ last.rest = last'.rest := by
  rcases hTakes.exists_first hClean with
    ⟨c, cs, hFirst, hToken, hNone, hLater⟩
  rw [Nest.behind?_ofTokensAfter_cons] at hBehind
  rcases Option.bind_eq_some_iff.mp hBehind with
    ⟨ds', hNext, hBehind'⟩
  rw [hToken] at hNext
  have hPast := hAbreast.past (cs.drop (mid.transition c cs).more)
    (cs.drop (mid.transition c cs).more) hNext hNone
  rcases hPast.takes _ ⟨rfl, rfl⟩ rfl hLater hClean hBehind' with
    ⟨later', last', hTakes', hShapes, hEnd, _, hLast⟩
  rw [← hSame c cs hFirst] at hTakes'
  refine ⟨_, last', .cons hAbreast.clean' (hRest.symm.trans hFirst)
    hTakes', ?_, hEnd, hLast⟩
  have hKind : t.kind = (mid'.tokenOf (mid'.transition c cs)
      (c :: cs.take (mid'.transition c cs).more)).kind := by
    rw [hToken, hSame c cs hFirst]
    rfl
  rw [Lexeme.ofTokensAfter, Lexeme.ofTokensAfter, ← hKind]
  split
  · exact .of_areSame (Lexeme.areSame_ofTokensAfter true hShapes)
  · rename_i hPlain
    have hLine : t.kind = .endOfLine := by
      rw [Token.isPause, Bool.or_eq_true, beq_iff_eq, beq_iff_eq]
        at hPause
      rcases hPause with hWhite | hLine
      · rw [hWhite] at hPlain
        exact absurd rfl hPlain
      · exact hLine
    exact .next ⟨rfl, fun hOther => absurd hLine hOther⟩
      (.inl hLine) (.of_areSame (Lexeme.areSame_ofTokensAfter false hShapes))

/-
  Behind a newline that is white space for the first only, an
  expression goes on for both.
-/
theorem Abreast.takes_blank_newline
    {b : Before}
    {later : List Token}
    {t : Token}
    (spaced : Bool)
    (hAbreast : Abreast base ds mid mid')
    (hRest : mid.rest = mid'.rest)
    (hTakes : Takes mid (t :: later) last)
    (hClean : last.Clean)
    (hFirst : ∀ c cs, mid.rest = c :: cs →
      mid.transition c cs =
        plain .whiteSpace (lineBreakTail c cs) mid.mode.base)
    (hSecond : ∀ c cs, mid.rest = c :: cs →
      mid'.transition c cs =
        plain .endOfLine (lineBreakTail c cs) .initial)
    (hFresh : mid.mode.base.isFresh = true)
    (hAdmits :
      b.admitsBreak (nextKind (Lexeme.ofTokensAfter true later)) =
        true)
    (hBehind :
      ds.behind? (Lexeme.ofTokensAfter spaced (t :: later)) =
        some es) :
    ∃ tokens' last', Takes mid' tokens' last' ∧
      Matches b (Lexeme.ofTokensAfter spaced (t :: later))
        (Lexeme.ofTokensAfter true tokens') ∧
      Abreast base es last last' ∧ last.rest = last'.rest := by
  rcases hTakes.exists_first hClean with
    ⟨c, cs, hChars, hToken, hNone, hLater⟩
  have hT := hFirst c cs hChars
  have hT' := hSecond c cs hChars
  rw [Nest.behind?_ofTokensAfter_cons] at hBehind
  rcases Option.bind_eq_some_iff.mp hBehind with
    ⟨ds', hNext, hBehind'⟩
  have hWhite : t.kind = .whiteSpace := by
    rw [hToken, hT]
    rfl
  rw [hToken] at hNext
  have hPauses : (mid.transition c cs).Pauses := by
    rw [hT]
    exact ⟨.inl rfl, hFresh, rfl, rfl⟩
  have hPauses' : (mid'.transition c cs).Pauses := by
    rw [hT']
    exact ⟨.inr rfl, rfl, rfl, rfl⟩
  have hPast := hAbreast.past_pauses
    (c :: cs.take (mid.transition c cs).more)
    (cs.drop (mid.transition c cs).more) hNext hPauses hPauses'
  rcases hPast.takes_beside _ hPauses.mode hPauses'.mode rfl
      hLater hClean hBehind' with
    ⟨gaps, gaps', more, more', last', rfl, hGaps, hGaps', _,
      hShapes, hTakes', hEnd, hLast, _⟩
  have hMore : (mid.transition c cs).more =
      (mid'.transition c cs).more := by
    rw [hT, hT']
    rfl
  rw [hMore] at hTakes'
  refine ⟨_, last', .cons hAbreast.clean' (hRest.symm.trans hChars)
    hTakes', ?_, hEnd, hLast⟩
  have hLine : (mid'.tokenOf (mid'.transition c cs)
      (c :: cs.take (mid'.transition c cs).more)).kind =
        .endOfLine := by
    rw [hT']
    rfl
  rw [Lexeme.ofTokensAfter, Lexeme.ofTokensAfter,
    if_pos (by rw [hWhite]; rfl),
    if_neg (by rw [hLine]; exact Bool.false_ne_true),
    Lexeme.ofTokensAfter_append, Lexeme.ofTokensAfter_append,
    ← List.cons_append]
  rw [Lexeme.ofTokensAfter_append, nextKind,
    dropRun_append isGap_isLineEnd
      (areLineEnds_ofTokensAfter true hGaps)] at hAdmits
  refine .of_shapes_behind_breaks hShapes
    (areLineEnds_ofTokensAfter true hGaps) ?_
    Token.spacedBehind_of_ofTokensAfter
    (fun hNone => absurd hNone (List.cons_ne_nil _ _)) hAdmits
  rintro l (_ | ⟨_, hMem⟩)
  · exact hLine
  · exact areLineEnds_ofTokensAfter false hGaps' l hMem

/- The newline and all tokens behind it, with a comment before. -/
theorem Abreast.takes_behind_comment
    {b : Before}
    {later : List Token}
    {t : Token}
    (spaced : Bool)
    (hAbreast : Abreast base ds mid mid')
    (hMode : mid.mode.readsSpace = true)
    (hMode' : mid'.mode = mid.mode.afterComment)
    (hMid : mid.rest = n :: ns)
    (hMid' : mid'.rest = n :: ns)
    (hBreak : isLineBreak n = true)
    (hTakes : Takes mid (t :: later) last)
    (hClean : last.Clean)
    (hPause : t.isPause = true)
    (hExplains : b.Explains mid.mode)
    (hResists : t.kind = .whiteSpace →
      b.resists (nextKind (Lexeme.ofTokens later)) = false)
    (hBehind :
      ds.behind? (Lexeme.ofTokensAfter spaced (t :: later)) =
        some es) :
    ∃ tokens' last', Takes mid' tokens' last' ∧
      Matches b (Lexeme.ofTokensAfter spaced (t :: later))
        (Lexeme.ofTokensAfter true tokens') ∧
      Abreast base es last last' ∧ last.rest = last'.rest := by
  have hRest := hMid.trans hMid'.symm
  have hT : ∀ c cs, mid.rest = c :: cs →
      mid.transition c cs = lineBreak mid.mode.base c cs := by
    intro c cs hChars
    cases hMid.symm.trans hChars
    exact of_of_isLineBreak hMode hBreak
  have hT' : ∀ c cs, mid.rest = c :: cs →
      mid'.transition c cs =
        lineBreak mid.mode.afterComment.base c cs := by
    intro c cs hChars
    cases hMid.symm.trans hChars
    rw [← hMode']
    exact of_of_isLineBreak
      (by rw [hMode']; cases mid.mode <;> rfl) hBreak
  cases hBlank : mid.mode.base.newlineIsBlank with
  | false =>
      apply hAbreast.takes_newline spaced hRest hTakes hClean hPause
        _ hBehind
      intro c cs hChars
      rw [hT c cs hChars, hT' c cs hChars, lineBreak, lineBreak,
        hBlank, newlineIsBlank_afterComment hBlank]
      rfl
  | true =>
      by_cases hDot : mid.mode = .afterDot
      · apply hAbreast.takes_newline spaced hRest hTakes hClean
          hPause _ hBehind
        intro c cs hChars
        rw [hT c cs hChars, hT' c cs hChars, hDot]
        rfl
      · rcases isContinued_of_newlineIsBlank hBlank hDot with
          ⟨hContinued, hFresh, hInitial⟩
        have hFirst : ∀ c cs, mid.rest = c :: cs →
            mid.transition c cs =
              plain .whiteSpace (lineBreakTail c cs)
                mid.mode.base := by
          intro c cs hChars
          rw [hT c cs hChars, lineBreak, if_pos hBlank]
        have hWhite : t.kind = .whiteSpace := by
          rcases hTakes.exists_first hClean with
            ⟨c, cs, hChars, rfl, _, _⟩
          rw [hFirst c cs hChars]
          rfl
        refine hAbreast.takes_blank_newline spaced hRest hTakes
          hClean hFirst ?_ hFresh ?_ hBehind
        · intro c cs hChars
          rw [hT' c cs hChars, hInitial]
          rfl
        · apply Before.admitsBreak_of_leavesOpen
            (hExplains hContinued)
          rw [nextKind_ofTokensAfter true false]
          exact hResists hWhite

------------------------------------------------------------
-- Whole sources
------------------------------------------------------------

/- Where nothing is open for the first, nothing is for the second. -/
theorem Abreast.unterminated?_eq_none
    (hAbreast : Abreast none ds l l')
    (hClosed : unterminated? l.frames = none) :
    unterminated? l'.frames = none := by
  rcases hAbreast.frames with ⟨n, hOver, _⟩
  have hSame : List.Forall₂ Frame.Same l.frames l'.frames := by
    generalize l.frames = fs at hOver
    generalize l'.frames = fs' at hOver
    change Frame.Over [] fs fs' at hOver
    induction hOver with
    | none => exact .nil
    | frame hTop _ ih => exact .cons hTop ih
  have hErrors := unterminated?_of_same ⟨0, 1, 1⟩ hSame
  rw [hClosed] at hErrors
  cases hOpen : unterminated? l'.frames with
  | none => rfl
  | some e =>
      rw [hOpen] at hErrors
      cases hErrors

/- A byte order mark is left out, whatever follows it. -/
theorem body_append
    {front chars back' : List Char}
    (back : List Char)
    (hBody : body (front ++ back) = chars ++ back)
    (hBack : back'.head? ≠ some byteOrderMark) :
    body (front ++ back') = chars ++ back' := by
  cases front with
  | nil =>
      have hChars : chars = [] := by
        have hLength := length_body_le back
        rw [← List.nil_append back, hBody, List.nil_append,
          List.length_append] at hLength
        exact List.eq_nil_of_length_eq_zero (by omega)
      subst hChars
      cases back' with
      | nil => rfl
      | cons c back' =>
          exact if_neg fun hMark => hBack (congrArg some hMark)
  | cons c front =>
      rw [List.cons_append, body] at hBody ⊢
      split at hBody
      · rename_i hMark
        rw [if_pos hMark, List.append_cancel_right hBody]
      · rename_i hOther
        rw [← List.cons_append] at hBody
        rw [if_neg hOther, ← List.cons_append,
          List.append_cancel_right hBody]

end Lexer

open Lexer in
/-
  A comment in front of a newline that is read as code changes
  nothing about a source without errors: it has none either,
  and its term is the same. This holds for every newline that
  ends a line, and for those that are white space unless they
  stand behind an operator that does not go on in the next
  line.
-/
theorem quoteSource_commented
    {source comment : String}
    {front : List Char}
    {earlier later : List Token}
    {t : Token}
    (hTokens : (tokenize source).1 = earlier ++ t :: later)
    (hFront : source.toList = front ++ Token.charsOf (t :: later))
    (hCode : Token.areInCode earlier = true)
    (hNewline : t.isNewline = true)
    (hResists : t.kind = .whiteSpace →
      (Before.start.through (Lexeme.ofTokens earlier)).resists
        (nextKind (Lexeme.ofTokens later)) = false)
    (hComment : ∀ c ∈ comment.toList, isLineBreak c = false)
    (hClean : (quoteSource .none source).2 = []) :
    quoteSource .none
        (commented front comment (Token.charsOf (t :: later))) =
      quoteSource .none source := by
  rcases (quoteSource_eq_nil_iff .none source).mp hClean with
    ⟨hLexical, hSyntactic⟩
  have hBalanced := behind?_ofTokens_of_clean hLexical hSyntactic
  rcases exists_takes_tokenize hLexical with
    ⟨last, hTakes, hLast, hEnd, hClosed⟩
  rw [hTokens] at hTakes hBalanced
  rcases hTakes.split with ⟨mid, hEarlier, hLater⟩
  have hMid := hLater.clean hLast
  have hRest := hLater.rest_eq hLast
  rw [hEnd, List.append_nil] at hRest
  -- The newline is read as code.
  rcases hEarlier.mirrored hMid .nil (coherent_startingIn _ _) with
    ⟨es, hEnclosures, hMirrored, hCoherent⟩
  rw [Token.areInCode, hEnclosures, Option.any_some] at hCode
  have hGroup := hMirrored.isGroup_eq hCoherent hCode
  rw [Token.isNewline, Bool.and_eq_true] at hNewline
  rcases hNewline with ⟨hPause, hBreak⟩
  have hMode := hLater.readsSpace hLast hGroup hPause
  obtain ⟨n, ns, hText⟩ : ∃ n ns, t.text.toList = n :: ns := by
    cases hText : t.text.toList with
    | nil =>
        rw [hText] at hBreak
        cases hBreak
    | cons n ns => exact ⟨n, ns, rfl⟩
  rw [hText, List.head?_cons, Option.any_some] at hBreak
  rw [Token.charsOf_cons, hText, List.cons_append] at hRest hFront ⊢
  generalize ns ++ Token.charsOf later = back at hRest hFront ⊢
  -- The second source has the comment in front of it.
  have hStart : (ofSource (commented front comment (n :: back))).rest =
      Token.charsOf earlier ++
        ' ' :: '#' :: (comment.toList ++ n :: back) := by
    change body (String.ofList _).toList = _
    rw [String.toList_ofList]
    apply body_append (n :: back)
    · rw [← hFront, ← hRest]
      exact hEarlier.rest_eq hMid
    · intro hMark
      cases hMark
  rw [Lexeme.ofTokens, Lexeme.ofTokensAfter_append] at hBalanced
  rcases Nest.exists_of_behind?_append hBalanced with
    ⟨ds, hBefore, hBehind⟩
  have hAbreast := abreast_ofSource source
    (commented front comment (n :: back))
  rcases hAbreast.takes_commented false ⟨rfl, rfl⟩ hEarlier
       hMid hMode hRest hBreak hComment hStart hBefore with
    ⟨earlier', mid', hEarlier', hPast⟩
  have hExplains := hEarlier.explains (b := .start) false hMid
    (coherent_startingIn _ _) (fun _ => rfl)
  rcases hPast.abreast.takes_behind_comment _ hMode hPast.mode hRest
      (hPast.rest_eq.trans hRest) hBreak hLater hLast hPause
      hExplains hResists hBehind with
    ⟨later', last', hLater', hMatches, hLast', hEnd'⟩
  have hTokens' := tokenize_of_takes (hEarlier'.trans hLater')
    hLast'.clean' (hEnd'.symm.trans hEnd)
    (hLast'.unterminated?_eq_none hClosed)
  refine quoteSource_of_matches ?_ hClean ?_
  · rw [hTokens, hTokens', Lexeme.ofTokens, Lexeme.ofTokens,
      Lexeme.ofTokensAfter_append, Lexeme.ofTokensAfter_append,
      hPast.spaced]
    exact .append hPast.same hMatches
  · rw [hTokens']

/- A newline behind an infix operator is white space. -/
theorem quoteSource_commented_plus :
    ∃ earlier t later,
      (tokenize "a +\nb").1 = earlier ++ t :: later ∧
        t.isNewline = true ∧ t.kind = .whiteSpace ∧
        quoteSource .none
            (commented ['a', ' ', '+'] "c"
              (Token.charsOf (t :: later))) =
          quoteSource .none "a +\nb" := by
  have hTokens :
      (tokenize "a +\nb").1 =
        (tokenize "a +").1 ++
          ⟨.whiteSpace, "\n", ⟨3, 4, 1, 4⟩⟩ ::
            (tokenize "a +\nb").1.drop 4 := by
    decide
  refine ⟨_, _, _, hTokens, by decide, rfl, ?_⟩
  exact quoteSource_commented hTokens (by decide)
    (by decide) (by decide)
    (fun _ => by decide) (by simp [isLineBreak])
    (by decide +kernel)

/-
  In front of the operand of an attribute no end of a line is
  skipped, though the lexer takes a newline for white space.
-/
theorem quoteSource_commented_at :
    (tokenize "@\nfoo").1 =
        (tokenize "@").1 ++
          ⟨.whiteSpace, "\n", ⟨1, 2, 1, 2⟩⟩ ::
            (tokenize "@\nfoo").1.drop 2 ∧
      Token.areInCode (tokenize "@").1 = true ∧
      (quoteSource .none "@\nfoo").2 = [] ∧
      commented ['@'] "c" ['\n', 'f', 'o', 'o'] = "@ #c\nfoo" ∧
      (quoteSource .none "@ #c\nfoo").2 ≠ [] := by
  decide +kernel

end ElixirReader
