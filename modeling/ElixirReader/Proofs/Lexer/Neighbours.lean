import ElixirReader.Proofs.Lexer.Leading
import ElixirReader.Proofs.Lexer.Stretches

/-
  This file shows what the lexer promises about the tokens next
  to a token: what a character, the parts of a sigil, the name
  of an atom or key, the parts of a number, and the promoters
  and terminators of heredocs have in front of them or behind.

  Key definitions include:
    * `IsOnPromoterLine`
    * `IsAtLineStart`
    * `Token.IsInPlace`
    * `Lexer.Explains`

  Main declarations:
    * `Lexer.Explains.next`
    * `Lexer.Explains.isInPlace`
    * `areInPlace_tokenize`
-/

namespace ElixirReader

open Transition Unicode

------------------------------------------------------------
-- Places in a run of tokens
------------------------------------------------------------

/- Whether the last of some tokens is of a kind. -/
def endsInKind
    (p : Kind → Bool)
    (before : List Token) : Bool :=
  before.getLast?.any (p ·.kind)

/- Whether the first of some tokens is of a kind. -/
def startsInKind
    (p : Kind → Bool)
    (after : List Token) : Bool :=
  after.head?.any (p ·.kind)

/- A colon comes first, and then white space or a line break. -/
def StartsInKeyMark
    (after : List Token) : Prop :=
  ∃ mark space rest,
    after = mark :: space :: rest ∧ mark.kind = .colon ∧
      (space.kind = .whiteSpace ∨ space.kind = .endOfLine)

/- The kinds that may stand behind the promoter of a heredoc. -/
def Kind.isOnPromoterLine
    (k : Kind) : Prop :=
  k = .whiteSpace ∨ k = .badCharacter

/- Some tokens end on the line of a heredoc's promoter. -/
def IsOnPromoterLine
    (before : List Token) : Prop :=
  ∃ earlier promoter line,
    before = earlier ++ promoter :: line ∧
      promoter.kind.isHeredocPromoter = true ∧
      ∀ t ∈ line, t.kind.isOnPromoterLine

/-
  Some tokens end in what the terminator of a heredoc follows:
  the end of the promoter's line, the indentation of a line, or
  text that ends in a line break.
-/
inductive IsAtLineStart : List Token → Prop
| promoterLine
    (before : List Token)
    (last : Token)
    (hLine : IsOnPromoterLine before)
    (hLast : last.kind = .endOfLine) :
    IsAtLineStart (before ++ [last])
| indent
    (before : List Token)
    (last : Token)
    (hLast : last.kind = .heredocIndent) :
    IsAtLineStart (before ++ [last])
| text
    (before : List Token)
    (last : Token)
    (hLast : last.kind.isBodyText = true)
    (hText : endsLine last.text.toList = true) :
    IsAtLineStart (before ++ [last])

/-
  A token stands where its kind may stand, with regard to the
  tokens before it and those after it.
-/
structure Token.IsInPlace
    (before : List Token)
    (t : Token)
    (after : List Token) : Prop where
  character :
    t.kind = .character →
      endsInKind (· == .characterMark) before = true
  sigilName :
    t.kind.isSigilName = true →
      endsInKind (· == .tilde) before = true
  sigilPromoter :
    t.kind.isSigilPromoter = true →
      endsInKind Kind.isSigilName before = true
  sigilModifiers :
    t.kind = .sigilModifiers →
      endsInKind Kind.isSigilTerminator before = true
  atomName :
    t.kind = .atomName →
      endsInKind (· == .colon) before = true ∨
        StartsInKeyMark after
  baseZero :
    t.kind = .baseZero →
      startsInKind Kind.isBaseLetter after = true
  floatMark :
    t.kind.isFloatMark = true →
      startsInKind (· == .digits .decimal) after = true
  heredocPromoter :
    t.kind.isHeredocPromoter = true →
      ∀ u ∈ after.takeWhile (·.kind != .endOfLine),
        u.kind.isOnPromoterLine
  heredocTerminator :
    t.kind.isHeredocTerminator = true → IsAtLineStart before

/- Every token of a run stands where its kind may stand. -/
def AreInPlace
    (tokens : List Token) : Prop :=
  ∀ before t after,
    tokens = before ++ t :: after → t.IsInPlace before after

@[simp] theorem endsInKind_append_singleton
    (p : Kind → Bool)
    (before : List Token)
    (t : Token) :
    endsInKind p (before ++ [t]) = p t.kind := by
  simp [endsInKind]

theorem IsOnPromoterLine.append
    {before : List Token}
    {t : Token}
    (hLine : IsOnPromoterLine before)
    (hKind : t.kind.isOnPromoterLine) :
    IsOnPromoterLine (before ++ [t]) := by
  obtain ⟨earlier, promoter, line, rfl, hPromoter, hAll⟩ := hLine
  refine ⟨earlier, promoter, line ++ [t], by simp, hPromoter, ?_⟩
  intro u hu
  rcases List.mem_append.1 hu with hu | hu
  · exact hAll u hu
  · rw [List.mem_singleton.1 hu]
    exact hKind

------------------------------------------------------------
-- What is seen ahead
------------------------------------------------------------

namespace Transition

variable {pending : Option Bool}
variable {top : Option Frame}
variable {c : Char}
variable {cs : List Char}

theorem isBaseLetter_of_isAlpha
    (hAlpha : c.isAlpha = true) :
    (of .baseLetter pending top c cs).kind.isBaseLetter = true := by
  change (baseLetter top c cs).kind.isBaseLetter = true
  rw [baseLetter, if_pos hAlpha]
  split
  · rfl
  · split
    · rfl
    · split <;> rfl

theorem digits_of_isDigit
    {mode : Mode}
    (hMode : mode.followsFloatMark = true)
    (hDigit : c.isDigit = true) :
    (of mode pending top c cs).kind = .digits .decimal := by
  have hScore : c ≠ '_' := by
    rintro rfl
    cases hDigit
  have hLetter : ¬ (c = 'e' ∨ c = 'E') := by
    rintro (rfl | rfl) <;> cases hDigit
  cases mode <;> try cases hMode
  all_goals
    change (digits _ top c cs).kind = _
    rw [digits, if_neg hScore, if_neg (by simp), exponentOrRun,
      if_neg (fun h => hLetter h.2), digitRun, if_pos (by exact hDigit)]
    rfl

/- The mark of a key is taken for a colon. -/
theorem colon_of_startsWithKeyMark
    (pending : Option Bool)
    (top : Option Frame)
    (hMark : startsWithKeyMark (c :: cs) = true) :
    of .afterMark pending top c cs = plain .colon 0 .initial ∧
      cs.head?.any isSpace = true := by
  unfold startsWithKeyMark at hMark
  split at hMark
  · rename_i d ds hEq
    cases hEq
    refine ⟨?_, hMark⟩
    change colon (d :: ds) = _
    unfold colon
    split
    · rename_i hEq
      cases hEq
      cases hMark
    · exact if_pos hMark
  · cases hMark

theorem space_of_isSpace
    (hSpace : isSpace c = true) :
    (of .initial pending top c cs).kind = .whiteSpace ∨
      (of .initial pending top c cs).kind = .endOfLine := by
  change (expression .initial top c cs).kind = _ ∨
    (expression .initial top c cs).kind = _
  rcases Bool.or_eq_true_iff.1 hSpace with hBlank | hBreak
  · left
    rw [expression, if_pos hBlank]
    rfl
  · rw [expression, if_pos hBreak]
    split
    · exact .inl rfl
    · exact .inr rfl

/- A promoter's line goes on until it ends. -/
theorem heredocStart_of_ne
    (hKind : (of .heredocStart pending top c cs).kind ≠ .endOfLine) :
    (of .heredocStart pending top c cs).kind.isOnPromoterLine ∧
      (of .heredocStart pending top c cs).mode = .heredocStart := by
  change (heredocStart c cs).kind ≠ _ at hKind
  change (heredocStart c cs).kind.isOnPromoterLine ∧
    (heredocStart c cs).mode = _
  unfold heredocStart at hKind ⊢
  split
  · exact ⟨.inl rfl, rfl⟩
  · rename_i hIndent
    rw [if_neg hIndent] at hKind
    split
    · rename_i hBreak
      rw [if_pos hBreak] at hKind
      exact absurd rfl hKind
    · exact ⟨.inr rfl, rfl⟩

end Transition

------------------------------------------------------------
-- What was taken
------------------------------------------------------------

namespace Lexer

/- The mode of a coherent lexer fits the innermost construct. -/
theorem Coherent.isOpenIn
    {l : Lexer}
    (hCoherent : Coherent l) :
    IsOpenIn l.mode l.frames.head? := by
  constructor
  · intro n resume hTop
    have hAlternate := hCoherent.alternate
    cases hFrames : l.frames with
    | nil =>
        rw [hFrames] at hTop
        cases hTop
    | cons f fs =>
        rw [hFrames] at hTop hAlternate
        cases hTop
        cases hAlternate with
        | interpolation _ _ g opened fs hQuoted hHeredoc _ =>
            cases hLayout : g.layout with
            | quoted => exact .inl (hQuoted hLayout)
            | heredoc => exact .inr (hHeredoc hLayout)
  · intro hGroup
    obtain ⟨g, opened, fs, hFrames⟩ := hCoherent.group_iff.1 hGroup
    exact ⟨g, opened, by rw [hFrames]; rfl, hCoherent.isIn hFrames⟩

/- The transition of a token that was taken. -/
theorem exists_transition
    {l : Lexer}
    {token : Token}
    (hNext : l.next.1 = some token) :
    ∃ c cs, l.rest = c :: cs ∧ l.raised = false ∧ l.stopped = false ∧
      token = l.tokenOf (l.transition c cs)
        (c :: cs.take (l.transition c cs).more) ∧
      l.next.2 = l.past (l.transition c cs)
        (c :: cs.take (l.transition c cs).more)
        (cs.drop (l.transition c cs).more) := by
  cases hStopped : l.stopped with
  | true => simp [next, hStopped] at hNext
  | false =>
      cases hRaised : l.raised with
      | true => simp [next, hStopped, hRaised] at hNext
      | false =>
          cases hRest : l.rest with
          | nil =>
              rw [next_of_rest_nil hRaised hStopped hRest] at hNext
              cases hNext
          | cons c cs =>
              rw [next_of_rest_cons hRaised hStopped hRest] at hNext ⊢
              exact ⟨c, cs, rfl, rfl, rfl,
                (Option.some.inj hNext).symm, rfl⟩

/-
  The tokens that were taken explain the mode that a lexer is
  in, where only some tokens lead into it.
-/
structure Explains
    (before : List Token)
    (l : Lexer) : Prop where
  coherent :
    Coherent l
  led :
    l.mode.isLed = true →
      endsInKind (Kind.leadsInto l.mode l.sigil) before = true
  promoterLine :
    l.mode = .heredocStart → IsOnPromoterLine before
  lineStart :
    l.mode = .heredocLineStart → IsAtLineStart before

theorem explains_ofSource
    (source : String) :
    Explains [] (ofSource source) :=
  ⟨coherent_startingIn _ _, fun h => (nomatch h), Mode.noConfusion,
    Mode.noConfusion⟩

/- The token that is taken explains the mode that it leads to. -/
theorem Explains.next
    {l : Lexer}
    {before : List Token}
    {token : Token}
    (hNext : l.next.1 = some token)
    (hExplains : Explains before l) :
    Explains (before ++ [token]) l.next.2 := by
  obtain ⟨c, cs, -, -, -, rfl, hPast⟩ := exists_transition hNext
  have hOpen := hExplains.coherent.isOpenIn
  rw [hPast]
  refine ⟨hExplains.coherent.past c cs _ _, ?_, ?_, ?_⟩
  · intro _
    rw [endsInKind_append_singleton]
    exact of_leadsInto hOpen
  · intro hMode
    rcases (of_heredocStart hOpen).1 hMode with hPromoter | hLine
    · exact ⟨before, _, [], rfl, hPromoter, by simp⟩
    · exact (hExplains.promoterLine hLine.1).append hLine.2
  · intro hMode
    rcases of_startsLine hOpen hMode with hEnd | hIndent | hText
    · exact .promoterLine before _ (hExplains.promoterLine hEnd.1)
        hEnd.2
    · exact .indent before _ hIndent
    · refine .text before _ hText.1 ?_
      rw [tokenOf, String.toList_ofList]
      exact hText.2

------------------------------------------------------------
-- What is going to be taken
------------------------------------------------------------

/- A run to the end takes a token where a character is left. -/
theorem Takes.exists_cons
    {l last : Lexer}
    {tokens : List Token}
    {c : Char}
    {cs : List Char}
    (hTakes : Takes l tokens last)
    (hEnd : last.rest = [])
    (hRest : l.rest = c :: cs) :
    ∃ token later, tokens = token :: later ∧
      token.kind = (l.transition c cs).kind ∧
      l.next.2.mode = (l.transition c cs).mode ∧
      l.next.2.rest = cs.drop (l.transition c cs).more ∧
      Takes l.next.2 later last := by
  cases hTakes with
  | none _ =>
      rw [hEnd] at hRest
      cases hRest
  | token _ t ts _ hNext hLater =>
      obtain ⟨d, ds, hRest', -, -, rfl, hPast⟩ := exists_transition hNext
      obtain ⟨rfl, rfl⟩ := List.cons.inj (hRest.symm.trans hRest')
      refine ⟨_, ts, rfl, rfl, ?_, ?_, hLater⟩ <;> rw [hPast] <;> rfl

theorem exists_cons_of_any_head?
    {α : Type}
    {p : α → Bool}
    {xs : List α}
    (hAny : xs.head?.any p = true) :
    ∃ x rest, xs = x :: rest ∧ p x = true := by
  cases xs with
  | nil => cases hAny
  | cons x rest => exact ⟨x, rest, rfl, hAny⟩

variable {l last : Lexer}
variable {tokens : List Token}

theorem Takes.startsInKind
    {p : Kind → Bool}
    {c : Char}
    {cs : List Char}
    (hTakes : Takes l tokens last)
    (hEnd : last.rest = [])
    (hRest : l.rest = c :: cs)
    (hKind : p (l.transition c cs).kind = true) :
    startsInKind p tokens = true := by
  obtain ⟨t, later, rfl, hEq, -⟩ := hTakes.exists_cons hEnd hRest
  rw [← hEq] at hKind
  exact hKind

theorem Takes.startsInKeyMark
    (hTakes : Takes l tokens last)
    (hEnd : last.rest = [])
    (hMode : l.mode = .afterMark)
    (hMark : startsWithKeyMark l.rest = true) :
    StartsInKeyMark tokens := by
  cases hRest : l.rest with
  | nil =>
      rw [hRest] at hMark
      cases hMark
  | cons c cs =>
      rw [hRest] at hMark
      obtain ⟨mark, later, rfl, hKind, hNext, hLeft, hLater⟩ :=
        hTakes.exists_cons hEnd hRest
      obtain ⟨hEq, hSpace⟩ :=
        colon_of_startsWithKeyMark l.sigil l.frames.head? hMark
      have hColon : l.transition c cs = plain .colon 0 .initial := by
        rw [transition, hMode, hEq]
      rw [hColon] at hKind hNext hLeft
      obtain ⟨d, ds, rfl, hSpace⟩ := exists_cons_of_any_head? hSpace
      obtain ⟨space, rest, rfl, hKind', -, -, -⟩ :=
        hLater.exists_cons hEnd hLeft
      refine ⟨mark, space, rest, rfl, hKind, ?_⟩
      rw [hKind', transition, hNext]
      exact space_of_isSpace hSpace

theorem Takes.isOnPromoterLine
    (hTakes : Takes l tokens last)
    (hMode : l.mode = .heredocStart) :
    ∀ t ∈ tokens.takeWhile (·.kind != .endOfLine),
      t.kind.isOnPromoterLine := by
  induction hTakes with
  | none l => simp
  | token l t ts last hNext hRest ih =>
      obtain ⟨c, cs, -, -, -, rfl, hPast⟩ := exists_transition hNext
      by_cases hKind : (l.transition c cs).kind = .endOfLine
      · simp [tokenOf, hKind]
      · have hLine := hKind
        rw [transition, hMode] at hLine
        have hStays := heredocStart_of_ne hLine
        rw [← hMode, ← transition] at hStays
        have hLater := ih (by
          rw [hPast]
          exact hStays.2.trans hMode)
        simpa [tokenOf, hKind] using ⟨hStays.1, hLater⟩

------------------------------------------------------------
-- All tokens of a source
------------------------------------------------------------

/- The kinds that are read in one mode only, and that mode. -/
theorem of_isReadIn
    {mode : Mode}
    {pending : Option Bool}
    {k : Kind}
    (hReadIn : k.isReadIn mode pending = true) :
    (k = .character → mode = .character) ∧
      (k.isSigilName = true → mode = .sigil ∧ pending = none) ∧
      (k.isSigilPromoter = true →
        mode = .sigil ∧ ∃ reads, pending = some reads) ∧
      (k = .sigilModifiers → mode = .sigilModifiers) ∧
      (k.isHeredocTerminator = true → mode = .heredocLineStart) := by
  cases k with
  | promoter f _ =>
      cases f <;> simp_all [Kind.isReadIn, Kind.isSigilName,
        Kind.isSigilPromoter, Kind.isHeredocTerminator,
        Option.isSome_iff_exists]
  | terminator _ layout =>
      cases layout <;> simp_all [Kind.isReadIn, Kind.isSigilName,
        Kind.isSigilPromoter, Kind.isHeredocTerminator]
  | _ =>
      simp_all [Kind.isReadIn, Kind.isSigilName, Kind.isSigilPromoter,
        Kind.isHeredocTerminator]

/- All tokens that are left are a run to the end. -/
theorem exists_takes_take
    {n : Nat}
    (hRaised : l.raised = false)
    (hStopped : l.stopped = false)
    (hEnough : l.rest.length < n) :
    ∃ last, Takes l ((l.take n).1.map (·.1)) last ∧ last.rest = [] := by
  induction n generalizing l with
  | zero => omega
  | succ n ih =>
      cases hRest : l.rest with
      | nil =>
          have hNext := next_of_rest_nil hRaised hStopped hRest
          rw [take_of_none n (by rw [hNext])]
          exact ⟨l, .none l, hRest⟩
      | cons c cs =>
          have hNext := next_of_rest_cons hRaised hStopped hRest
          have hSome : l.next.1 = some (l.tokenOf (l.transition c cs)
              (c :: cs.take (l.transition c cs).more)) := by
            rw [hNext]
          have hFewer := length_rest_next hSome
          rw [take_of_some n hSome]
          obtain ⟨last, hTakes, hEnd⟩ :=
            ih (l := l.next.2) (by rw [hNext]; exact hRaised)
              (by rw [hNext]; exact hStopped) (by omega)
          exact ⟨last, .token l _ _ last hSome hTakes, hEnd⟩

/- A token is where it may be in a run that goes to the end. -/
theorem Explains.isInPlace
    {before after : List Token}
    {t : Token}
    (hExplains : Explains before l)
    (hTakes : Takes l (t :: after) last)
    (hEnd : last.rest = []) :
    t.IsInPlace before after := by
  cases hTakes with
  | token _ _ _ _ hNext hLater =>
      obtain ⟨c, cs, -, -, -, rfl, hPast⟩ := exists_transition hNext
      have hOpen := hExplains.coherent.isOpenIn
      have hForesees : Foresees l.mode l.sigil cs (l.transition c cs) :=
        of_foresees hOpen
      obtain ⟨hCharacter, hSigilName, hSigilPromoter, hModifiers,
        hTerminator⟩ := of_isReadIn hForesees.readIn
      have hLed := hExplains.led
      refine ⟨?_, ?_, ?_, ?_, ?_, ?_, ?_, ?_, ?_⟩
      · intro hKind
        rw [hCharacter hKind] at hLed
        exact hLed rfl
      · intro hKind
        obtain ⟨hMode, hPending⟩ := hSigilName hKind
        rw [hMode, hPending] at hLed
        exact hLed rfl
      · intro hKind
        obtain ⟨hMode, reads, hPending⟩ := hSigilPromoter hKind
        rw [hMode, hPending] at hLed
        exact hLed rfl
      · intro hKind
        rw [hModifiers hKind] at hLed
        exact hLed rfl
      · intro hKind
        rcases hForesees.atomName hKind with hMode | ⟨hMode, hMark⟩
        · rw [hMode] at hLed
          exact .inl (hLed rfl)
        · right
          apply hLater.startsInKeyMark hEnd <;> rw [hPast]
          · exact hMode
          · exact hMark
      · intro hKind
        obtain ⟨hMode, hAlpha⟩ := hForesees.baseZero hKind
        obtain ⟨d, ds, hLeft, hAlpha⟩ := exists_cons_of_any_head? hAlpha
        apply hLater.startsInKind hEnd (by rw [hPast]; exact hLeft)
        rw [hPast]
        change (of (l.transition c cs).mode _ _ d ds).kind.isBaseLetter =
          true
        rw [hMode]
        exact isBaseLetter_of_isAlpha hAlpha
      · intro hKind
        obtain ⟨hMode, hDigit⟩ := hForesees.floatMark hKind
        obtain ⟨d, ds, hLeft, hDigit⟩ := exists_cons_of_any_head? hDigit
        apply hLater.startsInKind hEnd (by rw [hPast]; exact hLeft)
        rw [hPast]
        exact beq_iff_eq.2 (digits_of_isDigit hMode hDigit)
      · intro hKind
        apply hLater.isOnPromoterLine
        rw [hPast]
        exact (of_heredocStart hOpen).2 (.inl hKind)
      · exact fun hKind => hExplains.lineStart (hTerminator hKind)

/- So is every token of such a run. -/
theorem Explains.isInPlace_of_takes
    {before mid after : List Token}
    {t : Token}
    (hExplains : Explains before l)
    (hTakes : Takes l tokens last)
    (hEnd : last.rest = [])
    (hTokens : tokens = mid ++ t :: after) :
    t.IsInPlace (before ++ mid) after := by
  induction hTakes generalizing before mid with
  | none l => simp at hTokens
  | token l u us last hNext hRest ih =>
      cases mid with
      | nil =>
          obtain ⟨rfl, rfl⟩ := List.cons.inj hTokens
          rw [List.append_nil]
          exact hExplains.isInPlace (.token l _ _ last hNext hRest) hEnd
      | cons v mid =>
          obtain ⟨rfl, rfl⟩ := List.cons.inj hTokens
          rw [List.append_cons]
          exact ih (hExplains.next hNext) hEnd rfl

end Lexer

/- Every token of a source stands where its kind may stand. -/
theorem areInPlace_tokenize
    (source : String) :
    AreInPlace (tokenize source).1 := by
  obtain ⟨last, hTakes, hEnd⟩ :=
    Lexer.exists_takes_take (l := Lexer.ofSource source) rfl rfl
      (Nat.lt_succ_self _)
  exact fun _ _ _ hTokens =>
    (Lexer.explains_ofSource source).isInPlace_of_takes hTakes hEnd
      hTokens

end ElixirReader
