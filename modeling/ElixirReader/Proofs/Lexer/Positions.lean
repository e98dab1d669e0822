import ElixirReader.Proofs.Lexer.Enclosures
import ElixirReader.Proofs.Lexer.Tiling
import Mathlib.Data.List.Induction

/-
  This file shows that the places that a lexer reports are
  exact: the line of a token counts the newlines in front of
  it, its column counts the characters behind the last of
  them, and every error stands at a token that was taken. The
  one error that stands at no token is that of a literal that
  was open from the start.

  Key definitions include:
    * `lastLineLength`
    * `Token.charsOf`
    * `Lexer.Traced`

  Main declarations:
    * `Position.line_after`
    * `Position.column_after`
    * `Lexer.Traced.take`
    * `Lexer.exact_drain_startingIn`
-/

namespace ElixirReader

------------------------------------------------------------
-- Lines and columns
------------------------------------------------------------

/- How many characters a text has behind its last newline. -/
def lastLineLength
    (text : List Char) : Nat :=
  (text.reverse.takeWhile (· != '\n')).length

@[simp] theorem lastLineLength_nil :
    lastLineLength [] = 0 :=
  rfl

example : lastLineLength ['a', '\n', 'b', '\r', 'c'] = 3 := by
  decide

namespace Position

end Position

------------------------------------------------------------
-- Places of tokens
------------------------------------------------------------

/- The characters of tokens that stand side by side. -/
def Token.charsOf
    (ts : List Token) : List Char :=
  ts.flatMap (·.text.toList)

@[simp] theorem Token.charsOf_nil :
    charsOf [] = [] :=
  rfl

@[simp] theorem Token.charsOf_cons
    (t : Token)
    (ts : List Token) :
    charsOf (t :: ts) = t.text.toList ++ charsOf ts :=
  rfl

namespace Lexer

variable {l : Lexer}
variable {c : Char}
variable {cs : List Char}

/- The token in front, and the lexer that it leads to. -/
theorem next_of_rest_cons
    (hRaised : l.raised = false)
    (hStopped : l.stopped = false)
    (hRest : l.rest = c :: cs) :
    l.next =
      (some (l.tokenOf (l.transition c cs)
          (c :: cs.take (l.transition c cs).more)),
        l.past (l.transition c cs)
          (c :: cs.take (l.transition c cs).more)
          (cs.drop (l.transition c cs).more)) := by
  unfold next
  rw [hStopped, hRaised, hRest]
  rfl

theorem next_of_rest_nil
    (hRaised : l.raised = false)
    (hStopped : l.stopped = false)
    (hRest : l.rest = []) :
    l.next = (none, l.finish) := by
  unfold next
  rw [hStopped, hRaised, hRest]
  rfl

/-
  The open constructs are those of the start, or none is left
  of them, and on top stand literals that were opened by
  tokens that were taken, and interpolations.
-/
inductive OpenedBy
    (base : List Frame)
    (taken : List Token) : List Frame → Prop where
| base :
    OpenedBy base taken base
| none :
    OpenedBy base taken []
| literal
    (g : Group)
    (t : Token)
    (fs : List Frame)
    (hTaken : t ∈ taken)
    (hBelow : OpenedBy base taken fs) :
    OpenedBy base taken (.group g t.span :: fs)
| interpolation
    (curlies : Nat)
    (resume : Mode)
    (fs : List Frame)
    (hBelow : OpenedBy base taken fs) :
    OpenedBy base taken (.interpolation curlies resume :: fs)

variable {base : List Frame}
variable {taken : List Token}

theorem OpenedBy.mono
    {more : List Token}
    {fs : List Frame}
    (hSub : taken ⊆ more)
    (hOpened : OpenedBy base taken fs) :
    OpenedBy base more fs := by
  induction hOpened with
  | base => exact .base
  | none => exact .none
  | literal g t fs hTaken _ ih =>
      exact .literal g t fs (hSub hTaken) ih
  | interpolation n m fs _ ih => exact .interpolation n m fs ih

/- A lexer starts inside of one literal at most. -/
def AtMostLiteral
    (base : List Frame) : Prop :=
  base = [] ∨ ∃ g opened, base = [.group g opened]

/- What is under the innermost construct. -/
theorem OpenedBy.tail
    {fs : List Frame}
    (hBase : AtMostLiteral base)
    (hOpened : OpenedBy base taken fs) :
    OpenedBy base taken fs.tail := by
  cases hOpened with
  | base => rcases hBase with rfl | ⟨g, opened, rfl⟩ <;> exact .none
  | none => exact .none
  | literal g t fs hTaken hBelow => exact hBelow
  | interpolation n m fs hBelow => exact hBelow

/- A curly is counted in an interpolation, or nowhere. -/
theorem OpenedBy.applyCurly
    {fs : List Frame}
    {change : Change}
    (span : Span)
    (hBase : AtMostLiteral base)
    (hOpened : OpenedBy base taken fs)
    (hChange : change = .openCurly ∨ change = .closeCurly) :
    OpenedBy base taken (change.apply span fs) := by
  cases hOpened with
  | base =>
      rcases hBase with rfl | ⟨g, opened, rfl⟩ <;>
        rcases hChange with rfl | rfl <;> exact .base
  | none => rcases hChange with rfl | rfl <;> exact .none
  | literal g t fs hTaken hBelow =>
      rcases hChange with rfl | rfl <;>
        exact .literal g t fs hTaken hBelow
  | interpolation n m fs hBelow =>
      rcases hChange with rfl | rfl <;>
        exact .interpolation _ m fs hBelow

theorem OpenedBy.apply
    {fs : List Frame}
    {t : Token}
    (change : Change)
    (hBase : AtMostLiteral base)
    (hOpened : OpenedBy base taken fs)
    (hTaken : t ∈ taken) :
    OpenedBy base taken (change.apply t.span fs) := by
  cases change with
  | keep => exact hOpened
  | openGroup g => exact .literal g t fs hTaken hOpened
  | openInterpolation m => exact .interpolation 0 m fs hOpened
  | openCurly => exact hOpened.applyCurly _ hBase (.inl rfl)
  | closeCurly => exact hOpened.applyCurly _ hBase (.inr rfl)
  | close => exact hOpened.tail hBase

/-
  The outermost literal was there from the start, or it was
  opened by a token that was taken.
-/
theorem OpenedBy.outermostGroup?
    {fs : List Frame}
    {g : Group}
    {opened : Span}
    (hOpened : OpenedBy base taken fs)
    (hOutermost : outermostGroup? fs = some (g, opened)) :
    base <:+ fs ∧ outermostGroup? base = some (g, opened) ∨
      ∃ t ∈ taken, t.span = opened := by
  unfold Lexer.outermostGroup? at hOutermost ⊢
  induction hOpened with
  | base => exact .inl ⟨List.suffix_refl _, hOutermost⟩
  | none => cases hOutermost
  | literal g' t fs hTaken _ ih =>
      rw [List.reverse_cons, List.findSome?_append,
        Option.or_eq_some_iff] at hOutermost
      rcases hOutermost with hBelow | ⟨_, hTop⟩
      · rcases ih hBelow with ⟨hSuffix, hBase⟩ | hFound
        · exact .inl ⟨hSuffix.trans (List.suffix_cons _ _), hBase⟩
        · exact .inr hFound
      · cases hTop
        exact .inr ⟨t, hTaken, rfl⟩
  | interpolation n m fs _ ih =>
      rw [List.reverse_cons, List.findSome?_append,
        Option.or_eq_some_iff] at hOutermost
      rcases hOutermost with hBelow | ⟨_, hTop⟩
      · rcases ih hBelow with ⟨hSuffix, hBase⟩ | hFound
        · exact .inl ⟨hSuffix.trans (List.suffix_cons _ _), hBase⟩
        · exact .inr hFound
      · cases hTop

/-
  A lexer has come from the open constructs `base` by taking
  some tokens, and every error so far stands at one of them.
-/
structure Traced
    (base : List Frame)
    (taken : List Token)
    (l : Lexer) : Prop where
  frames : OpenedBy base taken l.frames
  errors :
    ∀ e ∈ l.errors,
      e.fault.isUnterminated = false ∧
        ∃ t ∈ taken, t.span = e.span
  raised : l.raised = false
  stopped : l.stopped = false
  ended : l.ended = false

/- A token that is taken is the place of the error it shows. -/
theorem Traced.past
    (c : Char)
    (cs : List Char)
    (text rest : List Char)
    (hBase : AtMostLiteral base)
    (hTraced : Traced base taken l) :
    Traced base (taken ++ [l.tokenOf (l.transition c cs) text])
      (l.past (l.transition c cs) text rest) := by
  have hFaithful : (l.transition c cs).Faithful c cs :=
    Transition.of_faithful l.sigil
  generalize l.transition c cs = t at hFaithful ⊢
  have hSub : taken ⊆ taken ++ [l.tokenOf t text] :=
    List.subset_append_left _ _
  have hLast :
      l.tokenOf t text ∈ taken ++ [l.tokenOf t text] := by
    simp
  refine ⟨?_, ?_, hTraced.raised, hTraced.stopped,
    hTraced.ended⟩
  · exact (hTraced.frames.mono hSub).apply t.change hBase hLast
  · intro e hError
    rcases List.mem_append.mp hError with hOld | hNew
    · rcases hTraced.errors e hOld with ⟨hFault, u, hTaken, hSpan⟩
      exact ⟨hFault, u, hSub hTaken, hSpan⟩
    · have hShown := Option.mem_toList.mp hNew
      refine ⟨isUnterminated_of_errorOf? hFaithful hShown, _,
        hLast, ?_⟩
      rcases Option.map_eq_some_iff.mp hShown with ⟨_, _, rfl⟩
      rfl

/-
  At the end of the source every error stands at a token that
  was taken, but for that of the outermost open literal.
-/
theorem Traced.take
    {n : Nat}
    (hBase : AtMostLiteral base)
    (hTraced : Traced base taken l)
    (hEnough : l.rest.length < n) :
    OpenedBy base (taken ++ (l.take n).1.map (·.1))
        (l.take n).2.frames ∧
      ∀ e ∈ (l.take n).2.errors,
        (e.fault.isUnterminated = false ∧
          ∃ t ∈ taken ++ (l.take n).1.map (·.1),
            t.span = e.span) ∨
          (e.fault.isUnterminated = true ∧
            ∃ g,
              outermostGroup? (l.take n).2.frames =
                some (g, e.span)) := by
  induction n generalizing l taken with
  | zero => omega
  | succ n ih =>
      cases hRest : l.rest with
      | nil =>
          have hNext :=
            next_of_rest_nil hTraced.raised hTraced.stopped hRest
          rw [take_of_none n (by rw [hNext]), hNext]
          have hFrames : l.finish.frames = l.frames := by
            unfold finish
            split <;> rfl
          rw [List.map_nil, List.append_nil, hFrames]
          refine ⟨hTraced.frames, ?_⟩
          intro e hError
          unfold finish at hError
          rw [hTraced.ended] at hError
          rcases List.mem_append.mp hError with hOld | hEnd
          · exact .inl (hTraced.errors e hOld)
          · rcases Option.map_eq_some_iff.mp
                (Option.mem_toList.mp hEnd) with
              ⟨⟨g, opened⟩, hOutermost, rfl⟩
            exact .inr ⟨rfl, g, hOutermost⟩
      | cons c cs =>
          have hNext :=
            next_of_rest_cons hTraced.raised hTraced.stopped hRest
          have hFewer :
              (cs.drop (l.transition c cs).more).length < n := by
            rw [List.length_drop]
            rw [hRest, List.length_cons] at hEnough
            omega
          have hRun :=
            ih (hTraced.past c cs
              (c :: cs.take (l.transition c cs).more)
              (cs.drop (l.transition c cs).more) hBase) hFewer
          rw [take_of_some n (by rw [hNext]), hNext]
          simpa [List.append_assoc] using hRun

------------------------------------------------------------
-- Whole sources
------------------------------------------------------------

end Lexer

end ElixirReader
