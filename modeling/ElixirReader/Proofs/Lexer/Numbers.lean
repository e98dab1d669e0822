import ElixirReader.Parser.State
import ElixirReader.Proofs.Lexer.Positions

/-
  This file shows that faulty digits never stand alone: the
  lexer reads digits only behind another part of a number, so
  the token before faulty digits is such a part and touches
  them.

  Key definitions include:
    * `Kind.isBadNumber`
    * `Transition.Numbers`
    * `areNumbered`
    * `Lexeme.AreNumbered`

  Main declarations:
    * `Transition.of_numbers`
    * `Lexer.areNumbered_take`
    * `Lexeme.areNumbered_ofTokens_tokenize`
-/

namespace ElixirReader

/- The faulty kinds but that of a character without a place. -/
def Kind.isBadNumber
    (k : Kind) : Bool :=
  k.isFaulty && k != .badCharacter

theorem Kind.isNumberPart_of_isBadNumber
    {k : Kind}
    (hBad : k.isBadNumber = true) :
    k.isNumberPart = true := by
  cases k <;> first | rfl | cases hBad

namespace Transition

------------------------------------------------------------
-- One token
------------------------------------------------------------

/-
  A token leads into a number only as a part of it, and digits
  are faulty only in a number.
-/
structure Numbers
    (mode : Mode)
    (t : Transition) : Prop where
  enters : t.mode.isNumber = true → t.kind.isNumberPart = true
  digits : t.kind.isBadNumber = true → mode.isNumber = true

/- No interpolation resumes a number. -/
def ResumesText
    (top : Option Frame) : Prop :=
  ∀ n m, top = some (.interpolation n m) → m.isNumber = false

variable {mode next : Mode}
variable {kind : Kind}
variable {top : Option Frame}
variable {c : Char}
variable {cs : List Char}

/- A token that leads to no number, with no faulty digits. -/
theorem numbers_of
    {t : Transition}
    (hMode : t.mode.isNumber = false)
    (hKind : t.kind.isBadNumber = false) :
    Numbers mode t := by
  constructor
  · intro hNumber
    rw [hMode] at hNumber
    cases hNumber
  · intro hBad
    rw [hKind] at hBad
    cases hBad

theorem isNumber_afterBlank
    (mode : Mode) :
    mode.afterBlank.isNumber = false := by
  cases mode <;> rfl

theorem isNumber_of_newlineIsBlank
    (hBlank : mode.newlineIsBlank = true) :
    mode.isNumber = false := by
  cases mode <;> first | rfl | cases hBlank

/- Where a token leads to a fixed mode its kind tells of it. -/
theorem isNumberPart_of_mem_fixedSteps :
    ∀ step ∈ fixedSteps,
      (step.2.isNumber = true → step.1.isNumberPart = true) ∧
        step.1.isBadNumber = false := by
  decide

theorem Code.numbers
    {t : Transition}
    (hTop : ResumesText top)
    (hCode : Code mode top c cs t) :
    Numbers mode t := by
  cases hCode with
  | fixed _ _ _ hStep _ =>
      have hPart := isNumberPart_of_mem_fixedSteps _ hStep
      exact ⟨hPart.1, fun hBad => by cases hPart.2.symm.trans hBad⟩
  | space m _ _ _ hNext _ =>
      refine numbers_of ?_ rfl
      rcases hNext with rfl | ⟨rfl, hBlank⟩
      · exact isNumber_afterBlank m
      · exact isNumber_of_newlineIsBlank hBlank
  | digits kind _ hNumber hKind _ =>
      refine ⟨fun _ => ?_, fun _ => hNumber⟩
      change kind.isNumberPart = true
      cases kind <;> first | rfl | cases hKind
  | character _ _ _ => exact numbers_of rfl rfl
  | sigilName _ _ _ hKind _ =>
      refine numbers_of rfl ?_
      rcases hKind with rfl | rfl <;> rfl
  | opensCurly => exact numbers_of rfl rfl
  | closesCurly =>
      unfold closeCurly
      split
      · exact numbers_of (hTop _ _ rfl) rfl
      · exact numbers_of rfl rfl
  | opens g _ =>
      refine numbers_of ?_ rfl
      change g.startMode.isNumber = false
      unfold Group.startMode
      cases g.layout <;> rfl

/- Inside of a literal there are no numbers. -/
theorem isNumber_of_isIn
    {layout : Layout}
    (hIn : mode.isIn layout = true) :
    mode.isNumber = false := by
  cases layout <;> cases mode <;> first | rfl | cases hIn

theorem endMode_numbers
    (g : Group) :
    g.endMode.isNumber = false := by
  unfold Group.endMode
  cases g.family <;> cases g.layout <;> rfl

theorem body_numbers
    (g : Group) :
    Numbers mode (body g c cs) := by
  have hIn : (body g c cs).kind.isBadNumber = false ∧
      (body g c cs).mode.isNumber = false := by
    unfold body
    split
    · exact ⟨rfl, isNumber_of_isIn (isIn_escapeMode cs).1⟩
    · split
      · exact ⟨rfl, rfl⟩
      · exact ⟨rfl, isNumber_of_isIn (isIn_fragmentMode _).1⟩
  exact numbers_of hIn.2 hIn.1

theorem heredocStart_numbers :
    Numbers mode (heredocStart c cs) := by
  unfold heredocStart
  split
  · exact numbers_of rfl rfl
  · split <;> exact numbers_of rfl rfl

/- No token but a part of a number leads into one. -/
theorem of_numbers
    (pending : Option Bool)
    (hTop : ResumesText top) :
    Numbers mode (Transition.of mode pending top c cs) := by
  cases hGroup : mode.isGroup with
  | false => exact (of_code pending hGroup).numbers hTop
  | true =>
      cases mode <;> try cases hGroup
      · change Numbers _ (group _ c cs)
        unfold group
        split
        · exact numbers_of (endMode_numbers _) rfl
        · exact body_numbers _
      · exact heredocStart_numbers
      · change Numbers _ (heredocLineStart _ c cs)
        unfold heredocLineStart
        split
        · exact numbers_of rfl rfl
        · split
          · exact numbers_of (endMode_numbers _) rfl
          · exact body_numbers _
      · exact body_numbers _

end Transition

------------------------------------------------------------
-- Runs of tokens
------------------------------------------------------------

/-
  Behind a token of some kind, the faulty digits among some
  kinds stand right behind parts of numbers.
-/
def areNumbered : Option Kind → List Kind → Prop
| _, [] => True
| before, k :: ks =>
    (k.isBadNumber = true → before.any Kind.isNumberPart = true) ∧
      areNumbered (some k) ks

namespace Lexer

/- An interpolation resumes the body of a literal. -/
theorem Coherent.resumesText
    {l : Lexer}
    (hCoherent : Coherent l) :
    Transition.ResumesText l.frames.head? := by
  intro n m hTop
  have hAlternate := hCoherent.alternate
  cases hFrames : l.frames with
  | nil =>
      rw [hFrames] at hTop
      cases hTop
  | cons f fs =>
      rw [hFrames] at hTop hAlternate
      cases hTop
      cases hAlternate with
      | interpolation _ _ g opened fs hQuoted hHeredoc _ =>
          cases hLayout : g.layout with
          | quoted => rw [hQuoted hLayout]; rfl
          | heredoc => rw [hHeredoc hLayout]; rfl

/- In a number, its last part was taken right before. -/
theorem areNumbered_take
    {l : Lexer}
    (n : Nat)
    (before : Option Kind)
    (hCoherent : Coherent l)
    (hRuns : l.raised = false ∧ l.stopped = false)
    (hBefore : l.mode.isNumber = true →
      before.any Kind.isNumberPart = true) :
    areNumbered before ((l.take n).1.map (·.1.kind)) := by
  induction n generalizing l before with
  | zero => trivial
  | succ n ih =>
      rcases hRuns with ⟨hRaised, hStopped⟩
      cases hRest : l.rest with
      | nil =>
          have hNext := next_of_rest_nil hRaised hStopped hRest
          rw [take_of_none n (by rw [hNext])]
          trivial
      | cons c cs =>
          have hNext := next_of_rest_cons hRaised hStopped hRest
          have hNumbers : (l.transition c cs).Numbers l.mode :=
            Transition.of_numbers l.sigil hCoherent.resumesText
          rw [take_of_some n (by rw [hNext]), hNext]
          exact ⟨fun hBad => hBefore (hNumbers.digits hBad),
            ih _ (hCoherent.past c cs _ _) ⟨hRaised, hStopped⟩
              hNumbers.enters⟩

end Lexer

------------------------------------------------------------
-- Lexemes
------------------------------------------------------------

namespace Lexeme

/-
  Behind a lexeme of some kind, faulty digits touch the part
  of a number before them.
-/
def AreNumbered : Option Kind → List Lexeme → Prop
| _, [] => True
| before, l :: ls =>
    (l.kind.isBadNumber = true →
        l.spaced = false ∧
          before.any Kind.isNumberPart = true) ∧
      AreNumbered (some l.kind) ls

theorem areNumbered_ofTokensAfter
    {tokens : List Token}
    {spaced : Bool}
    {first before : Option Kind}
    (hTokens : areNumbered first (tokens.map (·.kind)))
    (hTrivia : spaced = true →
      first.any Kind.isNumberPart = false)
    (hSame : spaced = false → first = before) :
    AreNumbered before (ofTokensAfter spaced tokens) := by
  induction tokens generalizing spaced first before with
  | nil => trivial
  | cons t tokens ih =>
      rw [List.map_cons] at hTokens
      rcases hTokens with ⟨hBad, hMore⟩
      rw [ofTokensAfter]
      split
      · rename_i hKind
        refine ih hMore (fun _ => ?_) (fun hNone => nomatch hNone)
        change t.kind.isNumberPart = false
        generalize t.kind = k at hKind
        cases k <;> first | rfl | cases hKind
      · refine ⟨?_, ih hMore (fun hSome => nomatch hSome)
          (fun _ => rfl)⟩
        intro hFaulty
        have hPart := hBad hFaulty
        cases spaced with
        | true =>
            rw [hTrivia rfl] at hPart
            cases hPart
        | false =>
            rw [hSame rfl] at hPart
            exact ⟨rfl, hPart⟩

/- What stands before faulty digits is a part of a number. -/
theorem AreNumbered.exists_before
    {before : Option Kind}
    {ls ms : List Lexeme}
    {l : Lexeme}
    (hNumbered : AreNumbered before (ls ++ l :: ms))
    (hFaulty : l.kind.isBadNumber = true) :
    l.spaced = false ∧
      ((ls.getLast?.map Lexeme.kind).or before).any
        Kind.isNumberPart = true := by
  induction ls generalizing before with
  | nil => exact hNumbered.1 hFaulty
  | cons m ls ih =>
      rcases ih hNumbered.2 with ⟨hTouches, hPart⟩
      refine ⟨hTouches, ?_⟩
      cases ls with
      | nil => exact hPart
      | cons k ks =>
          rw [List.getLast?_cons_cons]
          cases hLast : (k :: ks).getLast? with
          | none => cases List.getLast?_eq_none_iff.mp hLast
          | some last =>
              rw [hLast] at hPart
              exact hPart

theorem areNumbered_ofTokens_tokenize
    (source : String) :
    AreNumbered none (ofTokens (tokenize source).1) := by
  have hRun :=
    Lexer.areNumbered_take (l := Lexer.ofSource source)
      ((Lexer.ofSource source).rest.length + 1) none
      (Lexer.coherent_startingIn .initial source) ⟨rfl, rfl⟩
      (fun hNumber => nomatch hNumber)
  have hTokens :
      areNumbered none
        ((tokenize source).1.map (·.kind)) := by
    change areNumbered none
      (((Lexer.ofSource source).drain.1.map (·.1)).map (·.kind))
    rw [List.map_map]
    exact hRun
  exact areNumbered_ofTokensAfter hTokens
    (fun hSome => nomatch hSome) (fun _ => rfl)

end Lexeme

end ElixirReader
