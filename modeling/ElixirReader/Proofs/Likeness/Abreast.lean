import ElixirReader.Proofs.Lexer.Enclosures
import ElixirReader.Proofs.Lexer.Nesting
import ElixirReader.Proofs.Lexer.Resuming
import ElixirReader.Proofs.Likeness.Tails

/-
  This file lets two lexers go side by side. The constructs
  that are open for the first are open for the second, and
  below them an interpolation may be open for the second
  alone. As long as the brackets that the first one finds are
  balanced, that interpolation is not ended by a curly.

  Key definitions include:
    * `Mode.base`
    * `Frame.Over`
    * `Lexer.Clean`
    * `Lexer.Abreast`
    * `Token.shape`

  Main declarations:
    * `Lexer.Abreast.transition`
    * `Lexer.Abreast.past`
    * `Lexer.Abreast.takes`
-/

namespace ElixirReader

open Transition

------------------------------------------------------------
-- White space and comments
------------------------------------------------------------

/- The kinds of white space, comments and newlines. -/
def Kind.isSpacing
    (k : Kind) : Bool :=
  k.isTrivia || k == .endOfLine

/- The mode in which a mode reads what it does not expect. -/
def Mode.base : Mode → Mode
| atomStart => initial
| baseLetter => initial
| sigil => initial
| sigilModifiers => afterOperand
| mode => mode

/- The modes in which blanks and newlines separate tokens. -/
def Mode.readsSpace
    (mode : Mode) : Bool :=
  !mode.isGroup && mode != .character

/- Behind blanks more of them may follow. -/
theorem Mode.readsSpace_afterBlank
    (mode : Mode) :
    mode.afterBlank.readsSpace = true := by
  cases mode <;> rfl

theorem Mode.readsSpace_base
    {mode : Mode}
    (hMode : mode.readsSpace = true) :
    mode.base.readsSpace = true := by
  cases mode <;> first | rfl | cases hMode

/- The mode behind a comment. -/
def Mode.afterComment : Mode → Mode
| afterDot => afterDot
| _ => initial

theorem Mode.readsSpace_afterComment
    (mode : Mode) :
    mode.afterComment.readsSpace = true := by
  cases mode <;> rfl

namespace Transition

variable {mode : Mode}
variable {pending : Option Bool}
variable {top : Option Frame}
variable {c : Char}
variable {cs : List Char}

theorem of_of_isBlank
    (hMode : mode.readsSpace = true)
    (hBlank : isBlank c = true) :
    Transition.of mode pending top c cs = blanks mode.base cs := by
  simp only [isBlank, Bool.or_eq_true, beq_iff_eq, or_assoc]
    at hBlank
  rcases hBlank with rfl | rfl | rfl <;> cases mode <;>
    first | rfl | (cases pending <;> rfl) | cases hMode

theorem of_of_isLineBreak
    (hMode : mode.readsSpace = true)
    (hBreak : isLineBreak c = true) :
    Transition.of mode pending top c cs =
      lineBreak mode.base c cs := by
  simp only [isLineBreak, Bool.or_eq_true, beq_iff_eq] at hBreak
  rcases hBreak with rfl | rfl <;> cases mode <;>
    first | rfl | (cases pending <;> rfl) | cases hMode

theorem of_hash
    (hMode : mode.readsSpace = true) :
    Transition.of mode pending top '#' cs =
      comment mode.afterComment cs := by
  cases mode <;>
    first | rfl | (cases pending <;> rfl) | cases hMode

/- No literal is opened by white space. -/
theorem isSpace_terminator
    {g : Group}
    (hMode : mode.isGroup = false)
    (hOpens :
      (Transition.of mode pending top c cs).change = .openGroup g) :
    isSpace g.terminator = false := by
  have hSpace : isSpace c = false := by
    rw [Bool.eq_false_iff]
    intro hSpace
    by_cases hCharacter : mode = .character
    · subst hCharacter
      cases hOpens
    · have hReads : mode.readsSpace = true := by
        simp [Mode.readsSpace, hMode, hCharacter]
      rw [isSpace, Bool.or_eq_true] at hSpace
      rcases hSpace with hBlank | hBreak
      · rw [of_of_isBlank hReads hBlank] at hOpens
        cases hOpens
      · rw [of_of_isLineBreak hReads hBreak, lineBreak] at hOpens
        split at hOpens <;> cases hOpens
  have hFaithful := @of_faithful mode top c cs pending
  have hHead : g.terminatorText.toList.head? = some g.terminator := by
    unfold Group.terminatorText
    split <;> rw [String.toList_ofList] <;> rfl
  rw [← hFaithful.opens g hOpens] at hHead
  unfold closingText at hHead
  split at hHead
  · rw [← show ')' = g.terminator from Option.some.inj hHead]
    rfl
  · rw [← show ']' = g.terminator from Option.some.inj hHead]
    rfl
  · rw [← show '\x7d' = g.terminator from Option.some.inj hHead]
    rfl
  · rw [← show '>' = g.terminator from Option.some.inj hHead]
    rfl
  · rw [String.toList_ofList] at hHead
    cases hHead
    exact hSpace

------------------------------------------------------------
-- Curlies
------------------------------------------------------------

/- Only a curly asks whether an interpolation ends. -/
theorem symbol_congr
    {top' : Option Frame}
    (hCurly : c = '\x7d' → closeCurly top = closeCurly top') :
    symbol mode top c cs = symbol mode top' c cs := by
  by_cases hEq : c = '\x7d'
  · subst hEq
    exact hCurly rfl
  · unfold symbol
    split <;> first | rfl | exact absurd rfl hEq

theorem of_congr_of_ne
    {top' : Option Frame}
    (mode : Mode)
    (pending : Option Bool)
    (hOther : c ≠ '\x7d')
    (hGroup :
      ∀ layout, currentGroup layout top = currentGroup layout top') :
    Transition.of mode pending top c cs =
      Transition.of mode pending top' c cs := by
  have hSymbol : ∀ mode,
      symbol mode top c cs = symbol mode top' c cs :=
    fun _ => symbol_congr fun hEq => absurd hEq hOther
  simp only [Transition.of, hGroup, sigilHead, sigilName,
    sigilPromoter, sigilModifiers, atomStart, afterDot,
    baseLetter, digits, exponentOrRun, digitRun, expression,
    hSymbol]

/- Outside of literals a curly is a bracket, or a character. -/
theorem of_closingCurly
    (hMode : mode.readsSpace = true) :
    (Transition.of mode pending none '\x7d' cs).kind =
      .closing .curly := by
  cases mode <;>
    first | rfl | (cases pending <;> rfl) | cases hMode

end Transition

------------------------------------------------------------
-- Frames
------------------------------------------------------------

namespace Frame

/- The number of curlies that are open in interpolations. -/
def curlies : List Frame → Nat
| [] => 0
| .group _ _ :: fs => curlies fs
| .interpolation n _ :: fs => n + curlies fs

/-
  What is open for the second lexer alone: nothing, or an
  interpolation with so many curlies, over some more frames.
-/
def floor : Option (Mode × List Frame) → Nat → List Frame
| none, _ => []
| some (resume, fs), n => .interpolation n resume :: fs

/- Frames that are alike, but for those below the first ones. -/
inductive Over
    (below : List Frame) : List Frame → List Frame → Prop where
| none :
    Over below [] below
| frame
    {f f' : Frame}
    {fs fs' : List Frame}
    (hTop : Same f f')
    (hRest : Over below fs fs') :
    Over below (f :: fs) (f' :: fs')

end Frame

/- The number of curlies among what is open. -/
def Nest.curlies
    (ds : Nest) : Nat :=
  ds.count (.bracket .curly)

/- Only a curly changes the number of curlies. -/
theorem Nest.curlies_of_token?
    {ds es : Nest}
    {k : Kind}
    (hNext : ds.token? k = some es) :
    es.curlies + (if k = .closing .curly then 1 else 0) =
      ds.curlies + (if k = .opening .curly then 1 else 0) := by
  unfold token? at hNext
  split at hNext
  · rename_i hTrivia
    cases hNext
    have hOther : k ≠ .closing .curly ∧ k ≠ .opening .curly := by
      constructor <;> (rintro rfl; cases hTrivia)
    rw [if_neg hOther.1, if_neg hOther.2]
  · unfold curlies
    cases step_of_next? hNext with
    | opens d ds hOpener =>
        have hCloses : k ≠ .closing .curly := by
          rintro rfl
          cases hOpener
        rw [if_neg hCloses, List.count_cons]
        by_cases hOpens : k = .opening .curly
        · subst hOpens
          cases hOpener
          simp
        · have hOther : d ≠ .bracket .curly := by
            rintro rfl
            apply hOpens
            cases k with
            | opening b =>
                cases hOpener
                rfl
            | word w => cases w <;> cases hOpener
            | promoter f l => cases l <;> cases hOpener
            | _ => cases hOpener
          simp [hOpens, hOther]
    | closes d es hCloser =>
        have hOpens : k ≠ .opening .curly := by
          rintro rfl
          cases hCloser
        rw [if_neg hOpens, List.count_cons]
        by_cases hCloses : k = .closing .curly
        · subst hCloses
          cases hCloser
          simp
        · have hOther : d ≠ .bracket .curly := by
            rintro rfl
            apply hCloses
            cases k with
            | closing b =>
                cases hCloser
                rfl
            | word w => cases w <;> cases hCloser
            | _ => cases hCloser
          simp [hCloses, hOther]
    | keeps ds hFlat =>
        have hOther : k ≠ .closing .curly ∧ k ≠ .opening .curly := by
          constructor <;> (rintro rfl; cases hFlat)
        rw [if_neg hOther.1, if_neg hOther.2]
    | startsText f ds hKind =>
        subst hKind
        simp

------------------------------------------------------------
-- Two lexers
------------------------------------------------------------

namespace Lexer

/- Nobody stops the lexer, and it has found no error. -/
structure Clean
    (l : Lexer) : Prop where
  errors : l.errors = []
  raised : l.raised = false
  stopped : l.stopped = false
  ended : l.ended = false

/-
  Two lexers at which the same token is next, if they read
  alike and stand before the same characters. `ds` is what is
  open behind the tokens that the first one has taken. The
  number of its curlies that are in no interpolation of the
  first are in the one below.
-/
structure Abreast
    (base : Option (Mode × List Frame))
    (ds : Nest)
    (l l' : Lexer) : Prop where
  frames :
    ∃ n, Frame.Over (Frame.floor base n) l.frames l'.frames ∧
      n + Frame.curlies l.frames = ds.curlies
  terminators :
    ∀ g opened, .group g opened ∈ l.frames →
      isSpace g.terminator = false
  coherent : Coherent l
  clean : l.Clean
  clean' : l'.Clean

variable {l l' last : Lexer}
variable {c : Char}
variable {cs text : List Char}

/- Every token stands outside of literals, or in one. -/
theorem Coherent.token_cases
    (c : Char)
    (cs : List Char)
    (hCoherent : Coherent l) :
    l.mode.isGroup = false ∧
        (l.transition c cs).Outside l.frames.head? ∨
      ∃ g opened fs, l.frames = .group g opened :: fs ∧
        (l.transition c cs).Inside g l.mode := by
  cases hMode : l.mode.isGroup with
  | false =>
      exact .inl ⟨rfl, Transition.of_outside l.sigil hMode⟩
  | true =>
      rcases hCoherent.group_iff.mp hMode with
        ⟨g, opened, fs, hFrames⟩
      refine .inr ⟨g, opened, fs, hFrames, ?_⟩
      unfold Lexer.transition
      rw [hFrames]
      exact Transition.of_inside l.sigil opened
        (hCoherent.isIn hFrames)

/- In a literal no other one is opened. -/
theorem isGroup_of_openGroup
    {g : Group}
    (hCoherent : Coherent l)
    (hOpens : (l.transition c cs).change = .openGroup g) :
    l.mode.isGroup = false := by
  rcases hCoherent.token_cases c cs with
    ⟨hMode, _⟩ | ⟨g', opened, fs, hFrames, hInside⟩
  · exact hMode
  · cases hInside with
    | onFirstLine _ _ _ hChange _ =>
        rw [hChange] at hOpens
        cases hOpens
    | endsFirstLine _ _ _ hChange _ =>
        rw [hChange] at hOpens
        cases hOpens
    | segment _ _ _ _ hChange _ =>
        rw [hChange] at hOpens
        cases hOpens
    | interpolates _ hEq =>
        rw [hEq] at hOpens
        cases hOpens
    | ends _ hEq =>
        rw [hEq] at hOpens
        cases hOpens

/- White space and comments leave what is open as it is. -/
theorem change_of_isTrivia
    (hCoherent : Coherent l)
    (hTrivia : (l.transition c cs).kind.isTrivia = true) :
    (l.transition c cs).change = .keep := by
  rcases hCoherent.token_cases c cs with
    ⟨_, hOutside⟩ | ⟨g, opened, fs, hFrames, hInside⟩
  · cases hOutside with
    | keeps hKeeps => exact hKeeps.change
    | opensCurly hEq =>
        rw [hEq] at hTrivia
        cases hTrivia
    | closesCurly hEq _ =>
        rw [hEq] at hTrivia
        cases hTrivia
    | opens g hEq =>
        rw [hEq] at hTrivia
        cases hTrivia
    | resumes resume _ hEq =>
        rw [hEq] at hTrivia
        cases hTrivia
  · cases hInside with
    | onFirstLine _ _ _ hChange _ => exact hChange
    | endsFirstLine _ _ _ hChange _ => exact hChange
    | segment _ _ _ _ hChange _ => exact hChange
    | interpolates _ hEq =>
        rw [hEq] at hTrivia
        cases hTrivia
    | ends _ hEq =>
        rw [hEq] at hTrivia
        cases hTrivia

/- Space that leads out of no literal was read in code. -/
theorem Coherent.readsSpace
    (hCoherent : Coherent l)
    (hSpacing : (l.transition c cs).kind.isSpacing = true)
    (hNext : (l.transition c cs).mode.isGroup = false) :
    l.mode.readsSpace = true := by
  rw [Mode.readsSpace, Bool.and_eq_true, Bool.not_eq_true',
    bne_iff_ne]
  constructor
  · rcases hCoherent.token_cases c cs with
      ⟨hMode, _⟩ | ⟨g, opened, fs, _, hInside⟩
    · exact hMode
    · exfalso
      cases hInside with
      | onFirstLine _ _ hStays _ _ =>
          rw [hStays] at hNext
          cases hNext
      | endsFirstLine _ _ hStarts _ _ =>
          rw [hStarts] at hNext
          cases hNext
      | segment _ hKind _ _ _ _ =>
          rcases hKind with hKind | hKind | hKind <;>
            (rw [hKind] at hSpacing; cases hSpacing)
      | interpolates _ hEq =>
          rw [hEq] at hSpacing
          cases hSpacing
      | ends _ hEq =>
          rw [hEq] at hSpacing
          cases hSpacing
  · intro hCharacter
    unfold transition at hSpacing
    rw [hCharacter] at hSpacing
    cases hSpacing

/- A literal that is open was open before, or is opened now. -/
theorem mem_apply
    {change : Change}
    {span opened : Span}
    {g : Group}
    {fs : List Frame}
    (hMem : .group g opened ∈ change.apply span fs) :
    .group g opened ∈ fs ∨ change = .openGroup g := by
  cases change with
  | keep => exact .inl hMem
  | openGroup g' =>
      rcases List.mem_cons.mp hMem with hEq | hMem
      · cases hEq
        exact .inr rfl
      · exact .inl hMem
  | openInterpolation m =>
      rcases List.mem_cons.mp hMem with hEq | hMem
      · cases hEq
      · exact .inl hMem
  | close => exact .inl (List.mem_of_mem_tail hMem)
  | _ =>
      left
      rcases fs with _ | ⟨⟨g', o⟩ | ⟨n, m⟩, fs⟩
      · exact hMem
      · exact hMem
      · rcases List.mem_cons.mp hMem with hEq | hMem
        · cases hEq
        · exact List.mem_cons_of_mem _ hMem

/- Whether a token is an error does not hang on the lexer. -/
theorem errorOf?_eq_none_of
    {t : Transition}
    (l' : Lexer)
    (hNone : l.errorOf? t text = none) :
    l'.errorOf? t text = none := by
  unfold errorOf? at hNone ⊢
  rw [Option.map_eq_none_iff] at hNone ⊢
  exact hNone

/- Lexers that read alike, but for what is open. -/
structure ReadsAlike
    (l l' : Lexer) : Prop where
  mode : l.mode = l'.mode
  sigil : l.sigil = l'.sigil

namespace Abreast

variable {base : Option (Mode × List Frame)}
variable {ds es : Nest}

/- A group that is read in has a terminator that shows. -/
theorem isSpace_terminator
    (layout : Layout)
    (hAbreast : Abreast base ds l l') :
    isSpace (currentGroup layout l.frames.head?).terminator =
      false := by
  cases hFrames : l.frames with
  | nil => rfl
  | cons f fs =>
      cases f with
      | interpolation n resume => rfl
      | group g opened =>
          apply hAbreast.terminators g opened
          rw [hFrames]
          exact List.mem_cons_self

/- The next token is the same for both. -/
theorem transition
    (c : Char)
    (cs : List Char)
    (hAbreast : Abreast base ds l l')
    (hReads : ReadsAlike l l')
    (hNext : ds.token? (l.transition c cs).kind = some es) :
    l'.transition c cs = l.transition c cs := by
  rcases hAbreast.frames with ⟨n, hOver, hCurlies⟩
  unfold Lexer.transition at hNext ⊢
  rw [← hReads.mode, ← hReads.sigil]
  generalize hFs : l.frames = fs at *
  generalize l'.frames = fs' at *
  cases hOver with
  | frame hTop hRest =>
      cases hTop with
      | group g o o' =>
          exact of_congr _ _ c cs rfl (fun _ => rfl)
      | interpolation n resume => rfl
  | none =>
      cases base with
      | none => rfl
      | some base =>
          rcases base with ⟨resume, below⟩
          by_cases hCurly : c = '\x7d'
          · subst hCurly
            by_cases hCharacter : l.mode = .character
            · rw [hCharacter]
              rfl
            · have hGroup : l.mode.isGroup = false := by
                rw [Bool.eq_false_iff]
                intro hGroup
                rcases hAbreast.coherent.group_iff.mp hGroup with
                  ⟨g, opened, fs, hFrames⟩
                rw [hFs] at hFrames
                cases hFrames
              have hSpace : l.mode.readsSpace = true := by
                simp [Mode.readsSpace, hGroup, hCharacter]
              have hCount := Nest.curlies_of_token? hNext
              have hKind := @of_closingCurly _ l.sigil cs hSpace
              rw [List.head?_nil, hKind] at hCount
              cases n with
              | zero =>
                  simp [Frame.curlies] at hCount hCurlies
                  omega
              | succ n =>
                  exact of_congr _ _ _ cs rfl (fun _ => rfl)
          · exact of_congr_of_ne _ _ hCurly (fun _ => rfl)

/- A token that leaves what is open as it is. -/
theorem frames_past_of_keep
    {t : Transition}
    (rest rest' : List Char)
    (hAbreast : Abreast base ds l l')
    (hChange : t.change = .keep)
    (hSame : es.curlies = ds.curlies) :
    ∃ n, Frame.Over (Frame.floor base n)
        (l.past t text rest).frames (l'.past t text rest').frames ∧
      n + Frame.curlies (l.past t text rest).frames =
        es.curlies := by
  simp only [Lexer.past, hChange, Change.apply, hSame]
  exact hAbreast.frames

/- What is open behind the next token of both. -/
theorem frames_past
    (rest rest' : List Char)
    (hAbreast : Abreast base ds l l')
    (hNext : ds.token? (l.transition c cs).kind = some es) :
    ∃ n, Frame.Over (Frame.floor base n)
        (l.past (l.transition c cs) text rest).frames
        (l'.past (l.transition c cs) text rest').frames ∧
      n + Frame.curlies
          (l.past (l.transition c cs) text rest).frames =
        es.curlies := by
  have hCount := Nest.curlies_of_token? hNext
  have hCases := hAbreast.coherent.token_cases c cs
  generalize l.transition c cs = t at *
  have hOther : t.kind ≠ .closing .curly →
      t.kind ≠ .opening .curly → es.curlies = ds.curlies := by
    intro hCloses hOpens
    simpa [hCloses, hOpens] using hCount
  rcases hCases with
    ⟨hMode, hOutside⟩ | ⟨g, opened, fs, hFrames, hInside⟩
  · cases hOutside with
    | keeps hKeeps =>
        apply hAbreast.frames_past_of_keep _ _ hKeeps.change
        have hKind := hKeeps.kind
        apply hOther <;> (intro hCurly; rw [hCurly] at hKind; cases hKind)
    | opensCurly hEq =>
        subst hEq
        have hMore : es.curlies = ds.curlies + 1 := hCount
        rcases hAbreast.frames with ⟨n, hOver, hCurlies⟩
        have hFs := hAbreast.coherent.isOutside hMode
        simp only [Lexer.past, Transition.openCurly, hMore,
          ← hCurlies]
        generalize l.frames = fs at hOver hFs ⊢
        generalize l'.frames = fs' at hOver ⊢
        cases hOver with
        | none =>
            refine ⟨n + 1, ?_, ?_⟩
            · rcases base with _ | ⟨resume, below⟩
              · exact .none
              · exact .none
            · simp [Change.apply, Frame.curlies]
        | frame hTop hRest =>
            cases hTop with
            | group g o o' => cases hFs
            | interpolation k resume =>
                refine ⟨n, .frame (.interpolation _ _) hRest, ?_⟩
                simp only [Change.apply, Frame.curlies]
                omega
    | closesCurly hEq hTop =>
        subst hEq
        have hFewer : es.curlies + 1 = ds.curlies := hCount
        rcases hAbreast.frames with ⟨n, hOver, hCurlies⟩
        have hFs := hAbreast.coherent.isOutside hMode
        simp only [Lexer.past]
        generalize l.frames = fs at hOver hFs hTop hCurlies ⊢
        generalize l'.frames = fs' at hOver ⊢
        cases hOver with
        | none =>
            refine ⟨n - 1, ?_, ?_⟩
            · rcases base with _ | ⟨resume, below⟩
              · exact .none
              · exact .none
            · simp only [Change.apply, Frame.curlies] at hCurlies ⊢
              omega
        | frame hSame hRest =>
            cases hSame with
            | group g o o' => cases hFs
            | interpolation k resume =>
                have hSome : k ≠ 0 := by
                  rintro rfl
                  exact hTop resume rfl
                refine ⟨n, .frame (.interpolation _ _) hRest, ?_⟩
                simp only [Change.apply, Frame.curlies] at hCurlies ⊢
                omega
    | opens g hEq =>
        subst hEq
        rcases hAbreast.frames with ⟨n, hOver, hCurlies⟩
        refine ⟨n, .frame (.group g _ _) hOver, ?_⟩
        have hEs : es.curlies = ds.curlies := by
          apply hOther <;> (intro hKind; cases hKind)
        rw [hEs, ← hCurlies]
        rfl
    | resumes resume hTop hEq =>
        subst hEq
        rcases hAbreast.frames with ⟨n, hOver, hCurlies⟩
        have hEs : es.curlies = ds.curlies := by
          apply hOther <;> (intro hKind; cases hKind)
        simp only [Lexer.past, hEs]
        generalize l.frames = fs at hOver hTop hCurlies ⊢
        generalize l'.frames = fs' at hOver ⊢
        cases hOver with
        | none => cases hTop
        | frame hSame hRest =>
            cases hTop
            cases hSame with
            | interpolation _ _ =>
                refine ⟨n, hRest, ?_⟩
                simp only [Frame.curlies, Nat.zero_add] at hCurlies
                exact hCurlies
  · cases hInside with
    | onFirstLine _ hKind _ hChange _ =>
        apply hAbreast.frames_past_of_keep _ _ hChange
        apply hOther <;> rcases hKind with hKind | hKind <;>
          simp [hKind]
    | endsFirstLine _ hKind _ hChange _ =>
        apply hAbreast.frames_past_of_keep _ _ hChange
        apply hOther <;> simp [hKind]
    | segment _ hKind _ _ hChange _ =>
        apply hAbreast.frames_past_of_keep _ _ hChange
        apply hOther <;>
          rcases hKind with hKind | hKind | hKind <;>
            simp [hKind]
    | interpolates _ hEq =>
        subst hEq
        rcases hAbreast.frames with ⟨n, hOver, hCurlies⟩
        refine ⟨n, .frame (.interpolation 0 _) hOver, ?_⟩
        have hEs : es.curlies = ds.curlies := by
          apply hOther <;> (intro hKind; cases hKind)
        rw [hEs, ← hCurlies]
        simp [Lexer.past, Transition.interpolation,
          Change.apply, Frame.curlies]
    | ends _ hEq =>
        subst hEq
        rcases hAbreast.frames with ⟨n, hOver, hCurlies⟩
        rw [hFrames] at hOver hCurlies
        refine ⟨n, ?_, ?_⟩
        · change Frame.Over _ l.frames.tail l'.frames.tail
          rw [hFrames]
          generalize l'.frames = fs' at hOver ⊢
          cases hOver with
          | frame _ hRest => exact hRest
        · have hEs : es.curlies = ds.curlies := by
            apply hOther <;> (intro hKind; cases hKind)
          rw [hEs, ← hCurlies]
          change n + Frame.curlies l.frames.tail = _
          rw [hFrames]
          rfl

/- Both are past the next token. -/
theorem past
    (rest rest' : List Char)
    (hAbreast : Abreast base ds l l')
    (hNext : ds.token? (l.transition c cs).kind = some es)
    (hNone : l.errorOf? (l.transition c cs) text = none) :
    Abreast base es (l.past (l.transition c cs) text rest)
      (l'.past (l.transition c cs) text rest') := by
  have hClean := hAbreast.clean
  have hClean' := hAbreast.clean'
  have hNone' := errorOf?_eq_none_of l' hNone
  refine ⟨hAbreast.frames_past rest rest' hNext, ?_,
    hAbreast.coherent.past c cs text rest, ?_, ?_⟩
  · intro g opened hMem
    rcases mem_apply hMem with hOld | hOpens
    · exact hAbreast.terminators g opened hOld
    · exact Transition.isSpace_terminator
        (isGroup_of_openGroup hAbreast.coherent hOpens) hOpens
  · refine ⟨?_, hClean.raised, hClean.stopped, hClean.ended⟩
    simp [Lexer.past, hClean.errors, hNone]
  · refine ⟨?_, hClean'.raised, hClean'.stopped, hClean'.ended⟩
    simp [Lexer.past, hClean'.errors, hNone']

/- The first lexer is past white space or a comment. -/
theorem past_left
    (rest : List Char)
    (hAbreast : Abreast base ds l l')
    (hTrivia : (l.transition c cs).kind.isTrivia = true)
    (hNone : l.errorOf? (l.transition c cs) text = none) :
    Abreast base ds (l.past (l.transition c cs) text rest) l' := by
  have hChange := change_of_isTrivia hAbreast.coherent hTrivia
  have hClean := hAbreast.clean
  refine ⟨?_, ?_, hAbreast.coherent.past c cs text rest, ?_,
    hAbreast.clean'⟩
  · simp only [Lexer.past, hChange, Change.apply]
    exact hAbreast.frames
  · simp only [Lexer.past, hChange, Change.apply]
    exact hAbreast.terminators
  · refine ⟨?_, hClean.raised, hClean.stopped, hClean.ended⟩
    simp [Lexer.past, hClean.errors, hNone]

end Abreast

------------------------------------------------------------
-- Runs
------------------------------------------------------------

variable {token : Token}
variable {tokens : List Token}

/- What is clean at the end of a run was so from the start. -/
theorem Takes.clean
    (hTakes : Takes l tokens last)
    (hClean : last.Clean) :
    l.Clean := by
  induction hTakes with
  | none l => exact hClean
  | token l token tokens last hSome _ ih =>
      have hNext := ih hClean
      have hErrors := l.errors_next
      rcases l.next_cases with hNone | ⟨c, cs, text, rest, _, hEq⟩
      · rw [hNone] at hSome
        cases hSome
      · rw [hNext.errors] at hErrors
        rw [hEq] at hNext
        exact ⟨List.prefix_nil.mp hErrors, hNext.raised,
          hNext.stopped, hNext.ended⟩

/- The first token of a run that finds no error. -/
theorem Takes.exists_first
    (hTakes : Takes l (token :: tokens) last)
    (hClean : last.Clean) :
    ∃ c cs, l.rest = c :: cs ∧
      token = l.tokenOf (l.transition c cs)
        (c :: cs.take (l.transition c cs).more) ∧
      l.errorOf? (l.transition c cs)
        (c :: cs.take (l.transition c cs).more) = Option.none ∧
      Takes (l.past (l.transition c cs)
        (c :: cs.take (l.transition c cs).more)
        (cs.drop (l.transition c cs).more)) tokens last := by
  have hFirst := hTakes.clean hClean
  cases hTakes with
  | token _ _ _ _ hSome hRest =>
      have hNext := hRest.clean hClean
      cases hChars : l.rest with
      | nil =>
          rw [next_of_rest_nil hFirst.raised hFirst.stopped hChars]
            at hSome
          cases hSome
      | cons c cs =>
          rw [next_of_rest_cons hFirst.raised hFirst.stopped hChars]
            at hSome hRest hNext
          refine ⟨c, cs, rfl, (Option.some.inj hSome).symm, ?_, hRest⟩
          have hErrors := hNext.errors
          simp only [past, hFirst.errors, List.nil_append,
            Option.toList_eq_nil_iff] at hErrors
          exact hErrors

/- A token in front of a run. -/
theorem Takes.cons
    (hClean : l.Clean)
    (hRest : l.rest = c :: cs)
    (hTakes : Takes (l.past (l.transition c cs)
      (c :: cs.take (l.transition c cs).more)
      (cs.drop (l.transition c cs).more)) tokens last) :
    Takes l (l.tokenOf (l.transition c cs)
      (c :: cs.take (l.transition c cs).more) :: tokens) last := by
  have hNext := next_of_rest_cons hClean.raised hClean.stopped hRest
  refine .token l _ tokens last ?_ ?_
  · rw [hNext]
  · rw [hNext]
    exact hTakes

end Lexer

/- What of a token does not hang on its place. -/
def Token.shape
    (t : Token) : Kind × String :=
  (t.kind, t.text)

namespace Lexer

variable {base : Option (Mode × List Frame)}
variable {ds es : Nest}
variable {l l' last : Lexer}
variable {tokens : List Token}

/- In front of the same characters both take the same tokens. -/
theorem Abreast.takes
    (spaced : Bool)
    (hAbreast : Abreast base ds l l')
    (hReads : ReadsAlike l l')
    (hRest : l.rest = l'.rest)
    (hTakes : Takes l tokens last)
    (hClean : last.Clean)
    (hBehind :
      ds.behind? (Lexeme.ofTokensAfter spaced tokens) = some es) :
    ∃ tokens' last',
      Takes l' tokens' last' ∧
        tokens.map Token.shape = tokens'.map Token.shape ∧
        Abreast base es last last' ∧ ReadsAlike last last' ∧
        last.rest = last'.rest := by
  induction tokens generalizing l l' ds spaced with
  | nil =>
      cases hTakes
      cases hBehind
      exact ⟨[], l', .none l', rfl, hAbreast, hReads, hRest⟩
  | cons token tokens ih =>
      rcases hTakes.exists_first hClean with
        ⟨c, cs, hChars, rfl, hNone, hLater⟩
      rw [Nest.behind?_ofTokensAfter_cons] at hBehind
      rcases Option.bind_eq_some_iff.mp hBehind with
        ⟨ds', hNext, hBehind'⟩
      have hSame := hAbreast.transition c cs hReads hNext
      have hPast := hAbreast.past
        (cs.drop (l.transition c cs).more)
        (cs.drop (l.transition c cs).more) hNext hNone
      rcases ih _ hPast ⟨rfl, rfl⟩ rfl hLater hBehind' with
        ⟨tokens', last', hTakes', hShapes, hEnd⟩
      rw [hChars] at hRest
      rw [← hSame] at hTakes'
      refine ⟨_, last', .cons hAbreast.clean' hRest.symm hTakes',
        ?_, hEnd⟩
      rw [List.map_cons, List.map_cons, hShapes, hSame]
      rfl

end Lexer

end ElixirReader
