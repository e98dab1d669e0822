import ElixirReader.Proofs.Lexer.Code

/-
  This file says all that a token may do to the mode and to
  the open constructs. Outside of quoted literals a token
  keeps the open constructs, opens or closes a curly, opens a
  literal, or ends an interpolation. Inside of one it keeps
  them, opens an interpolation, or ends the literal.

  The mode in which a newline is white space comes behind an
  opening bracket, a separator, an operator or the word that
  opens a body, and lasts through the white space that follows.
  The character of a character literal is read right behind the
  mark in front of it, and nowhere else.

  Key definitions include:
    * `Kind.isOrdinary`
    * `Mode.isIn`
    * `Transition.Keeps`
    * `Transition.Outside`
    * `Transition.Inside`
    * `Transition.Continues`
    * `Transition.Marks`

  Main declarations:
    * `Transition.of_outside`
    * `Transition.of_inside`
    * `Transition.of_continues`
    * `Transition.of_marks`
-/

namespace ElixirReader

------------------------------------------------------------
-- Classes of kinds and modes
------------------------------------------------------------

/-
  The kinds that leave the open constructs as they are, and
  that stand outside of quoted literals.
-/
def Kind.isOrdinary : Kind → Bool
| opening .curly => false
| closing .curly => false
| promoter _ _ => false
| fragment _ => false
| terminator _ _ => false
| escapeSequence => false
| interpolationStart => false
| interpolationEnd => false
| heredocIndent => false
| _ => true

/- The modes in which the body of a literal is read. -/
def Mode.isIn : Layout → Mode → Bool
| .quoted, group => true
| .heredoc, heredocStart => true
| .heredoc, heredocLineStart => true
| .heredoc, heredocLineBody => true
| _, _ => false

theorem Mode.isGroup_iff_isIn
    (m : Mode) :
    m.isGroup = true ↔ ∃ layout, m.isIn layout = true := by
  constructor
  · intro hGroup
    cases m <;> simp [isGroup] at hGroup
    · exact ⟨.quoted, rfl⟩
    · exact ⟨.heredoc, rfl⟩
    · exact ⟨.heredoc, rfl⟩
    · exact ⟨.heredoc, rfl⟩
  · rintro ⟨layout, hIn⟩
    cases layout <;> cases m <;> simp [isIn] at hIn <;> rfl

/- Only a heredoc has a line of its promoter. -/
theorem Mode.layout_of_heredocStart
    {layout : Layout}
    (hIn : heredocStart.isIn layout = true) :
    layout = .heredoc := by
  cases layout with
  | quoted => cases hIn
  | heredoc => rfl

/- A heredoc is read in the modes of a group other than `group`. -/
theorem Mode.eq_heredoc_iff_of_isIn
    {layout : Layout}
    {m : Mode}
    (hIn : m.isIn layout = true) :
    layout = .heredoc ↔ m ≠ .group := by
  cases layout <;> cases m <;> simp [isIn] at hIn ⊢

/- The layout of a literal tells in which modes it is read. -/
theorem Mode.isIn_of_isGroup
    {layout : Layout}
    {m : Mode}
    (hGroup : m.isGroup = true)
    (hLayout : layout = .heredoc ↔ m ≠ .group) :
    m.isIn layout = true := by
  cases layout <;> cases m <;>
    simp [isGroup, isIn] at hGroup hLayout ⊢

theorem Mode.isGroup_afterBlank
    (m : Mode) :
    m.afterBlank.isGroup = false := by
  cases m <;> rfl

theorem Group.isIn_startMode
    (g : Group) :
    g.startMode.isIn g.layout = true := by
  cases hLayout : g.layout <;> simp [startMode, hLayout, Mode.isIn]

theorem Group.isGroup_endMode
    (g : Group) :
    g.endMode.isGroup = false := by
  unfold endMode
  cases g.family <;> cases g.layout <;> rfl

namespace Transition

------------------------------------------------------------
-- Effects
------------------------------------------------------------

/-
  A token that leaves the open constructs as they are, with no
  fault but what its kind shows. Only the name of a sigil
  leaves a sigil pending.
-/
structure Keeps
    (t : Transition) : Prop where
  kind : t.kind.isOrdinary = true
  change : t.change = .keep
  mode : t.mode.isGroup = false
  sigil : t.sigil.isSome = true → t.mode = .sigil
  fault : t.fault = none

/-
  All that a token outside of quoted literals may do, by the
  innermost open construct.
-/
inductive Outside
    (top : Option Frame)
    (t : Transition) : Prop where
| keeps
    (hKeeps : t.Keeps)
| opensCurly
    (hEq : t = openCurly)
| closesCurly
    (hEq : t =
      { plain (.closing .curly) 0 .afterOperand with
        change := .closeCurly })
    (hTop : ∀ resume,
      top ≠ some (.interpolation 0 resume))
| opens
    (g : Group)
    (hEq : t = promoter g)
| resumes
    (resume : Mode)
    (hTop : top = some (.interpolation 0 resume))
    (hEq : t =
      { plain .interpolationEnd 0 resume with
        change := .close })

/-
  All that a token in the body of a literal may do. Only the
  line of a heredoc's promoter holds tokens that are no part
  of the text.
-/
inductive Inside
    (g : Group)
    (mode : Mode)
    (t : Transition) : Prop where
| onFirstLine
    (hMode : mode = .heredocStart)
    (hKind : t.kind = .whiteSpace ∨ t.kind = .badCharacter)
    (hStays : t.mode = .heredocStart)
    (hChange : t.change = .keep)
    (hSigil : t.sigil = none)
| endsFirstLine
    (hMode : mode = .heredocStart)
    (hKind : t.kind = .endOfLine)
    (hNext : t.mode = .heredocLineStart)
    (hChange : t.change = .keep)
    (hSigil : t.sigil = none)
| segment
    (hMode : mode ≠ .heredocStart)
    (hKind : t.kind = .fragment g.family ∨
      t.kind = .escapeSequence ∨ t.kind = .heredocIndent)
    (hIn : t.mode.isIn g.layout = true)
    (hBody : t.mode ≠ .heredocStart)
    (hChange : t.change = .keep)
    (hSigil : t.sigil = none)
| interpolates
    (hMode : mode ≠ .heredocStart)
    (hEq : t = interpolation g)
| ends
    (hMode : mode ≠ .heredocStart)
    (hEq : t = terminator g)

------------------------------------------------------------
-- Tokens outside of literals
------------------------------------------------------------

theorem keeps_plain
    {kind : Kind}
    {mode : Mode}
    (more : Nat)
    (hKind : kind.isOrdinary = true)
    (hMode : mode.isGroup = false) :
    Keeps (plain kind more mode) := by
  refine ⟨hKind, rfl, hMode, ?_, rfl⟩
  intro hSigil
  simp [plain] at hSigil

theorem outside_plain
    {top : Option Frame}
    {kind : Kind}
    {mode : Mode}
    (more : Nat)
    (hKind : kind.isOrdinary = true)
    (hMode : mode.isGroup = false) :
    Outside top (plain kind more mode) :=
  .keeps (keeps_plain more hKind hMode)

/- No token that leads to a fixed mode opens or closes anything. -/
theorem isOrdinary_of_mem_fixedSteps :
    ∀ step ∈ fixedSteps,
      step.1.isOrdinary = true ∧ step.2.isGroup = false := by
  decide

variable {mode : Mode}
variable {top : Option Frame}
variable {c : Char}
variable {cs : List Char}

theorem closeCurly_outside :
    Outside top (closeCurly top) := by
  unfold closeCurly
  split
  · rename_i resume
    exact .resumes resume rfl rfl
  · rename_i hTop
    exact .closesCurly rfl hTop

theorem Code.outside
    {t : Transition}
    (hMode : mode.isGroup = false)
    (hCode : Code mode top c cs t) :
    Outside top t := by
  cases hCode with
  | fixed _ more _ hStep _ =>
      have hOrdinary := isOrdinary_of_mem_fixedSteps _ hStep
      exact outside_plain more hOrdinary.1 hOrdinary.2
  | space m _ more hSpaceMode hNext _ =>
      apply outside_plain more rfl
      rcases hNext with rfl | ⟨rfl, _⟩
      · exact Mode.isGroup_afterBlank m
      · rcases hSpaceMode with rfl | rfl | rfl
        · exact hMode
        · rfl
        · rfl
  | digits kind more _ hKind _ =>
      refine outside_plain more ?_ hMode
      cases kind <;> first | rfl | cases hKind
  | character more _ _ => exact outside_plain more rfl rfl
  | sigilName _ _ _ hKind _ =>
      refine .keeps ⟨?_, rfl, rfl, fun _ => rfl, rfl⟩
      rcases hKind with rfl | rfl <;> rfl
  | opensCurly => exact .opensCurly rfl
  | closesCurly => exact closeCurly_outside
  | opens g _ => exact .opens g rfl

/- Outside of literals every mode leads to one of these tokens. -/
theorem of_outside
    (pending : Option Bool)
    (hMode : mode.isGroup = false) :
    Outside top (of mode pending top c cs) :=
  (of_code pending hMode).outside hMode

------------------------------------------------------------
-- Tokens inside of literals
------------------------------------------------------------

variable {g : Group}

/- Text that ends a line leads to the start of the next one. -/
theorem isIn_fragmentMode
    (text : List Char) :
    (fragmentMode g text).isIn g.layout = true ∧
      fragmentMode g text ≠ .heredocStart := by
  unfold fragmentMode Group.bodyMode
  split
  · rename_i hLine
    rw [hLine.1]
    exact ⟨rfl, by decide⟩
  · cases g.layout <;> exact ⟨rfl, by decide⟩

theorem isIn_escapeMode
    (text : List Char) :
    (escapeMode g text).isIn g.layout = true ∧
      escapeMode g text ≠ .heredocStart := by
  unfold escapeMode Group.bodyMode
  split
  · rename_i hLine
    rw [hLine.1]
    exact ⟨rfl, by decide⟩
  · cases g.layout <;> exact ⟨rfl, by decide⟩

theorem body_inside
    (hMode : mode ≠ .heredocStart) :
    Inside g mode (body g c cs) := by
  unfold body
  split
  · have hNext := isIn_escapeMode (g := g) cs
    exact .segment hMode (.inr (.inl rfl)) hNext.1 hNext.2
      rfl rfl
  · split
    · exact .interpolates hMode rfl
    · have hNext :=
        isIn_fragmentMode (g := g)
          ((c :: cs).take (fragmentLength g (c :: cs)))
      exact .segment hMode (.inl rfl) hNext.1 hNext.2 rfl rfl

theorem heredocStart_inside :
    Inside g .heredocStart (heredocStart c cs) := by
  unfold heredocStart
  split
  · exact .onFirstLine rfl (.inl rfl) rfl rfl rfl
  · split
    · exact .endsFirstLine rfl rfl rfl rfl rfl
    · exact .onFirstLine rfl (.inr rfl) rfl rfl rfl

theorem heredocLineStart_inside
    (hLayout : g.layout = .heredoc) :
    Inside g .heredocLineStart (heredocLineStart g c cs) := by
  unfold heredocLineStart
  split
  · refine .segment (by decide) (.inr (.inr rfl)) ?_
      (show Mode.heredocLineStart ≠ .heredocStart by decide)
      rfl rfl
    rw [hLayout]
    rfl
  · split
    · exact .ends (by decide) rfl
    · exact body_inside (by decide)

/-
  In the body of a literal, with the literal innermost, every
  mode leads to one of these tokens.
-/
theorem of_inside
    (pending : Option Bool)
    (span : Span)
    (hIn : mode.isIn g.layout = true) :
    Inside g mode
      (of mode pending (some (.group g span)) c cs) := by
  cases hLayout : g.layout with
  | quoted =>
      rw [hLayout] at hIn
      cases mode <;> try cases hIn
      change Inside g .group (group g c cs)
      unfold group
      split
      · exact .ends (by decide) rfl
      · exact body_inside (by decide)
  | heredoc =>
      rw [hLayout] at hIn
      cases mode <;> try cases hIn
      · exact heredocStart_inside
      · exact heredocLineStart_inside hLayout
      · exact body_inside (by decide)

end Transition

------------------------------------------------------------
-- Where a newline is white space
------------------------------------------------------------

/- The modes that a newline does not end, but for that of a dot. -/
def Mode.isContinued : Mode → Bool
| afterOpening => true
| afterOperator => true
| _ => false

namespace Kind

/- The words behind which a body starts. -/
def opensBody : Kind → Bool
| word .do => true
| word .fn => true
| word .else => true
| word .after => true
| word .rescue => true
| word .catch => true
| _ => false

/- The kinds behind which something has to follow, or may. -/
def leavesOpen : Kind → Bool
| opening _ => true
| semicolon => true
| doubleColon => true
| operator _ => true
| k => k.opensBody

end Kind

namespace Transition

/-
  A token leads to a mode that a newline does not end only if
  it is of a kind that leaves an expression open, or if it is
  white space in such a mode.
-/
def Continues
    (mode : Mode)
    (t : Transition) : Prop :=
  t.mode.isContinued = true →
    t.kind.leavesOpen = true ∨
      t.kind.isTrivia = true ∧ mode.isContinued = true

variable {mode : Mode}
variable {top : Option Frame}
variable {c : Char}
variable {cs : List Char}
theorem Continues.of_mode
    {t : Transition}
    (hMode : t.mode.isContinued = false) :
    Continues mode t := by
  intro hContinued
  rw [hMode] at hContinued
  cases hContinued

theorem Continues.of_kind
    {t : Transition}
    (hKind : t.kind.leavesOpen = true) :
    Continues mode t :=
  fun _ => .inl hKind

theorem isContinued_afterBlank
    (mode : Mode) :
    mode.afterBlank.isContinued = mode.isContinued := by
  cases mode <;> rfl

/- Where a token leads to a fixed mode its kind tells of it. -/
theorem leavesOpen_of_mem_fixedSteps :
    ∀ step ∈ fixedSteps,
      step.2.isContinued = true → step.1.leavesOpen = true := by
  decide

theorem Code.continues
    {t : Transition}
    (hTop : ∀ n resume,
      top = some (.interpolation n resume) →
        resume.isContinued = false)
    (hCode : Code mode top c cs t) :
    Continues mode t := by
  cases hCode with
  | fixed _ _ _ hStep _ =>
      exact fun hContinued =>
        .inl (leavesOpen_of_mem_fixedSteps _ hStep hContinued)
  | space m next _ hMode hNext _ =>
      intro hContinued
      change next.isContinued = true at hContinued
      have hSame : m.isContinued = true := by
        rcases hNext with rfl | ⟨rfl, _⟩
        · rw [← isContinued_afterBlank]
          exact hContinued
        · exact hContinued
      rcases hMode with rfl | rfl | rfl
      · exact .inr ⟨rfl, hSame⟩
      · cases hSame
      · cases hSame
  | digits _ _ hNumber _ _ =>
      refine .of_mode ?_
      change mode.isContinued = false
      cases mode <;> first | rfl | cases hNumber
  | character _ _ _ => exact .of_mode rfl
  | sigilName _ _ _ _ _ => exact .of_mode rfl
  | opensCurly => exact .of_kind rfl
  | closesCurly =>
      unfold closeCurly
      split
      · exact .of_mode (hTop _ _ rfl)
      · exact .of_mode rfl
  | opens g _ =>
      refine .of_mode ?_
      change g.startMode.isContinued = false
      unfold Group.startMode
      cases g.layout <;> rfl

/- No mode goes on by itself but through white space. -/
theorem of_continues
    (hTop : ∀ n resume,
      top = some (.interpolation n resume) →
        resume.isContinued = false)
    (pending : Option Bool)
    (hMode : mode.isGroup = false) :
    Continues mode (of mode pending top c cs) :=
  (of_code pending hMode).continues hTop

end Transition

------------------------------------------------------------
-- Marks of characters
------------------------------------------------------------

namespace Transition

/-
  A token that is no character, and behind which a character is
  read only if it is a mark.
-/
structure Marks
    (t : Transition) : Prop where
  kind_eq : t.mode = .character → t.kind = .characterMark
  kind_ne : t.kind ≠ .character

variable {mode : Mode}
variable {top : Option Frame}
variable {c : Char}
variable {cs : List Char}
theorem Marks.of_ne
    {t : Transition}
    (hMode : t.mode ≠ .character)
    (hKind : t.kind ≠ .character) :
    Marks t :=
  ⟨fun hEq => absurd hEq hMode, hKind⟩

theorem afterBlank_ne_character
    (mode : Mode) :
    mode.afterBlank ≠ .character := by
  cases mode <;> exact Mode.noConfusion

/- Where a token leads to a fixed mode its kind tells of it. -/
theorem characterMark_of_mem_fixedSteps :
    ∀ step ∈ fixedSteps,
      (step.2 = .character → step.1 = .characterMark) ∧
        step.1 ≠ .character := by
  decide

theorem Code.marks
    {t : Transition}
    (hTop : ∀ n resume,
      top = some (.interpolation n resume) → resume ≠ .character)
    (hMode : mode ≠ .character)
    (hCode : Code mode top c cs t) :
    Marks t := by
  cases hCode with
  | fixed _ _ _ hStep _ =>
      have hMark := characterMark_of_mem_fixedSteps _ hStep
      exact ⟨hMark.1, hMark.2⟩
  | space m next _ hSpaceMode hNext _ =>
      refine .of_ne ?_ Kind.noConfusion
      rcases hNext with rfl | ⟨rfl, _⟩
      · exact afterBlank_ne_character m
      · rcases hSpaceMode with rfl | rfl | rfl
        · exact hMode
        · exact Mode.noConfusion
        · exact Mode.noConfusion
  | digits kind _ _ hKind _ =>
      refine .of_ne hMode ?_
      rintro rfl
      cases hKind
  | character _ hEq _ => exact absurd hEq hMode
  | sigilName kind _ _ hKind _ =>
      refine .of_ne Mode.noConfusion ?_
      rcases hKind with rfl | rfl <;> exact Kind.noConfusion
  | opensCurly => exact .of_ne Mode.noConfusion Kind.noConfusion
  | closesCurly =>
      unfold closeCurly
      split
      · exact .of_ne (hTop _ _ rfl) Kind.noConfusion
      · exact .of_ne Mode.noConfusion Kind.noConfusion
  | opens g _ =>
      refine .of_ne ?_ Kind.noConfusion
      unfold promoter Group.startMode
      cases g.layout <;> exact Mode.noConfusion

/- Outside of literals a character follows nothing but its mark. -/
theorem of_marks
    (hTop : ∀ n resume,
      top = some (.interpolation n resume) → resume ≠ .character)
    (pending : Option Bool)
    (hGroup : mode.isGroup = false)
    (hMode : mode ≠ .character) :
    Marks (of mode pending top c cs) :=
  (of_code pending hGroup).marks hTop hMode

end Transition

end ElixirReader
