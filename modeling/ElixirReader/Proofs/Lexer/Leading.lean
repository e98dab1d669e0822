import ElixirReader.Proofs.Lexer.Resuming

/-
  This file says which tokens are read in one mode only, which
  tokens lead into such a mode, and what is seen behind a token
  before it is taken for the key of a pair, for the start of a
  number in some base, or for a mark inside of a float.

  Key definitions include:
    * `Kind.isReadIn`
    * `Kind.leadsInto`
    * `Transition.Foresees`
    * `Transition.StartsLine`

  Main declarations:
    * `Transition.of_foresees`
    * `Transition.of_leadsInto`
    * `Transition.of_heredocStart`
    * `Transition.of_startsLine`
-/

namespace ElixirReader

open Unicode

------------------------------------------------------------
-- Classes of kinds and modes
------------------------------------------------------------

namespace Kind

def isSigilPromoter : Kind → Bool
| promoter .sigil _ => true
| _ => false

def isSigilTerminator : Kind → Bool
| terminator .sigil _ => true
| _ => false

def isHeredocPromoter : Kind → Bool
| promoter _ .heredoc => true
| _ => false

def isHeredocTerminator : Kind → Bool
| terminator _ .heredoc => true
| _ => false

/- The letters behind the zero of a number in some base. -/
def isBaseLetter : Kind → Bool
| binaryBase => true
| octalBase => true
| hexadecimalBase => true
| unknownBase => true
| _ => false

/- The marks that digits follow in a float. -/
def isFloatMark : Kind → Bool
| decimalMark => true
| exponentMark => true
| _ => false

/- The kinds that the body of a literal consists of. -/
def isBodyText : Kind → Bool
| fragment _ => true
| escapeSequence => true
| _ => false

/-
  Whether a kind may be read in a mode, with or without the
  name of a sigil behind.
-/
def isReadIn
    (mode : Mode)
    (pending : Option Bool) : Kind → Bool
| character => mode == .character
| readSigilName => mode == .sigil && pending.isNone
| literalSigilName => mode == .sigil && pending.isNone
| promoter .sigil _ => mode == .sigil && pending.isSome
| sigilModifiers => mode == .sigilModifiers
| terminator _ .heredoc => mode == .heredocLineStart
| _ => true

/-
  Whether a mode may come behind a kind. The modes inside of
  heredocs are left to the lines that they stand in.
-/
def leadsInto
    (mode : Mode)
    (pending : Option Bool)
    (k : Kind) : Bool :=
  match mode, pending with
  | .character, _ => k == characterMark
  | .atomStart, _ => k == colon
  | .sigil, none => k == tilde
  | .sigil, some _ => k.isSigilName
  | .sigilModifiers, _ => k.isSigilTerminator
  | _, _ => true

/- The kinds that say nothing about what is around them. -/
def isFree : Kind → Bool
| character => false
| readSigilName => false
| literalSigilName => false
| promoter .sigil _ => false
| sigilModifiers => false
| terminator _ .heredoc => false
| atomName => false
| baseZero => false
| decimalMark => false
| exponentMark => false
| _ => true

theorem isFloatMark_of_isFree
    {k : Kind}
    (hFree : k.isFree = true) :
    k.isFloatMark = false := by
  cases k <;> first | rfl | cases hFree

end Kind

namespace Mode

/- The modes behind the marks of a float. -/
def followsFloatMark : Mode → Bool
| fractionDigits => true
| exponentDigits => true
| _ => false

/- The modes, outside of heredocs, that few kinds lead into. -/
def isLed : Mode → Bool
| character => true
| atomStart => true
| sigil => true
| sigilModifiers => true
| _ => false

theorem isLed_afterBlank
    (m : Mode) :
    m.afterBlank.isLed = false := by
  cases m <;> rfl

theorem isLed_of_isGroup
    {m : Mode}
    (hGroup : m.isGroup = true) :
    m.isLed = false := by
  cases m <;> first | rfl | cases hGroup

end Mode

/- Whether a text ends in a line break. -/
def endsLine
    (text : List Char) : Bool :=
  text.getLast?.any isLineBreak

namespace Transition

variable {mode m : Mode}
variable {pending : Option Bool}
variable {top : Option Frame}
variable {c : Char}
variable {cs : List Char}
variable {t : Transition}

------------------------------------------------------------
-- Modes and open constructs
------------------------------------------------------------

/-
  A mode inside of a literal has that literal innermost, and an
  interpolation goes back to the body of a literal.
-/
structure IsOpenIn
    (mode : Mode)
    (top : Option Frame) : Prop where
  resumes :
    ∀ n resume,
      top = some (.interpolation n resume) →
        resume = .group ∨ resume = .heredocLineBody
  inside :
    mode.isGroup = true →
      ∃ g opened,
        top = some (.group g opened) ∧ mode.isIn g.layout = true

theorem IsOpenIn.isLed_resume
    {n : Nat}
    {resume : Mode}
    (hOpen : IsOpenIn mode (some (.interpolation n resume))) :
    resume.isLed = false := by
  rcases hOpen.resumes n resume rfl with rfl | rfl <;> rfl

theorem IsOpenIn.layout_of_group
    (hOpen : IsOpenIn .group top) :
    (currentGroup .quoted top).layout = .quoted := by
  obtain ⟨g, opened, rfl, hIn⟩ := hOpen.inside rfl
  change g.layout = .quoted
  cases hLayout : g.layout with
  | quoted => rfl
  | heredoc =>
      rw [hLayout] at hIn
      cases hIn

------------------------------------------------------------
-- What is seen behind a token
------------------------------------------------------------

/-
  A token is read in a mode of its own kind, and with a look at
  what is behind it where that makes it what it is.
-/
structure Foresees
    (mode : Mode)
    (pending : Option Bool)
    (cs : List Char)
    (t : Transition) : Prop where
  readIn :
    t.kind.isReadIn mode pending = true
  atomName :
    t.kind = .atomName →
      mode = .atomStart ∨
        t.mode = .afterMark ∧
          startsWithKeyMark (cs.drop t.more) = true
  baseZero :
    t.kind = .baseZero →
      t.mode = .baseLetter ∧
        (cs.drop t.more).head?.any Char.isAlpha = true
  floatMark :
    t.kind.isFloatMark = true →
      t.mode.followsFloatMark = true ∧
        (cs.drop t.more).head?.any Char.isDigit = true

theorem Foresees.of_isFree
    (hFree : t.kind.isFree = true) :
    Foresees mode pending cs t := by
  obtain ⟨kind, _, _, _, _, _⟩ := t
  have hReadIn : kind.isReadIn mode pending = true := by
    cases kind with
    | promoter f _ => cases f <;> first | rfl | cases hFree
    | terminator _ l => cases l <;> first | rfl | cases hFree
    | _ => first | rfl | cases hFree
  refine ⟨hReadIn, ?_, ?_, ?_⟩
  · rintro rfl
    cases hFree
  · rintro rfl
    cases hFree
  · intro hMark
    cases hMark.symm.trans (Kind.isFloatMark_of_isFree hFree)

/- A token of a kind that hangs only on the mode. -/
theorem Foresees.of_isReadIn
    (hReadIn : t.kind.isReadIn mode pending = true)
    (hName : t.kind = .atomName → mode = .atomStart)
    (hZero : t.kind ≠ .baseZero)
    (hMark : t.kind.isFloatMark = false) :
    Foresees mode pending cs t := by
  refine ⟨hReadIn, fun h => .inl (hName h), fun h => absurd h hZero, ?_⟩
  intro h
  rw [hMark] at h
  cases h

theorem isFree_of_mem_tables :
    ∀ e ∈ operatorTable ++ tildeTable, e.kind.isFree = true := by
  decide

theorem isFree_of_find?
    {table : List OperatorEntry}
    {e : OperatorEntry}
    (hTable : ∀ e ∈ table, e ∈ operatorTable ++ tildeTable)
    (hFind : OperatorEntry.find? table (c :: cs) = some e) :
    e.kind.isFree = true :=
  isFree_of_mem_tables e (hTable e (List.mem_of_find?_eq_some hFind))

theorem isFree_of_reservedWord?
    {text : String}
    {step : Kind × Mode}
    (hWord : reservedWord? text = some step) :
    step.1.isFree = true := by
  unfold reservedWord? at hWord
  split at hWord <;> cases hWord <;> rfl

theorem isFree_quote
    (c : Char) :
    (quote c cs).kind.isFree = true := by
  change (Kind.promoter (quoteFamily c) _).isFree = true
  unfold quoteFamily
  split <;> rfl

/- A name is a key only where the mark of a key is behind it. -/
theorem name_foresees :
    Foresees mode pending cs (name c cs) := by
  unfold name
  split
  · rename_i more hKey
    unfold keyTail? at hKey
    split at hKey
    · rename_i hMark
      cases hKey
      exact ⟨rfl, fun _ => .inr ⟨rfl, hMark⟩, Kind.noConfusion,
        fun h => nomatch h⟩
    · cases hKey
  · split
    · exact .of_isFree rfl
    · unfold word
      dsimp only
      split
      · exact .of_isFree (isFree_of_reservedWord? ‹_›)
      · exact .of_isFree rfl

theorem number_foresees :
    Foresees mode pending cs (number c cs) := by
  unfold number
  split
  · rename_i hBase
    exact ⟨rfl, Kind.noConfusion, fun _ => ⟨rfl, hBase.2⟩,
      fun h => nomatch h⟩
  · exact .of_isFree rfl

theorem isFree_backslash :
    (backslash m cs).kind.isFree = true := by
  unfold backslash
  split
  · rfl
  · split
    · rfl
    · split <;> rfl

theorem isFree_operator :
    (operator m c cs).kind.isFree = true := by
  unfold operator
  split
  · exact isFree_of_find? (fun _ h => List.mem_append_left _ h) ‹_›
  · split
    · unfold plus
      split <;> rfl
    · split
      · unfold minus
        split <;> rfl
      · rfl

theorem isFree_symbol :
    (symbol m top c cs).kind.isFree = true := by
  unfold symbol
  split
  · exact isFree_backslash
  · rfl
  · exact isFree_quote _
  · exact isFree_quote _
  · rfl
  · unfold tilde
    split
    · exact isFree_of_find? (fun _ h => List.mem_append_right _ h) ‹_›
    · rfl
  · unfold colon
    split
    · rfl
    · split <;> rfl
  · unfold dot
    split <;> rfl
  · rfl
  · unfold closeCurly
    split <;> rfl
  · rfl
  · rfl
  · rfl
  · rfl
  · rfl
  · rfl
  · exact isFree_operator

theorem isFree_lineBreak :
    (lineBreak m c cs).kind.isFree = true := by
  unfold lineBreak
  split <;> rfl

theorem expression_foresees :
    Foresees mode pending cs (expression m top c cs) := by
  unfold expression
  split
  · exact .of_isFree rfl
  · split
    · exact .of_isFree isFree_lineBreak
    · split
      · exact number_foresees
      · split
        · exact name_foresees
        · exact .of_isFree isFree_symbol

theorem atomStart_foresees :
    Foresees .atomStart pending cs (atomStart top c cs) := by
  unfold atomStart
  split
  · exact .of_isFree (isFree_quote c)
  · split
    · exact .of_isReadIn rfl (fun _ => rfl) Kind.noConfusion rfl
    · split
      · exact .of_isReadIn rfl (fun _ => rfl) Kind.noConfusion rfl
      · exact expression_foresees

theorem afterDot_foresees :
    Foresees mode pending cs (afterDot top c cs) := by
  unfold afterDot
  split
  · exact .of_isFree rfl
  · split
    · exact .of_isFree isFree_lineBreak
    · split
      · exact .of_isFree rfl
      · split
        · exact .of_isFree rfl
        · split
          · exact .of_isFree rfl
          · split
            · exact .of_isFree rfl
            · exact expression_foresees

theorem baseLetter_foresees :
    Foresees mode pending cs (baseLetter top c cs) := by
  unfold baseLetter
  split
  · exact .of_isFree rfl
  · split
    · exact .of_isFree rfl
    · split
      · exact .of_isFree rfl
      · split
        · exact .of_isFree rfl
        · exact expression_foresees

theorem isFree_of_isDigits
    {k : Kind}
    (hDigits : k.isDigits = true) :
    k.isFree = true := by
  cases k <;> first | rfl | cases hDigits

theorem digitRun_foresees :
    Foresees mode pending cs (digitRun m top c cs) := by
  unfold digitRun
  split
  · exact .of_isFree
      (isFree_of_isDigits (isDigits_digitKind _ _ fun _ => rfl))
  · split
    · exact .of_isFree
        (isFree_of_isDigits (isDigits_digitKind _ _ fun _ => rfl))
    · exact expression_foresees

/- Digits are behind each mark of a float. -/
theorem digits_foresees :
    Foresees mode pending cs (digits m top c cs) := by
  unfold digits
  split
  · split
    · exact name_foresees
    · exact .of_isFree rfl
  · split
    · rename_i hMark
      exact ⟨rfl, Kind.noConfusion, Kind.noConfusion,
        fun _ => ⟨rfl, hMark.2.2⟩⟩
    · unfold exponentOrRun
      split
      · split
        · rename_i more hTail
          unfold exponentTail? at hTail
          rcases Option.ite_none_right_eq_some.mp hTail with
            ⟨hDigit, hMore⟩
          cases hMore
          exact ⟨rfl, Kind.noConfusion, Kind.noConfusion,
            fun _ => ⟨rfl, hDigit⟩⟩
        · exact digitRun_foresees
      · exact digitRun_foresees

theorem sigilHead_foresees :
    Foresees .sigil pending cs (sigilHead pending top c cs) := by
  unfold sigilHead
  split
  · unfold sigilName
    split
    · exact .of_isReadIn rfl Kind.noConfusion Kind.noConfusion rfl
    · split
      · exact .of_isReadIn rfl Kind.noConfusion Kind.noConfusion rfl
      · exact expression_foresees
  · unfold sigilPromoter
    split
    · exact .of_isReadIn rfl Kind.noConfusion Kind.noConfusion rfl
    · split
      · exact .of_isReadIn rfl Kind.noConfusion Kind.noConfusion rfl
      · exact expression_foresees

theorem sigilModifiers_foresees :
    Foresees .sigilModifiers pending cs
      (sigilModifiers top c cs) := by
  unfold sigilModifiers
  split
  · exact .of_isReadIn rfl Kind.noConfusion Kind.noConfusion rfl
  · exact expression_foresees

theorem body_foresees
    (g : Group) :
    Foresees mode pending cs (body g c cs) := by
  unfold body
  split
  · exact .of_isFree rfl
  · split <;> exact .of_isFree rfl

theorem terminator_foresees
    (g : Group)
    (hMode : g.layout = .heredoc → mode = .heredocLineStart) :
    Foresees mode pending cs (terminator g) := by
  refine .of_isReadIn ?_ Kind.noConfusion Kind.noConfusion rfl
  change (Kind.terminator g.family g.layout).isReadIn _ _ = true
  cases hLayout : g.layout with
  | quoted => rfl
  | heredoc => rw [hMode hLayout]; rfl

/- What is seen behind a token, in every mode. -/
theorem of_foresees
    (hOpen : IsOpenIn mode top) :
    Foresees mode pending cs (of mode pending top c cs) := by
  cases mode with
  | group =>
      change Foresees _ _ _ (group _ c cs)
      unfold group
      split
      · refine terminator_foresees _ fun hLayout => ?_
        rw [hOpen.layout_of_group] at hLayout
        cases hLayout
      · exact body_foresees _
  | heredocStart =>
      change Foresees _ _ _ (heredocStart c cs)
      unfold heredocStart
      split
      · exact .of_isFree rfl
      · split <;> exact .of_isFree rfl
  | heredocLineStart =>
      change Foresees _ _ _ (heredocLineStart _ c cs)
      unfold heredocLineStart
      split
      · exact .of_isFree rfl
      · split
        · exact terminator_foresees _ fun _ => rfl
        · exact body_foresees _
  | heredocLineBody => exact body_foresees _
  | sigil => exact sigilHead_foresees
  | sigilModifiers => exact sigilModifiers_foresees
  | character =>
      exact .of_isReadIn rfl Kind.noConfusion Kind.noConfusion rfl
  | atomStart => exact atomStart_foresees
  | afterDot => exact afterDot_foresees
  | baseLetter => exact baseLetter_foresees
  | binaryDigits => exact digits_foresees
  | octalDigits => exact digits_foresees
  | hexadecimalDigits => exact digits_foresees
  | unknownDigits => exact digits_foresees
  | decimalDigits => exact digits_foresees
  | fractionDigits => exact digits_foresees
  | exponentDigits => exact digits_foresees
  | _ => exact expression_foresees

------------------------------------------------------------
-- What leads into a mode
------------------------------------------------------------

theorem leadsInto_of_isLed
    {k : Kind}
    (hLed : m.isLed = false) :
    k.leadsInto m pending = true := by
  cases m <;> first | rfl | cases hLed

theorem leadsInto_of_mem_fixedSteps :
    ∀ step ∈ fixedSteps,
      step.1.leadsInto step.2 none = true := by
  decide

theorem isGroup_of_isIn
    {layout : Layout}
    (hIn : m.isIn layout = true) :
    m.isGroup = true :=
  (Mode.isGroup_iff_isIn m).2 ⟨layout, hIn⟩

theorem Code.leadsInto
    (hOpen : IsOpenIn mode top)
    (hCode : Code mode top c cs t) :
    t.kind.leadsInto t.mode t.sigil = true := by
  cases hCode with
  | fixed _ _ _ hStep _ => exact leadsInto_of_mem_fixedSteps _ hStep
  | space m next _ _ hNext _ =>
      apply leadsInto_of_isLed
      rcases hNext with rfl | ⟨rfl, hBlank⟩
      · exact Mode.isLed_afterBlank m
      · change next.isLed = false
        cases next <;> first | rfl | cases hBlank
  | digits _ _ hNumber _ _ =>
      apply leadsInto_of_isLed
      change mode.isLed = false
      cases mode <;> first | rfl | cases hNumber
  | character _ _ _ => rfl
  | sigilName _ _ _ hKind _ => rcases hKind with rfl | rfl <;> rfl
  | opensCurly => rfl
  | closesCurly =>
      unfold closeCurly
      split
      · exact leadsInto_of_isLed hOpen.isLed_resume
      · rfl
  | opens g _ =>
      exact leadsInto_of_isLed
        (Mode.isLed_of_isGroup (isGroup_of_isIn g.isIn_startMode))

theorem terminator_leadsInto
    (g : Group) :
    (terminator g).kind.leadsInto (terminator g).mode
      (terminator g).sigil = true := by
  change (Kind.terminator g.family g.layout).leadsInto g.endMode none =
    true
  unfold Group.endMode
  cases g.family <;> cases g.layout <;> rfl

/- What leads into a mode that only certain tokens lead into. -/
theorem of_leadsInto
    (hOpen : IsOpenIn mode top) :
    (of mode pending top c cs).kind.leadsInto
      (of mode pending top c cs).mode
      (of mode pending top c cs).sigil = true := by
  cases hGroup : mode.isGroup with
  | false => exact (of_code pending hGroup).leadsInto hOpen
  | true =>
      obtain ⟨g, span, rfl, hIn⟩ := hOpen.inside hGroup
      have hToken : Inside g mode
          (of mode pending (some (.group g span)) c cs) :=
        of_inside pending span hIn
      cases hToken with
      | onFirstLine _ _ hStays _ _ =>
          apply leadsInto_of_isLed
          rw [hStays]
          rfl
      | endsFirstLine _ _ hNext _ _ =>
          apply leadsInto_of_isLed
          rw [hNext]
          rfl
      | segment _ _ hIn' _ _ _ =>
          exact leadsInto_of_isLed
            (Mode.isLed_of_isGroup (isGroup_of_isIn hIn'))
      | interpolates _ hEq =>
          rw [hEq]
          rfl
      | ends _ hEq =>
          rw [hEq]
          exact terminator_leadsInto g

------------------------------------------------------------
-- Lines of heredocs
------------------------------------------------------------

theorem bodyMode_ne_heredocLineStart
    (g : Group) :
    g.bodyMode ≠ .heredocLineStart := by
  unfold Group.bodyMode
  cases g.layout <;> exact Mode.noConfusion

/- An escaped line break is the whole escape. -/
theorem escape_endsLine
    (g : Group)
    (hMode : (escape g cs).mode = .heredocLineStart) :
    endsLine (c :: cs.take (escape g cs).more) = true := by
  change escapeMode g cs = _ at hMode
  change endsLine (c :: cs.take (backslashTail cs)) = true
  unfold escapeMode at hMode
  split at hMode
  · rename_i hLine
    rcases cs with _ | ⟨d, ds⟩
    · cases hLine.2
    · have hBreak : isLineBreak d = true := hLine.2
      have hTail : escapeTail d ds = lineBreakTail d ds := by
        unfold escapeTail
        rw [if_neg (by rintro rfl; cases hBreak),
          if_neg (by rintro rfl; cases hBreak)]
      rw [backslashTail, hTail, lineBreakTail]
      split
      · rename_i hFeed
        rcases ds with _ | ⟨e, ds⟩
        · cases hFeed.2
        · cases hFeed.2
          rfl
      · exact hBreak
  · exact absurd hMode (bodyMode_ne_heredocLineStart g)

theorem fragment_endsLine
    (g : Group)
    (hMode : (fragment g c cs).mode = .heredocLineStart) :
    endsLine (c :: cs.take (fragment g c cs).more) = true := by
  change fragmentMode g ((c :: cs).take _) = _ at hMode
  change endsLine (c :: cs.take (fragmentLength g (c :: cs) - 1)) = true
  unfold fragmentMode at hMode
  split at hMode
  · rename_i hLine
    cases hLength : fragmentLength g (c :: cs) with
    | zero =>
        rw [hLength] at hLine
        cases hLine.2
    | succ n =>
        rw [hLength, List.take_succ_cons] at hLine
        rw [endsLine, Nat.add_sub_cancel, hLine.2]
        rfl
  · exact absurd hMode (bodyMode_ne_heredocLineStart g)

/-
  A token leads to the start of a line of a heredoc only if it
  ends the line of the promoter, if it indents the line, or if
  it is text that ends a line.
-/
def StartsLine
    (mode : Mode)
    (c : Char)
    (cs : List Char)
    (t : Transition) : Prop :=
  t.mode = .heredocLineStart →
    mode = .heredocStart ∧ t.kind = .endOfLine ∨
      t.kind = .heredocIndent ∨
      t.kind.isBodyText = true ∧ endsLine (c :: cs.take t.more) = true

theorem body_startsLine
    (g : Group) :
    StartsLine mode c cs (body g c cs) := by
  unfold body
  split
  · exact fun hMode => .inr (.inr ⟨rfl, escape_endsLine g hMode⟩)
  · split
    · exact fun hMode => nomatch hMode
    · exact fun hMode => .inr (.inr ⟨rfl, fragment_endsLine g hMode⟩)

theorem terminator_startsLine
    (g : Group) :
    StartsLine mode c cs (terminator g) := by
  intro hMode
  have hOutside := g.isGroup_endMode
  change g.endMode = _ at hMode
  rw [hMode] at hOutside
  cases hOutside

theorem group_startsLine
    (g : Group) :
    StartsLine mode c cs (group g c cs) := by
  unfold group
  split
  · exact terminator_startsLine g
  · exact body_startsLine g

theorem heredocStart_startsLine :
    StartsLine .heredocStart c cs (heredocStart c cs) := by
  unfold heredocStart
  split
  · exact fun hMode => nomatch hMode
  · split
    · exact fun _ => .inl ⟨rfl, rfl⟩
    · exact fun hMode => nomatch hMode

theorem heredocLineStart_startsLine
    (g : Group) :
    StartsLine mode c cs (heredocLineStart g c cs) := by
  unfold heredocLineStart
  split
  · exact fun _ => .inr (.inl rfl)
  · split
    · exact terminator_startsLine g
    · exact body_startsLine g

/-
  Outside of literals only the promoter of a heredoc leads into
  one of its lines, and to that of the promoter.
-/
theorem Outside.heredocStart
    (hOpen : IsOpenIn mode top)
    (hToken : t.Outside top) :
    t.mode ≠ .heredocLineStart ∧
      (t.mode = .heredocStart ↔ t.kind.isHeredocPromoter = true) := by
  cases hToken with
  | keeps hKeeps =>
      obtain ⟨hKind, -, hMode, -, -⟩ := hKeeps
      refine ⟨?_, ?_, ?_⟩
      · intro hEq
        rw [hEq] at hMode
        cases hMode
      · intro hEq
        rw [hEq] at hMode
        cases hMode
      · intro hPromoter
        generalize t.kind = k at hKind hPromoter
        cases k <;> first | cases hPromoter | cases hKind
  | opensCurly hEq =>
      subst hEq
      exact ⟨Mode.noConfusion, Mode.noConfusion, fun h => nomatch h⟩
  | closesCurly hEq _ =>
      subst hEq
      exact ⟨Mode.noConfusion, Mode.noConfusion, fun h => nomatch h⟩
  | opens g hEq =>
      subst hEq
      change g.startMode ≠ _ ∧ (g.startMode = _ ↔
        (Kind.promoter g.family g.layout).isHeredocPromoter = true)
      unfold Group.startMode
      cases g.layout with
      | quoted =>
          exact ⟨Mode.noConfusion, Mode.noConfusion, fun h => nomatch h⟩
      | heredoc => exact ⟨Mode.noConfusion, fun _ => rfl, fun _ => rfl⟩
  | resumes resume hTop hEq =>
      subst hEq
      change resume ≠ _ ∧ (resume = _ ↔ _)
      rcases hOpen.resumes 0 resume hTop with rfl | rfl <;>
        exact ⟨Mode.noConfusion, Mode.noConfusion, fun h => nomatch h⟩

theorem Inside.heredocStart_iff
    {g : Group}
    (hToken : t.Inside g mode) :
    t.mode = .heredocStart ↔
      t.kind.isHeredocPromoter = true ∨
      mode = .heredocStart ∧
        (t.kind = .whiteSpace ∨ t.kind = .badCharacter) := by
  cases hToken with
  | onFirstLine hMode hKind hStays _ _ =>
      exact ⟨fun _ => .inr ⟨hMode, hKind⟩, fun _ => hStays⟩
  | endsFirstLine _ hKind hNext _ _ =>
      rw [hKind, hNext]
      simp [Kind.isHeredocPromoter]
  | segment hMode hKind _ hBody _ _ =>
      refine ⟨fun hEq => absurd hEq hBody, ?_⟩
      rintro (hPromoter | ⟨hEq, -⟩)
      · rcases hKind with hEq | hEq | hEq <;> rw [hEq] at hPromoter <;>
          cases hPromoter
      · exact absurd hEq hMode
  | interpolates hMode hEq =>
      subst hEq
      refine ⟨Mode.noConfusion, ?_⟩
      rintro (hPromoter | ⟨hEq, -⟩)
      · cases hPromoter
      · exact absurd hEq hMode
  | ends hMode hEq =>
      subst hEq
      refine ⟨fun hEq => ?_, ?_⟩
      · have hOutside := g.isGroup_endMode
        change g.endMode = _ at hEq
        rw [hEq] at hOutside
        cases hOutside
      · rintro (hPromoter | ⟨hEq, -⟩)
        · cases hPromoter
        · exact absurd hEq hMode

/- What a heredoc's promoter and the line behind it lead to. -/
theorem of_heredocStart
    (hOpen : IsOpenIn mode top) :
    (of mode pending top c cs).mode = .heredocStart ↔
      (of mode pending top c cs).kind.isHeredocPromoter = true ∨
      mode = .heredocStart ∧
        ((of mode pending top c cs).kind = .whiteSpace ∨
          (of mode pending top c cs).kind = .badCharacter) := by
  cases hGroup : mode.isGroup with
  | false =>
      have hToken : Outside top (of mode pending top c cs) :=
        of_outside pending hGroup
      rw [(hToken.heredocStart hOpen).2]
      refine ⟨.inl, ?_⟩
      rintro (hPromoter | ⟨rfl, -⟩)
      · exact hPromoter
      · cases hGroup
  | true =>
      obtain ⟨g, span, rfl, hIn⟩ := hOpen.inside hGroup
      have hToken : Inside g mode
          (of mode pending (some (.group g span)) c cs) :=
        of_inside pending span hIn
      generalize of mode pending _ c cs = t at hToken
      exact hToken.heredocStart_iff

/- What leads to the start of a line of a heredoc. -/
theorem of_startsLine
    (hOpen : IsOpenIn mode top) :
    StartsLine mode c cs (of mode pending top c cs) := by
  cases hGroup : mode.isGroup with
  | false =>
      have hToken : Outside top (of mode pending top c cs) :=
        of_outside pending hGroup
      exact fun hMode => absurd hMode (hToken.heredocStart hOpen).1
  | true =>
      cases mode <;> try cases hGroup
      · exact group_startsLine _
      · exact heredocStart_startsLine
      · exact heredocLineStart_startsLine _
      · exact body_startsLine _

end Transition

end ElixirReader
