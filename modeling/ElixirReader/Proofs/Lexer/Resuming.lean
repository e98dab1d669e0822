import ElixirReader.Proofs.Lexer.Frames
import ElixirReader.Proofs.Lexer.Positions

/-
  This file shows that a lexer can be stopped between two
  tokens and started again on the rest of the source: the
  mode is all that has to be kept, if no construct is open, or
  a double quoted string or string heredoc alone. The tokens,
  the modes behind them and the faults are the same, and the
  places are counted from the start of the rest.

  Key definitions include:
    * `Kind.isSigilName`
    * `Position.behind`
    * `Span.behind`
    * `Frame.Same`
    * `Lexer.Resumes`

  Main declarations:
    * `Transition.of_congr`
    * `Lexer.Resumes.past`
    * `Lexer.Resumes.take`
    * `Lexer.resumes_startingIn`
-/

namespace ElixirReader

------------------------------------------------------------
-- Places
------------------------------------------------------------

/-
  A place that was counted from another one: only on the first
  line does the column go on.
-/
def Position.behind
    (p q : Position) : Position :=
  ⟨p.offset + q.offset, p.line + (q.line - 1),
    if q.line = 1 then p.column + (q.column - 1) else q.column⟩

/- A span that was counted from a place. -/
def Span.behind
    (p : Position)
    (s : Span) : Span :=
  ⟨p.offset + s.start, p.offset + s.stop,
    p.line + (s.line - 1),
    if s.line = 1 then p.column + (s.column - 1) else s.column⟩

namespace Position

/- The lines and columns of a place are counted from one. -/
def Counts
    (p : Position) : Prop :=
  1 ≤ p.line ∧ 1 ≤ p.column

theorem Counts.next
    {p : Position}
    (c : Char)
    (hCounts : p.Counts) :
    (p.next c).Counts := by
  unfold Position.next
  split
  · exact ⟨Nat.le_add_left 1 _, Nat.le_refl 1⟩
  · exact ⟨hCounts.1, Nat.le_add_left 1 _⟩

theorem Counts.after
    {p : Position}
    (text : List Char)
    (hCounts : p.Counts) :
    (p.after text).Counts := by
  induction text generalizing p with
  | nil => exact hCounts
  | cons c text ih => exact ih (hCounts.next c)

/- A character moves both counts on alike. -/
theorem behind_next
    {q : Position}
    (p : Position)
    (c : Char)
    (hCounts : q.Counts) :
    p.behind (q.next c) = (p.behind q).next c := by
  rcases hCounts with ⟨hLine, hColumn⟩
  by_cases hBreak : c = '\n'
  · simp [behind, next, hBreak]
    omega
  · simp only [behind, next, hBreak, if_false]
    by_cases hFirst : q.line = 1
    · simp [hFirst]
      omega
    · simp [hFirst]
      omega

theorem behind_after
    {q : Position}
    (p : Position)
    (text : List Char)
    (hCounts : q.Counts) :
    p.behind (q.after text) = (p.behind q).after text := by
  induction text generalizing q with
  | nil => rfl
  | cons c text ih =>
      rw [after_cons, after_cons, ih (hCounts.next c),
        behind_next p c hCounts]

theorem behind_spanOf
    {q : Position}
    (p : Position)
    (text : List Char)
    (hCounts : q.Counts) :
    (p.behind q).spanOf text = (q.spanOf text).behind p := by
  have hStop := congrArg Position.offset (behind_after p text hCounts)
  unfold spanOf Span.behind
  rw [← hStop]
  rfl

end Position

------------------------------------------------------------
-- Transitions
------------------------------------------------------------

def Kind.isSigilName : Kind → Bool
| .readSigilName => true
| .literalSigilName => true
| _ => false

namespace Transition

variable {top top' : Option Frame}

/-
  A transition looks at the innermost open construct only to
  tell whether a curly ends it, and which literal it is.
-/
theorem of_congr
    (mode : Mode)
    (pending : Option Bool)
    (c : Char)
    (cs : List Char)
    (hCurly : closeCurly top = closeCurly top')
    (hGroup :
      ∀ layout, currentGroup layout top = currentGroup layout top') :
    Transition.of mode pending top c cs =
      Transition.of mode pending top' c cs := by
  simp only [Transition.of, hGroup, sigilHead, sigilName,
    sigilPromoter, sigilModifiers, atomStart, afterDot,
    baseLetter, digits, exponentOrRun, digitRun, expression,
    symbol, hCurly]

variable {mode : Mode}
variable {c : Char}
variable {cs : List Char}

theorem sigil_operator :
    (operator mode c cs).sigil = none := by
  unfold operator plus minus
  split
  · rfl
  · split
    · split <;> rfl
    · split
      · split <;> rfl
      · rfl

theorem sigil_symbol :
    (symbol mode top c cs).sigil = none := by
  unfold symbol
  split
  case h_1 =>
    unfold backslash
    split
    · rfl
    · split
      · rfl
      · split <;> rfl
  case h_6 =>
    unfold tilde
    split <;> rfl
  case h_7 =>
    unfold colon
    split
    · rfl
    · split <;> rfl
  case h_8 =>
    unfold dot
    split <;> rfl
  case h_10 =>
    unfold closeCurly
    split <;> rfl
  case h_17 => exact sigil_operator
  all_goals rfl

theorem sigil_name :
    (name c cs).sigil = none := by
  unfold name word
  split
  · rfl
  · split
    · rfl
    · dsimp only
      split <;> rfl

theorem sigil_expression :
    (expression mode top c cs).sigil = none := by
  unfold expression lineBreak number
  split
  · rfl
  · split
    · split <;> rfl
    · split
      · split <;> rfl
      · split
        · exact sigil_name
        · exact sigil_symbol

theorem sigil_atomStart :
    (atomStart top c cs).sigil = none := by
  unfold atomStart
  split
  · rfl
  · split
    · rfl
    · split
      · rfl
      · exact sigil_expression

theorem sigil_afterDot :
    (afterDot top c cs).sigil = none := by
  unfold afterDot lineBreak
  split
  · rfl
  · split
    · split <;> rfl
    · split
      · rfl
      · split
        · rfl
        · split
          · rfl
          · split
            · rfl
            · exact sigil_expression

theorem sigil_baseLetter :
    (baseLetter top c cs).sigil = none := by
  unfold baseLetter
  split
  · rfl
  · split
    · rfl
    · split
      · rfl
      · split
        · rfl
        · exact sigil_expression

theorem sigil_digitRun :
    (digitRun mode top c cs).sigil = none := by
  unfold digitRun
  split
  · rfl
  · split
    · rfl
    · exact sigil_expression

theorem sigil_digits :
    (digits mode top c cs).sigil = none := by
  unfold digits exponentOrRun
  split
  · split
    · exact sigil_name
    · rfl
  · split
    · rfl
    · split
      · split
        · rfl
        · exact sigil_digitRun
      · exact sigil_digitRun

theorem sigil_sigilModifiers :
    (sigilModifiers top c cs).sigil = none := by
  unfold sigilModifiers
  split
  · rfl
  · exact sigil_expression

theorem sigil_sigilPromoter
    {reads : Bool} :
    (sigilPromoter reads top c cs).sigil = none := by
  unfold sigilPromoter
  split
  · rfl
  · split
    · rfl
    · exact sigil_expression

theorem sigil_body
    {g : Group} :
    (body g c cs).sigil = none := by
  unfold body
  split
  · rfl
  · split <;> rfl

theorem sigil_heredocStart :
    (heredocStart c cs).sigil = none := by
  unfold heredocStart
  split
  · rfl
  · split <;> rfl

/- Only the name of a sigil leaves a sigil pending. -/
theorem sigil_of
    {pending : Option Bool}
    (hKind :
      (Transition.of mode pending top c cs).kind.isSigilName =
        false) :
    (Transition.of mode pending top c cs).sigil = none := by
  unfold Transition.of at hKind ⊢
  split at hKind
  case h_1 =>
    unfold group
    split
    · rfl
    · exact sigil_body
  case h_2 => exact sigil_heredocStart
  case h_3 =>
    unfold heredocLineStart
    split
    · rfl
    · split
      · rfl
      · exact sigil_body
  case h_4 => exact sigil_body
  case h_5 =>
    unfold sigilHead at hKind ⊢
    split at hKind
    · unfold sigilName at hKind ⊢
      split
      · rename_i hLower
        rw [if_pos hLower] at hKind
        cases hKind
      · rename_i hLower
        rw [if_neg hLower] at hKind
        split
        · rename_i hUpper
          rw [if_pos hUpper] at hKind
          cases hKind
        · exact sigil_expression
    · exact sigil_sigilPromoter
  case h_6 => exact sigil_sigilModifiers
  case h_7 => rfl
  case h_8 => exact sigil_atomStart
  case h_9 => exact sigil_afterDot
  case h_10 => exact sigil_baseLetter
  case h_18 => exact sigil_expression
  all_goals exact sigil_digits

end Transition

------------------------------------------------------------
-- Two lexers
------------------------------------------------------------

/-
  Constructs that are alike: what differs is where a literal
  was opened, which only the error at the end of the source
  tells.
-/
inductive Frame.Same : Frame → Frame → Prop where
| group
    (g : Group)
    (opened opened' : Span) :
    Same (.group g opened) (.group g opened')
| interpolation
    (curlies : Nat)
    (resume : Mode) :
    Same (.interpolation curlies resume)
      (.interpolation curlies resume)

theorem Frame.same_apply
    {fs fs' : List Frame}
    (change : Change)
    (span span' : Span)
    (hFrames : List.Forall₂ Frame.Same fs fs') :
    List.Forall₂ Frame.Same (change.apply span fs)
      (change.apply span' fs') := by
  cases hFrames with
  | nil =>
      cases change with
      | openGroup g => exact .cons (.group g _ _) .nil
      | openInterpolation m => exact .cons (.interpolation 0 m) .nil
      | keep => exact .nil
      | openCurly => exact .nil
      | closeCurly => exact .nil
      | close => exact .nil
  | cons hTop hBelow =>
      cases change with
      | keep => exact .cons hTop hBelow
      | openGroup g => exact .cons (.group g _ _) (.cons hTop hBelow)
      | openInterpolation m =>
          exact .cons (.interpolation 0 m) (.cons hTop hBelow)
      | openCurly =>
          cases hTop with
          | group g o o' => exact .cons (.group g o o') hBelow
          | interpolation n m =>
              exact .cons (.interpolation (n + 1) m) hBelow
      | closeCurly =>
          cases hTop with
          | group g o o' => exact .cons (.group g o o') hBelow
          | interpolation n m =>
              exact .cons (.interpolation (n - 1) m) hBelow
      | close => exact hBelow

namespace Lexer

/-
  Errors that are alike. Where an open literal is reported
  depends on where it was opened.
-/
def SameError
    (p : Position)
    (e e' : LexError) : Prop :=
  e.fault = e'.fault ∧
    (e.fault.isUnterminated = false → e.span = e'.span.behind p)

/- The outermost open literals are alike. -/
theorem unterminated?_of_same
    {fs fs' : List Frame}
    (p : Position)
    (hFrames : List.Forall₂ Frame.Same fs fs') :
    List.Forall₂ (SameError p) (unterminated? fs).toList
      (unterminated? fs').toList := by
  unfold unterminated? outermostGroup?
  have hReverse := List.forall₂_reverse_iff.mpr hFrames
  generalize fs.reverse = rs at hReverse
  generalize fs'.reverse = rs' at hReverse
  induction hReverse with
  | nil => exact .nil
  | cons hTop _ ih =>
      cases hTop with
      | group g o o' =>
          refine .cons ⟨rfl, ?_⟩ .nil
          intro hOther
          cases hOther
      | interpolation n m => exact ih

/-
  A lexer stands at the place `p` of a longer source, from
  where another one has started: both are at the same
  characters. The errors `old` were found in front of `p`.
-/
structure Resumes
    (p : Position)
    (old : List LexError)
    (l l' : Lexer) : Prop where
  rest : l.rest = l'.rest
  here : l.here = p.behind l'.here
  counts : l'.here.Counts
  mode : l.mode = l'.mode
  frames : List.Forall₂ Frame.Same l.frames l'.frames
  sigil : l.sigil = l'.sigil
  errors :
    ∃ new,
      l.errors = old ++ new ∧
        List.Forall₂ (SameError p) new l'.errors
  runs : l.raised = false ∧ l.stopped = false ∧ l.ended = false
  runs' : l'.raised = false ∧ l'.stopped = false ∧ l'.ended = false

/- A token, and the same token counted from a place. -/
def SameToken
    (p : Position)
    (t t' : Token × Mode) : Prop :=
  t.1.kind = t'.1.kind ∧ t.1.text = t'.1.text ∧ t.2 = t'.2 ∧
    t.1.span = t'.1.span.behind p

variable {p : Position}
variable {old : List LexError}
variable {l l' : Lexer}

theorem Resumes.transition
    (c : Char)
    (cs : List Char)
    (hResumes : Resumes p old l l') :
    l.transition c cs = l'.transition c cs := by
  unfold Lexer.transition
  rw [hResumes.mode, hResumes.sigil]
  have hFrames := hResumes.frames
  generalize l.frames = fs at hFrames
  generalize l'.frames = fs' at hFrames
  cases hFrames with
  | nil => rfl
  | cons hTop _ =>
      cases hTop with
      | group g o o' =>
          exact Transition.of_congr _ _ c cs rfl (fun _ => rfl)
      | interpolation n m => rfl

/- The same text is a token for both. -/
theorem Resumes.tokenOf
    (t : Transition)
    (text : List Char)
    (hResumes : Resumes p old l l') :
    SameToken p (l.tokenOf t text, t.mode)
      (l'.tokenOf t text, t.mode) := by
  refine ⟨rfl, rfl, rfl, ?_⟩
  change l.here.spanOf text = _
  rw [hResumes.here, Position.behind_spanOf p text hResumes.counts]
  rfl

theorem Resumes.past
    (t : Transition)
    (text rest : List Char)
    (hResumes : Resumes p old l l') :
    Resumes p old (l.past t text rest) (l'.past t text rest) := by
  refine ⟨rfl, ?_, hResumes.counts.after text, rfl, ?_, rfl, ?_,
    hResumes.runs, hResumes.runs'⟩
  · change l.here.after text = p.behind (l'.here.after text)
    rw [hResumes.here, Position.behind_after p text hResumes.counts]
  · exact Frame.same_apply t.change _ _ hResumes.frames
  · rcases hResumes.errors with ⟨new, hErrors, hSame⟩
    refine ⟨new ++ (l.errorOf? t text).toList, ?_, ?_⟩
    · change l.errors ++ _ = _
      rw [hErrors, List.append_assoc]
    · apply List.rel_append hSame
      unfold errorOf?
      cases t.fault.or (t.kind.fault? text) with
      | none => exact .nil
      | some fault =>
          refine .cons ⟨rfl, fun _ => ?_⟩ .nil
          rw [hResumes.here]
          exact Position.behind_spanOf p text hResumes.counts

/- From there on both take the same tokens. -/
theorem Resumes.take
    {n : Nat}
    (hResumes : Resumes p old l l')
    (hEnough : l.rest.length < n) :
    List.Forall₂ (SameToken p) (l.take n).1 (l'.take n).1 ∧
      ∃ new,
        (l.take n).2.errors = old ++ new ∧
          List.Forall₂ (SameError p) new (l'.take n).2.errors := by
  induction n generalizing l l' with
  | zero => omega
  | succ n ih =>
      rcases hResumes.runs with ⟨hRaised, hStopped, hEnded⟩
      rcases hResumes.runs' with ⟨hRaised', hStopped', hEnded'⟩
      cases hRest : l.rest with
      | nil =>
          have hNext := next_of_rest_nil hRaised hStopped hRest
          have hNext' :=
            next_of_rest_nil hRaised' hStopped'
              (hResumes.rest ▸ hRest)
          rw [take_of_none n (by rw [hNext]),
            take_of_none n (by rw [hNext']), hNext, hNext']
          refine ⟨.nil, ?_⟩
          rcases hResumes.errors with ⟨new, hErrors, hSame⟩
          refine ⟨new ++ (unterminated? l.frames).toList, ?_, ?_⟩
          · simp [finish, hEnded, hErrors]
          · simp only [finish, hEnded', Bool.false_eq_true,
              if_false]
            exact List.rel_append hSame
              (unterminated?_of_same p hResumes.frames)
      | cons c cs =>
          have hNext := next_of_rest_cons hRaised hStopped hRest
          have hNext' :=
            next_of_rest_cons hRaised' hStopped'
              (hResumes.rest ▸ hRest)
          rw [← hResumes.transition] at hNext'
          have hFewer :
              (cs.drop (l.transition c cs).more).length < n := by
            rw [List.length_drop]
            rw [hRest, List.length_cons] at hEnough
            omega
          rcases ih (hResumes.past (l.transition c cs)
              (c :: cs.take (l.transition c cs).more) _)
              hFewer with ⟨hTokens, hErrors⟩
          rw [take_of_some n (by rw [hNext]),
            take_of_some n (by rw [hNext']), hNext, hNext']
          exact ⟨.cons (hResumes.tokenOf _ _) hTokens, hErrors⟩

------------------------------------------------------------
-- Points between two tokens
------------------------------------------------------------

/-
  Behind its first tokens a lexer takes those that are left.
  It has not reached the end of the source yet.
-/
theorem exists_take_behind
    {n : Nat}
    {earlier later : List (Token × Mode)}
    (hRuns : l.raised = false ∧ l.stopped = false ∧ l.ended = false)
    (hTokens : (l.take n).1 = earlier ++ later)
    (hEnough : l.rest.length < n) :
    ((l.behind earlier.length).raised = false ∧
        (l.behind earlier.length).stopped = false ∧
        (l.behind earlier.length).ended = false) ∧
      ∃ k,
        (l.behind earlier.length).rest.length < k ∧
          (l.behind earlier.length).take k =
            (later, (l.take n).2) := by
  induction earlier generalizing l n with
  | nil => exact ⟨hRuns, n, hEnough, Prod.ext hTokens rfl⟩
  | cons t earlier ih =>
      rcases hRuns with ⟨hRaised, hStopped, hEnded⟩
      cases n with
      | zero => omega
      | succ n =>
          cases hRest : l.rest with
          | nil =>
              have hNext := next_of_rest_nil hRaised hStopped hRest
              rw [take_of_none n (by rw [hNext])] at hTokens
              cases hTokens
          | cons c cs =>
              have hNext :=
                next_of_rest_cons hRaised hStopped hRest
              have hTake := take_of_some n (by rw [hNext])
              rw [hTake] at hTokens ⊢
              have hFewer : l.next.2.rest.length < n := by
                rw [hNext]
                change (cs.drop _).length < n
                rw [List.length_drop]
                rw [hRest, List.length_cons] at hEnough
                omega
              exact ih (by rw [hNext]; exact ⟨hRaised, hStopped, hEnded⟩)
                (List.cons.inj hTokens).2 hFewer

/-
  A sigil is pending only behind its name, or where one was
  pending from the start.
-/
theorem sigil_behind
    {n : Nat}
    {earlier later : List (Token × Mode)}
    (hRuns : l.raised = false ∧ l.stopped = false)
    (hTokens : (l.take n).1 = earlier ++ later)
    (hFirst : earlier = [] → l.sigil = none)
    (hLast :
      ∀ t ∈ earlier.getLast?, t.1.kind.isSigilName = false) :
    (l.behind earlier.length).sigil = none := by
  induction earlier generalizing l n with
  | nil => exact hFirst rfl
  | cons t earlier ih =>
      rcases hRuns with ⟨hRaised, hStopped⟩
      cases n with
      | zero => cases hTokens
      | succ n =>
          cases hRest : l.rest with
          | nil =>
              have hNext := next_of_rest_nil hRaised hStopped hRest
              rw [take_of_none n (by rw [hNext])] at hTokens
              cases hTokens
          | cons c cs =>
              have hNext :=
                next_of_rest_cons hRaised hStopped hRest
              rw [take_of_some n (by rw [hNext])] at hTokens
              rcases List.cons.inj hTokens with ⟨hToken, hRun⟩
              refine ih (by rw [hNext]; exact ⟨hRaised, hStopped⟩)
                hRun ?_ ?_
              · intro hOnly
                subst hOnly
                have hKind := hLast t rfl
                rw [← hToken] at hKind
                rw [hNext]
                exact Transition.sigil_of hKind
              · intro u hMember
                apply hLast u
                cases earlier with
                | nil => cases hMember
                | cons v vs => exact hMember

/-
  A lexer that starts in the mode of another one starts inside
  of the literal that is open there, if one is.
-/
theorem same_initialFrames
    (p : Position)
    (hCoherent : Coherent l)
    (hOpen :
      l.frames = [] ∨
        ∃ layout opened,
          l.frames = [.group (Group.string layout) opened]) :
    List.Forall₂ Frame.Same l.frames (initialFrames l.mode p) := by
  unfold initialFrames
  rcases hOpen with hNone | ⟨layout, opened, hString⟩
  · have hMode : l.mode.isGroup = false := by
      rw [Bool.eq_false_iff]
      intro hGroup
      rcases hCoherent.group_iff.mp hGroup with
        ⟨g, opened, fs, hFrames⟩
      rw [hNone] at hFrames
      cases hFrames
    rw [hNone, hMode]
    exact .nil
  · have hIn := hCoherent.isIn hString
    have hMode : l.mode.isGroup = true :=
      (Mode.isGroup_iff_isIn _).mpr ⟨_, hIn⟩
    have hLayout :
        (if l.mode = .group then Layout.quoted else .heredoc) =
          layout := by
      have hHeredoc := hCoherent.heredoc_iff _ _ _ hString
      cases layout with
      | quoted =>
          rw [if_pos]
          by_contra hOther
          cases hHeredoc.mpr hOther
      | heredoc => rw [if_neg (hHeredoc.mp rfl)]
    rw [hString, if_pos hMode, hLayout]
    exact .cons (.group _ _ _) .nil

/-
  Between two tokens the mode is all that a lexer has to
  remember, if no construct is open but a string or string
  heredoc at the bottom, no sigil is pending, and the rest
  does not look like the start of a file: a lexer that starts
  in this mode on the rest takes the same tokens, with the
  same modes behind them, and shows the same faults.
-/
theorem resumes_startingIn
    {mode : Mode}
    {source : String}
    {earlier later : List (Token × Mode)}
    {l : Lexer}
    (hTokens :
      (startingIn mode source).drain.1 = earlier ++ later)
    (hPoint : (startingIn mode source).behind earlier.length = l)
    (hOpen :
      l.frames = [] ∨
        ∃ layout opened,
          l.frames = [.group (Group.string layout) opened])
    (hSigil :
      ∀ t ∈ earlier.getLast?, t.1.kind.isSigilName = false)
    (hMark : l.rest.head? ≠ some byteOrderMark) :
    List.Forall₂ (SameToken l.here) later
        (startingIn l.mode (String.ofList l.rest)).drain.1 ∧
      ∃ new,
        (startingIn mode source).drain.2.errors =
            l.errors ++ new ∧
          List.Forall₂ (SameError l.here) new
            (startingIn l.mode
              (String.ofList l.rest)).drain.2.errors := by
  have hCoherent : Coherent l := by
    rw [← hPoint]
    exact (coherent_startingIn mode source).behind _
  have hPending : l.sigil = none := by
    rw [← hPoint]
    exact sigil_behind ⟨rfl, rfl⟩ hTokens (fun _ => rfl) hSigil
  rcases exists_take_behind ⟨rfl, rfl, rfl⟩ hTokens
      (Nat.lt_succ_self _) with ⟨hRuns, k, hEnough, hTake⟩
  rw [hPoint] at hRuns hEnough hTake
  -- What is left is all that the second lexer reads.
  have hOrigin : origin l.rest = ⟨0, 1, 1⟩ := if_neg hMark
  have hBody : body l.rest = l.rest := by
    cases hRest : l.rest with
    | nil => rfl
    | cons c cs =>
        rw [hRest] at hMark
        exact if_neg (fun hFirst => hMark (by rw [hFirst]; rfl))
  have hResumes :
      Resumes l.here l.errors l
        (startingIn l.mode (String.ofList l.rest)) := by
    unfold startingIn
    rw [String.toList_ofList, hBody, hOrigin]
    refine ⟨rfl, ?_, ⟨Nat.le_refl 1, Nat.le_refl 1⟩, rfl,
      same_initialFrames _ hCoherent hOpen, hPending,
      ⟨[], (List.append_nil _).symm, .nil⟩, hRuns,
      ⟨rfl, rfl, rfl⟩⟩
    simp [Position.behind]
  have hDrain :
      (startingIn l.mode (String.ofList l.rest)).drain =
        (startingIn l.mode (String.ofList l.rest)).take k := by
    refine take_eq_take (Nat.lt_succ_self _) ?_
    rw [← hResumes.rest]
    exact hEnough
  have hBoth := hResumes.take hEnough
  rw [hTake, ← hDrain] at hBoth
  exact hBoth

/- In the middle of a string, behind an interpolation. -/
theorem resumes_startingIn_string :
    ∃ l : Lexer,
      l.mode = .group ∧
        l.rest = [' ', '"', '$'] ∧
        ∃ later,
          List.Forall₂ (SameToken l.here) later
              (startingIn .group (String.ofList l.rest)).drain.1 ∧
            ∃ new,
              (startingIn .initial "\"#\x7ba\x7d \"$").drain.2.errors =
                  l.errors ++ new ∧
                List.Forall₂ (SameError l.here) new
                  (startingIn .group
                    (String.ofList l.rest)).drain.2.errors := by
  refine ⟨(startingIn .initial "\"#\x7ba\x7d \"$").behind 4,
    by decide, by decide,
    (startingIn .initial "\"#\x7ba\x7d \"$").drain.1.drop 4, ?_⟩
  have hTokens :
      (startingIn .initial "\"#\x7ba\x7d \"$").drain.1 =
        (startingIn .initial "\"#\x7ba\x7d \"$").drain.1.take 4 ++
          (startingIn .initial "\"#\x7ba\x7d \"$").drain.1.drop 4 :=
    (List.take_append_drop 4 _).symm
  exact resumes_startingIn hTokens (by decide +kernel)
    (.inr ⟨.quoted, ⟨0, 1, 1, 1⟩, by decide⟩)
    (by decide +kernel) (by decide +kernel)

end Lexer

end ElixirReader
