import ElixirReader.Proofs.Lexer.Frames
import Mathlib.Data.List.Forall2

/-
  This file reads the tokens of a source alone, without the
  lexer: which quoted literals and interpolations are open
  behind them. It shows that no token of a source is out of
  its place, and that what is left open at the end is what the
  lexer reports.

  Key definitions include:
    * `Enclosure`
    * `Token.closingText`
    * `Token.enclosed?`
    * `Enclosure.outermost?`
    * `Transition.Faithful`
    * `Enclosure.Mirrors`

  Main declarations:
    * `Transition.of_faithful`
    * `Transition.of_inText`
    * `Lexer.Mirrored.past`
    * `enclosures?_tokenize`
-/

namespace ElixirReader

------------------------------------------------------------
-- Enclosures
------------------------------------------------------------

/-
  What encloses a token: a quoted literal, with the token that
  opened it, or an interpolation, with the number of curlies
  that are open directly in it.
-/
inductive Enclosure where
| literal (family : Family) (layout : Layout) (promoter : Token)
| interpolation (curlies : Nat)
deriving DecidableEq, Repr

/- The text that closes what a text opens. -/
def closingText : String → String
| "(" => ")"
| "[" => "]"
| "\x7b" => "\x7d"
| "<" => ">"
| text => text

namespace Token

/- The closing delimiter of the literal that a token opens. -/
def closingText
    (t : Token) : String :=
  ElixirReader.closingText t.text

end Token

/-
  The kinds that make up the body of a literal. Only a heredoc
  has indents, and a rest of the line on which it starts.
-/
def Kind.isTextOf
    (family : Family)
    (layout : Layout) : Kind → Bool
| fragment f => f == family
| escapeSequence => true
| heredocIndent => layout == .heredoc
| whiteSpace => layout == .heredoc
| endOfLine => layout == .heredoc
| badCharacter => layout == .heredoc
| _ => false

/- The kinds that have no place outside of a literal. -/
def Kind.isTextOnly : Kind → Bool
| fragment _ => true
| terminator _ _ => true
| escapeSequence => true
| heredocIndent => true
| interpolationStart => true
| _ => false

namespace Token

/-
  The enclosures behind a token directly inside of a literal:
  it is part of its text, or opens an interpolation, or ends
  the literal with the closing delimiter of its promoter.
-/
def inText?
    (t : Token)
    (family : Family)
    (layout : Layout)
    (promoter : Token)
    (es : List Enclosure) : Option (List Enclosure) :=
  match t.kind with
  | .terminator f l =>
      if f = family ∧ l = layout ∧ t.text = promoter.closingText then
        some es
      else
        none
  | .interpolationStart =>
      some (.interpolation 0 :: .literal family layout promoter :: es)
  | k =>
      if k.isTextOf family layout then
        some (.literal family layout promoter :: es)
      else
        none

/-
  The enclosures behind a token that is not directly inside of
  a literal. A curly directly inside of an interpolation is
  counted; the interpolation ends where none is open.
-/
def inCode?
    (t : Token)
    (es : List Enclosure) : Option (List Enclosure) :=
  match t.kind, es with
  | .promoter f l, es => some (.literal f l t :: es)
  | .opening .curly, .interpolation n :: es =>
      some (.interpolation (n + 1) :: es)
  | .closing .curly, .interpolation (n + 1) :: es =>
      some (.interpolation n :: es)
  | .closing .curly, .interpolation 0 :: _ => none
  | .interpolationEnd, .interpolation 0 :: es => some es
  | .interpolationEnd, _ => none
  | k, es => if k.isTextOnly then none else some es

/- The enclosures behind a token, none where it has no place. -/
def enclosed?
    (t : Token) : List Enclosure → Option (List Enclosure)
| .literal f l p :: es => t.inText? f l p es
| es => t.inCode? es

/- The enclosures behind some tokens. -/
def enclosures?
    (es : List Enclosure)
    (tokens : List Token) : Option (List Enclosure) :=
  tokens.foldlM (fun es t => t.enclosed? es) es

end Token

namespace Enclosure

/- The token that opened a literal. -/
def promoter? : Enclosure → Option Token
| literal _ _ p => some p
| interpolation _ => none

/- The token that opened the outermost literal. -/
def outermost?
    (es : List Enclosure) : Option Token :=
  es.reverse.findSome? promoter?

/- No literal is innermost. -/
def isOutside : List Enclosure → Bool
| [] => true
| literal _ _ _ :: _ => false
| interpolation _ :: _ => true

end Enclosure

theorem Token.enclosed?_of_isOutside
    {t : Token}
    {es : List Enclosure}
    (hOutside : Enclosure.isOutside es = true) :
    t.enclosed? es = t.inCode? es := by
  cases es with
  | nil => rfl
  | cons e es =>
      cases e with
      | literal f l p => cases hOutside
      | interpolation n => rfl

/- Whether a cause is the end of the source in a literal. -/
def LexFault.isUnterminated : LexFault → Bool
| unterminatedGroup _ => true
| _ => false

/- The errors of literals that are never closed. -/
def unterminatedErrors
    (errors : List LexError) : List LexError :=
  errors.filter (fun e => e.fault.isUnterminated)

------------------------------------------------------------
-- Texts of promoters
------------------------------------------------------------

namespace Transition

/-
  A token opens a literal only with a delimiter whose partner
  ends the literal. No token is blamed for an end of the
  source that comes too early.
-/
structure Faithful
    (c : Char)
    (cs : List Char)
    (t : Transition) : Prop where
  opens :
    ∀ g,
      t.change = .openGroup g →
        closingText (String.ofList (c :: cs.take t.more)) =
          g.terminatorText
  fault :
    ∀ fault,
      t.fault = some fault → fault.isUnterminated = false

variable {mode : Mode}
variable {top : Option Frame}
variable {c : Char}
variable {cs : List Char}

theorem faithful_of
    {t : Transition}
    (hChange : ∀ g, t.change ≠ .openGroup g)
    (hFault : t.fault = none) :
    Faithful c cs t := by
  constructor
  · intro g hOpens
    exact absurd hOpens (hChange g)
  · intro fault hSome
    rw [hFault] at hSome
    cases hSome

theorem faithful_plain
    {kind : Kind}
    {more : Nat} :
    Faithful c cs (plain kind more mode) :=
  faithful_of (fun _ hOpens => nomatch hOpens) rfl

theorem eq_of_isTriple
    (hTriple : isTriple c cs = true) :
    cs.take 2 = [c, c] := by
  unfold isTriple at hTriple
  split at hTriple
  · simpa using hTriple
  · cases hTriple

/- Three quotes close what three quotes open. -/
theorem closingText_triple
    (hQuote : c = '"' ∨ c = '\'')
    (hTriple : isTriple c cs = true) :
    closingText (String.ofList (c :: cs.take 2)) =
      String.ofList [c, c, c] := by
  rw [eq_of_isTriple hTriple]
  rcases hQuote with rfl | rfl <;> rfl

/- The partner of a sigil's delimiter ends it. -/
theorem closingText_of_sigilTerminator?
    {d : Char}
    (hTerminator : sigilTerminator? c = some d) :
    closingText (String.ofList [c]) = String.ofList [d] := by
  unfold sigilTerminator? at hTerminator
  split at hTerminator <;> cases hTerminator <;> rfl

/- A promoter is one delimiter, or the same quote three times. -/
theorem Delimits.faithful
    {g : Group}
    (hDelimits : Delimits c cs g) :
    Faithful c cs (promoter g) := by
  constructor
  · intro g' hOpens
    cases hOpens
    change closingText
      (String.ofList (c :: cs.take (if _ then 2 else 0))) = _
    unfold Group.terminatorText
    cases hLayout : g.layout with
    | quoted =>
        have hPartner := closingText_of_sigilTerminator?
          (hDelimits.quoted hLayout)
        simpa using hPartner
    | heredoc =>
        rcases hDelimits.heredoc hLayout with
          ⟨hQuote, hTriple, hTerminator⟩
        rw [hTerminator]
        exact closingText_triple hQuote hTriple
  · intro fault hSome
    cases hSome

------------------------------------------------------------
-- Faithful tokens
------------------------------------------------------------

theorem Code.faithful
    {t : Transition}
    (hCode : Code mode top c cs t) :
    Faithful c cs t := by
  cases hCode with
  | fixed _ _ _ _ _ => exact faithful_plain
  | space _ _ _ _ _ _ => exact faithful_plain
  | digits _ _ _ _ _ => exact faithful_plain
  | character _ _ _ => exact faithful_plain
  | sigilName _ _ _ _ _ =>
      exact faithful_of (fun _ hOpens => nomatch hOpens) rfl
  | opensCurly =>
      exact faithful_of (fun _ hOpens => nomatch hOpens) rfl
  | closesCurly =>
      unfold closeCurly
      split <;> exact faithful_of (fun _ hOpens => nomatch hOpens) rfl
  | opens _ hDelimits => exact hDelimits.faithful

variable {g : Group}

/- The fault of an escape is one of its digits. -/
theorem escape_faithful :
    Faithful c cs (escape g cs) := by
  constructor
  · intro g' hOpens
    cases hOpens
  · intro fault hSome
    change escapeFault g _ = some fault at hSome
    unfold escapeFault at hSome
    split at hSome <;> cases hSome
    rfl

theorem body_faithful :
    Faithful c cs (body g c cs) := by
  unfold body
  split
  · exact escape_faithful
  · split
    · exact faithful_of (fun _ hOpens => nomatch hOpens) rfl
    · exact faithful_plain

theorem terminator_faithful :
    Faithful c cs (terminator g) :=
  faithful_of (fun _ hOpens => nomatch hOpens) rfl

theorem group_faithful :
    Faithful c cs (group g c cs) := by
  unfold group
  split
  · exact terminator_faithful
  · exact body_faithful

theorem heredocStart_faithful :
    Faithful c cs (heredocStart c cs) := by
  unfold heredocStart
  split
  · exact faithful_plain
  · split
    · exact faithful_plain
    · constructor
      · intro g' hOpens
        cases hOpens
      · intro fault hSome
        cases hSome
        rfl

theorem heredocLineStart_faithful :
    Faithful c cs (heredocLineStart g c cs) := by
  unfold heredocLineStart
  split
  · exact faithful_plain
  · split
    · exact terminator_faithful
    · exact body_faithful

/- In every mode a token is faithful. -/
theorem of_faithful
    (pending : Option Bool) :
    Faithful c cs (of mode pending top c cs) := by
  cases hGroup : mode.isGroup with
  | false => exact (of_code pending hGroup).faithful
  | true =>
      cases mode <;> try cases hGroup
      · exact group_faithful
      · exact heredocStart_faithful
      · exact heredocLineStart_faithful
      · exact body_faithful

------------------------------------------------------------
-- Texts of literals
------------------------------------------------------------

/-
  A token directly inside of a literal: text of the literal,
  the start of an interpolation, or a terminator that is
  spelled as the literal asks for.
-/
inductive InText
    (g : Group)
    (c : Char)
    (cs : List Char)
    (t : Transition) : Prop where
| text
    (hKind : t.kind.isTextOf g.family g.layout = true)
    (hChange : t.change = .keep)
| interpolates
    (hEq : t = interpolation g)
| ends
    (hEq : t = terminator g)
    (hText :
      String.ofList (c :: cs.take t.more) = g.terminatorText)

theorem body_inText :
    InText g c cs (body g c cs) := by
  unfold body
  split
  · exact .text rfl rfl
  · split
    · exact .interpolates rfl
    · refine .text ?_ rfl
      change (g.family == g.family) = true
      simp

theorem group_inText
    (hLayout : g.layout = .quoted) :
    InText g c cs (group g c cs) := by
  unfold group
  split
  · rename_i hTerminator
    refine .ends rfl ?_
    change String.ofList
      (c :: cs.take (if g.layout = .heredoc then 2 else 0)) = _
    rw [hLayout, if_neg (by decide), Group.terminatorText,
      hLayout, hTerminator]
    rfl
  · exact body_inText

theorem heredocStart_inText
    (hLayout : g.layout = .heredoc) :
    InText g c cs (heredocStart c cs) := by
  have hText :
      ∀ t : Transition,
        t.kind = .whiteSpace ∨ t.kind = .endOfLine ∨
            t.kind = .badCharacter →
          t.change = .keep → InText g c cs t := by
    intro t hKind hChange
    refine .text ?_ hChange
    rw [hLayout]
    rcases hKind with hKind | hKind | hKind <;> rw [hKind] <;> rfl
  unfold heredocStart
  split
  · exact hText _ (.inl rfl) rfl
  · split
    · exact hText _ (.inr (.inl rfl)) rfl
    · exact hText _ (.inr (.inr rfl)) rfl

theorem heredocLineStart_inText
    (hLayout : g.layout = .heredoc) :
    InText g c cs (heredocLineStart g c cs) := by
  unfold heredocLineStart
  split
  · refine .text ?_ rfl
    rw [hLayout]
    rfl
  · split
    · rename_i hTerminator
      refine .ends rfl ?_
      change String.ofList
        (c :: cs.take (if g.layout = .heredoc then 2 else 0)) = _
      rw [hLayout, if_pos rfl, Group.terminatorText, hLayout,
        eq_of_isTriple hTerminator.2, hTerminator.1]
    · exact body_inText

/- In a literal every mode leads to one of these tokens. -/
theorem of_inText
    (pending : Option Bool)
    (span : Span)
    (hIn : mode.isIn g.layout = true) :
    InText g c cs
      (of mode pending (some (.group g span)) c cs) := by
  cases hLayout : g.layout with
  | quoted =>
      rw [hLayout] at hIn
      cases mode <;> try cases hIn
      exact group_inText hLayout
  | heredoc =>
      rw [hLayout] at hIn
      cases mode <;> try cases hIn
      · exact heredocStart_inText hLayout
      · exact heredocLineStart_inText hLayout
      · exact body_inText

end Transition

------------------------------------------------------------
-- Enclosures and frames
------------------------------------------------------------

/- An enclosure that the tokens show is a frame of the lexer. -/
inductive Enclosure.Mirrors : Enclosure → Frame → Prop where
| literal
    (g : Group)
    (promoter : Token)
    (hText : promoter.closingText = g.terminatorText) :
    Mirrors (.literal g.family g.layout promoter)
      (.group g promoter.span)
| interpolation
    (curlies : Nat)
    (resume : Mode) :
    Mirrors (.interpolation curlies)
      (.interpolation curlies resume)

namespace Lexer

/- The tokens so far show what is open where a lexer stands. -/
def Mirrored
    (es : List Enclosure)
    (l : Lexer) : Prop :=
  List.Forall₂ Enclosure.Mirrors es l.frames

variable {es : List Enclosure}
variable {l : Lexer}
variable {t : Transition}
variable {c : Char}
variable {cs : List Char}

theorem Mirrored.isOutside
    (hMirrored : Mirrored es l)
    (hOutside : Frame.isOutside l.frames = true) :
    Enclosure.isOutside es = true := by
  unfold Mirrored at hMirrored
  generalize l.frames = fs at hMirrored hOutside
  cases hMirrored with
  | nil => rfl
  | cons hHead hTail =>
      cases hHead with
      | literal g promoter hText => cases hOutside
      | interpolation n resume => rfl

/- An ordinary token has its place outside of literals. -/
theorem inCode?_of_isOrdinary
    {token : Token}
    (hOrdinary : token.kind.isOrdinary = true) :
    token.inCode? es = some es := by
  unfold Token.inCode?
  generalize token.kind = k at hOrdinary
  cases k with
  | opening b =>
      cases b with
      | curly => cases hOrdinary
      | _ => rfl
  | closing b =>
      cases b with
      | curly => cases hOrdinary
      | _ => rfl
  | _ => first | rfl | cases hOrdinary

/- A token outside of literals has its place. -/
theorem Mirrored.past_of_outside
    (rest : List Char)
    (hMirrored : Mirrored es l)
    (hOutside : Frame.isOutside l.frames = true)
    (hToken : t.Outside l.frames.head?)
    (hFaithful : t.Faithful c cs) :
    ∃ es',
      (l.tokenOf t (c :: cs.take t.more)).inCode? es = some es' ∧
        Mirrored es' (l.past t (c :: cs.take t.more) rest) := by
  cases hToken with
  | keeps hKeeps =>
      refine ⟨es, inCode?_of_isOrdinary hKeeps.kind, ?_⟩
      unfold Mirrored past
      rw [hKeeps.change]
      exact hMirrored
  | opensCurly hEq =>
      subst hEq
      unfold Mirrored at hMirrored ⊢
      change ∃ es', _ ∧ List.Forall₂ _ es'
        (Change.openCurly.apply _ l.frames)
      generalize l.frames = fs at hMirrored hOutside
      cases hMirrored with
      | nil => exact ⟨[], rfl, .nil⟩
      | cons hHead hTail =>
          cases hHead with
          | literal g promoter hText => cases hOutside
          | interpolation n resume =>
              exact ⟨_, rfl, .cons (.interpolation _ _) hTail⟩
  | closesCurly hEq hTop =>
      subst hEq
      unfold Mirrored at hMirrored ⊢
      change ∃ es', _ ∧ List.Forall₂ _ es'
        (Change.closeCurly.apply _ l.frames)
      generalize l.frames = fs at hMirrored hOutside hTop
      cases hMirrored with
      | nil => exact ⟨[], rfl, .nil⟩
      | cons hHead hTail =>
          cases hHead with
          | literal g promoter hText => cases hOutside
          | interpolation n resume =>
              -- No curly of an interpolation closes before it opens.
              cases n with
              | zero => exact absurd rfl (hTop resume)
              | succ n =>
                  exact
                    ⟨_, rfl, .cons (.interpolation _ _) hTail⟩
  | opens g hEq =>
      subst hEq
      refine ⟨_, rfl, .cons ?_ hMirrored⟩
      exact .literal g _ (hFaithful.opens g rfl)
  | resumes resume hTop hEq =>
      subst hEq
      unfold Mirrored at hMirrored ⊢
      change ∃ es', _ ∧ List.Forall₂ _ es' l.frames.tail
      generalize l.frames = fs at hMirrored hTop
      cases hMirrored with
      | nil => cases hTop
      | cons hHead hTail =>
          cases hTop
          cases hHead with
          | interpolation n resume => exact ⟨_, rfl, hTail⟩

/- The text of a literal is no terminator and no interpolation. -/
theorem inText?_of_isTextOf
    {token promoter : Token}
    {family : Family}
    {layout : Layout}
    (hText : token.kind.isTextOf family layout = true) :
    token.inText? family layout promoter es =
      some (.literal family layout promoter :: es) := by
  unfold Token.inText?
  generalize token.kind = k at hText
  cases k with
  | terminator f l => cases hText
  | interpolationStart => cases hText
  | _ => exact if_pos hText

/- So has one inside of a literal. -/
theorem Mirrored.past_of_inside
    {g : Group}
    {promoter : Token}
    {fs : List Frame}
    (rest : List Char)
    (hClosing : promoter.closingText = g.terminatorText)
    (hFrames : l.frames = .group g promoter.span :: fs)
    (hMirrored : List.Forall₂ Enclosure.Mirrors es fs)
    (hToken : t.InText g c cs) :
    ∃ es',
      (l.tokenOf t (c :: cs.take t.more)).inText? g.family
          g.layout promoter es = some es' ∧
        Mirrored es' (l.past t (c :: cs.take t.more) rest) := by
  have hLiteral :
      List.Forall₂ Enclosure.Mirrors
        (.literal g.family g.layout promoter :: es)
        l.frames := by
    rw [hFrames]
    exact .cons (.literal g promoter hClosing) hMirrored
  cases hToken with
  | text hKind hChange =>
      refine ⟨_, inText?_of_isTextOf hKind, ?_⟩
      unfold Mirrored past
      rw [hChange]
      exact hLiteral
  | interpolates hEq =>
      subst hEq
      exact ⟨_, rfl, .cons (.interpolation 0 _) hLiteral⟩
  | ends hEq hText =>
      subst hEq
      refine ⟨es, ?_, ?_⟩
      · apply if_pos
        exact ⟨rfl, rfl, hText.trans hClosing.symm⟩
      · unfold Mirrored
        change List.Forall₂ _ es l.frames.tail
        rw [hFrames]
        exact hMirrored

/- Every token has its place, and shows what it does. -/
theorem Mirrored.past
    (c : Char)
    (cs rest : List Char)
    (hMirrored : Mirrored es l)
    (hCoherent : Coherent l) :
    ∃ es',
      (l.tokenOf (l.transition c cs)
          (c :: cs.take (l.transition c cs).more)).enclosed? es =
        some es' ∧
        Mirrored es'
          (l.past (l.transition c cs)
            (c :: cs.take (l.transition c cs).more) rest) := by
  have hFaithful : (l.transition c cs).Faithful c cs :=
    Transition.of_faithful l.sigil
  cases hMode : l.mode.isGroup with
  | false =>
      have hOutside := hCoherent.isOutside hMode
      rw [Token.enclosed?_of_isOutside
        (hMirrored.isOutside hOutside)]
      exact hMirrored.past_of_outside rest hOutside
        (Transition.of_outside l.sigil hMode) hFaithful
  | true =>
      rcases hCoherent.group_iff.mp hMode with
        ⟨g, opened, fs, hFrames⟩
      have hToken : (l.transition c cs).InText g c cs := by
        unfold transition
        rw [hFrames]
        exact Transition.of_inText l.sigil opened
          (hCoherent.isIn hFrames)
      have hOpen := hMirrored
      unfold Mirrored at hOpen
      rw [hFrames] at hOpen
      cases hOpen with
      | cons hHead hTail =>
          cases hHead with
          | literal _ promoter hText =>
              exact past_of_inside rest hText hFrames hTail hToken

------------------------------------------------------------
-- Errors of open literals
------------------------------------------------------------

/- What a token is blamed for is never the end of the source. -/
theorem isUnterminated_of_errorOf?
    {text : List Char}
    {e : LexError}
    (hFaithful : t.Faithful c cs)
    (hError : l.errorOf? t text = some e) :
    e.fault.isUnterminated = false := by
  unfold errorOf? at hError
  rcases Option.map_eq_some_iff.mp hError with
    ⟨fault, hFault, rfl⟩
  rcases Option.or_eq_some_iff.mp hFault with hOwn | ⟨_, hKind⟩
  · exact hFaithful.fault fault hOwn
  · unfold Kind.fault? at hKind
    split at hKind
    · rcases Option.map_eq_some_iff.mp hKind with ⟨d, _, rfl⟩
      rfl
    · cases hKind
      rfl
    · cases hKind
      rfl
    · cases hKind

/- A token adds no error of a literal that is never closed. -/
theorem unterminatedErrors_past
    (text rest : List Char)
    (hFaithful : t.Faithful c cs) :
    unterminatedErrors (l.past t text rest).errors =
      unterminatedErrors l.errors := by
  unfold unterminatedErrors
  change (l.errors ++ (l.errorOf? t text).toList).filter _ = _
  rw [List.filter_append, List.append_right_eq_self,
    List.filter_eq_nil_iff]
  intro e hMember
  rw [isUnterminated_of_errorOf? hFaithful
    (Option.mem_toList.mp hMember)]
  exact Bool.false_ne_true

/- The outermost literal that the tokens show is the reported one. -/
theorem unterminated?_of_forall₂
    {fs : List Frame}
    (hMirrors : List.Forall₂ Enclosure.Mirrors es fs) :
    unterminated? fs =
      (Enclosure.outermost? es).map fun promoter =>
        ⟨.unterminatedGroup promoter.closingText,
          promoter.span⟩ := by
  unfold unterminated? outermostGroup? Enclosure.outermost?
  have hReverse := List.forall₂_reverse_iff.mpr hMirrors
  generalize es.reverse = es' at hReverse
  generalize fs.reverse = fs' at hReverse
  induction hReverse with
  | nil => rfl
  | cons hHead _ ih =>
      cases hHead with
      | literal g promoter hText =>
          simp [Enclosure.promoter?, hText]
      | interpolation n resume => exact ih

------------------------------------------------------------
-- Whole sources
------------------------------------------------------------

/-
  The tokens of a run are in their places, and the literals
  that they leave open are reported at the end of the source.
-/
theorem Mirrored.take
    {n : Nat}
    (hMirrored : Mirrored es l)
    (hCoherent : Coherent l)
    (hRuns : l.raised = false ∧ l.stopped = false ∧ l.ended = false)
    (hEnough : l.rest.length < n) :
    ∃ es',
      Token.enclosures? es ((l.take n).1.map (·.1)) = some es' ∧
        unterminatedErrors (l.take n).2.errors =
          unterminatedErrors l.errors ++
            ((Enclosure.outermost? es').map fun promoter =>
              ⟨.unterminatedGroup promoter.closingText,
                promoter.span⟩).toList := by
  induction n generalizing l es with
  | zero => omega
  | succ n ih =>
      rcases hRuns with ⟨hRaised, hStopped, hEnded⟩
      cases hRest : l.rest with
      | nil =>
          have hNext : l.next = (none, l.finish) := by
            unfold next
            rw [hStopped, hRaised, hRest]
            rfl
          rw [take_of_none n (by rw [hNext]), hNext]
          refine ⟨es, rfl, ?_⟩
          unfold finish
          rw [hEnded]
          change unterminatedErrors (_ ++ _) = _
          rw [← unterminated?_of_forall₂ hMirrored]
          unfold unterminatedErrors unterminated?
          rw [List.filter_append]
          congr 1
          rw [List.filter_eq_self]
          intro e hMember
          rcases Option.map_eq_some_iff.mp
              (Option.mem_toList.mp hMember) with ⟨_, _, rfl⟩
          rfl
      | cons c cs =>
          have hNext :
              l.next =
                (some (l.tokenOf (l.transition c cs)
                    (c :: cs.take (l.transition c cs).more)),
                  l.past (l.transition c cs)
                    (c :: cs.take (l.transition c cs).more)
                    (cs.drop (l.transition c cs).more)) := by
            unfold next
            rw [hStopped, hRaised, hRest]
            rfl
          have hFaithful : (l.transition c cs).Faithful c cs :=
            Transition.of_faithful l.sigil
          rcases hMirrored.past c cs
              (cs.drop (l.transition c cs).more) hCoherent with
            ⟨es', hEnclosed, hMirrored'⟩
          have hFewer :
              (cs.drop (l.transition c cs).more).length < n := by
            rw [List.length_drop]
            rw [hRest, List.length_cons] at hEnough
            omega
          rcases ih hMirrored' (hCoherent.past _ _ _ _)
              ⟨hRaised, hStopped, hEnded⟩ hFewer with
            ⟨last, hEnclosures, hErrors⟩
          rw [take_of_some n (by rw [hNext]), hNext]
          refine ⟨last, ?_, ?_⟩
          · rw [List.map_cons, Token.enclosures?,
              List.foldlM_cons, hEnclosed]
            exact hEnclosures
          · rw [hErrors, unterminatedErrors_past _ _ hFaithful]

end Lexer

/-
  Every token of a source is in its place: a terminator ends
  the innermost open literal with its family, layout and
  delimiter; the parts of a literal's text, and the starts of
  interpolations, stand directly inside of a literal; and an
  interpolation ends where its own curlies are closed. The
  outermost literal that is left open, if there is one, is
  the only one that is reported.
-/
theorem enclosures?_tokenize
    (source : String) :
    ∃ es,
      Token.enclosures? [] (tokenize source).1 = some es ∧
        unterminatedErrors (tokenize source).2 =
          ((Enclosure.outermost? es).map fun promoter =>
            ⟨.unterminatedGroup promoter.closingText,
              promoter.span⟩).toList := by
  have hMirrored : Lexer.Mirrored [] (Lexer.ofSource source) :=
    .nil
  rcases hMirrored.take (Lexer.coherent_startingIn _ _)
      ⟨rfl, rfl, rfl⟩ (Nat.lt_succ_self _) with
    ⟨es, hEnclosures, hErrors⟩
  exact ⟨es, hEnclosures, hErrors⟩

end ElixirReader
