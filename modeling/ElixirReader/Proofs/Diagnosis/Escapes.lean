import ElixirReader.Analysis.Basic
import ElixirReader.Proofs.Lexer.Faults
import ElixirReader.Proofs.Parser.Chains
import ElixirReader.Proofs.Parser.Retaining
import ElixirReader.Proofs.Parser.Texts

/-
  This file follows the escapes of a source to the texts that
  they end up in. Behind a lexer that has found nothing wrong
  each escape of a string or charlist stands for something.
  The parser takes escapes from the tokens as they are, so a
  text holds one that stands for nothing only if it was
  written in a sigil.

  Key definitions include:
    * `Token.StandsIn`
    * `Text.keptEscapes`

  Main declarations:
    * `exists_family_of_errors_eq_nil`
    * `exists_of_mem_text`
    * `errors_drain_startingIn`
-/

namespace ElixirReader

open Parse

------------------------------------------------------------
-- Places of escapes
------------------------------------------------------------

namespace Token

variable {t : Token}
variable {es es' last : List Enclosure}
variable {front back tokens : List Token}

/-
  A token of a run that stands directly in a literal of a
  family, behind what encloses the whole run.
-/
def StandsIn
    (t : Token)
    (family : Family)
    (es : List Enclosure)
    (tokens : List Token) : Prop :=
  ∃ front back layout promoter outer,
    tokens = front ++ t :: back ∧
      enclosures? es front =
        some (.literal family layout promoter :: outer)

theorem enclosures?_append
    (es : List Enclosure)
    (front back : List Token) :
    enclosures? es (front ++ back) =
      (enclosures? es front).bind (enclosures? · back) :=
  List.foldlM_append

theorem enclosures?_cons
    (es : List Enclosure)
    (t : Token)
    (tokens : List Token) :
    enclosures? es (t :: tokens) =
      (t.enclosed? es).bind (enclosures? · tokens) :=
  List.foldlM_cons

/- The errors of the later tokens start from where they stand. -/
theorem errorsIn_append
    (hFront : enclosures? es front = some es') :
    errorsIn es (front ++ back) =
      errorsIn es front ++ errorsIn es' back := by
  induction front generalizing es with
  | nil =>
      cases hFront
      rfl
  | cons t front ih =>
      rw [enclosures?_cons] at hFront
      rcases Option.bind_eq_some_iff.mp hFront with
        ⟨inner, hEnclosed, hLater⟩
      rw [List.cons_append, errorsIn, errorsIn, hEnclosed,
        Option.getD_some, ih hLater, List.append_assoc]

/- An escape that has its place stands directly in a literal. -/
theorem exists_literal_of_enclosed?
    (hKind : t.kind = .escapeSequence)
    (hEnclosed : t.enclosed? es = some es') :
    ∃ family layout promoter outer,
      es = .literal family layout promoter :: outer ∧ es' = es := by
  cases hOutside : Enclosure.isOutside es with
  | true =>
      rw [enclosed?_of_isOutside hOutside] at hEnclosed
      simp [inCode?, hKind, Kind.isTextOnly] at hEnclosed
  | false =>
      cases es with
      | nil => cases hOutside
      | cons e outer =>
          cases e with
          | interpolation n => cases hOutside
          | literal family layout promoter =>
              refine ⟨_, _, _, _, rfl, ?_⟩
              rw [enclosed?, inText?, hKind] at hEnclosed
              cases hEnclosed
              rfl

/- An open literal has an outermost one. -/
theorem outermost?_ne_none
    (family : Family)
    (layout : Layout)
    (promoter : Token)
    (outer : List Enclosure) :
    Enclosure.outermost?
      (.literal family layout promoter :: outer) ≠ none := by
  unfold Enclosure.outermost?
  rw [List.reverse_cons, List.findSome?_append]
  cases List.findSome? Enclosure.promoter? outer.reverse <;>
    exact Option.some_ne_none _

end Token

/- Only `x` and `u` have to be followed by digits. -/
theorem Escape.isSome_decode?
    {tail : List Char}
    (hSome : tail ≠ [])
    (hLetter : Escape.namesCode ('\\' :: tail) = false) :
    (Escape.decode? ('\\' :: tail)).isSome = true := by
  cases tail with
  | nil => exact absurd rfl hSome
  | cons c rest =>
      simp only [Escape.namesCode, List.tail_cons,
        List.head?_cons, Option.any_some, Bool.or_eq_false_iff,
        beq_eq_false_iff_ne] at hLetter
      rw [Escape.decode?]
      split
      · rfl
      · rw [if_neg (by simp [hLetter])]
        rfl

------------------------------------------------------------
-- Escapes without errors
------------------------------------------------------------

/-
  Where nothing is wrong, an escape stands in a literal, and
  it is undecodable only in a sigil.
-/
theorem exists_family_of_errors_eq_nil
    {es : List Enclosure}
    {l : Lexer}
    {n : Nat}
    {front back : List Token}
    {t : Token}
    (hMirrored : l.Mirrored es)
    (hCoherent : l.Coherent)
    (hRuns : l.raised = false ∧ l.stopped = false ∧ l.ended = false)
    (hEnough : l.rest.length < n)
    (hErrors : (l.take n).2.errors = [])
    (hTokens : (l.take n).1.map (·.1) = front ++ t :: back)
    (hKind : t.kind = .escapeSequence) :
    ∃ family layout promoter outer,
      Token.enclosures? es front =
          some (.literal family layout promoter :: outer) ∧
        (family ≠ .sigil →
          (Escape.decode? t.text.toList).isSome = true) := by
  rcases hMirrored.errors_take hCoherent hRuns hEnough with
    ⟨last, hEnclosures, hAccount⟩
  rcases hCoherent.exists_tail_of_take ⟨hRuns.1, hRuns.2.1⟩
      hTokens hKind with ⟨tail, hText, hEnd⟩
  rw [hErrors, hTokens] at hAccount
  rw [hTokens, Token.enclosures?_append] at hEnclosures
  rcases Option.bind_eq_some_iff.mp hEnclosures with
    ⟨inner, hFront, hBack⟩
  rw [Token.enclosures?_cons] at hBack
  rcases Option.bind_eq_some_iff.mp hBack with
    ⟨behind, hEnclosed, hLast⟩
  rcases Token.exists_literal_of_enclosed? hKind hEnclosed with
    ⟨family, layout, promoter, outer, rfl, rfl⟩
  refine ⟨family, layout, promoter, outer, hFront, ?_⟩
  intro hFamily
  -- The run ends neither with an error nor in an open literal.
  rw [Token.errorsIn_append hFront, Token.errorsIn] at hAccount
  have hNone := hAccount.symm
  simp only [List.append_eq_nil_iff, Option.toList_eq_nil_iff,
    Option.map_eq_none_iff] at hNone
  have hSome : tail ≠ [] := by
    intro hEmpty
    rw [hEnd hEmpty] at hLast
    cases hLast
    exact Token.outermost?_ne_none _ _ _ _ hNone.2
  have hFine := hNone.1.2.2.1
  cases hDigits : Escape.namesCode ('\\' :: tail) with
  | false =>
      rw [hText]
      exact Escape.isSome_decode? hSome hDigits
  | true =>
      rw [Token.error?, ite_eq_right_iff] at hFine
      by_contra hBad
      have hNothing : Escape.decode? ('\\' :: tail) = none := by
        simpa [hText] using hBad
      apply Option.some_ne_none _ (hFine _)
      simp [Token.isBadEscape, hKind, hFamily, hText, hDigits,
        hNothing]

------------------------------------------------------------
-- Escapes in texts
------------------------------------------------------------

/- The escapes in a text that stand for nothing. -/
def Text.keptEscapes
    (t : Text ν) : List String :=
  t.segments.filterMap fun segment =>
    match segment with
    | .escape text =>
        if (Escape.decode? text.toList).isNone then some text
        else none
    | _ => none

theorem mem_keptEscapes
    {t : Text ν}
    {escape : String} :
    escape ∈ t.keptEscapes ↔
      .escape escape ∈ t.segments ∧
        Escape.decode? escape.toList = none := by
  unfold Text.keptEscapes
  rw [List.mem_filterMap]
  constructor
  · rintro ⟨segment, hMem, hKept⟩
    cases segment with
    | escape text =>
        simp only [Option.ite_none_right_eq_some,
          Option.some.injEq, Option.isNone_iff_eq_none] at hKept
        rcases hKept with ⟨hNothing, rfl⟩
        exact ⟨hMem, hNothing⟩
    | _ => cases hKept
  · rintro ⟨hMem, hNothing⟩
    exact ⟨_, hMem, by simp [hNothing]⟩

section Texts

variable {expr : ExpressionParser}
variable [∀ precedence context, Retains (expr precedence context)]
variable {escape : String}
variable {s : ParseState}

/- The escapes in a text are those of its lexemes. -/
theorem exists_of_mem_segmentsFor
    {n : Nat}
    {span : Span}
    (hMem :
      .escape escape ∈ (segmentsFor expr n span s).1.segments) :
    ∃ l ∈ s.rest, l.kind = .escapeSequence ∧ l.text = escape := by
  induction n generalizing s span with
  | zero => cases hMem
  | succ n ih =>
      cases hRest : s.rest with
      | nil =>
          rw [segmentsFor_of_nil hRest] at hMem
          cases hMem
      | cons l ls =>
          rw [← hRest]
          cases segmentCase l with
          | plain segment hPlain _ _ =>
              rw [segmentsFor_of_plain hRest hPlain] at hMem
              rcases List.mem_cons.mp hMem with rfl | hLater
              · refine ⟨l, by simp [hRest], ?_⟩
                unfold plainSegment? at hPlain
                split at hPlain <;> cases hPlain
                exact ⟨‹_›, rfl⟩
              · rcases ih hLater with ⟨m, hIn, hEscape⟩
                exact ⟨m, List.mem_of_mem_drop hIn, hEscape⟩
          | interpolation hPlain hKind =>
              rw [segmentsFor_of_interpolation hRest hPlain hKind]
                at hMem
              rcases List.mem_cons.mp hMem with hOther | hLater
              · cases hOther
              · rcases ih hLater with ⟨m, hIn, hEscape⟩
                have hSuffix :=
                  (Retains.later (p := interpolation expr l.span)
                    s).rest
                exact ⟨m, hSuffix.subset hIn, hEscape⟩
          | terminator f layout hPlain hKind =>
              rw [segmentsFor_of_terminator hRest hPlain hKind]
                at hMem
              cases hMem
          | other hPlain hStart hTerminator _ =>
              rw [segmentsFor_of_other hRest hPlain hStart
                hTerminator] at hMem
              cases hMem

/- So is the text without the indent of a heredoc's end. -/
theorem mem_of_mem_splitIndent
    {heredoc : Bool}
    {i : Inside}
    {segment : Segment Node}
    (hMem : segment ∈ (splitIndent heredoc i).2) :
    segment ∈ i.segments := by
  unfold splitIndent at hMem
  split at hMem
  · split at hMem
    · exact List.dropLast_subset _ hMem
    · exact hMem
  · exact hMem

theorem exists_of_mem_text
    (hMem : .escape escape ∈ (text expr s).1.1.segments) :
    ∃ l ∈ s.rest, l.kind = .escapeSequence ∧ l.text = escape := by
  rw [text_apply] at hMem
  rcases exists_of_mem_segmentsFor
      (mem_of_mem_splitIndent hMem) with ⟨m, hIn, hEscape⟩
  refine ⟨m, ?_, hEscape⟩
  apply List.mem_of_mem_drop
  cases hHeredoc : (promoterText s.rest.head?).2 with
  | false =>
      rw [hHeredoc] at hIn
      exact hIn
  | true =>
      rw [hHeredoc] at hIn
      exact (Retains.later (p := heredocStart) _).rest.subset hIn

end Texts

------------------------------------------------------------
-- Whole sources
------------------------------------------------------------

theorem Lexer.mirrored_startingIn
    (mode : Mode)
    (source : String) :
    (startingIn mode source).Mirrored
      (Enclosure.initial mode (origin source.toList)) := by
  unfold Mirrored startingIn Lexer.initialFrames Enclosure.initial
  split
  · have hText : ∀ layout : Layout,
        closingText (Group.string layout).terminatorText =
          (Group.string layout).terminatorText := by
      intro layout
      cases layout <;> rfl
    exact .cons (.literal (Group.string _) _ (hText _)) .nil
  · exact .nil

/-
  In every mode that a lexer may start in, its errors are
  those that its tokens show, in their order, each with the
  span of its token, and one more if a literal is left open.
  If there are none, each escape stands directly in a literal,
  and stands for something unless that is a sigil; and where
  the parser keeps the characters of an escape, wherever it
  stands and however it got there, they are those of a sigil.
-/
theorem errors_drain_startingIn
    (mode : Mode)
    (source : String) :
    let l := (Lexer.startingIn mode source).drain
    let tokens := l.1.map (·.1)
    let es := Enclosure.initial mode (Lexer.origin source.toList)
    (∃ last,
      Token.enclosures? es tokens = some last ∧
        l.2.errors =
          Token.errorsIn es tokens ++
            ((Enclosure.outermost? last).map fun promoter =>
              ⟨.unterminatedGroup promoter.closingText,
                promoter.span⟩).toList) ∧
      (l.2.errors = [] →
        (∀ t ∈ tokens,
          t.kind = .escapeSequence →
            ∃ family,
              t.StandsIn family es tokens ∧
                (family ≠ .sigil →
                  (Escape.decode? t.text.toList).isSome = true)) ∧
          ∀ n height s,
            s.rest <:+ Lexeme.ofTokens tokens →
              ∀ escape ∈
                (text (expression n height) s).1.1.keptEscapes,
                ∃ t ∈ tokens,
                  t.kind = .escapeSequence ∧
                    t.text = escape ∧
                      t.StandsIn .sigil es tokens) := by
  intro l tokens es
  have hMirrored := Lexer.mirrored_startingIn mode source
  have hCoherent := Lexer.coherent_startingIn mode source
  have hEnough := Nat.lt_succ_self
    (Lexer.startingIn mode source).rest.length
  refine ⟨?_, ?_⟩
  · exact hMirrored.errors_take hCoherent ⟨rfl, rfl, rfl⟩ hEnough
  intro hErrors
  have hPlaces :
      ∀ t ∈ tokens,
        t.kind = .escapeSequence →
          ∃ family,
            t.StandsIn family es tokens ∧
              (family ≠ .sigil →
                (Escape.decode? t.text.toList).isSome = true) := by
    intro t hMem hKind
    rcases List.append_of_mem hMem with ⟨front, back, hTokens⟩
    rcases exists_family_of_errors_eq_nil hMirrored hCoherent
        ⟨rfl, rfl, rfl⟩ hEnough hErrors hTokens hKind with
      ⟨family, layout, promoter, outer, hFront, hDecodes⟩
    exact ⟨family,
      ⟨front, back, layout, promoter, outer, hTokens, hFront⟩,
      hDecodes⟩
  refine ⟨hPlaces, ?_⟩
  intro n height s hSuffix escape hKept
  rcases mem_keptEscapes.mp hKept with ⟨hMem, hNothing⟩
  rcases exists_of_mem_text hMem with ⟨m, hRest, hKind, rfl⟩
  have hToken : m.token ∈ tokens :=
    Lexeme.token_mem (hSuffix.subset hRest)
  rcases hPlaces m.token hToken hKind with
    ⟨family, hStands, hDecodes⟩
  refine ⟨m.token, hToken, hKind, rfl, ?_⟩
  by_cases hSigil : family = .sigil
  · exact hSigil ▸ hStands
  · have hSome := hDecodes hSigil
    change (Escape.decode? m.text.toList).isSome = true at hSome
    rw [hNothing] at hSome
    cases hSome

/-
  Recovery counts closing delimiters whatever they close. In
  the interpolation of this string it so comes to stop within
  the sigil, whose escape is then taken for the string's.
-/
theorem keptEscapes_text_sigil :
    let source := "\"#\x7b ) ~s(#\x7b)\x7d#\x7b)\x7d\\x) \x7d\""
    let tokens := (tokenize source).1
    let s := ParseState.start (Lexeme.ofTokens tokens)
    (tokenize source).2 = [] ∧
      (tokens.head?.map Token.kind) = some (.promoter .string .quoted) ∧
      (text (expression maxNesting maxHeight) s).1.1.keptEscapes =
        ["\\x"] := by
  decide +kernel

end ElixirReader
