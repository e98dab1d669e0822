import ElixirReader.Proofs.Lexer.Enclosures
import ElixirReader.Proofs.Lexer.Positions

/-
  This file accounts for the errors of a lexer by its tokens
  alone: each token of a faulty kind has one, and so has each
  escape that names no character and stands directly in a
  string or charlist. There is no other error, except for one
  at the end, of the outermost literal that is left open.

  Key definitions include:
    * `Token.isBadEscape`
    * `Token.error?`
    * `Token.errorsIn`
    * `Enclosure.initial`

  Main declarations:
    * `Lexer.errorOf?_eq_error?`
    * `Lexer.Mirrored.errors_take`
-/

namespace ElixirReader

------------------------------------------------------------
-- Errors of tokens
------------------------------------------------------------

/- Whether an escape is one of `x` or `u`. -/
def Escape.namesCode
    (escape : List Char) : Bool :=
  escape.tail.head?.any fun c => c == 'x' || c == 'u'

/- A sound kind has no fault. -/
theorem Kind.fault?_of_isFaulty
    {kind : Kind}
    {text : List Char}
    (hSound : kind.isFaulty = false) :
    kind.fault? text = none := by
  cases kind <;> first | rfl | cases hSound

namespace Token

/-
  An escape that names no character, directly in a literal
  whose escapes stand for something.
-/
def isBadEscape
    (t : Token) : List Enclosure → Bool
| .literal family _ _ :: _ =>
    t.kind == .escapeSequence && family != .sigil
      && Escape.namesCode t.text.toList
      && (Escape.decode? t.text.toList).isNone
| _ => false

/-
  What is wrong with a token that shows an error. In a literal
  only the line of a heredoc's promoter has bad characters.
-/
def faultIn
    (t : Token)
    (es : List Enclosure) : LexFault :=
  match t.kind with
  | .escapeSequence => .invalidEscape t.text
  | .badDigits r => .invalidDigits (some r) t.text
  | .badBaseDigits => .invalidDigits none t.text
  | _ =>
      if Enclosure.isOutside es then
        .badCharacter (t.text.toList.headD default)
      else
        .invalidHeredocStart

/- The error of a token that has one, by what encloses it. -/
def error?
    (t : Token)
    (es : List Enclosure) : Option LexError :=
  if t.kind.isFaulty || t.isBadEscape es then
    some ⟨t.faultIn es, t.span⟩
  else
    none

/- The errors of tokens in their order. -/
def errorsIn : List Enclosure → List Token → List LexError
| _, [] => []
| es, t :: ts =>
    (t.error? es).toList ++ errorsIn ((t.enclosed? es).getD es) ts

end Token

/-
  What encloses the first token of a source. A mode inside of
  a literal starts as if a string had just been opened.
-/
def Enclosure.initial
    (mode : Mode)
    (here : Position) : List Enclosure :=
  if mode.isGroup then
    let layout := if mode = .group then .quoted else .heredoc
    [.literal .string layout
      ⟨.promoter .string layout, (Group.string layout).terminatorText,
        here.spanOf []⟩]
  else
    []

------------------------------------------------------------
-- Faults of transitions
------------------------------------------------------------

namespace Transition

variable {mode : Mode}
variable {g : Group}
variable {c : Char}
variable {cs : List Char}

/-
  What a token directly in a literal is blamed for: an escape
  for its digits, and a rest of the line on which a heredoc
  starts for standing there.
-/
inductive Blames
    (g : Group)
    (c : Char)
    (cs : List Char)
    (t : Transition) : Prop where
| escape
    (hKind : t.kind = .escapeSequence)
    (hText : c = '\\')
    (hMore : t.more = backslashTail cs)
    (hFault : t.fault = escapeFault g (cs.take t.more))
| start
    (hKind : t.kind = .badCharacter)
    (hFault : t.fault = some .invalidHeredocStart)
| nothing
    (hKind : t.kind.isFaulty = false)
    (hOther : t.kind ≠ .escapeSequence)
    (hFault : t.fault = none)

theorem terminator_blames :
    Blames g c cs (terminator g) :=
  .nothing rfl (by simp [terminator, plain, Group.terminatorKind]) rfl

theorem body_blames :
    Blames g c cs (body g c cs) := by
  unfold body
  split
  · rename_i hEscape
    exact .escape rfl hEscape.2 rfl rfl
  · split
    · exact .nothing rfl (by simp [interpolation, plain]) rfl
    · exact .nothing rfl
        (by simp [fragment, plain, Group.fragmentKind]) rfl

theorem group_blames :
    Blames g c cs (group g c cs) := by
  unfold group
  split
  · exact terminator_blames
  · exact body_blames

theorem heredocStart_blames :
    Blames g c cs (heredocStart c cs) := by
  unfold heredocStart
  split
  · exact .nothing rfl (by simp [plain]) rfl
  · split
    · exact .nothing rfl (by simp [plain]) rfl
    · exact .start rfl rfl

theorem heredocLineStart_blames :
    Blames g c cs (heredocLineStart g c cs) := by
  unfold heredocLineStart
  split
  · exact .nothing rfl (by simp [plain]) rfl
  · split
    · exact terminator_blames
    · exact body_blames

theorem of_blames
    (pending : Option Bool)
    (span : Span)
    (hIn : mode.isIn g.layout = true) :
    Blames g c cs
      (of mode pending (some (.group g span)) c cs) := by
  cases hLayout : g.layout with
  | quoted =>
      rw [hLayout] at hIn
      cases mode <;> try cases hIn
      exact group_blames
  | heredoc =>
      rw [hLayout] at hIn
      cases mode <;> try cases hIn
      · exact heredocStart_blames
      · exact heredocLineStart_blames
      · exact body_blames

/- Outside of literals only the kind of a token is to blame. -/
theorem Outside.fault
    {top : Option Frame}
    {t : Transition}
    (hOutside : t.Outside top) :
    t.fault = none := by
  cases hOutside with
  | keeps hKeeps => exact hKeeps.fault
  | opensCurly hEq =>
      rw [hEq]
      rfl
  | closesCurly hEq _ =>
      rw [hEq]
      rfl
  | opens g hEq =>
      rw [hEq]
      rfl
  | resumes resume _ hEq =>
      rw [hEq]
      rfl

/- There are no escapes outside of literals. -/
theorem Outside.kind_ne_escapeSequence
    {top : Option Frame}
    {t : Transition}
    (hOutside : t.Outside top) :
    t.kind ≠ .escapeSequence := by
  intro hKind
  cases hOutside with
  | keeps hKeeps =>
      have hOrdinary := hKeeps.kind
      rw [hKind] at hOrdinary
      cases hOrdinary
  | opensCurly hEq =>
      rw [hEq] at hKind
      cases hKind
  | closesCurly hEq _ =>
      rw [hEq] at hKind
      cases hKind
  | opens g hEq =>
      rw [hEq] at hKind
      cases hKind
  | resumes resume _ hEq =>
      rw [hEq] at hKind
      cases hKind

end Transition

------------------------------------------------------------
-- Errors of a lexer
------------------------------------------------------------

namespace Lexer

variable {es : List Enclosure}
variable {l : Lexer}
variable {t : Transition}
variable {c : Char}
variable {cs : List Char}

/- A bad escape stands in a literal. -/
theorem isBadEscape_of_isOutside
    {token : Token}
    (hOutside : Enclosure.isOutside es = true) :
    token.isBadEscape es = false := by
  cases es with
  | nil => rfl
  | cons e es =>
      cases e with
      | literal f k p => cases hOutside
      | interpolation n => rfl

/- Only an escape is a bad one. -/
theorem isBadEscape_of_ne
    {token : Token}
    (hOther : token.kind ≠ .escapeSequence) :
    token.isBadEscape es = false := by
  unfold Token.isBadEscape
  split
  · simp [hOther]
  · rfl

/- Outside of literals the kind alone is to blame. -/
theorem map_fault?_kind
    (hOutside : Enclosure.isOutside es = true) :
    (t.kind.fault? (c :: cs)).map (⟨·, l.here.spanOf (c :: cs)⟩) =
      (l.tokenOf t (c :: cs)).error? es := by
  unfold Token.error? Token.faultIn Lexer.tokenOf Kind.fault?
  rw [isBadEscape_of_isOutside hOutside]
  dsimp only
  cases t.kind <;> simp [Kind.isFaulty, hOutside]

/- The fault of an escape is told by its token. -/
theorem escapeFault_eq_ite
    (es : List Enclosure)
    (g : Group)
    (promoter : Token)
    (token : Token)
    {tail : List Char}
    (hKind : token.kind = .escapeSequence)
    (hText : token.text = String.ofList ('\\' :: tail)) :
    Transition.escapeFault g tail =
      if token.isBadEscape
          (.literal g.family g.layout promoter :: es) then
        some (.invalidEscape token.text)
      else
        none := by
  unfold Transition.escapeFault
  apply ite_congr _ (fun _ => by rw [hText]) (fun _ => rfl)
  unfold Token.isBadEscape Escape.namesCode
  simp [hKind, hText, and_comm, and_left_comm]

/-
  Directly in a literal the transition itself is blamed, for
  an escape that names no character unless in a sigil.
-/
theorem errorOf?_of_blames
    {g : Group}
    {promoter : Token}
    (hBlames : t.Blames g c cs) :
    l.errorOf? t (c :: cs.take t.more) =
      (l.tokenOf t (c :: cs.take t.more)).error?
        (.literal g.family g.layout promoter :: es) := by
  unfold errorOf? Token.error?
  cases hBlames with
  | escape hKind hText hMore hFault =>
      subst hText
      have hSound : t.kind.isFaulty = false := by
        rw [hKind]
        rfl
      have hOwn :=
        escapeFault_eq_ite es g promoter
          (l.tokenOf t ('\\' :: cs.take t.more)) hKind rfl
      have hIn :
          (l.tokenOf t ('\\' :: cs.take t.more)).faultIn
              (.literal g.family g.layout promoter :: es) =
            .invalidEscape
              (l.tokenOf t ('\\' :: cs.take t.more)).text := by
        unfold Token.faultIn
        dsimp only [tokenOf]
        rw [hKind]
      rw [hFault, hOwn, hIn, Kind.fault?_of_isFaulty hSound,
        Option.or_none]
      change _ = if (t.kind.isFaulty || _) = true then _ else _
      rw [hSound, Bool.false_or]
      split <;> rfl
  | start hKind hFault =>
      simp [hFault, tokenOf, hKind, Kind.isFaulty,
        Token.faultIn, Enclosure.isOutside]
  | nothing hKind hOther hFault =>
      rw [isBadEscape_of_ne hOther, hFault,
        Kind.fault?_of_isFaulty hKind]
      simp [tokenOf, hKind]

/- The error of a lexer is the one that its next token shows. -/
theorem errorOf?_eq_error?
    (c : Char)
    (cs : List Char)
    (hMirrored : Mirrored es l)
    (hCoherent : Coherent l) :
    l.errorOf? (l.transition c cs)
        (c :: cs.take (l.transition c cs).more) =
      (l.tokenOf (l.transition c cs)
        (c :: cs.take (l.transition c cs).more)).error? es := by
  cases hMode : l.mode.isGroup with
  | false =>
      have hOutside := hCoherent.isOutside hMode
      have hFault : (l.transition c cs).fault = none :=
        (Transition.of_outside l.sigil hMode).fault
      unfold errorOf?
      rw [hFault, Option.none_or]
      exact map_fault?_kind (hMirrored.isOutside hOutside)
  | true =>
      rcases hCoherent.group_iff.mp hMode with
        ⟨g, opened, fs, hFrames⟩
      have hBlames : (l.transition c cs).Blames g c cs := by
        unfold transition
        rw [hFrames]
        exact Transition.of_blames l.sigil opened
          (hCoherent.isIn hFrames)
      unfold Mirrored at hMirrored
      rw [hFrames] at hMirrored
      cases hMirrored with
      | cons hHead _ =>
          cases hHead with
          | literal _ promoter _ =>
              exact errorOf?_of_blames hBlames

/- An escape starts with a backslash. -/
theorem Coherent.of_escapeSequence
    (hCoherent : Coherent l)
    (hKind : (l.transition c cs).kind = .escapeSequence) :
    c = '\\' ∧ (l.transition c cs).more = backslashTail cs := by
  cases hMode : l.mode.isGroup with
  | false =>
      exact absurd hKind
        (Transition.of_outside l.sigil hMode).kind_ne_escapeSequence
  | true =>
      rcases hCoherent.group_iff.mp hMode with
        ⟨g, opened, fs, hFrames⟩
      have hBlames : (l.transition c cs).Blames g c cs := by
        unfold transition
        rw [hFrames]
        exact Transition.of_blames l.sigil opened
          (hCoherent.isIn hFrames)
      cases hBlames with
      | escape _ hText hMore _ => exact ⟨hText, hMore⟩
      | start hOther _ =>
          rw [hKind] at hOther
          cases hOther
      | nothing _ hOther _ => exact absurd hKind hOther

------------------------------------------------------------
-- Errors of a run
------------------------------------------------------------

/-
  The errors of a run are those of its tokens, in their order,
  and behind them the one of the literal that is left open.
-/
theorem Mirrored.errors_take
    {n : Nat}
    (hMirrored : Mirrored es l)
    (hCoherent : Coherent l)
    (hRuns : l.raised = false ∧ l.stopped = false ∧ l.ended = false)
    (hEnough : l.rest.length < n) :
    ∃ es',
      Token.enclosures? es ((l.take n).1.map (·.1)) = some es' ∧
        (l.take n).2.errors =
          l.errors ++ Token.errorsIn es ((l.take n).1.map (·.1)) ++
            ((Enclosure.outermost? es').map fun promoter =>
              ⟨.unterminatedGroup promoter.closingText,
                promoter.span⟩).toList := by
  induction n generalizing l es with
  | zero => omega
  | succ n ih =>
      rcases hRuns with ⟨hRaised, hStopped, hEnded⟩
      cases hRest : l.rest with
      | nil =>
          have hNext := next_of_rest_nil hRaised hStopped hRest
          rw [take_of_none n (by rw [hNext]), hNext]
          refine ⟨es, rfl, ?_⟩
          unfold finish
          rw [hEnded, ← unterminated?_of_forall₂ hMirrored]
          simp [Token.errorsIn]
      | cons c cs =>
          have hNext := next_of_rest_cons hRaised hStopped hRest
          rcases hMirrored.past c cs
              (cs.drop (l.transition c cs).more) hCoherent with
            ⟨es', hEnclosed, hMirrored'⟩
          have hFewer :
              (cs.drop (l.transition c cs).more).length < n := by
            rw [List.length_drop]
            rw [hRest, List.length_cons] at hEnough
            omega
          rcases ih hMirrored' (hCoherent.past _ _ _ _)
              ⟨hRaised, hStopped, hEnded⟩ hFewer with
            ⟨last, hEnclosures, hErrors⟩
          rw [take_of_some n (by rw [hNext]), hNext]
          refine ⟨last, ?_, ?_⟩
          · rw [List.map_cons, Token.enclosures?,
              List.foldlM_cons, hEnclosed]
            exact hEnclosures
          · rw [hErrors]
            change l.errors ++ (l.errorOf? _ _).toList ++ _ ++ _ = _
            rw [errorOf?_eq_error? c cs hMirrored hCoherent,
              List.map_cons, Token.errorsIn, hEnclosed]
            simp only [Option.getD_some, List.append_assoc]

/- Nothing is read behind the end of a source. -/
theorem take_eq_nil
    (n : Nat)
    (hRuns : l.raised = false ∧ l.stopped = false)
    (hRest : l.rest = []) :
    (l.take n).1 = [] := by
  cases n with
  | zero => rfl
  | succ n =>
      have hNext := next_of_rest_nil hRuns.1 hRuns.2 hRest
      rw [take_of_none n (by rw [hNext])]

/-
  Only at the end of a source is there a backslash with
  nothing behind it.
-/
theorem Coherent.exists_tail_of_take
    {n : Nat}
    {front back : List Token}
    {token : Token}
    (hCoherent : Coherent l)
    (hRuns : l.raised = false ∧ l.stopped = false)
    (hTokens : (l.take n).1.map (·.1) = front ++ token :: back)
    (hKind : token.kind = .escapeSequence) :
    ∃ tail,
      token.text.toList = '\\' :: tail ∧ (tail = [] → back = []) := by
  induction n generalizing l front with
  | zero =>
      have hNone : [] = front ++ token :: back := hTokens
      simp at hNone
  | succ n ih =>
      cases hRest : l.rest with
      | nil =>
          have hNext := next_of_rest_nil hRuns.1 hRuns.2 hRest
          rw [take_of_none n (by rw [hNext])] at hTokens
          simp at hTokens
      | cons c cs =>
          have hNext := next_of_rest_cons hRuns.1 hRuns.2 hRest
          rw [take_of_some n (by rw [hNext]), hNext,
            List.map_cons] at hTokens
          cases front with
          | cons t front =>
              rcases List.cons.inj hTokens with ⟨_, hLater⟩
              exact ih (hCoherent.past _ _ _ _) hRuns hLater
          | nil =>
              rcases List.cons.inj hTokens with ⟨rfl, hLater⟩
              rcases hCoherent.of_escapeSequence hKind with
                ⟨rfl, hMore⟩
              refine ⟨_, String.toList_ofList, ?_⟩
              intro hEmpty
              cases cs with
              | nil =>
                  rw [List.drop_nil] at hLater
                  rw [← hLater, List.map_eq_nil_iff]
                  exact take_eq_nil n hRuns rfl
              | cons d ds =>
                  rw [hMore, backslashTail, Nat.add_comm,
                    List.take_succ_cons] at hEmpty
                  cases hEmpty

end Lexer

end ElixirReader
