import ElixirReader.Proofs.Lexer.Literals
import ElixirReader.Proofs.Quote.Segments

/-
  This file shows which terms the lexemes of literals are read
  as: atoms, the words that are atoms, and texts between
  double quotes.

  Main declarations:
    * `IsText.exists_steps`
    * `readsOperand_word`
    * `readsOperand_atom`
    * `readsOperand_text`
-/

namespace ElixirReader

open Parse

variable {ls more : List Lexeme}

------------------------------------------------------------
-- Atoms
------------------------------------------------------------

/- The words that are operands, with the atoms that they are. -/
def Word.literal? : Word → Option String
| .nil => some "nil"
| .true => some "true"
| .false => some "false"
| _ => none

/- A word that is an atom. -/
theorem readsOperand_word
    {l : Lexeme}
    {w : Word}
    {name : String}
    (hKind : l.kind = .word w)
    (hWord : w.literal? = some name) :
    ReadsOperand context (.atom name) [l] := by
  have hBegins : l.kind.beginsOperand = true := by
    rw [hKind]
    cases w <;> first | rfl | cases hWord
  have hForm :
      ∃ form : Form Node,
        (∀ expr context, primaryAt expr context l = single form l) ∧
          (⟨form, l.span⟩ : Node).Denotes (.atom name) := by
    cases w with
    | nil =>
        cases hWord
        exact ⟨.nil, fun _ _ => by simp only [primaryAt, hKind]; rfl,
          .of_quote rfl rfl⟩
    | «true» =>
        cases hWord
        exact ⟨.boolean true,
          fun _ _ => by simp only [primaryAt, hKind]; rfl,
          .of_quote rfl rfl⟩
    | «false» =>
        cases hWord
        exact ⟨.boolean false,
          fun _ _ => by simp only [primaryAt, hKind]; rfl,
          .of_quote rfl rfl⟩
    | _ => cases hWord
  rcases hForm with ⟨form, hPrimary, hDenotes⟩
  constructor
  · exact hBegins
  · intro more _
    exact keywordAhead_of_beginsOperand hBegins
      (by rw [hKind]; exact Kind.noConfusion)
  · intro n height more hFollows
    apply Yields.primaryOperand (sound_expression n) _
      (by rw [hKind]; rfl) hFollows
    rw [hPrimary]
    exact (steps_single form).yields hDenotes

/- A colon and the name that touches it. -/
theorem readsOperand_atom
    {name : String}
    (hAtom : IsAtom name ls) :
    ReadsOperand context (.atom name) ls := by
  rcases hAtom with
    ⟨colon, l, rfl, hColon, hKind, hText, hSpaced⟩
  constructor
  · change colon.kind.beginsOperand = true
    rw [hColon]
    rfl
  · intro more _
    exact keywordAhead_of_beginsOperand (by rw [hColon]; rfl)
      (by rw [hColon]; decide)
  · intro n height more hFollows
    apply Yields.primaryOperand (sound_expression n) _
      (by rw [hColon]; rfl) hFollows
    simp only [primaryAt, hColon]
    unfold atom
    refine (steps_currentSpan colon).bind
      ((steps_skip_one colon).bind (steps_peek.bind ?_))
    change Yields TooDeep
      (if l.kind = .atomName ∧ l.spaced = false then _ else _) _ _ _
    rw [if_pos ⟨hKind, hSpaced⟩]
    refine (steps_skip_one l).bind (.pure ?_)
    rw [hText]
    exact .of_quote rfl rfl

------------------------------------------------------------
-- Texts
------------------------------------------------------------

variable {content : List Char}
variable {closed : Lexeme}

/- The lexemes that spell a text are segments that say it. -/
theorem SpellsText.exists_inside
    (hSpells : SpellsText content ls) :
    ∃ segments,
      IsInside segments ls ∧
        Segment.said true 0 segments = content := by
  induction hSpells with
  | nil => exact ⟨[], .nil, rfl⟩
  | fragment l run cs ls hKind hText _ ih =>
      obtain ⟨segments, hInside, hSaid⟩ := ih
      refine ⟨.fragment l.text :: segments,
        (isInside_fragment hKind rfl).append hInside, ?_⟩
      rw [Segment.said_cons, hSaid, hText]
      change (String.ofList run).toList ++ cs = _
      rw [String.toList_ofList]
  | escape l c cs ls hKind hText _ ih =>
      obtain ⟨segments, hInside, hSaid⟩ := ih
      refine ⟨.escape l.text :: segments,
        (isInside_escape hKind rfl).append hInside, ?_⟩
      rw [Segment.said_cons, hSaid]
      change (Segment.decoded l.text).toList ++ cs = _
      rw [Segment.decoded, hText, Option.map_some, Option.getD_some,
        String.toList_ofList, List.singleton_append]

/- A text between double quotes is read as a string that says it. -/
theorem IsText.exists_steps
    (expr : ExpressionParser)
    (more : List Lexeme)
    (hText : IsText content ls) :
    ∃ t span,
      Steps (text expr) (ls ++ more) more (t, span) ∧
        t.kind = .string ∧
          t.literal? = some (String.ofList content) := by
  obtain ⟨opened, body, closed, rfl, hOpened, hClosed, hSpells⟩ :=
    hText
  obtain ⟨segments, hInside, hSaid⟩ := hSpells.exists_inside
  have hPromoter : promoterText (some opened) = (.string, false) := by
    rw [promoterText, hOpened]
  obtain ⟨span, hSteps⟩ :=
    hInside.steps_text expr more hPromoter hClosed
  have hName := hInside.literal?_eq .none .string false 0
  rw [Node.quoteText_eq, Text.literal?_map, hSaid] at hName
  refine ⟨⟨.string, false, 0, segments⟩, span, ?_, rfl, hName⟩
  rw [List.cons_append, List.append_assoc]
  exact hSteps

variable {t : Text Node}
variable {name : String}

/- A name between quotes is an atom. -/
theorem quote_quotedAtom
    (m : Metadata)
    (span : Span)
    (hLiteral : t.literal? = some name) :
    (⟨.quotedAtom t, span⟩ : Node).quote m = .atom name := by
  change Construct.quotedAtom m span (Node.quoteText m t) = _
  rw [Construct.quotedAtom, Node.quoteText_eq, Text.literal?_map,
    hLiteral]

theorem quote_text
    (m : Metadata)
    (span : Span)
    (hKind : t.kind = .string)
    (hLiteral : t.literal? = some name) :
    (⟨.text t, span⟩ : Node).quote m = .binary name := by
  change Construct.text m span (Node.quoteText m t) = _
  have hString : (t.map (Node.quoted m)).kind = .string := hKind
  rw [Node.quoteText_eq, Construct.text, hString, Construct.string,
    Text.literal?_map, hLiteral]

/- What follows an operand is no colon of a key. -/
theorem Follows.keyColonAhead_eq
    (hFollows : Follows context more) :
    keyColonAhead more = false := by
  cases hFollows with
  | ending => rfl
  | kind l ls hKind =>
      have hColon : l.kind ≠ .colon := by
        intro hEq
        rw [hEq] at hKind
        cases hKind
      simp [keyColonAhead, hColon]
  | notIn l l' ls hNot hIn => simp [keyColonAhead, hNot]
  | block l ls hDo hContext => simp [keyColonAhead, hDo]

theorem quotedKeyAhead_of_spells
    (more : List Lexeme)
    {body : List Lexeme}
    (hSpells : SpellsText content body)
    (hClosed : closed.kind = .terminator .string .quoted) :
    quotedKeyAhead 0 (body ++ closed :: more) =
      keyColonAhead more := by
  induction hSpells with
  | nil => simp [quotedKeyAhead, hClosed]
  | fragment l run cs ls hKind _ _ ih =>
      rw [List.cons_append, ← ih]
      exact quotedKeyAhead_of_isFlat 0 _ (by rw [hKind]; rfl)
  | escape l c cs ls hKind _ _ ih =>
      rw [List.cons_append, ← ih]
      exact quotedKeyAhead_of_isFlat 0 _ (by rw [hKind]; rfl)

/- A text between double quotes is a binary. -/
theorem readsOperand_text
    (hText : IsText content ls) :
    ReadsOperand context (.binary (String.ofList content)) ls := by
  have hApart : ∀ more,
      Follows context more → keywordAhead (ls ++ more) = false := by
    intro more hFollows
    rcases hText with
      ⟨opened, body, closed, rfl, hOpened, hClosed, hSpells⟩
    have hQuoted :=
      quotedKeyAhead_of_spells more hSpells hClosed
    simp [keywordAhead, hOpened, hQuoted, hFollows.keyColonAhead_eq]
  refine ⟨?_, hApart, ?_⟩
  · rcases hText with ⟨opened, body, closed, rfl, hOpened, _⟩
    change opened.kind.beginsOperand = true
    rw [hOpened]
    rfl
  · intro n height more hFollows
    have hAhead := hApart more hFollows
    rcases hText.exists_steps (Parse.expression n height) more with
      ⟨t, span, hSteps, hKind, hLiteral⟩
    rcases hText with ⟨opened, body, closed, rfl, hOpened, _⟩
    apply Yields.primaryOperand (sound_expression n) _
      (by rw [hOpened]; rfl) hFollows
    simp only [primaryAt, hOpened]
    unfold promoterOperand
    refine steps_rest.bind ?_
    change Yields TooDeep
      (if keywordAhead (opened :: (body ++ [closed]) ++ more) = true
        then _ else _) _ _ _
    rw [hAhead, if_neg Bool.false_ne_true]
    exact hSteps.bind
      (.pure (.of_quote (quote_text .none span hKind hLiteral) rfl))

end ElixirReader
