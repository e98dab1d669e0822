import ElixirReader.Proofs.Lexer.Chains
import ElixirReader.Proofs.Quote.Indentation

/-
  This file shows what the lexer makes of the parts of blocks:
  the words that open and end them, arrows, and line breaks
  with the indentation behind them.

  Key definitions include:
    * `Word.reserved?`

  Main declarations:
    * `lexesSolid_reserved`
    * `lexes_arrow`
    * `lexes_lineEnd`
    * `lexes_lineBlank`
-/

namespace ElixirReader

open Transition Unicode Written

variable {mode : Mode}
variable {spaced : Bool}
variable {rest : List Char}

------------------------------------------------------------
-- Words
------------------------------------------------------------

/- The words that make up blocks, and the modes behind them. -/
def Word.reserved? : Word → Option (String × Mode)
| .do => some ("do", .afterOperator)
| .end => some ("end", .afterMark)
| .fn => some ("fn", .afterOperator)
| .else => some ("else", .afterOperator)
| .after => some ("after", .afterOperator)
| .rescue => some ("rescue", .afterOperator)
| .catch => some ("catch", .afterOperator)
| .nil => some ("nil", .afterLiteral)
| _ => none

variable {w : Word}
variable {name : String}
variable {mode' : Mode}

theorem exists_word_of_reserved?
    (hWord : w.reserved? = some (name, mode')) :
    ∃ c cs,
      name.toList = c :: cs ∧ isIdentifierStart c = true ∧
        identifierTail cs = cs.length ∧
        Transition.word c cs = .plain (.word w) cs.length mode' := by
  cases w with
  | «do» => cases hWord; exact ⟨'d', ['o'], by decide⟩
  | «end» => cases hWord; exact ⟨'e', ['n', 'd'], by decide⟩
  | fn => cases hWord; exact ⟨'f', ['n'], by decide⟩
  | «else» =>
      cases hWord
      exact ⟨'e', ['l', 's', 'e'], by decide⟩
  | after =>
      cases hWord
      exact ⟨'a', ['f', 't', 'e', 'r'], by decide⟩
  | rescue =>
      cases hWord
      exact ⟨'r', ['e', 's', 'c', 'u', 'e'], by decide⟩
  | «catch» =>
      cases hWord
      exact ⟨'c', ['a', 't', 'c', 'h'], by decide⟩
  | nil => cases hWord; exact ⟨'n', ['i', 'l'], by decide⟩
  | _ => cases hWord

/- A word of a block, up to what touches it. -/
theorem lexesSolid_reserved
    (hWord : w.reserved? = some (name, mode'))
    (hMode : mode.awaitsWord = true)
    (hEnds : EndsName rest) :
    LexesSolid mode spaced name.toList rest
      (IsTouching (.word w) name.toList spaced mode') := by
  rcases exists_word_of_reserved? hWord with
    ⟨c, cs, hName, hStart, hTail, hOf⟩
  rw [hName]
  exact lexesSolid_word hStart hTail hOf ⟨rfl, rfl⟩ hMode hEnds

theorem IsTouching.isLexeme
    {kind : Kind}
    {text : List Char}
    {ls : List Lexeme}
    (hTouching : IsTouching kind text spaced mode mode' ls) :
    IsLexeme kind text mode mode' ls := by
  rcases hTouching with ⟨hMode, l, hOnly, hKind, hText, _⟩
  exact ⟨hMode, l, hOnly, hKind, hText⟩

theorem lexes_reserved
    (hWord : w.reserved? = some (name, mode'))
    (hMode : mode.awaitsWord = true)
    (hEnds : EndsName rest) :
    Lexes [] mode name.toList rest
      (IsLexeme (.word w) name.toList mode') :=
  LexesSolid.lexes fun _ =>
    (lexesSolid_reserved hWord hMode hEnds).mono
      fun _ _ => IsTouching.isLexeme

------------------------------------------------------------
-- Arrows
------------------------------------------------------------

/- The arrow behind the head of a clause. -/
theorem lexes_arrow
    (hMode : mode.awaitsWord = true) :
    Lexes [] mode ['-', '>'] rest
      (IsLexeme (.operator .stab) ['-', '>'] .afterOperator) := by
  have hOf :
      Transition.of mode none none '-' (['>'] ++ rest) =
        .plain (.operator .stab) 1 .afterOperator := by
    cases mode <;> first | rfl | cases hMode
  exact lexes_plain [] hOf rfl rfl

------------------------------------------------------------
-- Blanks
------------------------------------------------------------

/- The modes behind blanks at the end of an element. -/
theorem Mode.awaitsWord_afterBlank
    (hMode : mode.endsElement = true) :
    mode.afterBlank.awaitsWord = true := by
  cases mode <;> first | rfl | cases hMode

theorem Mode.awaitsOperand_or_endsOperand
    (hMode : mode.endsElement = true) :
    mode.awaitsOperand = true ∨ mode.endsOperand = true := by
  cases mode <;> first | exact .inl rfl | exact .inr rfl |
    cases hMode

/- A blank behind an element. -/
theorem lexes_blankBehind
    (hMode : mode.endsElement = true)
    (hNext : ∀ c ∈ rest.head?, isBlank c = false) :
    Lexes [] mode [' '] rest
      (fun m ls => m.awaitsWord = true ∧ ls = []) := by
  apply (lexes_blank (Mode.awaitsOperand_or_endsOperand hMode)
    hNext).mono
  rintro _ _ ⟨rfl, rfl⟩
  exact ⟨Mode.awaitsWord_afterBlank hMode, rfl⟩

/- Behind trivia there are trivia before the first lexeme. -/
theorem Lexeme.spaced_of_ofTokensAfter
    (tokens : List Token) :
    ∀ l ∈ (ofTokensAfter true tokens).head?, l.spaced = true := by
  induction tokens with
  | nil => simp [ofTokensAfter]
  | cons t ts ih =>
      cases hTrivia : t.kind.isTrivia with
      | true => simpa [ofTokensAfter, hTrivia] using ih
      | false => simp [ofTokensAfter, hTrivia]

/- Lexemes behind a blank do not touch what is before it. -/
theorem lexes_spaced
    {text : List Char}
    {Result : Mode → List Lexeme → Prop}
    (hMode :
      mode.awaitsOperand = true ∨ mode.endsOperand = true)
    (hNext : ∀ c ∈ (text ++ rest).head?, isBlank c = false)
    (hLexes : Lexes [] mode.afterBlank text rest Result) :
    Lexes [] mode (' ' :: text) rest
      (fun m ls =>
        Result m ls ∧ ∀ l ∈ ls.head?, l.spaced = true) := by
  intro l spaced hStands
  have hOf := of_blank hMode hNext
  have hBlank :
      Lexer.StandsAt [] mode ([' '] ++ (text ++ rest)) l := hStands
  rcases hBlank.next hOf ⟨rfl, rfl, rfl, rfl⟩ with
    ⟨token, hToken, hKind, _, span, hStands'⟩
  rcases hLexes _ true hStands' with
    ⟨tokens, mode', last, hTakes, hStands'', hDone⟩
  have hLexemes :
      Lexeme.ofTokensAfter spaced (token :: tokens) =
        Lexeme.ofTokensAfter true tokens := by
    rw [Lexeme.ofTokensAfter, hKind]
    rfl
  refine ⟨token :: tokens, mode', last, .token _ _ _ _ hToken hTakes,
    hStands'', ?_⟩
  rw [hLexemes]
  exact ⟨hDone, Lexeme.spaced_of_ofTokensAfter tokens⟩

/- Blanks in front of an operand. -/
theorem lexes_blanks
    (count : Nat)
    (hMode : mode.awaitsOperand = true)
    (hNext : ∀ c ∈ rest.head?, isBlank c = false) :
    Lexes [] mode (List.replicate count ' ') rest
      (fun m ls => m.awaitsOperand = true ∧ ls = []) := by
  cases count with
  | zero => exact .nil ⟨hMode, rfl⟩
  | succ count =>
      have hRun :
          countWhile isBlank (List.replicate count ' ' ++ rest) =
            count := by
        have hAll : ∀ c ∈ List.replicate count ' ',
            isBlank c = true := by
          intro c hMember
          rw [List.eq_of_mem_replicate hMember]
          rfl
        rw [countWhile_append_of_forall hAll hNext,
          List.length_replicate]
      have hOf :
          Transition.of mode none none ' '
              (List.replicate count ' ' ++ rest) =
            .plain .whiteSpace (List.replicate count ' ').length
              mode.afterBlank := by
        have hBlanks :
            Transition.of mode none none ' '
                (List.replicate count ' ' ++ rest) =
              blanks mode (List.replicate count ' ' ++ rest) := by
          cases mode <;> first | rfl | cases hMode
        rw [hBlanks, blanks, hRun, List.length_replicate]
      have hTrivia :=
        lexes_trivia [] hOf
          ⟨rfl, rfl, rfl, rfl⟩ (fun _ => rfl) rfl
      apply hTrivia.mono
      rintro _ _ ⟨rfl, rfl⟩
      refine ⟨?_, rfl⟩
      cases mode <;> first | rfl | cases hMode

------------------------------------------------------------
-- Line breaks
------------------------------------------------------------

variable {depth : Nat}

/- Behind an element, a line break ends the line. -/
theorem lexes_lineEnd
    (hMode : mode.endsElement = true)
    (hNext : ∀ c ∈ rest.head?, isBlank c = false) :
    Lexes [] mode (deepened depth ['\n']) rest
      (fun m ls =>
        m.awaitsOperand = true ∧
          ∃ l, ls = [l] ∧ l.kind = .endOfLine) := by
  have hOf :
      Transition.of mode none none '\n'
          ([] ++ (List.replicate depth ' ' ++ rest)) =
        .plain .endOfLine 0 .initial := by
    cases mode <;> first | rfl | cases hMode
  rw [deepened_break]
  change Lexes [] mode (['\n'] ++ List.replicate depth ' ') rest _
  apply (lexes_plain [] hOf rfl rfl).append
  rintro _ _ ⟨rfl, l, rfl, hKind, _⟩
  apply (lexes_blanks depth rfl hNext).mono
  rintro m _ ⟨hMode', rfl⟩
  exact ⟨hMode', l, rfl, hKind⟩

/- Behind a word that opens a body, a line break is a blank. -/
theorem lexes_lineBlank
    (hMode : mode = .afterOperator ∨ mode = .afterOpening)
    (hNext : ∀ c ∈ rest.head?, isBlank c = false) :
    Lexes [] mode (deepened depth ['\n']) rest
      (fun m ls => m.awaitsOperand = true ∧ ls = []) := by
  have hOf :
      Transition.of mode none none '\n'
          ([] ++ (List.replicate depth ' ' ++ rest)) =
        .plain .whiteSpace 0 mode := by
    rcases hMode with rfl | rfl <;> rfl
  have hAwaits : mode.awaitsOperand = true := by
    rcases hMode with rfl | rfl <;> rfl
  have hTrivia :=
    lexes_trivia [] hOf ⟨rfl, rfl, rfl, rfl⟩ (fun _ => rfl) rfl
  rw [deepened_break]
  change Lexes [] mode (['\n'] ++ List.replicate depth ' ') rest _
  apply hTrivia.append
  rintro _ _ ⟨rfl, rfl⟩
  exact lexes_blanks depth hAwaits hNext

end ElixirReader
