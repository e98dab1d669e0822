import ElixirReader.Proofs.Lexer.Blocks

/-
  This file shows what the lexer makes of atoms and keys whose
  names are no identifiers: an operator or a text between
  quotes that touches the colon of an atom, and a text between
  quotes that the colon of a key touches.

  Key definitions include:
    * `IsQuotedAtom`
    * `IsQuotedKey`
    * `IsPair`

  Main declarations:
    * `lexes_operatorAtom`
    * `lexes_quotedAtom`
    * `lexes_pair`
-/

namespace ElixirReader

open Transition Unicode

variable {mode : Mode}
variable {rest : List Char}

------------------------------------------------------------
-- Atoms
------------------------------------------------------------

/-
  All operators that are written without quotes are read as one
  name, apart from the one that the colon in front runs into.
-/
theorem of_mem_bareOperators
    {name : String}
    (hBare : name ∈ Literal.bareOperators)
    (hOther : name ≠ "::") :
    Transition.of .initial none none ':' name.toList =
        .plain .colon 0 .atomStart ∧
      ∃ c cs,
        name.toList = c :: cs ∧
          Transition.of .atomStart none none c cs =
            .plain .atomName cs.length .afterOperand := by
  have hAll : ∀ name ∈ Literal.bareOperators, name ≠ "::" →
      Transition.of .initial none none ':' name.toList =
          .plain .colon 0 .atomStart ∧
        name.toList.head?.any (fun c =>
          Transition.of .atomStart none none c name.toList.tail ==
            .plain .atomName name.toList.tail.length
              .afterOperand) = true := by
    decide
  obtain ⟨hColon, hName⟩ := hAll name hBare hOther
  refine ⟨hColon, ?_⟩
  cases hText : name.toList with
  | nil =>
      rw [hText] at hName
      cases hName
  | cons c cs =>
      rw [hText] at hName
      exact ⟨c, cs, rfl, eq_of_beq hName⟩

/- An atom that is an operator, up to the end of a source. -/
theorem lexes_operatorAtom
    {name : String}
    (hBare : name ∈ Literal.bareOperators)
    (hOther : name ≠ "::") :
    Lexes [] .initial (':' :: name.toList) []
      (fun _ ls => IsAtom name ls) := by
  obtain ⟨hColon, c, cs, hName, hAtom⟩ :=
    of_mem_bareOperators hBare hOther
  have hFirst :
      Transition.of .initial none none ':' ([] ++ (c :: cs ++ [])) =
        .plain .colon 0 .atomStart := by
    rw [List.append_nil, List.nil_append, ← hName, hColon]
  have hSecond :
      Transition.of .atomStart none none c (cs ++ []) =
        .plain .atomName cs.length .afterOperand := by
    rw [List.append_nil, hAtom]
  rw [hName]
  apply (lexes_touching [] hFirst hSecond ⟨rfl, rfl⟩
    ⟨rfl, rfl⟩).mono
  rintro _ _ ⟨rfl, l, l', rfl, hKind, hKind', hText, hSpaced⟩
  refine ⟨l, l', rfl, hKind, hKind', ?_, hSpaced⟩
  rw [hText, ← hName, String.ofList_toList]

/- The lexemes are a colon, and a text that touches it. -/
def IsQuotedAtom
    (content : List Char)
    (ls : List Lexeme) : Prop :=
  ∃ colon text,
    ls = colon :: text ∧ colon.kind = .colon ∧
      IsText content text ∧ ∀ l ∈ text.head?, l.spaced = false

/- An atom whose name is written between quotes. -/
theorem lexes_quotedAtom
    (content : List Char)
    (hMode : mode.awaitsOperand = true)
    (hRest : '"' ∉ rest.head?) :
    Lexes [] mode
      (':' :: (['"'] ++ Literal.escapedText content ++ ['"'])) rest
      (fun _ ls => IsQuotedAtom content ls) := by
  have hColon : ∀ cs,
      Transition.of mode none none ':' ([] ++ '"' :: cs) =
        .plain .colon 0 .atomStart := by
    intro cs
    rw [of_awaitsOperand hMode]
    rfl
  apply LexesSolid.lexes
  intro spaced
  have hFirst :
      LexesSolid mode spaced [':']
        ((['"'] ++ Literal.escapedText content ++ ['"']) ++ rest)
        (IsTouching .colon [':'] spaced .atomStart) :=
    lexesSolid_plain (hColon _) rfl rfl
  apply hFirst.append
  rintro _ _ ⟨rfl, colon, rfl, hKind, _⟩
  apply (lexesSolid_text false content (fun _ => rfl) hRest).mono
  rintro _ text ⟨_, hText, hSpaced⟩
  exact ⟨colon, text, rfl, hKind, hText, hSpaced⟩

------------------------------------------------------------
-- Keys
------------------------------------------------------------

/- The lexemes are a text, and a colon that touches it. -/
def IsQuotedKey
    (content : List Char)
    (ls : List Lexeme) : Prop :=
  ∃ text colon,
    ls = text ++ [colon] ∧ IsText content text ∧
      colon.kind = .colon ∧ colon.spaced = false

/- A key that is written between quotes, with its colon. -/
theorem lexes_quotedKey
    (content : List Char)
    (hMode : mode.awaitsWord = true) :
    Lexes [] mode
      (['"'] ++ Literal.escapedText content ++ ['"'] ++ [':'])
      (' ' :: rest)
      (fun m ls => m = .initial ∧ IsQuotedKey content ls) := by
  have hOpens : ∀ cs,
      Transition.of mode none none '"' cs = quote '"' cs := by
    intro cs
    cases mode <;> first | rfl | cases hMode
  have hColon :
      Transition.of .afterLiteral none none ':' ([] ++ ' ' :: rest) =
        .plain .colon 0 .initial := rfl
  have hRest : '"' ∉ ([':'] ++ ' ' :: rest).head? := by
    rintro ⟨⟩
  apply LexesSolid.lexes
  intro spaced
  apply (lexesSolid_text spaced content hOpens hRest).append
  rintro _ text ⟨rfl, hText, _⟩
  apply (lexesSolid_plain hColon rfl rfl).mono
  rintro _ _ ⟨rfl, colon, rfl, hKind, _, hSpaced⟩
  exact ⟨rfl, text, colon, rfl, hText, hKind, hSpaced⟩

/-
  The lexemes are a key, in quotes or not, and a value, which
  does not touch the colon of a key in quotes.
-/
def IsPair
    (name : String)
    (IsValue : List Lexeme → Prop)
    (ls : List Lexeme) : Prop :=
  ∃ keys values,
    ls = keys ++ values ∧ IsValue values ∧
      (IsKey name keys ∨
        IsQuotedKey name.toList keys ∧
          ∀ l ∈ values.head?, l.spaced = true)

/- No blank starts a key. -/
theorem head?_key
    {name : String}
    (hVisible : name.toList.all Literal.isVisible = true) :
    (Literal.key name).head?.any (fun c => !isBlank c) = true := by
  unfold Literal.key
  split
  · rename_i hPlain
    rcases isWholeName_of_isPlain hPlain with ⟨c, cs, hName, hStart, _⟩
    rw [hName]
    change (!isBlank c) = true
    rw [(not_of_isNameStart hStart).1]
    rfl
  · rw [Literal.binary, if_pos hVisible]
    rfl

/- A key, in quotes if it needs them, and a value behind it. -/
theorem lexes_pair
    {name : String}
    {text : List Char}
    {Result : Mode → List Lexeme → Prop}
    (hVisible : name.toList.all Literal.isVisible = true)
    (hMode : mode.awaitsWord = true)
    (hNext : ∀ c ∈ (text ++ rest).head?, isBlank c = false)
    (hText : Lexes [] .initial text rest Result) :
    Lexes [] mode (Literal.key name ++ ' ' :: text) rest
      (fun m ls => IsPair name (Result m) ls) := by
  by_cases hPlain : Literal.isPlain name.toList = true
  · have hSplit : Literal.key name ++ ' ' :: text =
        Literal.key name ++ [' '] ++ text := by
      simp
    rw [hSplit]
    apply (lexes_key hPlain hMode hNext).append
    rintro _ keys ⟨rfl, hKey⟩
    apply hText.mono
    intro m values hResult
    exact ⟨keys, values, rfl, hResult, .inl hKey⟩
  · rw [Literal.key, if_neg hPlain, Literal.binary, if_pos hVisible]
    apply (lexes_quotedKey name.toList hMode).append
    rintro _ keys ⟨rfl, hKey⟩
    have hInitial : Mode.initial.awaitsOperand = true := rfl
    apply (lexes_spaced (.inl hInitial) hNext hText).mono
    intro m values hResult
    exact ⟨keys, values, rfl, hResult.1, .inr ⟨hKey, hResult.2⟩⟩

end ElixirReader
