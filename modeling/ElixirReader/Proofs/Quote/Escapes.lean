import ElixirReader.Proofs.Lexer.Literals
import ElixirReader.Proofs.Lexer.Pieces
import ElixirReader.Proofs.Quote.Segments

/-
  This file shows that texts between quotes mean what they say.
  A text is a row of items: plain characters, line breaks that
  are escaped away, named escapes, and escapes by the code
  point. It is quoted to the characters that the items denote.

  Key definitions include:
    * `TextItem`
    * `TextItem.Holds`
    * `TextItem.AllHold`
    * `TextKind.mark`
    * `TextKind.term`

  Main declarations:
    * `TextItem.Holds.fits`
    * `TextItem.Holds.said_piece`
    * `lexes_marked`
    * `isPrimary_marked`
    * `quoteSource_items`
-/

namespace ElixirReader

open Parse Transition Unicode

------------------------------------------------------------
-- Items
------------------------------------------------------------

/-
  What stands between quotes: a plain character, a line break
  behind a backslash, a character behind a backslash, or the
  code point of a character behind a backslash and `x` or `u`,
  with curlies or without.
-/
inductive TextItem where
| plain (c : Char)
| lineBreak (cs : List Char)
| named (c : Char)
| code (c letter : Char) (digits : List Char)
| braced (c letter : Char) (digits : List Char)
deriving DecidableEq, Repr

namespace TextItem

/- How the lexer takes an item. -/
def piece : TextItem → Piece
| plain c => .plain c
| lineBreak cs => .escape cs
| named c => .escape [c]
| code _ letter digits => .escape (letter :: digits)
| braced _ letter digits =>
    .escape (letter :: '{' :: (digits ++ ['}']))

/- The characters of an item. -/
def written
    (i : TextItem) : List Char :=
  i.piece.written

/- The characters that an item denotes. -/
def denoted : TextItem → List Char
| plain c => [c]
| lineBreak _ => []
| named c => [Escape.named c]
| code c _ _ => [c]
| braced c _ _ => [c]

/- Hexadecimal digits are the code point of a character. -/
def AreCodeOf
    (c : Char)
    (digits : List Char) : Prop :=
  (∀ d ∈ digits, isHexDigit d = true) ∧ hexValue digits = c.toNat

/-
  An item is what it is taken for between two marks of a kind,
  in front of some characters. A line feed belongs to the
  carriage return in front of it, a curly behind `#` starts an
  interpolation, and a single digit is not followed by another
  one.
-/
def Holds
    (mark : Char)
    (next : List Char) : TextItem → Prop
| plain c =>
    c ≠ mark ∧ c ≠ '\\' ∧ (c = '#' → next.head? ≠ some '{')
| lineBreak cs =>
    cs = ['\n'] ∨ cs = ['\r', '\n'] ∨
      cs = ['\r'] ∧ next.head? ≠ some '\n'
| named c => c ≠ 'x' ∧ c ≠ 'u' ∧ c ≠ '\n' ∧ c ≠ '\r'
| code c letter digits =>
    AreCodeOf c digits ∧
      (letter = 'u' ∧ digits.length = 4 ∨
        letter = 'x' ∧ digits.length = 2 ∨
          letter = 'x' ∧ digits.length = 1 ∧
            ∀ d ∈ next.head?, isHexDigit d = false)
| braced c letter digits =>
    AreCodeOf c digits ∧ digits ≠ [] ∧
      (letter = 'x' ∨ letter = 'u')

/- All of some items are what they are taken for. -/
def AllHold
    (mark : Char) : List TextItem → Prop
| [] => True
| i :: is =>
    i.Holds mark (is.flatMap written ++ [mark]) ∧ AllHold mark is

instance
    (c : Char)
    (digits : List Char) : Decidable (AreCodeOf c digits) :=
  have : Decidable (∀ d ∈ digits, isHexDigit d = true) :=
    List.decidableBAll _ digits
  inferInstanceAs (Decidable (_ ∧ _))

instance
    (mark : Char)
    (next : List Char) :
    (i : TextItem) → Decidable (i.Holds mark next)
| plain _ => inferInstanceAs (Decidable (_ ∧ _))
| lineBreak _ => inferInstanceAs (Decidable (_ ∨ _))
| named _ => inferInstanceAs (Decidable (_ ∧ _))
| code _ _ _ =>
    have : Decidable (∀ d ∈ next.head?, isHexDigit d = false) :=
      Option.decidableForallMem _
    inferInstanceAs (Decidable (_ ∧ _))
| braced _ _ _ => inferInstanceAs (Decidable (_ ∧ _))

instance
    (mark : Char) :
    (items : List TextItem) → Decidable (AllHold mark items)
| [] => inferInstanceAs (Decidable True)
| _ :: is =>
    have : Decidable (AllHold mark is) :=
      instDecidableAllHold mark is
    inferInstanceAs (Decidable (_ ∧ _))

------------------------------------------------------------
-- Digits
------------------------------------------------------------

variable {c letter mark : Char}
variable {digits next : List Char}

theorem charOfCode?_toNat
    (c : Char) :
    charOfCode? c.toNat = some c := by
  have hValid : c.toNat.isValidChar := c.valid
  unfold charOfCode?
  rw [dif_pos hValid]
  rfl

/- Digits without curlies name a character. -/
theorem AreCodeOf.ofHex?_eq
    (hCode : AreCodeOf c digits)
    (hSome : digits ≠ []) :
    Escape.ofHex? digits = some c := by
  unfold Escape.ofHex?
  rw [if_pos ⟨hSome, List.all_eq_true.mpr hCode.1⟩, hCode.2,
    charOfCode?_toNat]

theorem decode?_code
    (hCode : AreCodeOf c digits)
    (hSome : digits ≠ [])
    (hLetter : letter = 'x' ∨ letter = 'u')
    (hWidth : Escape.HasWidth letter digits) :
    Escape.decode? ('\\' :: letter :: digits) = some [c] := by
  have hBare : digits.head? ≠ some '{' := by
    intro hHead
    have hDigit := hCode.1 '{' (List.mem_of_head? hHead)
    exact absurd hDigit (by decide)
  have hBreak : ¬ (letter = '\n' ∨ letter = '\r') := by
    rcases hLetter with rfl | rfl <;> decide
  rw [Escape.decode?, if_neg hBreak, if_pos hLetter,
    Escape.codePoint?, if_neg hBare, if_pos hWidth,
    hCode.ofHex?_eq hSome]
  rfl

theorem decode?_braced
    (hCode : AreCodeOf c digits)
    (hSome : digits ≠ [])
    (hLetter : letter = 'x' ∨ letter = 'u') :
    Escape.decode? ('\\' :: letter :: '{' :: (digits ++ ['}'])) =
      some [c] := by
  have hBreak : ¬ (letter = '\n' ∨ letter = '\r') := by
    rcases hLetter with rfl | rfl <;> decide
  have hBraced :
      Escape.braced? ('{' :: (digits ++ ['}'])) = some digits := by
    simp [Escape.braced?]
  rw [Escape.decode?, if_neg hBreak, if_pos hLetter,
    Escape.codePoint?, if_pos List.head?_cons, hBraced,
    Option.bind_some, hCode.ofHex?_eq hSome]
  rfl

/- As many digits are taken as there are, up to the most. -/
theorem hexTail_digits
    (most : Nat)
    (next : List Char)
    (hDigits : ∀ d ∈ digits, isHexDigit d = true)
    (hSome : digits ≠ [])
    (hLength : digits.length = most ∨
      digits.length ≤ most ∧ ∀ d ∈ next.head?, isHexDigit d = false) :
    hexTail most (digits ++ next) = digits.length := by
  cases digits with
  | nil => exact absurd rfl hSome
  | cons d ds =>
      have hCurly : d ≠ '{' := by
        rintro rfl
        exact absurd (hDigits '{' List.mem_cons_self) (by decide)
      have hTail :
          hexTail most (d :: ds ++ next) =
            min most (countWhile isHexDigit (d :: ds ++ next)) := by
        rw [List.cons_append, hexTail.eq_2]
        rintro ds' ⟨rfl, _⟩
        exact hCurly rfl
      rw [hTail]
      rcases hLength with hMost | ⟨hLess, hNone⟩
      · have hAtLeast :
            (d :: ds).length ≤
              countWhile isHexDigit (d :: ds ++ next) := by
          rw [countWhile, List.takeWhile_append_of_pos hDigits,
            List.length_append]
          exact Nat.le_add_right _ _
        omega
      · rw [countWhile_append_of_forall hDigits hNone]
        omega

theorem hexTail_braced
    {most : Nat}
    (hDigits : ∀ d ∈ digits, isHexDigit d = true) :
    hexTail most ('{' :: (digits ++ '}' :: next)) =
      digits.length + 2 := by
  have hCount :
      countWhile isHexDigit (digits ++ '}' :: next) =
        digits.length :=
    countWhile_append_of_forall hDigits (by
      intro d hHead
      cases hHead
      decide)
  simp [hexTail, hCount]

------------------------------------------------------------
-- Items as pieces
------------------------------------------------------------

variable {g : Group}

/- An escape that can be decoded is not faulty. -/
theorem escapeFault_of_decode?
    {tail said : List Char}
    (hDecode : Escape.decode? ('\\' :: tail) = some said) :
    escapeFault g tail = none := by
  unfold escapeFault
  rw [hDecode, if_neg]
  rintro ⟨_, hNone, _⟩
  exact absurd hNone Bool.false_ne_true

/- What an escape by the code point decodes to. -/
theorem Holds.decode?_code
    (hHolds : (code c letter digits).Holds mark next) :
    Escape.decode? ('\\' :: letter :: digits) = some [c] := by
  obtain ⟨hCode, hForm⟩ := hHolds
  rcases hForm with ⟨rfl, hLength⟩ | ⟨rfl, hLength⟩ |
    ⟨rfl, hLength, _⟩
  · exact TextItem.decode?_code hCode
      (List.ne_nil_of_length_eq_add_one hLength) (.inr rfl)
      (by simp [Escape.HasWidth, hLength])
  · exact TextItem.decode?_code hCode
      (List.ne_nil_of_length_eq_add_one hLength) (.inl rfl)
      (by simp [Escape.HasWidth, hLength])
  · exact TextItem.decode?_code hCode
      (List.ne_nil_of_length_eq_add_one hLength) (.inl rfl)
      (by simp [Escape.HasWidth, hLength])

/- The lexer takes an item as one piece. -/
theorem Holds.fits
    {i : TextItem}
    (hHolds : i.Holds g.terminator next) :
    i.piece.Fits g next := by
  cases i with
  | plain c => exact hHolds
  | lineBreak cs =>
      rcases hHolds with rfl | rfl | ⟨rfl, hNext⟩
      · exact ⟨rfl, escapeFault_of_decode? rfl⟩
      · exact ⟨rfl, escapeFault_of_decode? rfl⟩
      · refine ⟨?_, escapeFault_of_decode? rfl⟩
        simp [backslashTail, escapeTail, lineBreakTail, hNext]
  | named c =>
      obtain ⟨hX, hU, hFeed, hReturn⟩ := hHolds
      constructor
      · simp [backslashTail, escapeTail, lineBreakTail, hX, hU,
          hReturn]
      · unfold escapeFault
        rw [if_neg]
        simp [hX, hU]
  | code c letter digits =>
      refine ⟨?_, escapeFault_of_decode? hHolds.decode?_code⟩
      obtain ⟨hCode, hForm⟩ := hHolds
      rcases hForm with ⟨rfl, hLength⟩ | ⟨rfl, hLength⟩ |
        ⟨rfl, hLength, hNext⟩
      · have hTail := hexTail_digits 4 next hCode.1
          (List.ne_nil_of_length_eq_add_one hLength) (.inl hLength)
        simp [backslashTail, escapeTail, hTail, Nat.add_comm]
      · have hTail := hexTail_digits 2 next hCode.1
          (List.ne_nil_of_length_eq_add_one hLength) (.inl hLength)
        simp [backslashTail, escapeTail, hTail, Nat.add_comm]
      · have hTail := hexTail_digits 2 next hCode.1
          (List.ne_nil_of_length_eq_add_one hLength)
          (.inr ⟨by omega, hNext⟩)
        simp [backslashTail, escapeTail, hTail, Nat.add_comm]
  | braced c letter digits =>
      obtain ⟨hCode, hSome, hLetter⟩ := hHolds
      refine ⟨?_, escapeFault_of_decode?
        (decode?_braced hCode hSome hLetter)⟩
      have hTail : ∀ most, hexTail most
          ('{' :: (digits ++ '}' :: next)) = digits.length + 2 :=
        fun most => hexTail_braced hCode.1
      rcases hLetter with rfl | rfl
      · simp [backslashTail, escapeTail, hTail]
        omega
      · simp [backslashTail, escapeTail, hTail]
        omega

/- What an item denotes is what its piece says. -/
theorem Holds.said_piece
    {i : TextItem}
    (hHolds : i.Holds mark next) :
    i.piece.said true = i.denoted := by
  cases i with
  | plain c => rfl
  | lineBreak cs =>
      rcases hHolds with rfl | rfl | ⟨rfl, _⟩ <;> rfl
  | named c =>
      obtain ⟨hX, hU, hFeed, hReturn⟩ := hHolds
      simp [piece, Piece.said, denoted, Escape.decode?, hX, hU,
        hFeed, hReturn]
  | code c letter digits =>
      simp only [piece, Piece.said, if_true, hHolds.decode?_code]
      rfl
  | braced c letter digits =>
      obtain ⟨hCode, hSome, hLetter⟩ := hHolds
      simp only [piece, Piece.said, if_true,
        decode?_braced hCode hSome hLetter]
      rfl

theorem flatMap_piece_written
    (items : List TextItem) :
    (items.map piece).flatMap Piece.written =
      items.flatMap written := by
  rw [List.flatMap_map]
  rfl

/- Items that hold are a row of pieces that fit. -/
theorem AllHold.fitAll
    {items : List TextItem}
    (hItems : AllHold g.terminator items) :
    Piece.FitAll g [g.terminator] (items.map piece) := by
  induction items with
  | nil => trivial
  | cons i is ih =>
      obtain ⟨hFirst, hOthers⟩ := hItems
      refine ⟨?_, ih hOthers⟩
      rw [flatMap_piece_written]
      exact hFirst.fits

theorem AllHold.said
    {items : List TextItem}
    (hItems : AllHold mark items) :
    (items.map piece).flatMap (Piece.said true) =
      items.flatMap denoted := by
  induction items with
  | nil => rfl
  | cons i is ih =>
      obtain ⟨hFirst, hOthers⟩ := hItems
      rw [List.map_cons, List.flatMap_cons, hFirst.said_piece,
        ih hOthers, List.flatMap_cons]

/- A text that starts with no mark is taken for no heredoc. -/
theorem AllHold.isTriple_eq
    {items : List TextItem}
    (hItems : AllHold mark items)
    (hMark : mark ≠ '\\') :
    isTriple mark (items.flatMap written ++ [mark]) = false := by
  cases items with
  | nil => rfl
  | cons i is =>
      rw [List.flatMap_cons, List.append_assoc]
      cases i with
      | plain c => exact isTriple_cons _ hItems.1.1
      | _ => exact isTriple_cons _ hMark.symm

end TextItem

------------------------------------------------------------
-- Texts between marks
------------------------------------------------------------

/- The quote on both sides of a text. -/
def TextKind.mark : TextKind → Char
| string => '"'
| charlist => '\''

/- The term of a text: a binary, or the list of its characters. -/
def TextKind.term : TextKind → String → Term
| string => .binary
| charlist => .codePoints

/- What a text between quotes is for the lexer. -/
def TextKind.group
    (kind : TextKind) : Group :=
  ⟨quoteFamily kind.mark, .quoted, kind.mark, true⟩

/- The lexemes are a text between quotes that says something. -/
def IsMarked
    (kind : TextKind)
    (said : Bool → Nat → List Char)
    (ls : List Lexeme) : Prop :=
  ∃ opened body closed,
    ls = opened :: (body ++ [closed]) ∧
      opened.kind = kind.group.promoterKind ∧
      closed.kind = kind.group.terminatorKind ∧ Cuts said body

/- A text of items is taken from one quote to the other. -/
theorem lexes_marked
    {kind : TextKind}
    {items : List TextItem}
    (hItems : TextItem.AllHold kind.mark items) :
    Lexes [] .initial
      (kind.mark :: (items.flatMap TextItem.written ++ [kind.mark]))
      []
      (fun _ ls => IsMarked kind
        (fun decode _ =>
          (items.map TextItem.piece).flatMap (Piece.said decode))
        ls) := by
  let g := kind.group
  let text := items.flatMap TextItem.written
  have hMark : kind.mark ≠ '\\' := by
    cases kind <;> decide
  have hOpen :
      Transition.of .initial none none kind.mark
          ([] ++ (text ++ ([kind.mark] ++ []))) =
        promoter g := by
    have hLayout :
        quoteLayout kind.mark (text ++ [kind.mark]) = .quoted := by
      rw [quoteLayout, hItems.isTriple_eq hMark,
        if_neg Bool.false_ne_true]
    have hQuote :
        quote kind.mark (text ++ [kind.mark]) = promoter g := by
      rw [quote, hLayout]
      rfl
    cases kind <;> exact hQuote
  have hBody : ∀ span,
      Lexes [.group g span] .group text ([kind.mark] ++ [])
        (fun m ls =>
          m = .group ∧
            Cuts (fun decode _ =>
              (items.map TextItem.piece).flatMap
                (Piece.said decode)) ls) := by
    intro span
    have hText :
        [] ++ (items.map TextItem.piece).flatMap Piece.written =
          text :=
      TextItem.flatMap_piece_written items
    rw [← hText]
    exact lexes_pieces span [] (items.map TextItem.piece) rfl rfl
      hMark hItems.fitAll (by simp)
  have hClose : ∀ (span : Span) mode' ls,
      (mode' = Mode.group ∧
          Cuts (fun decode _ =>
            (items.map TextItem.piece).flatMap
              (Piece.said decode)) ls) →
        Transition.of mode' none [Frame.group g span].head?
          kind.mark ([] ++ []) = terminator g := by
    rintro span _ ls ⟨rfl, _⟩
    exact if_pos rfl
  apply (lexes_enclosed [] hOpen ⟨rfl, rfl, rfl, rfl⟩ rfl
    (fun _ => rfl) hBody hClose ⟨rfl, rfl, rfl, rfl⟩ rfl
    (fun _ _ => rfl)).mono
  rintro _ _ ⟨_, opened, body, closed, _, rfl, hOpened, hClosed,
    _, hCuts⟩
  exact ⟨opened, body, closed, rfl, hOpened, hClosed, hCuts⟩

------------------------------------------------------------
-- Terms
------------------------------------------------------------

/- Inside of a literal no text between quotes ends. -/
theorem IsInside.quotedKeyAhead_eq
    {segments : List (Segment Node)}
    {body : List Lexeme}
    (more : List Lexeme)
    (hInside : IsInside segments body) :
    quotedKeyAhead 0 (body ++ more) = quotedKeyAhead 0 more := by
  induction body generalizing segments with
  | nil => rfl
  | cons l body ih =>
      cases segments with
      | nil => cases hInside
      | cons segment segments =>
          obtain ⟨hPlain, hRest⟩ := List.cons.inj hInside
          rw [List.cons_append, quotedKeyAhead_of_isFlat 0 _
            (isFlat_of_plainSegment? hPlain), ih hRest]

/- A text between quotes is read as what it says. -/
theorem isPrimary_marked
    {kind : TextKind}
    {said : Bool → Nat → List Char}
    {ls : List Lexeme}
    (m : Metadata)
    (hMarked : IsMarked kind said ls) :
    IsPrimary m (kind.term (String.ofList (said true 0))) ls := by
  obtain ⟨opened, body, closed, rfl, hOpened, hClosed, segments,
    hInside, hSaid⟩ := hMarked
  have hPrimary : ∀ expr, primaryAt expr .statement opened =
      promoterOperand expr .statement := by
    intro expr
    unfold primaryAt
    rw [hOpened]
    cases kind <;> rfl
  have hNoKey : keywordAhead (opened :: (body ++ [closed])) = false := by
    have hQuoted : quotedKeyAhead 0 (body ++ [closed]) = false := by
      rw [hInside.quotedKeyAhead_eq, quotedKeyAhead, hClosed]
      cases kind <;> rfl
    rw [keywordAhead, hOpened]
    cases kind <;> exact hQuoted
  have hPromoter :
      promoterText (some opened) = (kind, false) := by
    rw [promoterText, hOpened]
    cases kind <;> rfl
  refine ⟨opened, body ++ [closed], rfl, ?_, ?_, ?_⟩
  · rw [hOpened]
    rfl
  · rw [hOpened]
    rfl
  · intro expr
    obtain ⟨span, hSteps⟩ := hInside.steps_text expr [] hPromoter
      hClosed
    refine ⟨⟨.text ⟨kind, false, 0, segments⟩, span⟩, ?_, ?_⟩
    · rw [hPrimary]
      refine steps_rest.trans ?_
      rw [hNoKey, if_neg Bool.false_ne_true]
      exact hSteps.trans (steps_pure _)
    · have hText := hInside.literal?_eq m kind false 0
      rw [hSaid] at hText
      change Construct.text m span
        (Node.quoteText m ⟨kind, false, 0, segments⟩) = _
      rw [Node.quoteText_eq] at hText ⊢
      cases kind with
      | string =>
          change Construct.string m span _ = _
          rw [Construct.string, hText]
          rfl
      | charlist =>
          change Construct.charlist m span _ = _
          rw [Construct.charlist, hText]
          rfl

/- A source of items between quotes is quoted to what they denote. -/
theorem quoteSource_items
    {kind : TextKind}
    {items : List TextItem}
    (m : Metadata)
    (hItems : TextItem.AllHold kind.mark items) :
    quoteSource m
        (String.ofList
          (kind.mark ::
            (items.flatMap TextItem.written ++ [kind.mark]))) =
      (kind.term (String.ofList (items.flatMap TextItem.denoted)),
        []) := by
  apply quoteSource_of_primary
  · cases kind <;> simp [TextKind.mark, Lexer.byteOrderMark]
  · rw [String.toList_ofList, ← hItems.said]
    apply (lexes_marked hItems).mono
    intro _ ls hMarked
    exact isPrimary_marked m hMarked

/- Items of all sorts, one behind the other. -/
def TextItem.samples : List TextItem :=
  [.plain '#', .named '"', .lineBreak ['\r', '\n'],
    .code 'A' 'x' ['4', '1'], .code '\n' 'x' ['a'],
    .braced 'é' 'u' ['E', '9']]

theorem quoteSource_items_samples :
    TextItem.AllHold '"' TextItem.samples ∧
      quoteSource .none
          "\"#\\\"\\\r\n\\x41\\xa\\u\x7bE9\x7d\"" =
        (.binary "#\"A\né", []) := by
  have hItems :
      TextItem.AllHold TextKind.string.mark TextItem.samples := by
    decide
  have hSource :
      "\"#\\\"\\\r\n\\x41\\xa\\u\x7bE9\x7d\"" =
        String.ofList
          (TextKind.string.mark ::
            (TextItem.samples.flatMap TextItem.written ++
              [TextKind.string.mark])) := by
    decide
  refine ⟨hItems, ?_⟩
  rw [hSource, quoteSource_items .none hItems]
  rfl

end ElixirReader
