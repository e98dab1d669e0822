import ElixirReader.Decimal.Layout
import ElixirReader.Proofs.Lexer.Code
import ElixirReader.Proofs.Lexer.Stretches
import ElixirReader.Render.Construct
import Mathlib.Data.List.Find

/-
  This file shows what the lexer makes of the parts of an
  operation: names, digits, parentheses, and the operators in
  front of an operand and between two operands. A part is
  taken for itself whatever stands around it, as long as an
  operand is awaited where one starts, and what follows an
  operand ends it.

  Key definitions include:
    * `Mode.awaitsOperand`
    * `Mode.endsOperand`
    * `EndsOperand`
    * `IsVariableName`

  Main declarations:
    * `isVariableName_of_tokenize`
    * `lexes_variable`
    * `lexes_digits`
    * `lexes_sign`
    * `lexes_range`
    * `lexes_unary`
-/

namespace ElixirReader

open Transition Unicode

------------------------------------------------------------
-- Modes around operands
------------------------------------------------------------

/- The modes in which an operand may start. -/
def Mode.awaitsOperand : Mode → Bool
| initial => true
| afterMark => true
| afterOperator => true
| afterOpening => true
| _ => false

/- The modes in which a word is read, behind an operand too. -/
def Mode.awaitsWord : Mode → Bool
| afterOperand => true
| afterSpacedIdentifier => true
| mode => mode.awaitsOperand

theorem Mode.awaitsWord_of_awaitsOperand
    {mode : Mode}
    (hMode : mode.awaitsOperand = true) :
    mode.awaitsWord = true := by
  cases mode <;> first | rfl | cases hMode

/- The modes right behind an operand. -/
def Mode.endsOperand : Mode → Bool
| afterOperand => true
| afterAlias => true
| afterLiteral => true
| afterIdentifier => true
| decimalDigits => true
| _ => false

/- The modes right behind an operand, or behind a block. -/
def Mode.endsElement : Mode → Bool
| afterMark => true
| mode => mode.endsOperand

theorem Mode.endsElement_of_endsOperand
    {mode : Mode}
    (hMode : mode.endsOperand = true) :
    mode.endsElement = true := by
  cases mode <;> first | rfl | cases hMode

/- The characters that may come right behind an operand. -/
def operandEnds : List Char :=
  [' ', '\n', ')', ',', ']', '}']

/- The operand in front ends here: no character goes on with it. -/
def EndsOperand : List Char → Prop
| [] => True
| c :: cs => c ∈ operandEnds ∨ c = '.' ∧ cs.head? = some '.'

variable {mode : Mode}
variable {rest : List Char}

/-
  The characters that may come right behind a name: what ends
  it as an operand, and what makes a call of it.
-/
def nameEnds : List Char :=
  '.' :: '(' :: '[' :: operandEnds

/- The name in front ends here. -/
def EndsName
    (rest : List Char) : Prop :=
  ∀ c ∈ rest.head?, c ∈ nameEnds

theorem EndsOperand.endsNameBefore
    (hEnds : EndsOperand rest) :
    EndsName rest := by
  intro c hHead
  cases rest with
  | nil => cases hHead
  | cons d rest =>
      cases hHead
      rcases hEnds with hMember | ⟨rfl, _⟩
      · simp [nameEnds, hMember]
      · exact List.mem_cons_self

theorem endsName_blank
    (rest : List Char) :
    EndsName (' ' :: rest) := by
  rintro c ⟨⟩
  decide

/- What no such character is, the one behind a name is not. -/
theorem EndsName.eq_false_of_head?
    {p : Char → Bool}
    {c : Char}
    (hEnds : EndsName rest)
    (hHead : c ∈ rest.head?)
    (hNone : nameEnds.any p = false) :
    p c = false := by
  rw [List.any_eq_false] at hNone
  exact Bool.eq_false_iff.mpr (hNone c (hEnds c hHead))

/- A run of characters ends where no such character follows. -/
theorem countWhile_append_of_head?
    {p : Char → Bool}
    (cs : List Char)
    (hHead : ∀ c ∈ rest.head?, p c = false) :
    countWhile p (cs ++ rest) = countWhile p cs := by
  have hRest : rest.takeWhile p = [] := by
    cases rest with
    | nil => rfl
    | cons c rest =>
        rw [List.takeWhile_cons, hHead c rfl]
        rfl
  unfold countWhile
  rw [List.takeWhile_append, hRest, List.append_nil]
  split
  · rename_i hAll
    exact hAll.symm
  · rfl

/- A run of characters ends where a name does. -/
theorem EndsName.countWhile_append
    {p : Char → Bool}
    (cs : List Char)
    (hEnds : EndsName rest)
    (hNone : nameEnds.any p = false) :
    countWhile p (cs ++ rest) = countWhile p cs :=
  countWhile_append_of_head? cs fun _ hHead =>
    hEnds.eq_false_of_head? hHead hNone

theorem countWhile_eq_length
    {p : Char → Bool}
    {cs : List Char}
    (hAll : ∀ c ∈ cs, p c = true) :
    countWhile p cs = cs.length := by
  induction cs with
  | nil => rfl
  | cons c cs ih =>
      have hRest := ih fun d hMember =>
        hAll d (List.mem_cons_of_mem c hMember)
      unfold countWhile at hRest ⊢
      rw [List.takeWhile_cons, hAll c List.mem_cons_self,
        if_pos rfl, List.length_cons, hRest, List.length_cons]

theorem of_awaitsOperand
    {c : Char}
    {cs : List Char}
    (hMode : mode.awaitsOperand = true) :
    Transition.of mode none none c cs =
      expression mode none c cs := by
  cases mode <;> first | rfl | cases hMode

------------------------------------------------------------
-- Characters
------------------------------------------------------------

/- What all characters below a bound are, each of them is. -/
theorem of_toNat_lt
    {c : Char}
    {bound : Nat}
    (p : Char → Bool)
    (hBound : c.toNat < bound)
    (hAll :
      ((List.range bound).all fun n => p (Char.ofNat n)) = true) :
    p c = true := by
  have hCode :=
    List.all_eq_true.mp hAll c.toNat (List.mem_range.mpr hBound)
  rw [Char.ofNat_toNat] at hCode
  exact hCode

theorem of_ascii
    {c : Char}
    (p : Char → Bool)
    (hAscii : c.toNat < 128)
    (hAll :
      ((List.range 128).all fun n => p (Char.ofNat n)) = true) :
    p c = true :=
  of_toNat_lt p hAscii hAll

theorem toNat_of_isDigit
    {c : Char}
    (hDigit : c.isDigit = true) :
    48 ≤ c.toNat ∧ c.toNat ≤ 57 := by
  simpa [Char.isDigit, UInt32.le_iff_toNat_le] using hDigit

theorem ascii_of_isDigit
    {c : Char}
    (hDigit : c.isDigit = true) :
    c.toNat < 128 :=
  Nat.lt_of_le_of_lt (toNat_of_isDigit hDigit).2 (by decide)

/- Digits are neither blank nor letters. -/
theorem not_of_isDigit
    {c : Char}
    (hDigit : c.isDigit = true) :
    isBlank c = false ∧ isLineBreak c = false ∧
      c.isAlpha = false ∧ isNameStart c = false := by
  have hNot :=
    of_ascii
      (fun c =>
        !c.isDigit ||
          !isBlank c && !isLineBreak c && !c.isAlpha &&
            !isNameStart c)
      (ascii_of_isDigit hDigit) (by decide)
  simpa [hDigit, and_assoc] using hNot

------------------------------------------------------------
-- Names
------------------------------------------------------------

/- The characters that start a name start nothing else. -/
theorem not_of_isNameStart
    {c : Char}
    (hStart : isNameStart c = true) :
    isBlank c = false ∧ isLineBreak c = false ∧
      c.isDigit = false := by
  have hOther :
      ∀ d, isNameStart d = false → c ≠ d := by
    rintro d hFalse rfl
    rw [hStart] at hFalse
    cases hFalse
  refine ⟨?_, ?_, ?_⟩
  · simp [isBlank, hOther ' ' (by decide),
      hOther '\t' (by decide), hOther '\x0c' (by decide)]
  · simp [isLineBreak, hOther '\n' (by decide),
      hOther '\r' (by decide)]
  · cases hDigit : c.isDigit with
    | false => rfl
    | true => exact absurd hStart (by simp [not_of_isDigit hDigit])

/- A name is read up to what is no part of one. -/
theorem withMark_append_of_head?
    {p : Char → Bool}
    (cs : List Char)
    (hHead : ∀ c ∈ rest.head?,
      p c = false ∧ isIdentifierMark c = false) :
    withMark (cs ++ rest) (countWhile p (cs ++ rest)) =
      withMark cs (countWhile p cs) := by
  have hMark :
      (((cs ++ rest).drop (countWhile p cs)).head?.any
          isIdentifierMark) =
        ((cs.drop (countWhile p cs)).head?.any
          isIdentifierMark) := by
    rw [List.drop_append_of_le_length (countWhile_le p cs)]
    cases hDrop : cs.drop (countWhile p cs) with
    | cons c ds => rfl
    | nil =>
        cases rest with
        | nil => rfl
        | cons c rest => simp [(hHead c rfl).2]
  unfold withMark
  rw [countWhile_append_of_head? cs fun c hc => (hHead c hc).1,
    hMark]

theorem EndsName.withMark_append
    {p : Char → Bool}
    (cs : List Char)
    (hEnds : EndsName rest)
    (hNone : nameEnds.any p = false) :
    withMark (cs ++ rest) (countWhile p (cs ++ rest)) =
      withMark cs (countWhile p cs) :=
  withMark_append_of_head? cs fun _ hHead =>
    ⟨hEnds.eq_false_of_head? hHead hNone,
      hEnds.eq_false_of_head? hHead (by decide)⟩

theorem EndsName.identifierTail_append
    (cs : List Char)
    (hEnds : EndsName rest) :
    identifierTail (cs ++ rest) = identifierTail cs :=
  hEnds.withMark_append cs (by decide)

theorem take_countWhile
    (p : Char → Bool)
    (cs : List Char) :
    cs.take (countWhile p cs) = cs.takeWhile p :=
  (List.prefix_iff_eq_take.mp (List.takeWhile_prefix p)).symm

/- The rest of a name consists of its characters and a mark. -/
theorem mem_take_withMark
    {p : Char → Bool}
    {cs : List Char}
    {c : Char}
    (hMember : c ∈ cs.take (withMark cs (countWhile p cs))) :
    p c = true ∨ isIdentifierMark c = true := by
  have hRun :
      c ∈ cs.take (countWhile p cs) → p c = true := by
    rw [take_countWhile]
    exact List.all_eq_true.mp List.all_takeWhile c
  unfold withMark at hMember
  split at hMember
  · rename_i hMark
    rw [List.take_add_one, List.mem_append] at hMember
    rcases hMember with hMember | hMember
    · exact .inl (hRun hMember)
    · rw [List.head?_drop] at hMark
      rw [Option.mem_toList] at hMember
      rw [hMember] at hMark
      exact .inr hMark
  · exact .inl (hRun hMember)

/- The characters of a name that is no reserved word. -/
inductive IsVariableName : List Char → Prop where
| word
    (c : Char)
    (cs : List Char)
    (hStart : isIdentifierStart c = true)
    (hTail : identifierTail cs = cs.length)
    (hWord : reservedWord? (String.ofList (c :: cs)) = none) :
    IsVariableName (c :: cs)
| dots :
    IsVariableName ['.', '.', '.']

theorem startsWithKeyMark_of_head?
    {cs : List Char}
    (hColon : ':' ∉ cs.head?) :
    startsWithKeyMark cs = false := by
  unfold startsWithKeyMark
  split
  · simp at hColon
  · rfl

/- A name that ends here is no key. -/
theorem EndsName.keyTail?_append
    {cs : List Char}
    (hEnds : EndsName rest)
    (hTail : identifierTail cs = cs.length) :
    keyTail? (cs ++ rest) = none := by
  have hNoColon : ':' ∉ cs := by
    intro hMember
    have hTaken : ':' ∈ cs.take (identifierTail cs) := by
      rw [hTail, List.take_length]
      exact hMember
    rcases mem_take_withMark hTaken with hFalse | hFalse <;>
      exact absurd hFalse (by decide)
  have hSame : atomNameTail (cs ++ rest) = atomNameTail cs :=
    hEnds.withMark_append cs (by decide)
  have hLe : atomNameTail cs ≤ cs.length := withMark_le _ cs
  unfold keyTail?
  rw [hSame, List.drop_append_of_le_length hLe,
    startsWithKeyMark_of_head?]
  · rfl
  · intro hHead
    cases hDrop : cs.drop (atomNameTail cs) with
    | cons d ds =>
        rw [hDrop] at hHead
        cases hHead
        apply hNoColon
        exact List.mem_of_mem_drop (hDrop ▸ List.mem_cons_self)
    | nil =>
        rw [hDrop, List.nil_append] at hHead
        exact absurd (hEnds _ hHead) (by decide)

/- No reserved word is an identifier. -/
theorem reservedWord?_ne_identifier
    {name : String}
    {kind : Kind}
    {mode : Mode}
    (hWord : reservedWord? name = some (kind, mode)) :
    kind ≠ .identifier := by
  unfold reservedWord? at hWord
  split at hWord <;> cases hWord <;> decide

/- Of the symbols only three dots are an identifier. -/
theorem eq_dots_of_symbol
    {c : Char}
    {cs : List Char}
    (hKind : (symbol .initial none c cs).kind = .identifier)
    (hAll : cs.take (symbol .initial none c cs).more = cs) :
    c :: cs = ['.', '.', '.'] := by
  have hTable :
      ∀ e ∈ operatorTable ++ tildeTable,
        e.kind ≠ .identifier := by
    decide
  unfold symbol at hKind hAll
  split at hKind
  · unfold backslash at hKind
    split at hKind
    · cases hKind
    · split at hKind
      · cases hKind
      · split at hKind <;> cases hKind
  · cases hKind
  · cases hKind
  · cases hKind
  · cases hKind
  · unfold tilde at hKind
    split at hKind
    · rename_i e hFind
      exact absurd hKind (hTable e (List.mem_append_right _
        (List.mem_of_find?_eq_some hFind)))
    · cases hKind
  · unfold colon at hKind
    split at hKind
    · cases hKind
    · split at hKind <;> cases hKind
  · unfold dot at hKind hAll
    split at hKind
    · simp [plain] at hAll
      rw [hAll]
    · cases hKind
    · cases hKind
  · cases hKind
  · cases hKind
  · cases hKind
  · cases hKind
  · cases hKind
  · cases hKind
  · cases hKind
  · cases hKind
  · unfold operator at hKind
    split at hKind
    · rename_i e hFind
      exact absurd hKind (hTable e (List.mem_append_left _
        (List.mem_of_find?_eq_some hFind)))
    · unfold plus minus at hKind
      split at hKind
      · split at hKind <;> cases hKind
      · split at hKind
        · split at hKind <;> cases hKind
        · cases hKind

/- An identifier is a name or a symbol. -/
theorem expression_of_identifier
    {c : Char}
    {cs : List Char}
    (hKind : (expression mode none c cs).kind = .identifier) :
    isNameStart c = true ∧
        expression mode none c cs = name c cs ∨
      expression mode none c cs = symbol mode none c cs := by
  unfold expression at hKind ⊢
  split
  · rename_i hBlank
    rw [if_pos hBlank] at hKind
    cases hKind
  · rename_i hBlank
    rw [if_neg hBlank] at hKind
    split
    · rename_i hBreak
      rw [if_pos hBreak] at hKind
      unfold lineBreak at hKind
      split at hKind <;> cases hKind
    · rename_i hBreak
      rw [if_neg hBreak] at hKind
      split
      · rename_i hDigit
        rw [if_pos hDigit] at hKind
        unfold number at hKind
        split at hKind <;> cases hKind
      · split
        · rename_i hStart
          exact .inl ⟨hStart, rfl⟩
        · exact .inr rfl

/- A name that is an identifier is no key, alias or reserved word. -/
theorem name_of_identifier
    {c : Char}
    {cs : List Char}
    (hKind : (name c cs).kind = .identifier) :
    c.isUpper = false ∧
      (name c cs).more = identifierTail cs ∧
      reservedWord?
          (String.ofList (c :: cs.take (identifierTail cs))) =
        none := by
  unfold name at hKind ⊢
  split
  · rename_i hKey
    rw [hKey] at hKind
    cases hKind
  · rename_i hKey
    rw [hKey] at hKind
    dsimp only at hKind
    split
    · rename_i hUpper
      rw [if_pos hUpper] at hKind
      cases hKind
    · rename_i hUpper
      rw [if_neg hUpper] at hKind
      unfold word at hKind ⊢
      dsimp only at hKind ⊢
      split
      · rename_i kind mode' hWord
        rw [hWord] at hKind
        exact absurd hKind (reservedWord?_ne_identifier hWord)
      · rename_i hWord
        exact ⟨Bool.not_eq_true _ ▸ hUpper, rfl, hWord⟩

/- An identifier that takes up all characters names a variable. -/
theorem isVariableName_of_expression
    {c : Char}
    {cs : List Char}
    (hKind : (expression .initial none c cs).kind = .identifier)
    (hAll :
      cs.take (expression .initial none c cs).more = cs) :
    IsVariableName (c :: cs) := by
  rcases expression_of_identifier hKind with
    ⟨hStart, hName⟩ | hSymbol
  · rw [hName] at hKind hAll
    rcases name_of_identifier hKind with
      ⟨hUpper, hMore, hWord⟩
    rw [hMore] at hAll
    rw [hAll] at hWord
    have hLength : cs.length ≤ identifierTail cs := by
      have hTaken := congrArg List.length hAll
      rw [List.length_take] at hTaken
      omega
    refine .word c cs ?_
      (Nat.le_antisymm (withMark_le _ cs) hLength) hWord
    simpa [isNameStart, hUpper] using hStart
  · rw [hSymbol] at hKind hAll
    rw [eq_dots_of_symbol hKind hAll]
    exact .dots

theorem Lexer.length_body_le
    (cs : List Char) :
    (body cs).length ≤ cs.length := by
  cases cs with
  | nil => exact Nat.le_refl _
  | cons c cs =>
      change (if c = byteOrderMark then _ else _ :
        List Char).length ≤ _
      split
      · exact Nat.le_succ _
      · exact Nat.le_refl _

/- A source that is one identifier names a variable. -/
theorem isVariableName_of_tokenize
    {name : String}
    (hName :
      (tokenize name).1.map (fun t => (t.kind, t.text)) =
        [(.identifier, name)]) :
    IsVariableName name.toList := by
  let l := Lexer.ofSource name
  change (l.drain.1.map (·.1)).map _ = _ at hName
  cases hRest : l.rest with
  | nil =>
      have hNone : l.next.1 = none := by
        unfold Lexer.next
        rw [hRest]
        rfl
      rw [Lexer.drain, Lexer.take_of_none _ hNone] at hName
      cases hName
  | cons c cs =>
      let t := Transition.of .initial none none c cs
      have hSome :
          l.next.1 = some (l.tokenOf t (c :: cs.take t.more)) := by
        unfold Lexer.next
        rw [hRest]
        rfl
      rw [Lexer.drain, Lexer.take_of_some _ hSome] at hName
      have hFirst := (List.cons.inj hName).1
      have hKind : t.kind = .identifier :=
        congrArg Prod.fst hFirst
      have hText : c :: cs.take t.more = name.toList := by
        have hText := congrArg Prod.snd hFirst
        change String.ofList _ = name at hText
        rw [← hText, String.toList_ofList]
      have hBody : Lexer.body name.toList = c :: cs := hRest
      have hAll : cs.take t.more = cs := by
        apply List.Sublist.eq_of_length_le
          (List.take_sublist _ _)
        have hLength := congrArg List.length hText
        have hLess :
            (c :: cs).length ≤ name.toList.length := by
          rw [← hBody]
          exact Lexer.length_body_le name.toList
        rw [← hLength] at hLess
        exact Nat.le_of_succ_le_succ hLess
      rw [← hText, hAll]
      exact isVariableName_of_expression hKind hAll

theorem of_nameStart
    {c : Char}
    {cs : List Char}
    (hMode : mode.awaitsWord = true)
    (hStart : isNameStart c = true) :
    Transition.of mode none none c cs = Transition.name c cs := by
  rcases not_of_isNameStart hStart with
    ⟨hBlank, hBreak, hDigit⟩
  have hOf :
      Transition.of mode none none c cs =
        expression mode none c cs := by
    cases mode <;> first | rfl | cases hMode
  rw [hOf]
  simp [expression, hBlank, hBreak, hDigit, hStart]

theorem isUpper_of_isIdentifierStart
    {c : Char}
    (hStart : isIdentifierStart c = true) :
    c.isUpper = false := by
  rw [isIdentifierStart, Bool.or_eq_true, Bool.and_eq_true,
    beq_iff_eq] at hStart
  rcases hStart with rfl | ⟨_, hUpper⟩
  · decide
  · simpa using hUpper

/- A name is read without what follows. -/
theorem EndsName.name_append
    {c : Char}
    {cs : List Char}
    (hEnds : EndsName rest)
    (hStart : isIdentifierStart c = true)
    (hTail : identifierTail cs = cs.length) :
    Transition.name c (cs ++ rest) = word c cs := by
  unfold Transition.name
  rw [hEnds.keyTail?_append hTail]
  dsimp only
  rw [isUpper_of_isIdentifierStart hStart,
    if_neg Bool.false_ne_true]
  unfold word
  rw [hEnds.identifierTail_append, hTail]
  dsimp only
  rw [List.take_left, List.take_length]

/- A name that is no key is one token where a word is read. -/
theorem lexes_word
    {c : Char}
    {cs : List Char}
    {kind : Kind}
    {mode' : Mode}
    (hStart : isIdentifierStart c = true)
    (hTail : identifierTail cs = cs.length)
    (hWord : word c cs = .plain kind cs.length mode')
    (hKind :
      kind.fault? (c :: cs) = none ∧ kind.isTrivia = false)
    (hMode : mode.awaitsWord = true)
    (hEnds : EndsName rest) :
    Lexes [] mode (c :: cs) rest
      (IsLexeme kind (c :: cs) mode') := by
  have hNameStart : isNameStart c = true := by
    rw [isNameStart, hStart]
    rfl
  have hOf :
      Transition.of mode none none c (cs ++ rest) =
        .plain kind cs.length mode' := by
    rw [of_nameStart hMode hNameStart,
      hEnds.name_append hStart hTail, hWord]
  exact lexes_plain [] hOf hKind.1 hKind.2

/- A variable is one identifier, whatever mode it is awaited in. -/
theorem lexes_variable
    {name : List Char}
    (hName : IsVariableName name)
    (hMode : mode.awaitsOperand = true)
    (hEnds : EndsName rest) :
    Lexes [] mode name rest
      (IsLexeme .identifier name .afterIdentifier) := by
  cases hName with
  | word c cs hStart hTail hWord =>
      apply lexes_word hStart hTail _ ⟨rfl, rfl⟩
        (Mode.awaitsWord_of_awaitsOperand hMode) hEnds
      unfold word
      rw [hTail]
      dsimp only
      rw [List.take_length, hWord]
  | dots =>
      have hOf :
          Transition.of mode none none '.' ('.' :: '.' :: rest) =
            .plain .identifier 2 .afterIdentifier := by
        rw [of_awaitsOperand hMode]
        rfl
      exact lexes_plain [] hOf rfl rfl

------------------------------------------------------------
-- Digits
------------------------------------------------------------

theorem isDigit_of_mem_decimalDigits
    {n : Nat}
    {c : Char}
    (hMember : c ∈ decimalDigits n) :
    c.isDigit = true :=
  Nat.isDigit_of_mem_toDigits (by decide) (by decide) hMember

/- A natural number is one run of digits. -/
theorem lexes_digits
    (n : Nat)
    (hMode : mode.awaitsOperand = true)
    (hEnds : EndsOperand rest) :
    Lexes [] mode (decimalDigits n) rest
      (IsLexeme (.digits .decimal) (decimalDigits n)
        .decimalDigits) := by
  have hDigits : ∀ c ∈ decimalDigits n, c.isDigit = true :=
    fun _ => isDigit_of_mem_decimalDigits
  cases hList : decimalDigits n with
  | nil => exact absurd hList Nat.toDigits_ne_nil
  | cons c cs =>
      rw [hList] at hDigits
      have hDigit := hDigits c List.mem_cons_self
      rcases not_of_isDigit hDigit with ⟨hBlank, hBreak, _⟩
      have hNoBase :
          ((cs ++ rest).head?.any Char.isAlpha) = false := by
        cases cs with
        | cons d ds =>
            exact (not_of_isDigit (hDigits d (by simp))).2.2.1
        | nil =>
            cases rest with
            | nil => rfl
            | cons d rest =>
                have hNone : d.isAlpha = false :=
                  hEnds.endsNameBefore.eq_false_of_head? rfl (by decide)
                exact hNone
      have hRun :
          countWhile Char.isDigit (cs ++ rest) = cs.length := by
        rw [hEnds.endsNameBefore.countWhile_append cs (by decide)]
        exact countWhile_eq_length fun d hMember =>
          hDigits d (List.mem_cons_of_mem c hMember)
      have hOf :
          Transition.of mode none none c (cs ++ rest) =
            .plain (.digits .decimal) cs.length
              .decimalDigits := by
        rw [of_awaitsOperand hMode]
        simp only [expression, hBlank, hBreak, hDigit, number,
          hNoBase, hRun, and_false, if_false, if_true,
          Bool.false_eq_true]
      exact lexes_plain [] hOf rfl rfl

------------------------------------------------------------
-- Brackets
------------------------------------------------------------

/- The brackets of one character, as they open and close. -/
def bracketMarks : List (Bracket × Char × Char) :=
  [(.parenthesis, '(', ')'), (.square, '[', ']'),
   (.curly, '{', '}')]

variable {b : Bracket}
variable {opener closer : Char}

theorem lexes_opening
    (hMarks : (b, opener, closer) ∈ bracketMarks)
    (hMode : mode.awaitsOperand = true) :
    Lexes [] mode [opener] rest
      (IsLexeme (.opening b) [opener] .afterOpening) := by
  have hOf :
      ∃ change,
        (∀ span, change.apply span [] = []) ∧
          Transition.of mode none none opener ([] ++ rest) =
            { plain (.opening b) 0 .afterOpening with
              change := change } := by
    rw [of_awaitsOperand hMode]
    simp only [bracketMarks, List.mem_cons, Prod.mk.injEq,
      List.not_mem_nil, or_false] at hMarks
    rcases hMarks with ⟨rfl, rfl, _⟩ | ⟨rfl, rfl, _⟩ |
      ⟨rfl, rfl, _⟩
    · exact ⟨.keep, fun _ => rfl, rfl⟩
    · exact ⟨.keep, fun _ => rfl, rfl⟩
    · exact ⟨.openCurly, fun _ => rfl, rfl⟩
  rcases hOf with ⟨change, hChange, hOf⟩
  have hToken :=
    lexes_token [] hOf ⟨rfl, rfl, rfl, rfl⟩ hChange rfl
  exact hToken

theorem lexes_closing
    (hMarks : (b, opener, closer) ∈ bracketMarks)
    (hMode :
      mode.awaitsOperand = true ∨ mode.endsOperand = true) :
    Lexes [] mode [closer] rest
      (IsLexeme (.closing b) [closer] .afterOperand) := by
  have hOf :
      ∃ change,
        (∀ span, change.apply span [] = []) ∧
          Transition.of mode none none closer ([] ++ rest) =
            { plain (.closing b) 0 .afterOperand with
              change := change } := by
    simp only [bracketMarks, List.mem_cons, Prod.mk.injEq,
      List.not_mem_nil, or_false] at hMarks
    rcases hMarks with ⟨rfl, _, rfl⟩ | ⟨rfl, _, rfl⟩ |
      ⟨rfl, _, rfl⟩
    · refine ⟨.keep, fun _ => rfl, ?_⟩
      rcases hMode with hMode | hMode <;>
        (cases mode <;> first | rfl | cases hMode)
    · refine ⟨.keep, fun _ => rfl, ?_⟩
      rcases hMode with hMode | hMode <;>
        (cases mode <;> first | rfl | cases hMode)
    · refine ⟨.closeCurly, fun _ => rfl, ?_⟩
      rcases hMode with hMode | hMode <;>
        (cases mode <;> first | rfl | cases hMode)
  rcases hOf with ⟨change, hChange, hOf⟩
  have hToken :=
    lexes_token [] hOf ⟨rfl, rfl, rfl, rfl⟩ hChange rfl
  exact hToken

------------------------------------------------------------
-- Operators between operands
------------------------------------------------------------

/- A blank with something else behind it. -/
theorem of_blank
    (hMode :
      mode.awaitsOperand = true ∨ mode.endsOperand = true)
    (hNext : ∀ c ∈ rest.head?, isBlank c = false) :
    Transition.of mode none none ' ' ([] ++ rest) =
      .plain .whiteSpace 0 mode.afterBlank := by
  have hRun : countWhile isBlank rest = 0 := by
    unfold countWhile
    cases rest with
    | nil => rfl
    | cons c rest =>
        rw [List.takeWhile_cons, hNext c rfl]
        rfl
  have hBlanks :
      Transition.of mode none none ' ' ([] ++ rest) =
        blanks mode rest := by
    rcases hMode with hMode | hMode <;>
      (cases mode <;> first | rfl | cases hMode)
  rw [hBlanks, blanks, hRun]

theorem lexes_blank
    (hMode :
      mode.awaitsOperand = true ∨ mode.endsOperand = true)
    (hNext : ∀ c ∈ rest.head?, isBlank c = false) :
    Lexes [] mode [' '] rest (IsTrivia mode.afterBlank) := by
  have hTrivia :=
    lexes_trivia [] (of_blank hMode hNext) ⟨rfl, rfl, rfl, rfl⟩
      (fun _ => rfl) rfl
  exact hTrivia

/- The modes behind an operand and blanks. -/
def Mode.awaitsSign : Mode → Bool
| afterOperand => true
| afterSpacedIdentifier => true
| _ => false

theorem Mode.awaitsSign_afterBlank
    (hMode : mode.endsOperand = true) :
    mode.afterBlank.awaitsSign = true := by
  cases mode <;> first | rfl | cases hMode

/-
  A text is one token of a kind where an operator may stand and
  a blank follows.
-/
def IsSign
    (text : List Char)
    (kind : Kind)
    (mode' : Mode) : Prop :=
  ∃ c cs,
    text = c :: cs ∧ isBlank c = false ∧
      ∀ mode rest,
        mode.awaitsSign = true →
          Transition.of mode none none c (cs ++ ' ' :: rest) =
            .plain kind cs.length mode'

theorem isSign_symbol
    {c : Char}
    {cs : List Char}
    {kind : Kind}
    {mode' : Mode}
    (hBlank : isBlank c = false)
    (hOperand : ∀ rest,
      Transition.of .afterOperand none none c (cs ++ ' ' :: rest) =
        .plain kind cs.length mode')
    (hIdentifier : ∀ rest,
      Transition.of .afterSpacedIdentifier none none c
          (cs ++ ' ' :: rest) =
        .plain kind cs.length mode') :
    IsSign (c :: cs) kind mode' := by
  refine ⟨c, cs, rfl, hBlank, ?_⟩
  intro mode rest hMode
  cases mode with
  | afterOperand => exact hOperand rest
  | afterSpacedIdentifier => exact hIdentifier rest
  | _ => cases hMode

theorem isSign_word
    {c : Char}
    {cs : List Char}
    {kind : Kind}
    {mode' : Mode}
    (hStart : isIdentifierStart c = true)
    (hTail : identifierTail cs = cs.length)
    (hWord : word c cs = .plain kind cs.length mode') :
    IsSign (c :: cs) kind mode' := by
  have hNameStart : isNameStart c = true := by
    rw [isNameStart, hStart]
    rfl
  rcases not_of_isNameStart hNameStart with
    ⟨hBlank, hBreak, hDigit⟩
  refine ⟨c, cs, rfl, hBlank, ?_⟩
  intro mode rest hMode
  have hEnds : EndsName (' ' :: rest) :=
    endsName_blank rest
  have hOf :
      Transition.of mode none none c (cs ++ ' ' :: rest) =
        expression mode none c (cs ++ ' ' :: rest) := by
    cases mode <;> first | rfl | cases hMode
  rw [hOf]
  simp [expression, hBlank, hBreak, hDigit, hNameStart,
    hEnds.name_append hStart hTail, hWord]

/- A text does not go on with a character that is not in it. -/
theorem isPrefixOf_append_of_head?
    {text name rest : List Char}
    (hHead : ∀ c ∈ rest.head?, c ∉ text) :
    text.isPrefixOf (name ++ rest) = text.isPrefixOf name := by
  induction text generalizing name with
  | nil => simp
  | cons c text ih =>
      have hOther : ∀ d ∈ rest.head?, d ≠ c ∧ d ∉ text := by
        intro d hMember
        simpa using hHead d hMember
      cases name with
      | nil =>
          cases rest with
          | nil => rfl
          | cons d rest =>
              simp [List.isPrefixOf, (hOther d rfl).1.symm]
      | cons d name =>
          rw [List.cons_append, List.isPrefixOf_cons_cons,
            List.isPrefixOf_cons_cons,
            ih fun e hMember => (hOther e hMember).2]

/- What follows a text that a blank ends is no part of it. -/
theorem isPrefixOf_append_blank
    {text name : List Char}
    (rest : List Char)
    (hBlank : ' ' ∉ text) :
    text.isPrefixOf (name ++ ' ' :: rest) =
      text.isPrefixOf name := by
  apply isPrefixOf_append_of_head?
  rintro _ ⟨⟩
  exact hBlank

/- The first characters of the operators of the table. -/
theorem of_operatorTable :
    ∀ e ∈ operatorTable,
      ∃ c cs,
        e.text.toList = c :: cs ∧ isBlank c = false ∧
          ∀ mode rest,
            expression mode none c rest = operator mode c rest := by
  simp only [operatorTable, List.forall_mem_cons,
    List.not_mem_nil, false_implies, implies_true, and_true]
  repeat' apply And.intro
  all_goals exact ⟨_, _, rfl, rfl, fun _ _ => rfl⟩

theorem isSign_entry :
    ∀ e ∈ operatorTable, IsSign e.text.toList e.kind e.mode := by
  intro e hMember
  have hBlank : ∀ e ∈ operatorTable, ' ' ∉ e.text.toList := by
    decide
  have hFirst :
      ∀ e ∈ operatorTable,
        OperatorEntry.find? operatorTable e.text.toList =
            some e ∧
          e.text.length = e.text.toList.length := by
    decide
  rcases of_operatorTable e hMember with
    ⟨c, cs, hText, hHead, hOf⟩
  refine ⟨c, cs, hText, hHead, ?_⟩
  intro mode rest hMode
  have hExpression :
      Transition.of mode none none c (cs ++ ' ' :: rest) =
        expression mode none c (cs ++ ' ' :: rest) := by
    cases mode <;> first | rfl | cases hMode
  have hSame :
      OperatorEntry.find? operatorTable
          (e.text.toList ++ ' ' :: rest) =
        OperatorEntry.find? operatorTable e.text.toList :=
    List.find?_congr fun e' hMember' =>
      isPrefixOf_append_blank rest (hBlank e' hMember')
  rw [hExpression, hOf]
  unfold operator
  rw [← List.cons_append, ← hText, hSame, (hFirst e hMember).1]
  dsimp only
  rw [ofEntry, (hFirst e hMember).2, hText]
  rfl

/- The operators that no table lists, and those behind a tilde. -/
def otherSigns : List OperatorEntry :=
  [⟨"+", .operator .addition, .afterOpening⟩,
   ⟨"-", .operator .subtraction, .afterOpening⟩,
   ⟨"\\\\", .operator .inMatch, .afterOperator⟩,
   ⟨"::", .doubleColon, .afterOpening⟩,
   ⟨"~>>", .operator .arrow, .afterOperator⟩,
   ⟨"~>", .operator .arrow, .afterOperator⟩,
   ⟨"when", .operator .whenWord, .afterOperator⟩,
   ⟨"or", .operator .orWord, .afterOperator⟩,
   ⟨"and", .operator .andWord, .afterOperator⟩,
   ⟨"in", .operator .inWord, .afterOperator⟩,
   ⟨"not", .operator .notWord, .afterOperator⟩]

theorem isSign_of_mem_otherSigns :
    ∀ e ∈ otherSigns, IsSign e.text.toList e.kind e.mode := by
  simp only [otherSigns, List.forall_mem_cons,
    List.not_mem_nil, false_implies, implies_true, and_true]
  refine ⟨?_, ?_, ?_, ?_, ?_, ?_, ?_, ?_, ?_, ?_, ?_⟩
  · exact isSign_symbol rfl (fun _ => rfl) (fun _ => rfl)
  · exact isSign_symbol rfl (fun _ => rfl) (fun _ => rfl)
  · exact isSign_symbol rfl (fun _ => rfl) (fun _ => rfl)
  · exact isSign_symbol rfl (fun _ => rfl) (fun _ => rfl)
  · exact isSign_symbol rfl (fun _ => rfl) (fun _ => rfl)
  · exact isSign_symbol rfl (fun _ => rfl) (fun _ => rfl)
  all_goals refine isSign_word ?_ ?_ ?_ <;> decide

/-
  The name of every operator is one token, and a blank behind
  it leads on to where an operand may stand.
-/
theorem exists_isSign :
    ∀ level ∈ OperatorName.levels, ∀ name ∈ level.2,
      name ≠ ".." →
        ∃ kind mode',
          IsSign name.toList kind mode' ∧
            kind.binding? = some level.1 ∧
            (mode' = .afterOperator ∨ mode' = .afterOpening) := by
  have hListed :
      ∀ level ∈ OperatorName.levels, ∀ name ∈ level.2,
        name ≠ ".." →
          ∃ e ∈ operatorTable ++ otherSigns,
            e.text = name ∧ e.kind.binding? = some level.1 ∧
              (e.mode = .afterOperator ∨
                e.mode = .afterOpening) := by
    decide
  intro level hLevel name hName hRange
  rcases hListed level hLevel name hName hRange with
    ⟨e, hMember, rfl, hBinding, hMode⟩
  refine ⟨e.kind, e.mode, ?_, hBinding, hMode⟩
  rcases List.mem_append.mp hMember with hMember | hMember
  · exact isSign_entry e hMember
  · exact isSign_of_mem_otherSigns e hMember

theorem exists_mem_levels
    {name : String}
    {b : Binding}
    (hBinding : OperatorName.binding? name = some b) :
    ∃ level ∈ OperatorName.levels,
      name ∈ level.2 ∧ level.1 = b := by
  rcases Option.map_eq_some_iff.mp hBinding with
    ⟨level, hFind, hLevel⟩
  have hContains : level.2.contains name = true := by
    have hSome := List.find?_some hFind
    exact hSome
  exact ⟨level, List.mem_of_find?_eq_some hFind,
    List.contains_iff_mem.mp hContains, hLevel⟩

/- A sign behind an operand and a blank, up to the next operand. -/
theorem lexes_sign
    {name : List Char}
    {kind : Kind}
    {mode' : Mode}
    (hSign : IsSign name kind mode')
    (hKind : kind.fault? name = none ∧ kind.isTrivia = false)
    (hMode' : mode' = .afterOperator ∨ mode' = .afterOpening)
    (hMode : mode.endsOperand = true)
    (hNext : ∀ c ∈ rest.head?, isBlank c = false) :
    Lexes [] mode ([' '] ++ (name ++ [' '])) rest
      (IsLexeme kind name .afterOpening) := by
  rcases hSign with ⟨c, cs, rfl, hBlank, hOf⟩
  apply (lexes_blank (.inr hMode) _).append
  · rintro _ _ ⟨rfl, rfl⟩
    have hToken := lexes_plain []
      (hOf _ rest (Mode.awaitsSign_afterBlank hMode)) hKind.1
      hKind.2
    apply hToken.append
    rintro m _ ⟨hEq, l, rfl, hName⟩
    rw [hEq]
    have hAwaits : mode'.awaitsOperand = true ∧
        mode'.afterBlank = .afterOpening := by
      rcases hMode' with rfl | rfl <;> exact ⟨rfl, rfl⟩
    apply (lexes_blank (.inl hAwaits.1) hNext).mono
    rintro _ _ ⟨rfl, rfl⟩
    exact ⟨hAwaits.2, l, rfl, hName⟩
  · intro d hHead
    cases hHead
    exact hBlank

/- The operator of two words, up to the next operand. -/
theorem lexes_notIn
    (hMode : mode.endsOperand = true)
    (hNext : ∀ c ∈ rest.head?, isBlank c = false) :
    Lexes [] mode (Written.operatorSign "not in") rest
      (fun m ls =>
        m = .afterOpening ∧
          ∃ l l', ls = [l, l'] ∧
            l.kind = .operator .notWord ∧
            l'.kind = .operator .inWord) := by
  have hText :
      Written.operatorSign "not in" =
        ([' '] ++ ("not".toList ++ [' '])) ++
          ("in".toList ++ [' ']) := by
    decide
  rw [hText]
  have hNot : IsSign "not".toList (.operator .notWord)
      .afterOperator := by
    refine isSign_word ?_ ?_ ?_ <;> decide
  apply (lexes_sign hNot ⟨rfl, rfl⟩ (.inl rfl) hMode
    (by simp; decide)).append
  rintro m _ ⟨rfl, l, rfl, hKind, _⟩
  have hWord :
      Lexes [] .afterOpening "in".toList ([' '] ++ rest)
        (IsLexeme (.operator .inWord) "in".toList
          .afterOperator) := by
    refine lexes_word ?_ ?_ ?_ ⟨rfl, rfl⟩ rfl ?_
    · decide
    · decide
    · decide
    · exact endsName_blank rest
  apply hWord.append
  rintro m _ ⟨rfl, l', rfl, hKind', _⟩
  apply (lexes_blank (.inl rfl) hNext).mono
  rintro m _ ⟨rfl, rfl⟩
  exact ⟨rfl, l, l', rfl, hKind, hKind'⟩

/- Two dots are a range, unless a third one follows. -/
theorem lexes_range
    (hMode : mode.endsOperand = true)
    (hNext : rest.head? ≠ some '.') :
    Lexes [] mode (Written.operatorSign "..") rest
      (IsLexeme (.operator .range) "..".toList
        .afterOperator) := by
  have hDot :
      Transition.of mode none none '.' ('.' :: rest) =
        dot ('.' :: rest) := by
    cases mode <;> first | rfl | cases hMode
  have hOf :
      Transition.of mode none none '.' (['.'] ++ rest) =
        .plain (.operator .range) 1 .afterOperator := by
    change Transition.of mode none none '.' ('.' :: rest) = _
    rw [hDot]
    unfold dot
    split
    · rename_i hEq
      rw [(List.cons.inj hEq).2] at hNext
      exact absurd rfl hNext
    · rfl
    · rename_i hNoDot
      exact absurd rfl (hNoDot rest)
  exact lexes_plain [] hOf rfl rfl

------------------------------------------------------------
-- Operators in front of an operand
------------------------------------------------------------

/- The characters with which an operand may start. -/
def startsOperandText
    (c : Char) : Bool :=
  isNameStart c || c.isDigit ||
    ['(', '[', '{', '%', ':', '"', '.', '-', '+', '!', '^',
      '~'].contains c

theorem isBlank_of_startsOperandText
    {c : Char}
    (hStarts : startsOperandText c = true) :
    isBlank c = false := by
  cases hBlank : isBlank c with
  | false => rfl
  | true =>
      rw [isBlank, Bool.or_eq_true, Bool.or_eq_true, beq_iff_eq,
        beq_iff_eq, beq_iff_eq] at hBlank
      rcases hBlank with (rfl | rfl) | rfl <;>
        exact absurd hStarts (by decide)

/- The kinds of the operators in front of an operand. -/
def Kind.precedesOperand : Kind → Bool
| operator .negation => true
| operator .identity => true
| operator .unary => true
| operator .notWord => true
| _ => false

/- The second characters of the texts that start with another. -/
def OperatorEntry.seconds
    (table : List OperatorEntry)
    (c : Char) : List Char :=
  table.filterMap fun e =>
    if e.text.toList.head? = some c then e.text.toList[1]? else none

theorem isPrefixOf_cons_cons
    {text : List Char}
    {c d : Char}
    (rest : List Char)
    (hApart : text.head? = some c → text[1]? ≠ some d) :
    text.isPrefixOf (c :: d :: rest) = text.isPrefixOf [c] := by
  rcases text with _ | ⟨a, _ | ⟨b, text⟩⟩
  · rfl
  · simp [List.isPrefixOf]
  · by_cases hFirst : a = c
    · have hSecond : b ≠ d := by
        simpa [hFirst] using hApart
      simp [List.isPrefixOf, hSecond]
    · simp [List.isPrefixOf, hFirst]

/- A character that no longer text goes on with changes nothing. -/
theorem OperatorEntry.find?_cons_cons
    {table : List OperatorEntry}
    {c d : Char}
    (rest : List Char)
    (hApart : d ∉ seconds table c) :
    find? table (c :: d :: rest) = find? table [c] := by
  apply List.find?_congr
  intro e hMember
  apply isPrefixOf_cons_cons
  intro hFirst hSecond
  apply hApart
  exact List.mem_filterMap.mpr
    ⟨e, hMember, by rw [if_pos hFirst, hSecond]⟩

/- An operand behind a sign makes no other operator of the sign. -/
theorem find?_operatorTable_cons
    {c d : Char}
    (rest : List Char)
    (hSign : c ∈ ['-', '+', '!', '^'])
    (hStarts : startsOperandText d = true)
    (hApart : c = d → c = '!') :
    OperatorEntry.find? operatorTable (c :: d :: rest) =
      OperatorEntry.find? operatorTable [c] := by
  have hSeconds :
      (['-', '+', '!', '^'].all fun c =>
        (OperatorEntry.seconds operatorTable c).all fun x =>
          !startsOperandText x || (c == x && c != '!')) = true := by
    decide
  apply OperatorEntry.find?_cons_cons
  intro hMember
  have hSame :=
    List.all_eq_true.mp (List.all_eq_true.mp hSeconds c hSign)
      d hMember
  rw [hStarts, Bool.not_true, Bool.false_or, Bool.and_eq_true,
    beq_iff_eq, bne_iff_ne] at hSame
  exact hSame.2 (hApart hSame.1)

/-
  The name of an operator in front of an operand is one token,
  as long as the operand does not make another operator of it.
-/
theorem exists_of_isUnary
    {name : String}
    {d : Char}
    (hName : OperatorName.isUnary name = true)
    (hWord : name ≠ "not")
    (hMode : mode.awaitsOperand = true)
    (hStarts : startsOperandText d = true)
    (hApart : name.toList = [d] → name = "!") :
    ∃ c cs kind mode',
      name.toList = c :: cs ∧ kind.precedesOperand = true ∧
        kind.fault? (c :: cs) = none ∧
        kind.isTrivia = false ∧ mode'.awaitsOperand = true ∧
        Transition.of mode none none c (cs ++ d :: rest) =
          .plain kind cs.length mode' := by
  have hBinary : ∀ cs, signIsBinary mode cs = false := by
    cases mode <;> first | exact fun _ => rfl | cases hMode
  have hFind :
      ∀ c ∈ ['-', '+', '!', '^'], name.toList = [c] →
        OperatorEntry.find? operatorTable (c :: d :: rest) =
          OperatorEntry.find? operatorTable [c] := by
    intro c hSign hList
    apply find?_operatorTable_cons rest hSign hStarts
    rintro rfl
    have hBang := hApart hList
    rw [hBang] at hList
    exact (List.cons.inj hList).1.symm
  have hMember : name ∈ OperatorName.unaryNames :=
    List.contains_iff_mem.mp hName
  simp only [OperatorName.unaryNames, List.mem_cons,
    List.not_mem_nil, or_false] at hMember
  rcases hMember with rfl | rfl | rfl | rfl | rfl | rfl
  · refine ⟨'-', [], .operator .negation, .initial, rfl, rfl,
      rfl, rfl, rfl, ?_⟩
    rw [of_awaitsOperand hMode]
    change operator mode '-' (d :: rest) = _
    unfold operator
    rw [hFind '-' (by decide) rfl]
    change minus mode (d :: rest) = _
    unfold minus
    rw [hBinary, if_neg Bool.false_ne_true]
    rfl
  · refine ⟨'+', [], .operator .identity, .initial, rfl, rfl,
      rfl, rfl, rfl, ?_⟩
    rw [of_awaitsOperand hMode]
    change operator mode '+' (d :: rest) = _
    unfold operator
    rw [hFind '+' (by decide) rfl]
    change plus mode (d :: rest) = _
    unfold plus
    rw [hBinary, if_neg Bool.false_ne_true]
    rfl
  · refine ⟨'!', [], .operator .unary, .afterMark, rfl, rfl,
      rfl, rfl, rfl, ?_⟩
    rw [of_awaitsOperand hMode]
    change operator mode '!' (d :: rest) = _
    unfold operator
    rw [hFind '!' (by decide) rfl]
    rfl
  · refine ⟨'^', [], .operator .unary, .afterMark, rfl, rfl,
      rfl, rfl, rfl, ?_⟩
    rw [of_awaitsOperand hMode]
    change operator mode '^' (d :: rest) = _
    unfold operator
    rw [hFind '^' (by decide) rfl]
    rfl
  · exact absurd rfl hWord
  · refine ⟨'~', ['~', '~'], .operator .unary, .afterMark, rfl,
      rfl, rfl, rfl, rfl, ?_⟩
    rw [of_awaitsOperand hMode]
    rfl

/- The lexemes are one operator by its name, in front of an operand. -/
def IsUnaryLexeme
    (name : String) : Mode → List Lexeme → Prop :=
  fun mode ls =>
    mode.awaitsOperand = true ∧
      ∃ l, ls = [l] ∧ l.kind.precedesOperand = true ∧
        l.text = name

/- An operator in front of an operand, up to that operand. -/
theorem lexes_unary
    {name : String}
    {d : Char}
    (hName : OperatorName.isUnary name = true)
    (hMode : mode.awaitsOperand = true)
    (hStarts : startsOperandText d = true)
    (hApart : name.toList = [d] → name = "!") :
    Lexes [] mode
      (name.toList ++ if name = "not" then " ".toList else [])
      (d :: rest) (IsUnaryLexeme name) := by
  by_cases hWord : name = "not"
  · subst hWord
    rw [if_pos rfl]
    have hNot :
        Lexes [] mode "not".toList ([' '] ++ d :: rest)
          (IsLexeme (.operator .notWord) "not".toList
            .afterOperator) := by
      refine lexes_word ?_ ?_ ?_ ⟨rfl, rfl⟩
        (Mode.awaitsWord_of_awaitsOperand hMode) ?_
      · decide
      · decide
      · decide
      · exact endsName_blank (d :: rest)
    apply hNot.append
    rintro _ _ ⟨rfl, l, rfl, hKind, hText⟩
    have hNext : ∀ c ∈ (d :: rest).head?, isBlank c = false := by
      intro c hHead
      cases hHead
      exact isBlank_of_startsOperandText hStarts
    apply (lexes_blank (.inl rfl) hNext).mono
    rintro _ _ ⟨rfl, rfl⟩
    refine ⟨rfl, l, rfl, ?_, ?_⟩
    · rw [hKind]
      rfl
    · rw [hText, String.ofList_toList]
  · rw [if_neg hWord, List.append_nil]
    rcases exists_of_isUnary hName hWord hMode hStarts hApart with
      ⟨c, cs, kind, mode', hList, hPrecedes, hFault, hTrivia,
        hMode', hOf⟩
    rw [hList]
    apply (lexes_plain [] hOf hFault hTrivia).mono
    rintro m _ ⟨hEq, l, rfl, hKind, hText⟩
    refine ⟨by rw [hEq, hMode'], l, rfl, by rw [hKind, hPrecedes],
      ?_⟩
    rw [hText, ← hList, String.ofList_toList]

end ElixirReader
