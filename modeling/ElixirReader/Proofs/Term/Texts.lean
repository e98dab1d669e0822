import ElixirReader.Proofs.Lexer.Literals
import ElixirReader.Proofs.Lexer.Operands
import ElixirReader.Term.Inspect
import Mathlib.Data.List.Forall2

/-
  This file shows that the texts of atoms, keys, integers and
  binaries can be read back: what stands in front of a comma
  or a closing bracket is the text of one of them only. The
  one exception are the atoms `Elixir` and `Elixir.Elixir`,
  which are written alike.

  Key definitions include:
    * `ReadsBack`
    * `Literal.Closes`
    * `Literal.settledName`
    * `Literal.bareName`
    * `Literal.Guise`

  Main declarations:
    * `intercalate_inj`
    * `Literal.binary_inj`
    * `Literal.atom_inj`
    * `Literal.key_inj`
    * `integerText_inj`
-/

namespace ElixirReader

------------------------------------------------------------
-- Runs of characters
------------------------------------------------------------

/-
  Two runs of characters of a class, each in front of a
  character that is not in the class.
-/
theorem append_inj_of_all
    {p : Char → Bool}
    {run run' rest rest' : List Char}
    (hRun : ∀ c ∈ run, p c = true)
    (hRun' : ∀ c ∈ run', p c = true)
    (hRest : ∀ c ∈ rest.head?, p c = false)
    (hRest' : ∀ c ∈ rest'.head?, p c = false)
    (hEq : run ++ rest = run' ++ rest') :
    run = run' ∧ rest = rest' := by
  have hTake :
      ∀ run rest : List Char, (∀ c ∈ run, p c = true) →
        (∀ c ∈ rest.head?, p c = false) →
          (run ++ rest).takeWhile p = run := by
    intro run rest hRun hRest
    rw [List.takeWhile_append_of_pos hRun]
    cases rest with
    | nil => exact List.append_nil run
    | cons c cs =>
        rw [List.takeWhile_cons_of_neg, List.append_nil]
        rw [hRest c rfl]
        exact Bool.false_ne_true
  have hRuns : run = run' := by
    rw [← hTake run rest hRun hRest, hEq,
      hTake run' rest' hRun' hRest']
  rw [hRuns] at hEq
  exact ⟨hRuns, List.append_cancel_left hEq⟩

------------------------------------------------------------
-- Sequences
------------------------------------------------------------

section Sequences

variable {α : Type}
variable {write : α → List Char}
variable {r : α → α → Prop}
variable {Stops : List Char → Prop}
variable {closer : Char}
variable {items items' : List α}
variable {rest rest' : List Char}

/-
  Two items whose texts, each in front of what may follow an
  item, are the same only if the items are related.
-/
def ReadsBack
    (write : α → List Char)
    (r : α → α → Prop)
    (Stops : List Char → Prop)
    (a b : α) : Prop :=
  ∀ ⦃rest rest' : List Char⦄, Stops rest → Stops rest' →
    write a ++ rest = write b ++ rest' → r a b ∧ rest = rest'

/- Items that each stand behind a comma. -/
theorem flatMap_inj
    (hComma : ∀ rest, Stops (',' :: rest))
    (hCloser : ∀ rest, Stops (closer :: rest))
    (hOther : closer ≠ ',')
    (hItems : ∀ a ∈ items, ∀ b ∈ items',
      ReadsBack write r Stops a b)
    (hEq :
      items.flatMap (fun a => ", ".toList ++ write a) ++
          closer :: rest =
        items'.flatMap (fun a => ", ".toList ++ write a) ++
          closer :: rest') :
    List.Forall₂ r items items' ∧ rest = rest' := by
  have hStops :
      ∀ (items : List α) rest,
        Stops (items.flatMap (fun a => ", ".toList ++ write a) ++
          closer :: rest) := by
    intro items rest
    cases items with
    | nil => exact hCloser rest
    | cons a items => exact hComma _
  induction items generalizing items' with
  | nil =>
      cases items' with
      | nil => exact ⟨.nil, (List.cons.inj hEq).2⟩
      | cons b items' => exact absurd (List.cons.inj hEq).1 hOther
  | cons a items ih =>
      cases items' with
      | nil => exact absurd (List.cons.inj hEq).1.symm hOther
      | cons b items' =>
          have hTexts :
              write a ++
                  (items.flatMap (fun a => ", ".toList ++ write a) ++
                    closer :: rest) =
                write b ++
                  (items'.flatMap
                      (fun a => ", ".toList ++ write a) ++
                    closer :: rest') := by
            simpa using hEq
          rcases hItems a List.mem_cons_self b List.mem_cons_self
            (hStops items rest) (hStops items' rest') hTexts with
            ⟨hHead, hTail⟩
          have hFewer : ∀ a ∈ items, ∀ b ∈ items',
              ReadsBack write r Stops a b :=
            fun a hA b hB =>
              hItems a (List.mem_cons_of_mem _ hA) b
                (List.mem_cons_of_mem _ hB)
          rcases ih hFewer hTail with ⟨hItems', hRest⟩
          exact ⟨.cons hHead hItems', hRest⟩

/- The first of some items, and the others behind commas. -/
theorem intercalate_map_cons
    (a : α)
    (items : List α) :
    ", ".toList.intercalate ((a :: items).map write) =
      write a ++ items.flatMap fun a => ", ".toList ++ write a := by
  induction items generalizing a with
  | nil => simp
  | cons b items ih =>
      rw [List.map_cons, List.map_cons, List.intercalate_cons_cons,
        ← List.map_cons, ih, List.flatMap_cons]
      simp

/-
  Items with commas between them in front of a closer. No
  item may look like the closer, or else none could not be
  told from some.
-/
theorem intercalate_inj
    (hComma : ∀ rest, Stops (',' :: rest))
    (hCloser : ∀ rest, Stops (closer :: rest))
    (hOther : closer ≠ ',')
    (hHeads : ∀ a ∈ items ++ items',
      ∃ c cs, write a = c :: cs ∧ c ≠ closer)
    (hItems : ∀ a ∈ items, ∀ b ∈ items',
      ReadsBack write r Stops a b)
    (hEq :
      ", ".toList.intercalate (items.map write) ++ closer :: rest =
        ", ".toList.intercalate (items'.map write) ++
          closer :: rest') :
    List.Forall₂ r items items' ∧ rest = rest' := by
  cases items with
  | nil =>
      cases items' with
      | nil => exact ⟨.nil, (List.cons.inj hEq).2⟩
      | cons b items' =>
          rcases hHeads b List.mem_cons_self with
            ⟨c, cs, hText, hHead⟩
          rw [intercalate_map_cons, hText] at hEq
          exact absurd (List.cons.inj hEq).1.symm hHead
  | cons a items =>
      cases items' with
      | nil =>
          rcases hHeads a List.mem_cons_self with
            ⟨c, cs, hText, hHead⟩
          rw [intercalate_map_cons, hText] at hEq
          exact absurd (List.cons.inj hEq).1 hHead
      | cons b items' =>
          rw [intercalate_map_cons, intercalate_map_cons] at hEq
          exact flatMap_inj hComma hCloser hOther hItems
            (by simpa using hEq)

end Sequences

------------------------------------------------------------
-- Numbers
------------------------------------------------------------

/- The digits of a number, in front of something else. -/
theorem decimalDigits_inj
    {m n : Nat}
    {rest rest' : List Char}
    (hRest : ∀ c ∈ rest.head?, c.isDigit = false)
    (hRest' : ∀ c ∈ rest'.head?, c.isDigit = false)
    (hEq : decimalDigits m ++ rest = decimalDigits n ++ rest') :
    m = n ∧ rest = rest' := by
  rcases append_inj_of_all
    (fun _ => isDigit_of_mem_decimalDigits)
    (fun _ => isDigit_of_mem_decimalDigits) hRest hRest' hEq with
    ⟨hDigits, hRests⟩
  have hNumbers := congrArg (Nat.ofDigitChars 10 · 0) hDigits
  simp only [decimalDigits, Nat.ofDigitChars_ten_toDigits]
    at hNumbers
  exact ⟨hNumbers, hRests⟩

theorem exists_decimalDigits
    (n : Nat) :
    ∃ c cs, decimalDigits n = c :: cs ∧ c.isDigit = true := by
  cases hDigits : decimalDigits n with
  | nil => exact absurd hDigits Nat.toDigits_ne_nil
  | cons c cs =>
      have hMember : c ∈ decimalDigits n := by
        rw [hDigits]
        exact List.mem_cons_self
      exact ⟨c, cs, rfl, isDigit_of_mem_decimalDigits hMember⟩

theorem integerText_inj
    {i j : Int}
    {rest rest' : List Char}
    (hRest : ∀ c ∈ rest.head?, c.isDigit = false)
    (hRest' : ∀ c ∈ rest'.head?, c.isDigit = false)
    (hEq : integerText i ++ rest = integerText j ++ rest') :
    i = j ∧ rest = rest' := by
  have hSign :
      ∀ (n : Nat) cs, '-' :: cs ≠ decimalDigits n ++ rest ∧
        '-' :: cs ≠ decimalDigits n ++ rest' := by
    intro n cs
    rcases exists_decimalDigits n with ⟨c, ds, hDigits, hDigit⟩
    rw [hDigits]
    constructor <;>
    · intro hMinus
      rw [← (List.cons.inj hMinus).1] at hDigit
      cases hDigit
  unfold integerText at hEq
  split at hEq <;> split at hEq
  · rcases decimalDigits_inj hRest hRest' (List.cons.inj hEq).2 with
      ⟨hAbs, hRests⟩
    exact ⟨by omega, hRests⟩
  · exact absurd hEq (hSign _ _).2
  · exact absurd hEq.symm (hSign _ _).1
  · rcases decimalDigits_inj hRest hRest' hEq with ⟨hAbs, hRests⟩
    exact ⟨by omega, hRests⟩

namespace Literal

variable {rest rest' : List Char}

------------------------------------------------------------
-- Binaries
------------------------------------------------------------

theorem escapedChar_inj
    {c d : Char}
    {cs ds : List Char}
    (hEq : escapedChar c cs ++ rest = escapedChar d ds ++ rest') :
    c = d ∧ rest = rest' := by
  rcases escapedChar_cases c cs with
    ⟨hC, _, _, hPlainC, _⟩ | ⟨letter, _, hC, hDecode⟩ <;>
    rcases escapedChar_cases d ds with
      ⟨hD, _, _, hPlainD, _⟩ | ⟨letter', _, hD, hDecode'⟩ <;>
    rw [hC, hD] at hEq
  · exact List.cons.inj hEq
  · exact absurd (List.cons.inj hEq).1 hPlainC
  · exact absurd (List.cons.inj hEq).1.symm hPlainD
  · rcases List.cons.inj (List.cons.inj hEq).2 with
      ⟨hLetter, hRests⟩
    rw [hLetter, hDecode'] at hDecode
    exact ⟨(List.cons.inj (Option.some.inj hDecode)).1.symm, hRests⟩

theorem exists_escapedChar
    (c : Char)
    (cs : List Char) :
    ∃ d ds, escapedChar c cs = d :: ds ∧ d ≠ '"' := by
  rcases escapedChar_cases c cs with
    ⟨hSelf, _, hQuote, _⟩ | ⟨letter, _, hEscape, _⟩
  · exact ⟨c, [], hSelf, hQuote⟩
  · exact ⟨'\\', [letter], hEscape, by decide⟩

/- An escaped text ends at the first quote in it. -/
theorem escapedText_inj
    {text text' : List Char}
    (hEq :
      escapedText text ++ '"' :: rest =
        escapedText text' ++ '"' :: rest') :
    text = text' ∧ rest = rest' := by
  induction text generalizing text' with
  | nil =>
      cases text' with
      | nil => exact ⟨rfl, (List.cons.inj hEq).2⟩
      | cons d ds =>
          rcases exists_escapedChar d ds with ⟨e, es, hD, hQuote⟩
          rw [escapedText, escapedText, hD] at hEq
          exact absurd (List.cons.inj hEq).1.symm hQuote
  | cons c cs ih =>
      cases text' with
      | nil =>
          rcases exists_escapedChar c cs with ⟨e, es, hC, hQuote⟩
          rw [escapedText, escapedText, hC] at hEq
          exact absurd (List.cons.inj hEq).1 hQuote
      | cons d ds =>
          rw [escapedText, escapedText, List.append_assoc,
            List.append_assoc] at hEq
          rcases escapedChar_inj hEq with ⟨rfl, hTail⟩
          rcases ih hTail with ⟨rfl, hRests⟩
          exact ⟨rfl, hRests⟩

/- A text is made of its bytes. -/
theorem bytes_inj
    {text text' : List Char}
    (hEq : bytes text = bytes text') :
    text = text' := by
  have hBytes : text.utf8Encode = text'.utf8Encode := by
    unfold List.utf8Encode
    rw [List.map_injective_iff.mpr (fun _ _ => UInt8.toNat_inj.mp)
      hEq]
  have hStrings : String.ofList text = String.ofList text' :=
    String.toByteArray_inj.mp hBytes
  exact String.ofList_injective hStrings

/- The bytes of a text end at the first angle bracket. -/
theorem byteText_inj
    {text text' : List Char}
    (hEq : byteText text ++ rest = byteText text' ++ rest') :
    text = text' ∧ rest = rest' := by
  have hDigits : ∀ a ∈ bytes text, ∀ b ∈ bytes text',
      ReadsBack decimalDigits Eq
        (fun rest => ∀ c ∈ rest.head?, c.isDigit = false) a b :=
    fun _ _ _ _ _ _ => decimalDigits_inj
  have hInside :
      ", ".toList.intercalate ((bytes text).map decimalDigits) ++
          '>' :: '>' :: rest =
        ", ".toList.intercalate ((bytes text').map decimalDigits) ++
          '>' :: '>' :: rest' := by
    simpa [byteText] using hEq
  have hHeads : ∀ n ∈ bytes text ++ bytes text',
      ∃ c cs, decimalDigits n = c :: cs ∧ c ≠ '>' := by
    intro n _
    rcases exists_decimalDigits n with ⟨c, cs, hText, hDigit⟩
    refine ⟨c, cs, hText, ?_⟩
    rintro rfl
    cases hDigit
  rcases intercalate_inj (by simp) (by simp) (by decide) hHeads
    hDigits hInside with ⟨hBytes, hRests⟩
  rw [List.forall₂_eq_eq_eq] at hBytes
  exact ⟨bytes_inj hBytes, (List.cons.inj hRests).2⟩

/- The text of a binary that cannot be seen starts with a digit. -/
theorem exists_byteText
    {text : List Char}
    (hHidden : text.all isVisible = false) :
    ∃ c cs, byteText text = '<' :: '<' :: c :: cs ∧
      c.isDigit = true := by
  cases text with
  | nil => cases hHidden
  | cons c cs =>
      cases hBytes : bytes (c :: cs) with
      | nil =>
          have hSize := c.utf8Size_pos
          have hLength := congrArg List.length hBytes
          simp [bytes] at hLength
          omega
      | cons n ns =>
          rcases exists_decimalDigits n with
            ⟨d, ds, hText, hDigit⟩
          unfold byteText
          rw [hBytes, intercalate_map_cons, hText]
          exact ⟨d, _, rfl, hDigit⟩

theorem binary_inj
    {text text' : List Char}
    (hEq : binary text ++ rest = binary text' ++ rest') :
    text = text' ∧ rest = rest' := by
  unfold binary at hEq
  split at hEq <;> split at hEq
  · exact escapedText_inj (by simpa using hEq)
  · cases (List.cons.inj hEq).1
  · cases (List.cons.inj hEq).1
  · exact byteText_inj hEq

------------------------------------------------------------
-- Plain names
------------------------------------------------------------

/- The characters of names that need no quotes. -/
def isNameChar
    (c : Char) : Bool :=
  isIdentifierPart c || isMark c

theorem isNameChar_of_mem
    {name : List Char}
    (hPlain : isPlain name = true) :
    ∀ c ∈ name, isNameChar c = true := by
  intro c hMember
  unfold isNameChar
  rw [Bool.or_eq_true]
  rcases Bool.or_eq_true_iff.mp hPlain with hName | hName
  · rcases exists_marks_of_isIdentifier hName with
      ⟨base, marks, rfl, hParts, hMarks, _⟩
    rcases List.mem_append.mp hMember with hBase | hEnd
    · exact .inl (hParts c hBase)
    · exact .inr (hMarks c hEnd)
  · left
    unfold isAliasSegment at hName
    rw [Bool.and_eq_true] at hName
    have hPart := isIdentifierPart_of_isAlphanum
      (List.all_eq_true.mp hName.2 c hMember)
    unfold ElixirReader.isIdentifierPart at hPart
    rw [Bool.or_eq_true] at hPart
    unfold isIdentifierPart
    rcases hPart with hUnderscore | hLetter
    · rw [hUnderscore]
      rfl
    · rw [hLetter, Bool.or_true]

theorem exists_isNameStart
    {name : List Char}
    (hPlain : isPlain name = true) :
    ∃ c cs, name = c :: cs ∧ isNameStart c = true := by
  rcases isWholeName_of_isPlain hPlain with ⟨c, cs, hName, hStart, _⟩
  exact ⟨c, cs, hName, hStart⟩

theorem exists_binary
    (text : List Char) :
    ∃ c cs, binary text = c :: cs ∧ isNameStart c = false ∧
      (c = '"' ∨ c = '<') := by
  unfold binary
  split
  · exact ⟨'"', _, rfl, by decide, .inl rfl⟩
  · exact ⟨'<', _, rfl, by decide, .inr rfl⟩

/- A name that needs no quotes does not look like a binary. -/
theorem plain_ne_binary
    {name text : List Char}
    (hPlain : isPlain name = true) :
    name ++ rest ≠ binary text ++ rest' := by
  intro hEq
  rcases exists_isNameStart hPlain with ⟨c, cs, rfl, hStart⟩
  rcases exists_binary text with ⟨d, ds, hText, hOther, _⟩
  rw [hText] at hEq
  rw [(List.cons.inj hEq).1, hOther] at hStart
  cases hStart

------------------------------------------------------------
-- Keys
------------------------------------------------------------

/- A key ends at the colon behind it. -/
theorem key_inj
    {name name' : String}
    (hEq : key name ++ rest = key name' ++ rest') :
    name = name' ∧ rest = rest' := by
  have hColon : ∀ rest, ∀ c ∈ (':' :: rest).head?,
      isNameChar c = false := by
    rintro rest c ⟨⟩
    decide
  unfold key at hEq
  split at hEq <;> split at hEq
  · rename_i hPlain hPlain'
    rw [List.append_assoc, List.append_assoc] at hEq
    rcases append_inj_of_all (isNameChar_of_mem hPlain)
      (isNameChar_of_mem hPlain') (hColon rest) (hColon rest')
      hEq with ⟨hNames, hRests⟩
    exact ⟨String.toList_inj.mp hNames, (List.cons.inj hRests).2⟩
  · rename_i hPlain _
    rw [List.append_assoc, List.append_assoc] at hEq
    exact absurd hEq (plain_ne_binary hPlain)
  · rename_i hPlain
    rw [List.append_assoc, List.append_assoc] at hEq
    exact absurd hEq.symm (plain_ne_binary hPlain)
  · rw [List.append_assoc, List.append_assoc] at hEq
    rcases binary_inj hEq with ⟨hNames, hRests⟩
    exact ⟨String.toList_inj.mp hNames, (List.cons.inj hRests).2⟩

------------------------------------------------------------
-- Modules
------------------------------------------------------------

/- The characters of words and of the names of modules. -/
def isBareChar
    (c : Char) : Bool :=
  c == '.' || (c == '_' || c.isAlphanum)

theorem forall_mem_intercalate
    {p : Char → Bool}
    {separator : List Char}
    {texts : List (List Char)}
    (hSeparator : ∀ c ∈ separator, p c = true)
    (hTexts : ∀ text ∈ texts, ∀ c ∈ text, p c = true) :
    ∀ c ∈ separator.intercalate texts, p c = true := by
  induction texts with
  | nil => exact fun _ hMember => (List.not_mem_nil hMember).elim
  | cons text texts ih =>
      have hFirst := hTexts text List.mem_cons_self
      have hOthers := ih fun other hMember =>
        hTexts other (List.mem_cons_of_mem text hMember)
      cases texts with
      | nil => simpa using hFirst
      | cons other texts =>
          intro c hMember
          rw [List.intercalate_cons_cons, List.mem_append,
            List.mem_append] at hMember
          rcases hMember with (hMember | hMember) | hMember
          · exact hFirst c hMember
          · exact hSeparator c hMember
          · exact hOthers c hMember

/- The name of a module starts with a capital letter. -/
theorem moduleName?_eq_some
    {name text : List Char}
    (hModule : moduleName? name = some text) :
    name = moduleMark ++ text ∧
      (∀ c ∈ text, isBareChar c = true) ∧
      text.head?.any Char.isUpper = true := by
  unfold moduleName? at hModule
  dsimp only at hModule
  split at hModule
  · rename_i hName
    rcases hName with ⟨hMark, hSegments⟩
    rcases List.isPrefixOf_iff_prefix.mp hMark with ⟨behind, rfl⟩
    rw [List.drop_left] at hSegments hModule
    cases hModule
    have hJoined : ['.'].intercalate (text.splitOn '.') = text :=
      List.intercalate_splitOn '.'
    rw [List.all_eq_true] at hSegments
    have hParts : ∀ segment ∈ text.splitOn '.',
        segment.head?.any Char.isUpper = true ∧
          ∀ c ∈ segment, isBareChar c = true := by
      intro segment hMember
      have hSegment := hSegments segment hMember
      unfold isAliasSegment at hSegment
      rw [Bool.and_eq_true] at hSegment
      refine ⟨hSegment.1, fun c hC => ?_⟩
      unfold isBareChar
      rw [List.all_eq_true.mp hSegment.2 c hC, Bool.or_true]
    refine ⟨rfl, ?_, ?_⟩
    · rw [← hJoined]
      exact forall_mem_intercalate (by simp; decide)
        fun segment hMember => (hParts segment hMember).2
    · cases hSplit : text.splitOn '.' with
      | nil => exact absurd hSplit (List.splitOn_ne_nil _ _)
      | cons segment segments =>
          rw [hSplit] at hParts
          rw [← hJoined, hSplit]
          exact head?_intercalate _ _
            (hParts segment List.mem_cons_self).1
  · cases hModule

------------------------------------------------------------
-- Atoms
------------------------------------------------------------

/- The characters that may stand behind a term. -/
def isCloser
    (c : Char) : Bool :=
  c == ',' || (c == ']' || c == '\x7d')

/- Nothing, or a character that may stand behind a term. -/
def Closes
    (rest : List Char) : Prop :=
  ∀ c ∈ rest.head?, isCloser c = true

/- A class without closers ends where a term is closed. -/
theorem Closes.forall_of
    (hRest : Closes rest)
    (p : Char → Bool)
    (hOther : [',', ']', '\x7d'].any p = false) :
    ∀ c ∈ rest.head?, p c = false := by
  intro c hHead
  have hCloser := hRest c hHead
  unfold isCloser at hCloser
  rw [Bool.eq_false_iff]
  apply List.any_eq_false.mp hOther
  simpa using hCloser

/-
  The name that stands for all atoms that are written like a
  name: the module `Elixir` is written like the atom that all
  names of modules start with.
-/
def settledName
    (name : String) : String :=
  if name = "Elixir.Elixir" then "Elixir" else name

/- The name, settled, of the atom with a text without a colon. -/
def bareName
    (text : List Char) : String :=
  if String.ofList text ∈ wordAtoms then String.ofList text
  else String.ofList (moduleMark ++ text)

/- What may stand behind the colon of an atom. -/
inductive Guise where
| plain
| operator
| quoted
deriving DecidableEq, Repr

/- A name in one of its guises. -/
inductive Guise.Shows : Guise → List Char → List Char → Prop where
| plain
    (name : List Char)
    (hPlain : isPlain name = true) :
    Guise.Shows .plain name name
| operator
    (name : String)
    (hBare : name ∈ bareOperators) :
    Guise.Shows .operator name.toList name.toList
| quoted
    (name : List Char) :
    Guise.Shows .quoted name (binary name)

/- Whether a text starts like that of a binary. -/
def looksQuoted
    (text : List Char) : Bool :=
  text.head? == some '"' ||
    (text.take 2 == ['<', '<'] && text[2]?.any Char.isDigit)

/- The guise that a text starts in. -/
def Guise.of
    (text : List Char) : Guise :=
  if looksQuoted text then .quoted
  else if text.head?.any isNameStart then .plain
  else .operator

/- Operators and what may stand behind them are in one guise. -/
theorem Guise.of_operator
    {name : String}
    (hBare : name ∈ bareOperators)
    (hRest : Closes rest) :
    Guise.of (name.toList ++ rest) = .operator := by
  have hOperators : ∀ name ∈ bareOperators,
      (name.toList.head?.any fun c =>
          c != '"' && !isNameStart c) = true ∧
        (name.toList.take 2 = ['<', '<'] →
          (name.toList[2]?.any fun c => !c.isDigit) = true) := by
    decide
  rcases hOperators name hBare with ⟨hHead, hThird⟩
  generalize name.toList = text at hHead hThird
  cases text with
  | nil => cases hHead
  | cons c text =>
      have hPlain : c ≠ '"' ∧ isNameStart c = false := by
        simpa using hHead
      have hDigits : (c :: text ++ rest).take 2 = ['<', '<'] →
          (c :: text ++ rest)[2]?.any Char.isDigit = false := by
        rcases text with _ | ⟨d, _ | ⟨e, text⟩⟩
        · intro hTake
          -- A closer is no second angle bracket.
          cases rest with
          | nil => cases hTake
          | cons d rest =>
              cases hTake
              cases hRest '<' rfl
        · intro hTake
          cases hThird hTake
        · intro hTake
          simpa using hThird hTake
      have hQuoted : looksQuoted (c :: text ++ rest) = false := by
        unfold looksQuoted
        rw [Bool.or_eq_false_iff, Bool.and_eq_false_iff]
        refine ⟨by simpa using hPlain.1, ?_⟩
        by_cases hTake : (c :: text ++ rest).take 2 = ['<', '<']
        · exact .inr (hDigits hTake)
        · exact .inl (beq_eq_false_iff_ne.mpr hTake)
      unfold Guise.of
      rw [hQuoted]
      simp [hPlain.2]

theorem Guise.of_quoted
    (text : List Char) :
    Guise.of (binary text ++ rest) = .quoted := by
  apply if_pos
  unfold looksQuoted binary
  cases hVisible : text.all isVisible with
  | true => rfl
  | false =>
      rcases exists_byteText hVisible with ⟨c, cs, hText, hDigit⟩
      simp [hText, hDigit]

theorem Guise.Shows.of_eq
    {g : Guise}
    {name text : List Char}
    (hShows : Guise.Shows g name text)
    (hRest : Closes rest) :
    Guise.of (text ++ rest) = g := by
  cases hShows with
  | plain _ hPlain =>
      rcases exists_isNameStart hPlain with ⟨c, cs, rfl, hStart⟩
      have hQuote : c ≠ '"' := by
        rintro rfl
        revert hStart
        decide
      have hAngle : c ≠ '<' := by
        rintro rfl
        revert hStart
        decide
      simp [Guise.of, looksQuoted, hQuote, hAngle, hStart]
  | operator name hBare => exact Guise.of_operator hBare hRest
  | quoted => exact Guise.of_quoted name

/- No operator is the part of another one before a closer. -/
theorem operator_eq_of_append
    {name name' : String}
    {more : List Char}
    (hBare : name ∈ bareOperators)
    (hBare' : name' ∈ bareOperators)
    (hMore : name'.toList = name.toList ++ more)
    (hCloses : Closes (more ++ rest)) :
    name = name' := by
  have hOperators : ∀ name ∈ bareOperators,
      ∀ name' ∈ bareOperators, name.toList <+: name'.toList →
        name = name' ∨
          ((name'.toList.drop name.toList.length).head?.any
            fun c => !isCloser c) = true := by
    decide
  rcases hOperators name hBare name' hBare' ⟨more, hMore.symm⟩ with
    hSame | hOpen
  · exact hSame
  · rw [hMore, List.drop_left] at hOpen
    cases more with
    | nil => cases hOpen
    | cons c more =>
        have hCloser : isCloser c = true := hCloses c rfl
        simp [hCloser] at hOpen

theorem operator_inj
    {name name' : String}
    (hBare : name ∈ bareOperators)
    (hBare' : name' ∈ bareOperators)
    (hRest : Closes rest)
    (hRest' : Closes rest')
    (hEq : name.toList ++ rest = name'.toList ++ rest') :
    name = name' ∧ rest = rest' := by
  have hNames : name = name' := by
    rcases List.append_eq_append_iff.mp hEq with
      ⟨more, hMore, rfl⟩ | ⟨more, hMore, rfl⟩
    · exact operator_eq_of_append hBare hBare' hMore hRest
    · exact (operator_eq_of_append hBare' hBare hMore hRest').symm
  subst hNames
  exact ⟨rfl, List.append_cancel_left hEq⟩

theorem Guise.Shows.inj
    {g g' : Guise}
    {name name' text text' : List Char}
    (hShows : Guise.Shows g name text)
    (hShows' : Guise.Shows g' name' text')
    (hRest : Closes rest)
    (hRest' : Closes rest')
    (hEq : text ++ rest = text' ++ rest') :
    name = name' ∧ rest = rest' := by
  have hGuise : g = g' := by
    rw [← hShows.of_eq hRest, hEq, hShows'.of_eq hRest']
  subst hGuise
  cases hShows with
  | plain _ hPlain =>
      cases hShows' with
      | plain _ hPlain' =>
          exact append_inj_of_all (isNameChar_of_mem hPlain)
            (isNameChar_of_mem hPlain')
            (hRest.forall_of isNameChar (by decide))
            (hRest'.forall_of isNameChar (by decide)) hEq
  | operator name hBare =>
      rcases hShows' with _ | ⟨name', hBare'⟩ | _
      rcases operator_inj hBare hBare' hRest hRest' hEq with
        ⟨rfl, hRests⟩
      exact ⟨rfl, hRests⟩
  | quoted =>
      cases hShows'
      exact binary_inj hEq

/- The module `Elixir` is the only one with the text of a word. -/
theorem settledName_eq_bareName
    {name : String}
    {text : List Char}
    (hName : name.toList = moduleMark ++ text)
    (hUpper : text.head?.any Char.isUpper = true) :
    settledName name = bareName text := by
  have hWhole : name = String.ofList (moduleMark ++ text) := by
    rw [← hName, String.ofList_toList]
  by_cases hRoot : text = "Elixir".toList
  · rw [hWhole, hRoot]
    decide
  · have hNoWord : String.ofList text ∉ wordAtoms := by
      intro hWord
      have hMember : text ∈ wordAtoms.map String.toList := by
        rw [← String.toList_ofList (l := text)]
        exact List.mem_map_of_mem hWord
      have hWords : ∀ word ∈ wordAtoms.map String.toList,
          word.head?.any Char.isUpper = true →
            word = "Elixir".toList := by
        decide
      exact hRoot (hWords text hMember hUpper)
    have hOther : name ≠ "Elixir.Elixir" := by
      rintro rfl
      have hRest : moduleMark ++ "Elixir".toList = moduleMark ++ text :=
        Eq.trans (by decide) hName
      exact hRoot (List.append_cancel_left hRest).symm
    unfold settledName bareName
    rw [if_neg hOther, if_neg hNoWord, hWhole]

/- An atom is written without a colon, or in a guise behind one. -/
theorem atom_cases
    (name : String) :
    ((∀ c ∈ atom name, isBareChar c = true) ∧
        (atom name).head?.any Char.isAlpha = true ∧
        settledName name = bareName (atom name)) ∨
      ∃ g text, atom name = ':' :: text ∧
        Guise.Shows g name.toList text ∧ settledName name = name := by
  by_cases hWord : name ∈ wordAtoms
  · left
    have hAtom : atom name = name.toList := if_pos hWord
    rw [hAtom, bareName, String.ofList_toList, if_pos hWord]
    simp only [wordAtoms, List.mem_cons, List.not_mem_nil,
      or_false] at hWord
    rcases hWord with rfl | rfl | rfl | rfl <;>
      exact ⟨List.all_eq_true.mp (by decide),
        by decide⟩
  cases hModule : moduleName? name.toList with
  | some text =>
      left
      have hAtom : atom name = text := by
        unfold atom
        rw [if_neg hWord, hModule]
      rcases moduleName?_eq_some hModule with
        ⟨hName, hChars, hUpper⟩
      rw [hAtom]
      refine ⟨hChars, ?_, settledName_eq_bareName hName hUpper⟩
      cases text with
      | nil => cases hUpper
      | cons c cs =>
          have hLetter : c.isUpper = true := hUpper
          change (c.isUpper || c.isLower) = true
          rw [hLetter]
          rfl
  | none =>
      right
      have hSettled : settledName name = name := by
        apply if_neg
        rintro rfl
        revert hModule
        decide
      by_cases hBare : isPlain name.toList = true ∨ name ∈ bareOperators
      · have hAtom : atom name = ':' :: name.toList := by
          unfold atom
          rw [if_neg hWord, hModule]
          exact if_pos hBare
        rcases hBare with hPlain | hBare
        · exact ⟨_, _, hAtom, .plain _ hPlain, hSettled⟩
        · exact ⟨_, _, hAtom, .operator _ hBare, hSettled⟩
      · have hAtom : atom name = ':' :: binary name.toList := by
          unfold atom
          rw [if_neg hWord, hModule]
          exact if_neg hBare
        exact ⟨_, _, hAtom, .quoted _, hSettled⟩

/-
  An atom is read back from its text, up to the one pair of
  atoms that are written alike.
-/
theorem atom_inj
    {name name' : String}
    (hRest : Closes rest)
    (hRest' : Closes rest')
    (hEq : atom name ++ rest = atom name' ++ rest') :
    settledName name = settledName name' ∧ rest = rest' := by
  have hColon : ∀ {text more : List Char},
      text.head?.any Char.isAlpha = true →
        ∀ {rest rest' : List Char},
          text ++ rest ≠ ':' :: more ++ rest' := by
    intro text more hLetter rest rest' hEq
    cases text with
    | nil => cases hLetter
    | cons c text =>
        rw [(List.cons.inj hEq).1] at hLetter
        cases hLetter
  rcases atom_cases name with
    ⟨hChars, hLetter, hBare⟩ | ⟨g, text, hText, hShows, hSettled⟩ <;>
    rcases atom_cases name' with
      ⟨hChars', hLetter', hBare'⟩ |
      ⟨g', text', hText', hShows', hSettled'⟩
  · rcases append_inj_of_all hChars hChars'
      (hRest.forall_of isBareChar (by decide))
      (hRest'.forall_of isBareChar (by decide)) hEq with
      ⟨hTexts, hRests⟩
    rw [hBare, hBare', hTexts]
    exact ⟨rfl, hRests⟩
  · rw [hText'] at hEq
    exact absurd hEq (hColon hLetter)
  · rw [hText] at hEq
    exact absurd hEq.symm (hColon hLetter')
  · rw [hText, hText'] at hEq
    rcases hShows.inj hShows' hRest hRest' (List.cons.inj hEq).2 with
      ⟨hNames, hRests⟩
    rw [hSettled, hSettled']
    exact ⟨String.toList_inj.mp hNames, hRests⟩

end Literal

end ElixirReader
