import ElixirReader.Proofs.Term.Texts

/-
  This file proves what the text of a term tells about it. Two
  terms without floating point numbers are written alike only
  if they are the same, except that the module `Elixir` looks
  like the atom `Elixir` wherever it is no key.

  Key definitions include:
    * `Term.isExact`
    * `Term.settled`
    * `Term.Shape`

  Main declarations:
    * `Term.characters_inj`
    * `Term.characters_settled`
    * `Term.inspect_eq_iff`
-/

namespace ElixirReader

namespace Term

open Literal (Closes settledName)

------------------------------------------------------------
-- Terms
------------------------------------------------------------

/- Whether there are no floating point numbers in a term. -/
mutual
def isExact : Term → Bool
| .atom _ => true
| .integer _ => true
| .float _ => false
| .binary _ => true
| .list items => areExact items
| .tuple items => areExact items
termination_by structural t => t

def areExact : List Term → Bool
| [] => true
| t :: ts => t.isExact && areExact ts
termination_by structural ts => ts
end

/-
  The term that stands for all terms that are written alike. A
  key is always written in full, and stays as it is.
-/
mutual
def settled : Term → Term
| .atom name => .atom (settledName name)
| .integer value => .integer value
| .float value => .float value
| .binary text => .binary text
| .list items =>
    if areKeyed items then .list (settledPairs items)
    else .list (settledAll items)
| .tuple items => .tuple (settledAll items)
termination_by structural t => t

def settledAll : List Term → List Term
| [] => []
| t :: ts => t.settled :: settledAll ts
termination_by structural ts => ts

/- The values of pairs are settled, and not their keys. -/
def settledPairs : List Term → List Term
| .tuple [key, value] :: ts =>
    .tuple [key, value.settled] :: settledPairs ts
| t :: ts => t :: settledPairs ts
| [] => []
termination_by structural ts => ts
end

------------------------------------------------------------
-- Items
------------------------------------------------------------

theorem areExact_iff
    (items : List Term) :
    areExact items = true ↔ ∀ t ∈ items, t.isExact = true := by
  induction items with
  | nil => simp [areExact]
  | cons t ts ih => simp [areExact, ih]

theorem charactersOfAll_eq_map
    (items : List Term) :
    charactersOfAll items = items.map characters := by
  induction items with
  | nil => rfl
  | cons t ts ih => rw [charactersOfAll, ih, List.map_cons]

theorem settledAll_eq_map
    (items : List Term) :
    settledAll items = items.map settled := by
  induction items with
  | nil => rfl
  | cons t ts ih => rw [settledAll, ih, List.map_cons]

/- A pair with an atom key as a term. -/
def ofEntry
    (entry : String × Term) : Term :=
  pair (.atom entry.1) entry.2

/- The text of a pair in a keyword list. -/
def entryText
    (entry : String × Term) : List Char :=
  Literal.key entry.1 ++ ' ' :: entry.2.characters

theorem exists_entries
    {items : List Term}
    (hKeyed : items.all isKeyed = true) :
    ∃ entries : List (String × Term),
      items = entries.map ofEntry := by
  induction items with
  | nil => exact ⟨[], rfl⟩
  | cons t ts ih =>
      rw [List.all_cons, Bool.and_eq_true] at hKeyed
      rcases ih hKeyed.2 with ⟨entries, rfl⟩
      have hPair := hKeyed.1
      unfold isKeyed keyed? at hPair
      split at hPair
      · rename_i key value
        exact ⟨(key, value) :: entries, rfl⟩
      · cases hPair

theorem charactersOfKeyed_map_ofEntry
    (entries : List (String × Term)) :
    charactersOfKeyed (entries.map ofEntry) =
      entries.map entryText := by
  induction entries with
  | nil => rfl
  | cons entry entries ih =>
      rw [List.map_cons, List.map_cons, ← ih]
      simp [ofEntry, pair, charactersOfKeyed, entryText]

theorem settledPairs_map_ofEntry
    (entries : List (String × Term)) :
    settledPairs (entries.map ofEntry) =
      entries.map fun entry => ofEntry (entry.1, entry.2.settled) := by
  induction entries with
  | nil => rfl
  | cons entry entries ih =>
      rw [List.map_cons, List.map_cons, ← ih]
      rfl

------------------------------------------------------------
-- Lists
------------------------------------------------------------

/- A value of a keyword list is smaller than the list. -/
theorem sizeOf_entry_lt
    {entries : List (String × Term)}
    {entry : String × Term}
    (hMember : entry ∈ entries) :
    sizeOf entry.2 < sizeOf (entries.map ofEntry) := by
  have hPair : ofEntry entry ∈ entries.map ofEntry :=
    List.mem_map_of_mem hMember
  have hSize := List.sizeOf_lt_of_mem hPair
  change sizeOf (tuple [atom entry.1, entry.2]) < _ at hSize
  simp only [tuple.sizeOf_spec, List.cons.sizeOf_spec] at hSize
  omega

theorem areKeyed_map_ofEntry
    {entries : List (String × Term)}
    (hSome : entries ≠ []) :
    areKeyed (entries.map ofEntry) = true := by
  have hKeyed : ∀ t ∈ entries.map ofEntry, t.isKeyed = true := by
    intro t hMember
    rcases List.mem_map.mp hMember with ⟨entry, _, rfl⟩
    rfl
  unfold areKeyed
  rw [Bool.and_eq_true, decide_eq_true_eq]
  exact ⟨by simpa using hSome, List.all_eq_true.mpr hKeyed⟩

theorem characters_list_entries
    {entries : List (String × Term)}
    (hSome : entries ≠ []) :
    (list (entries.map ofEntry)).characters =
      '[' :: (", ".toList.intercalate (entries.map entryText) ++
        [']']) := by
  rw [characters, if_pos (areKeyed_map_ofEntry hSome),
    charactersOfKeyed_map_ofEntry]
  rfl

theorem characters_list_items
    {items : List Term}
    (hPlain : areKeyed items = false) :
    (list items).characters =
      '[' :: (", ".toList.intercalate (items.map characters) ++
        [']']) := by
  rw [characters, if_neg (by rw [hPlain]; decide),
    charactersOfAll_eq_map]
  rfl

/- A list is a keyword list, or is written item by item. -/
theorem list_cases
    (items : List Term) :
    (∃ entries : List (String × Term), entries ≠ [] ∧
        items = entries.map ofEntry ∧
        (list items).settled =
          list (entries.map fun entry =>
            ofEntry (entry.1, entry.2.settled))) ∨
      areKeyed items = false ∧
        (list items).settled = list (items.map settled) := by
  cases hKeyed : areKeyed items with
  | true =>
      have hSplit := hKeyed
      unfold areKeyed at hSplit
      rw [Bool.and_eq_true, decide_eq_true_eq] at hSplit
      rcases exists_entries hSplit.2 with ⟨entries, rfl⟩
      refine .inl ⟨entries, ?_, rfl, ?_⟩
      · rintro rfl
        exact hSplit.1 rfl
      · rw [settled, if_pos hKeyed, settledPairs_map_ofEntry]
  | false =>
      refine .inr ⟨rfl, ?_⟩
      rw [settled, if_neg (by rw [hKeyed]; decide),
        settledAll_eq_map]

------------------------------------------------------------
-- Shapes
------------------------------------------------------------

inductive Shape where
| atom
| integer
| binary
| list
| tuple
deriving DecidableEq, Repr

/- The shape of a term; numbers have one shape. -/
def shape : Term → Shape
| .atom _ => .atom
| .integer _ => .integer
| .float _ => .integer
| .binary _ => .binary
| .list _ => .list
| .tuple _ => .tuple

/- The shape of a term whose text starts with a character. -/
def Shape.of?
    (c : Char) : Option Shape :=
  if c = '[' then some .list
  else if c = '\x7b' then some .tuple
  else if c = '"' ∨ c = '<' then some .binary
  else if c = '-' ∨ c.isDigit then some .integer
  else if c = ':' ∨ isNameStart c then some .atom
  else none

theorem Shape.of?_of_isNameStart
    {c : Char}
    (hStart : isNameStart c = true) :
    Shape.of? c = some .atom := by
  by_cases hAscii : c.toNat < 128
  · have hShape :=
      of_ascii
        (fun c => !isNameStart c || Shape.of? c == some .atom)
        hAscii (by decide)
    simpa [hStart] using hShape
  · have hOther : ∀ d : Char, d.toNat < 128 → c ≠ d := by
      rintro d hBound rfl
      exact hAscii hBound
    have hDigit : c.isDigit = false := by
      rw [← Bool.not_eq_true]
      exact fun hDigit => hAscii (ascii_of_isDigit hDigit)
    simp [Shape.of?, hStart, hDigit, hOther '[' (by decide),
      hOther '\x7b' (by decide), hOther '"' (by decide),
      hOther '<' (by decide), hOther '-' (by decide)]

theorem Shape.of?_of_isAlpha
    {c : Char}
    (hLetter : c.isAlpha = true) :
    Shape.of? c = some .atom := by
  have hAlphanum : c.isAlphanum = true := by
    rw [Char.isAlphanum, hLetter]
    rfl
  have hShape :=
    of_ascii (fun c => !c.isAlpha || Shape.of? c == some .atom)
      (ascii_of_isAlphanum hAlphanum) (by decide)
  simpa [hLetter] using hShape

theorem Shape.of?_of_isDigit
    {c : Char}
    (hDigit : c.isDigit = true) :
    Shape.of? c = some .integer := by
  have hShape :=
    of_ascii (fun c => !c.isDigit || Shape.of? c == some .integer)
      (ascii_of_isDigit hDigit) (by decide)
  simpa [hDigit] using hShape

theorem Shape.exists_atom
    (name : String) :
    ∃ c cs, Literal.atom name = c :: cs ∧
      Shape.of? c = some .atom := by
  rcases Literal.atom_cases name with
    ⟨_, hLetter, _⟩ | ⟨_, text, hText, _⟩
  · cases hAtom : Literal.atom name with
    | nil =>
        rw [hAtom] at hLetter
        cases hLetter
    | cons c cs =>
        rw [hAtom] at hLetter
        exact ⟨c, cs, rfl, Shape.of?_of_isAlpha hLetter⟩
  · exact ⟨':', text, hText, rfl⟩

theorem Shape.exists_binary
    (text : List Char) :
    ∃ c cs, Literal.binary text = c :: cs ∧
      Shape.of? c = some .binary := by
  rcases Literal.exists_binary text with ⟨c, cs, hText, _, hMark⟩
  refine ⟨c, cs, hText, ?_⟩
  rcases hMark with rfl | rfl <;> decide

theorem Shape.exists_integerText
    (value : Int) :
    ∃ c cs, integerText value = c :: cs ∧
      Shape.of? c = some .integer := by
  unfold integerText
  split
  · exact ⟨'-', _, rfl, by decide⟩
  · rcases exists_decimalDigits value.natAbs with
      ⟨c, cs, hDigits, hDigit⟩
    exact ⟨c, cs, hDigits, Shape.of?_of_isDigit hDigit⟩

/- The first character of a term gives away its shape. -/
theorem exists_shape
    {t : Term}
    (hExact : t.isExact = true) :
    ∃ c cs, t.characters = c :: cs ∧ Shape.of? c = some t.shape := by
  cases t with
  | atom name => exact Shape.exists_atom name
  | integer value => exact Shape.exists_integerText value
  | float value => cases hExact
  | binary text => exact Shape.exists_binary text.toList
  | list items =>
      rcases list_cases items with
        ⟨entries, hSome, rfl, _⟩ | ⟨hPlain, _⟩
      · exact ⟨_, _, characters_list_entries hSome, rfl⟩
      · exact ⟨_, _, characters_list_items hPlain, rfl⟩
  | tuple items => exact ⟨_, _, rfl, rfl⟩

/- Terms of two shapes have two texts, whatever stands behind them. -/
theorem shape_eq
    {t u : Term}
    {rest rest' : List Char}
    (hT : t.isExact = true)
    (hU : u.isExact = true)
    (hEq : t.characters ++ rest = u.characters ++ rest') :
    t.shape = u.shape := by
  rcases exists_shape hT with ⟨c, cs, hTextT, hShapeT⟩
  rcases exists_shape hU with ⟨d, ds, hTextU, hShapeU⟩
  rw [hTextT, hTextU] at hEq
  rw [(List.cons.inj hEq).1, hShapeU] at hShapeT
  exact (Option.some.inj hShapeT).symm

/- A key starts like an atom or a binary. -/
theorem exists_key
    (name : String) :
    ∃ c cs, Literal.key name = c :: cs ∧
      (Shape.of? c = some .atom ∨ Shape.of? c = some .binary) := by
  unfold Literal.key
  split
  · rename_i hPlain
    rcases Literal.exists_isNameStart hPlain with
      ⟨c, cs, hName, hStart⟩
    exact ⟨c, cs ++ [':'], by rw [hName, List.cons_append],
      .inl (Shape.of?_of_isNameStart hStart)⟩
  · rcases Shape.exists_binary name.toList with ⟨c, cs, hText, hShape⟩
    exact ⟨c, cs ++ [':'], by rw [hText, List.cons_append],
      .inr hShape⟩

/- A text with a known first character is of the shape it shows. -/
theorem shape_of_head
    {t : Term}
    {c : Char}
    {shape : Shape}
    {more rest : List Char}
    (hExact : t.isExact = true)
    (hShape : Shape.of? c = some shape)
    (hEq : c :: more = t.characters ++ rest) :
    t.shape = shape := by
  rcases exists_shape hExact with ⟨d, ds, hText, hOther⟩
  rw [hText] at hEq
  rw [(List.cons.inj hEq).1, hOther] at hShape
  exact Option.some.inj hShape

/- No name with a colon behind it is an atom that is closed. -/
theorem name_ne_atom
    {key name : String}
    {more rest : List Char}
    (hPlain : Literal.isPlain key.toList = true)
    (hRest : Closes rest) :
    key.toList ++ ':' :: more ≠ Literal.atom name ++ rest := by
  intro hEq
  rcases Literal.atom_cases name with
    ⟨hChars, _⟩ | ⟨_, text, hText, _⟩
  · let p : Char → Bool :=
      fun c => Literal.isNameChar c || Literal.isBareChar c
    have hKey : ∀ c ∈ key.toList, p c = true := by
      intro c hMember
      change (_ || _) = true
      rw [Literal.isNameChar_of_mem hPlain c hMember, Bool.true_or]
    have hName : ∀ c ∈ Literal.atom name, p c = true := by
      intro c hMember
      change (_ || _) = true
      rw [hChars c hMember, Bool.or_true]
    have hColon : ∀ c ∈ (':' :: more).head?, p c = false := by
      rintro c ⟨⟩
      decide
    rcases append_inj_of_all hKey hName hColon
      (hRest.forall_of p (by decide)) hEq with ⟨_, rfl⟩
    exact absurd (hRest ':' rfl) (by decide)
  · rcases Literal.exists_isNameStart hPlain with
      ⟨c, cs, hKey, hStart⟩
    rw [hKey, hText] at hEq
    rw [(List.cons.inj hEq).1] at hStart
    revert hStart
    decide

/- No key is a term in front of something that may stand there. -/
theorem key_ne_characters
    {t : Term}
    {name : String}
    {more rest : List Char}
    (hExact : t.isExact = true)
    (hRest : Closes rest) :
    Literal.key name ++ more ≠ t.characters ++ rest := by
  intro hEq
  unfold Literal.key at hEq
  split at hEq
  · rename_i hPlain
    rcases Literal.exists_isNameStart hPlain with
      ⟨c, cs, hName, hStart⟩
    rw [List.append_assoc] at hEq
    have hShape : t.shape = .atom := by
      rw [hName] at hEq
      exact shape_of_head hExact (Shape.of?_of_isNameStart hStart) hEq
    cases t with
    | atom other => exact name_ne_atom hPlain hRest hEq
    | _ => cases hShape
  · rcases Shape.exists_binary name.toList with
      ⟨c, cs, hText, hBinary⟩
    rw [List.append_assoc] at hEq
    have hShape : t.shape = .binary := by
      rw [hText] at hEq
      exact shape_of_head hExact hBinary hEq
    cases t with
    | binary text =>
        rcases Literal.binary_inj hEq with ⟨_, rfl⟩
        exact absurd (hRest ':' rfl) (by decide)
    | _ => cases hShape

------------------------------------------------------------
-- Reading back
------------------------------------------------------------

/- Two terms whose texts are the same only if they look alike. -/
abbrev Told : Term → Term → Prop :=
  ReadsBack characters (fun t u => t.settled = u.settled) Closes

theorem closes_cons
    {c : Char}
    (hCloser : Literal.isCloser c = true)
    (rest : List Char) :
    Closes (c :: rest) := by
  rintro d ⟨⟩
  exact hCloser

/- No term starts with a character that may stand behind one. -/
theorem ne_of_isCloser
    {c closer : Char}
    {shape : Shape}
    (hShape : Shape.of? c = some shape)
    (hCloser : Literal.isCloser closer = true) :
    c ≠ closer := by
  have hClosers :
      [',', ']', '\x7d'].all (fun d => (Shape.of? d).isNone) =
        true := by
    decide
  rintro rfl
  have hNone : Shape.of? c = none := by
    apply Option.isNone_iff_eq_none.mp
    apply List.all_eq_true.mp hClosers
    simpa [Literal.isCloser] using hCloser
  rw [hNone] at hShape
  cases hShape

theorem map_eq_of_forall₂
    {α β : Type}
    {f : α → β}
    {as bs : List α}
    (hPairs : List.Forall₂ (fun a b => f a = f b) as bs) :
    as.map f = bs.map f := by
  rw [← List.forall₂_eq_eq_eq, List.forall₂_map_left_iff,
    List.forall₂_map_right_iff]
  exact hPairs

/- A sequence of terms in front of a closing bracket. -/
theorem sequence_inj
    {closer : Char}
    {ts us : List Term}
    {rest rest' : List Char}
    (hCloser : Literal.isCloser closer = true)
    (hOther : closer ≠ ',')
    (hTs : ∀ t ∈ ts, t.isExact = true)
    (hUs : ∀ u ∈ us, u.isExact = true)
    (hTold : ∀ t ∈ ts, ∀ u ∈ us, Told t u)
    (hEq :
      ", ".toList.intercalate (ts.map characters) ++ closer :: rest =
        ", ".toList.intercalate (us.map characters) ++
          closer :: rest') :
    ts.map settled = us.map settled ∧ rest = rest' := by
  have hHeads : ∀ t ∈ ts ++ us,
      ∃ c cs, t.characters = c :: cs ∧ c ≠ closer := by
    intro t hMember
    have hExact : t.isExact = true :=
      (List.mem_append.mp hMember).elim (hTs t) (hUs t)
    rcases exists_shape hExact with ⟨c, cs, hText, hShape⟩
    exact ⟨c, cs, hText, ne_of_isCloser hShape hCloser⟩
  rcases intercalate_inj (closes_cons rfl) (closes_cons hCloser)
    hOther hHeads hTold hEq with ⟨hItems, hRests⟩
  exact ⟨map_eq_of_forall₂ hItems, hRests⟩

/- A pair is read back from its key and its value. -/
theorem entry_inj
    {entry entry' : String × Term}
    (hTold : Told entry.2 entry'.2) :
    ReadsBack entryText
      (fun a b =>
        ofEntry (a.1, a.2.settled) = ofEntry (b.1, b.2.settled))
      Closes entry entry' := by
  intro rest rest' hRest hRest' hEq
  unfold entryText at hEq
  rw [List.append_assoc, List.append_assoc] at hEq
  rcases Literal.key_inj hEq with ⟨hKeys, hValues⟩
  rcases hTold hRest hRest' (List.cons.inj hValues).2 with
    ⟨hSettled, hRests⟩
  exact ⟨by simp only [hKeys, hSettled], hRests⟩

theorem exists_entryText
    (entry : String × Term) :
    ∃ c cs, entryText entry = c :: cs ∧ c ≠ ']' := by
  rcases exists_key entry.1 with ⟨c, cs, hKey, hShape⟩
  refine ⟨c, cs ++ ' ' :: entry.2.characters, ?_, ?_⟩
  · rw [entryText, hKey, List.cons_append]
  · rcases hShape with hShape | hShape <;>
      exact ne_of_isCloser hShape rfl

/- The same for the pairs of a keyword list. -/
theorem entries_inj
    {entries entries' : List (String × Term)}
    {rest rest' : List Char}
    (hTold : ∀ a ∈ entries, ∀ b ∈ entries', Told a.2 b.2)
    (hEq :
      ", ".toList.intercalate (entries.map entryText) ++
          ']' :: rest =
        ", ".toList.intercalate (entries'.map entryText) ++
          ']' :: rest') :
    entries.map (fun a => ofEntry (a.1, a.2.settled)) =
        entries'.map (fun a => ofEntry (a.1, a.2.settled)) ∧
      rest = rest' := by
  rcases intercalate_inj (closes_cons rfl) (closes_cons rfl)
    (by decide) (fun a _ => exists_entryText a)
    (fun a hA b hB => entry_inj (hTold a hA b hB)) hEq with
    ⟨hItems, hRests⟩
  exact ⟨map_eq_of_forall₂ hItems, hRests⟩

/- A keyword list does not look like any other list. -/
theorem entries_ne_sequence
    {entries : List (String × Term)}
    {us : List Term}
    {rest rest' : List Char}
    (hSome : entries ≠ [])
    (hUs : ∀ u ∈ us, u.isExact = true) :
    ", ".toList.intercalate (entries.map entryText) ++ ']' :: rest ≠
      ", ".toList.intercalate (us.map characters) ++
        ']' :: rest' := by
  intro hEq
  cases entries with
  | nil => exact hSome rfl
  | cons entry entries =>
      rw [intercalate_map_cons, List.append_assoc] at hEq
      cases us with
      | nil =>
          rcases exists_entryText entry with ⟨c, cs, hText, hOther⟩
          rw [hText] at hEq
          exact hOther (List.cons.inj hEq).1
      | cons u us =>
          rw [intercalate_map_cons, List.append_assoc, entryText,
            List.append_assoc] at hEq
          refine key_ne_characters (hUs u List.mem_cons_self) ?_ hEq
          cases us with
          | nil => exact closes_cons rfl rest'
          | cons v us => exact closes_cons rfl _

theorem isExact_entry
    {entries : List (String × Term)}
    {entry : String × Term}
    (hExact : ∀ t ∈ entries.map ofEntry, t.isExact = true)
    (hMember : entry ∈ entries) :
    entry.2.isExact = true := by
  have hInside := hExact _ (List.mem_map_of_mem hMember)
  simpa [ofEntry, pair, isExact, areExact] using hInside

/- Lists are read back if the terms inside of them are. -/
theorem list_inj
    {ts us : List Term}
    (hTs : ∀ t ∈ ts, t.isExact = true)
    (hUs : ∀ u ∈ us, u.isExact = true)
    (hInside : ∀ t u, sizeOf t < sizeOf ts → t.isExact = true →
      u.isExact = true → Told t u) :
    Told (list ts) (list us) := by
  intro rest rest' _ _ hEq
  change settled _ = settled _ ∧ _
  rcases list_cases ts with
    ⟨entries, hSome, rfl, hSettled⟩ | ⟨hPlain, hSettled⟩ <;>
    rcases list_cases us with
      ⟨entries', hSome', rfl, hSettled'⟩ | ⟨hPlain', hSettled'⟩ <;>
    rw [hSettled, hSettled']
  · rw [characters_list_entries hSome, characters_list_entries hSome'] at hEq
    simp only [List.cons_append, List.append_assoc,
      List.nil_append] at hEq
    have hTold : ∀ a ∈ entries, ∀ b ∈ entries', Told a.2 b.2 := by
      intro a hA b hB
      exact hInside a.2 b.2 (sizeOf_entry_lt hA)
        (isExact_entry hTs hA) (isExact_entry hUs hB)
    rcases entries_inj hTold (List.cons.inj hEq).2 with
      ⟨hEntries, hRests⟩
    rw [hEntries]
    exact ⟨rfl, hRests⟩
  · rw [characters_list_entries hSome, characters_list_items hPlain'] at hEq
    simp only [List.cons_append, List.append_assoc,
      List.nil_append] at hEq
    exact absurd (List.cons.inj hEq).2
      (entries_ne_sequence hSome hUs)
  · rw [characters_list_items hPlain, characters_list_entries hSome'] at hEq
    simp only [List.cons_append, List.append_assoc,
      List.nil_append] at hEq
    exact absurd (List.cons.inj hEq).2.symm
      (entries_ne_sequence hSome' hTs)
  · rw [characters_list_items hPlain, characters_list_items hPlain'] at hEq
    simp only [List.cons_append, List.append_assoc,
      List.nil_append] at hEq
    have hTold : ∀ t ∈ ts, ∀ u ∈ us, Told t u := fun t hT u hU =>
      hInside t u (List.sizeOf_lt_of_mem hT) (hTs t hT) (hUs u hU)
    rcases sequence_inj rfl (by decide) hTs hUs hTold
      (List.cons.inj hEq).2 with ⟨hItems, hRests⟩
    rw [hItems]
    exact ⟨rfl, hRests⟩

theorem tuple_inj
    {ts us : List Term}
    (hTs : ∀ t ∈ ts, t.isExact = true)
    (hUs : ∀ u ∈ us, u.isExact = true)
    (hTold : ∀ t ∈ ts, ∀ u ∈ us, Told t u) :
    Told (tuple ts) (tuple us) := by
  intro rest rest' _ _ hEq
  have hText : ∀ (items : List Term) (rest : List Char),
      (tuple items).characters ++ rest =
        '\x7b' :: (", ".toList.intercalate (items.map characters) ++
          '\x7d' :: rest) := by
    intro items rest
    rw [characters, charactersOfAll_eq_map]
    simp
  rw [hText, hText] at hEq
  rcases sequence_inj rfl (by decide) hTs hUs hTold
    (List.cons.inj hEq).2 with ⟨hItems, hRests⟩
  refine ⟨?_, hRests⟩
  change tuple (settledAll ts) = tuple (settledAll us)
  rw [settledAll_eq_map, settledAll_eq_map, hItems]

/- What may stand behind a term is no digit. -/
theorem isDigit_of_closes
    {rest : List Char}
    (hRest : Closes rest) :
    ∀ c ∈ rest.head?, c.isDigit = false :=
  hRest.forall_of Char.isDigit (by decide)

/-
  A term is read back from its text, as far as it can be. The
  induction is on a bound of the size of the first term.
-/
theorem told_of_sizeOf_lt
    {n : Nat}
    {t u : Term}
    (hSize : sizeOf t < n)
    (hT : t.isExact = true)
    (hU : u.isExact = true) :
    Told t u := by
  induction n generalizing t u with
  | zero => omega
  | succ n ih =>
      intro rest rest' hRest hRest' hEq
      have hShape := shape_eq hT hU hEq
      cases t with
      | atom name =>
          cases u with
          | atom name' =>
              rcases Literal.atom_inj hRest hRest' hEq with
                ⟨hNames, hRests⟩
              exact ⟨congrArg atom hNames, hRests⟩
          | _ => cases hShape
      | integer value =>
          cases u with
          | integer value' =>
              rcases integerText_inj (isDigit_of_closes hRest)
                (isDigit_of_closes hRest') hEq with ⟨rfl, hRests⟩
              exact ⟨rfl, hRests⟩
          | float value' => cases hU
          | _ => cases hShape
      | float value => cases hT
      | binary text =>
          cases u with
          | binary text' =>
              rcases Literal.binary_inj hEq with ⟨hTexts, hRests⟩
              rw [String.toList_inj.mp hTexts]
              exact ⟨rfl, hRests⟩
          | _ => cases hShape
      | list ts =>
          cases u with
          | list us =>
              have hFewer : sizeOf ts < n := by
                rw [list.sizeOf_spec] at hSize
                omega
              exact list_inj ((areExact_iff ts).mp hT)
                ((areExact_iff us).mp hU)
                (fun t u hLess => ih (hLess.trans hFewer))
                hRest hRest' hEq
          | _ => cases hShape
      | tuple ts =>
          cases u with
          | tuple us =>
              have hTs := (areExact_iff ts).mp hT
              have hUs := (areExact_iff us).mp hU
              have hTold : ∀ t ∈ ts, ∀ u ∈ us, Told t u := by
                intro t hMember u hMember'
                have hLess := List.sizeOf_lt_of_mem hMember
                rw [tuple.sizeOf_spec] at hSize
                exact ih (by omega) (hTs t hMember) (hUs u hMember')
              exact tuple_inj hTs hUs hTold hRest hRest' hEq
          | _ => cases hShape

------------------------------------------------------------
-- Settled terms
------------------------------------------------------------

theorem atom_settledName
    (name : String) :
    Literal.atom (settledName name) = Literal.atom name := by
  by_cases hRoot : name = "Elixir.Elixir"
  · subst hRoot
    decide
  · rw [settledName, if_neg hRoot]

theorem isKeyed_tuple_of_length
    {items : List Term}
    (hLength : items.length ≠ 2) :
    (tuple items).isKeyed = false := by
  unfold isKeyed keyed?
  split
  · rename_i hPair
    cases hPair
    exact absurd rfl hLength
  · rfl

/- Only atoms are settled to atoms, so no pair gets a key. -/
theorem isKeyed_settled
    (t : Term) :
    t.settled.isKeyed = t.isKeyed := by
  cases t with
  | tuple items =>
      by_cases hLength : items.length = 2
      · rcases List.length_eq_two.mp hLength with ⟨key, value, rfl⟩
        cases key with
        | list items =>
            change isKeyed (tuple [settled (list items), _]) = _
            rcases list_cases items with
              ⟨_, _, _, hSettled⟩ | ⟨_, hSettled⟩ <;>
              rw [hSettled] <;> rfl
        | _ => rfl
      · rw [settled, settledAll_eq_map,
          isKeyed_tuple_of_length (by simpa using hLength),
          isKeyed_tuple_of_length hLength]
  | list items =>
      rcases list_cases items with
        ⟨_, _, _, hSettled⟩ | ⟨_, hSettled⟩ <;> rw [hSettled] <;> rfl
  | _ => rfl

theorem areKeyed_map_settled
    (items : List Term) :
    areKeyed (items.map settled) = areKeyed items := by
  unfold areKeyed
  congr 1
  · simp
  · rw [List.all_map]
    exact congrArg items.all (funext isKeyed_settled)

theorem map_characters_settled
    {items : List Term}
    (hItems : ∀ t : Term, sizeOf t < sizeOf items →
      t.settled.characters = t.characters) :
    items.map (characters ∘ settled) = items.map characters :=
  List.map_congr_left fun t hMember =>
    hItems t (List.sizeOf_lt_of_mem hMember)

/-
  A term is written like the one that stands for it. The
  induction is on a bound of the size of the term.
-/
theorem characters_settled_of_sizeOf_lt
    {n : Nat}
    {t : Term}
    (hSize : sizeOf t < n) :
    t.settled.characters = t.characters := by
  induction n generalizing t with
  | zero => omega
  | succ n ih =>
      cases t with
      | atom name => exact atom_settledName name
      | integer value => rfl
      | float value => rfl
      | binary text => rfl
      | list items =>
          rw [list.sizeOf_spec] at hSize
          rcases list_cases items with
            ⟨entries, hSome, rfl, hSettled⟩ | ⟨hPlain, hSettled⟩
          · let inside := fun entry : String × Term =>
              (entry.1, entry.2.settled)
            have hSome' : entries.map inside ≠ [] := by
              simpa using hSome
            have hTexts : (entries.map inside).map entryText =
                entries.map entryText := by
              rw [List.map_map]
              apply List.map_congr_left
              intro entry hMember
              have hLess := sizeOf_entry_lt hMember
              unfold Function.comp entryText
              rw [ih (by omega)]
            have hEntries :
                (entries.map fun entry =>
                    ofEntry (entry.1, entry.2.settled)) =
                  (entries.map inside).map ofEntry := by
              rw [List.map_map]
              rfl
            rw [hSettled, hEntries, characters_list_entries hSome',
              characters_list_entries hSome, hTexts]
          · have hPlain' : areKeyed (items.map settled) = false := by
              rw [areKeyed_map_settled, hPlain]
            rw [hSettled, characters_list_items hPlain',
              characters_list_items hPlain, List.map_map]
            rw [map_characters_settled fun t hLess =>
              ih (by omega)]
      | tuple items =>
          rw [tuple.sizeOf_spec] at hSize
          rw [settled, characters, characters, charactersOfAll_eq_map,
            charactersOfAll_eq_map, settledAll_eq_map, List.map_map,
            map_characters_settled fun t hLess => ih (by omega)]

/-
  Two terms without floating point numbers have the same text
  exactly if they are the same up to the two atoms that are
  written alike.
-/
theorem inspect_eq_iff
    {t u : Term}
    (hT : t.isExact = true)
    (hU : u.isExact = true) :
    t.inspect = u.inspect ↔ t.settled = u.settled := by
  constructor
  · intro hEq
    have hTexts : t.characters ++ [] = u.characters ++ [] := by
      rw [List.append_nil, List.append_nil]
      exact String.ofList_injective hEq
    have hNothing : Closes [] := by
      rintro c ⟨⟩
    exact (told_of_sizeOf_lt (Nat.lt_succ_self _) hT hU hNothing
      hNothing hTexts).1
  · intro hEq
    unfold inspect
    rw [← characters_settled_of_sizeOf_lt (Nat.lt_succ_self (sizeOf t)),
      hEq, characters_settled_of_sizeOf_lt (Nat.lt_succ_self _)]

/- The two atoms as values, behind the longer one as a key. -/
theorem inspect_eq_iff_module :
    let t := keywords [("Elixir.Elixir", .atom "Elixir.Elixir")]
    let u := keywords [("Elixir.Elixir", .atom "Elixir")]
    t.isExact = true ∧ u.isExact = true ∧
      (t.inspect = u.inspect ↔ t.settled = u.settled) ∧
      t.inspect = "[\"Elixir.Elixir\": Elixir]" :=
  ⟨by decide, by decide,
    inspect_eq_iff (by decide) (by decide),
    by decide⟩

/- The two atoms are not the same, but they look the same. -/
theorem inspect_root :
    (atom "Elixir").isExact = true ∧
      (atom "Elixir.Elixir").isExact = true ∧
      (atom "Elixir").inspect = (atom "Elixir.Elixir").inspect ∧
      atom "Elixir" ≠ atom "Elixir.Elixir" := by
  decide

end Term

end ElixirReader
