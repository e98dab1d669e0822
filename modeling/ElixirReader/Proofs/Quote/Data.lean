import ElixirReader.Proofs.Quote.Containers
import ElixirReader.Proofs.Quote.Operations
import Mathlib.Data.List.Induction

/-
  This file shows that data are read as they are written:
  numbers, atoms, binaries, lists, tuples and maps, nested in
  each other. Pairs with atom keys are written in two ways, as
  tuples and as keys with their values, and both are read as
  the same pairs. There is one gap: the atom `Elixir` is
  written without a colon, and is read as the name of a module.

  Key definitions include:
    * `IsData`
    * `LaysOperand`
    * `LaysPair`

  Main declarations:
    * `exists_text_list`
    * `laysOperand_list`
    * `laysOperand_map`
    * `IsData.laysOperand`
    * `quoteSource_render_data`
-/

namespace ElixirReader

open Parse

------------------------------------------------------------
-- Data
------------------------------------------------------------

/- A pair with an atom key. -/
def Term.keyed
    (p : String × Term) : Term :=
  .pair (.atom p.1) p.2

/-
  The terms that are data. `Bare` says which atoms there are,
  apart from those that are written as keys: of the pairs at
  the end of a list, or of all entries of a map.
-/
inductive IsData (Bare : String → Prop) : Term → Prop where
| integer
    (value : Nat) :
    IsData Bare (.integer value)
| binary
    (content : String)
    (hVisible : content.toList.all Literal.isVisible = true) :
    IsData Bare (.binary content)
| atom
    (name : String)
    (hPlain : Literal.isPlain name.toList = true)
    (hBare : Bare name) :
    IsData Bare (.atom name)
| list
    (items : List Term)
    (pairs : List (String × Term))
    (hItems : ∀ t ∈ items, IsData Bare t)
    (hKeys : ∀ p ∈ pairs, Literal.isPlain p.1.toList = true)
    (hValues : ∀ p ∈ pairs, IsData Bare p.2) :
    IsData Bare (.list (items ++ pairs.map Term.keyed))
| pair
    (first second : Term)
    (hFirst : IsData Bare first)
    (hSecond : IsData Bare second) :
    IsData Bare (.pair first second)
| tuple
    (items : List Term)
    (hLength : items.length ≠ 2)
    (hItems : ∀ t ∈ items, IsData Bare t) :
    IsData Bare (.operation "\x7b\x7d" items)
| map
    (entries : List (Term × Term))
    (hKeys : ∀ e ∈ entries, IsData Bare e.1)
    (hValues : ∀ e ∈ entries, IsData Bare e.2) :
    IsData Bare
      (.operation "%\x7b\x7d" (entries.map fun e => .pair e.1 e.2))
| keywords
    (pairs : List (String × Term))
    (hKeys : ∀ p ∈ pairs, Literal.isPlain p.1.toList = true)
    (hValues : ∀ p ∈ pairs, IsData Bare p.2) :
    IsData Bare (.operation "%\x7b\x7d" (pairs.map Term.keyed))

------------------------------------------------------------
-- Elements
------------------------------------------------------------

/- The source of a tree of operators, from those of its operands. -/
def OperatorTree.text : OperatorTree Term Sign → List Char
| leaf t => t.written.text
| node o l r => l.text ++ Written.operatorSign o.name ++ r.text

/- The source of an element. -/
def Element.text : Element → List Char
| .expression tree => tree.text
| .pair key value => Literal.key key ++ " ".toList ++ value.text

variable {context : Context}
variable {t : Term}
variable {text : List Char}
variable {tree : OperatorTree Term Sign}

/- What is laid out may be an element. -/
theorem Lays.laysElement
    (hLays : Lays tree.text t tree) :
    LaysElement Mode.awaitsOperand (Element.expression tree).text
      ((Element.expression tree).IsSpelled context) := by
  refine ⟨?_, fun mode rest hMode hEnds =>
    (hLays.lexes mode rest hMode hEnds).mono
      fun _ _ hSpells =>
        ⟨Mode.endsElement_of_endsOperand hSpells.1,
          hSpells.2 context⟩⟩
  have hStarts := hLays.starts
  change (tree.text.head?.any fun c => !isBlank c) = true
  cases hText : tree.text with
  | nil =>
      rw [hText] at hStarts
      cases hStarts
  | cons c cs =>
      rw [hText] at hStarts
      change (!isBlank c) = true
      rw [isBlank_of_startsOperandText hStarts]
      rfl

/- A key and what is laid out behind it are an element. -/
theorem Lays.laysElement_pair
    {key : String}
    (hPlain : Literal.isPlain key.toList = true)
    (hLays : Lays tree.text t tree) :
    LaysElement Mode.awaitsOperand (Element.pair key tree).text
      ((Element.pair key tree).IsSpelled context) := by
  have hVisible := isVisible_of_isPlain hPlain
  have hText :
      (Element.pair key tree).text =
        Literal.key key ++ ' ' :: tree.text :=
    List.append_assoc _ _ _
  rw [hText]
  refine ⟨head?_any_append _ (head?_key hVisible), ?_⟩
  intro mode rest hMode hEnds
  have hNext : ∀ c ∈ (tree.text ++ rest).head?, isBlank c = false :=
    fun c hHead => isBlank_of_startsOperandText
      (of_head?_append hLays.starts c hHead)
  apply (lexes_pair hVisible (Mode.awaitsWord_of_awaitsOperand hMode)
    hNext (hLays.lexes .initial rest rfl hEnds)).mono
  rintro m _ ⟨keys, values, rfl, ⟨hEnded, hSpells⟩, hKey⟩
  exact ⟨Mode.endsElement_of_endsOperand hEnded, keys, values, rfl,
    hSpells context, hKey⟩

------------------------------------------------------------
-- Literals
------------------------------------------------------------

/- The words that are atoms are read as they are written. -/
theorem exists_name_of_literal?
    {w : Word}
    {name : String}
    (hLiteral : w.literal? = some name) :
    ∃ c cs,
      name.toList = c :: cs ∧ isIdentifierStart c = true ∧
        identifierTail cs = cs.length ∧
        Transition.word c cs =
          .plain (.word w) cs.length .afterLiteral := by
  cases w with
  | nil =>
      cases hLiteral
      exact ⟨'n', ['i', 'l'], by decide⟩
  | «true» =>
      cases hLiteral
      exact ⟨'t', ['r', 'u', 'e'], by decide⟩
  | «false» =>
      cases hLiteral
      exact ⟨'f', ['a', 'l', 's', 'e'], by decide⟩
  | _ => cases hLiteral

/- The words that are atoms are written as they are. -/
theorem lays_word
    {w : Word}
    {name : String}
    (hLiteral : w.literal? = some name) :
    Lays name.toList (.atom name) (.leaf (.atom name)) := by
  rcases exists_name_of_literal? hLiteral with
    ⟨c, cs, hName, hStart, hTail, hOf⟩
  rw [hName]
  refine ⟨True.intro, rfl, ?_, ?_⟩
  · change startsOperandText c = true
    rw [startsOperandText, isNameStart, hStart]
    rfl
  · intro mode rest hMode hEnds
    apply (lexes_word hStart hTail hOf ⟨rfl, rfl⟩
      (Mode.awaitsWord_of_awaitsOperand hMode)
      hEnds.endsNameBefore).mono
    rintro _ _ ⟨rfl, l, rfl, hKind, _⟩
    exact ⟨rfl, fun _ => .leaf _ _ (readsOperand_word hKind hLiteral)⟩

/- There is no dot in a name that needs no quotes. -/
theorem moduleName?_eq_none
    {name : List Char}
    (hPlain : Literal.isPlain name = true) :
    Literal.moduleName? name = none := by
  apply if_neg
  rintro ⟨hMark, _⟩
  rcases List.isPrefixOf_iff_prefix.mp hMark with ⟨behind, hName⟩
  have hDot : '.' ∈ name := by
    rw [← hName]
    exact List.mem_append_left _ (by decide)
  rcases Bool.or_eq_true_iff.mp hPlain with hPlain | hPlain
  · rcases exists_marks_of_isIdentifier hPlain with
      ⟨base, marks, hSplit, hParts, hMarks, _⟩
    rw [hSplit, List.mem_append] at hDot
    rcases hDot with hDot | hDot
    · exact absurd (hParts _ hDot) (by decide)
    · exact absurd (hMarks _ hDot) (by decide)
  · unfold Literal.isAliasSegment at hPlain
    rw [Bool.and_eq_true] at hPlain
    exact absurd (List.all_eq_true.mp hPlain.2 _ hDot) (by decide)

/- An atom that is not the mark of all modules. -/
theorem lays_atom
    {name : String}
    (hPlain : Literal.isPlain name.toList = true)
    (hOther : name ≠ "Elixir") :
    Lays (Literal.atom name) (.atom name) (.leaf (.atom name)) := by
  unfold Literal.atom
  split
  · rename_i hWord
    have hLiteral : ∃ w : Word, w.literal? = some name := by
      simp only [Literal.wordAtoms, List.mem_cons,
        List.not_mem_nil, or_false] at hWord
      rcases hWord with rfl | rfl | rfl | rfl
      · exact ⟨.nil, rfl⟩
      · exact ⟨.true, rfl⟩
      · exact ⟨.false, rfl⟩
      · exact absurd rfl hOther
    rcases hLiteral with ⟨w, hLiteral⟩
    exact lays_word hLiteral
  · rw [moduleName?_eq_none hPlain]
    dsimp only
    rw [if_pos (.inl hPlain)]
    refine ⟨True.intro, rfl, rfl, ?_⟩
    intro mode rest hMode hEnds
    apply (lexes_atom hPlain hMode hEnds).mono
    rintro _ ls ⟨rfl, hAtom⟩
    exact ⟨rfl, fun _ => .leaf _ _ (readsOperand_atom hAtom)⟩

/- A binary whose characters can all be seen. -/
theorem lays_binary
    {content : String}
    (hVisible : content.toList.all Literal.isVisible = true) :
    Lays (Literal.binary content.toList) (.binary content)
      (.leaf (.binary content)) := by
  unfold Literal.binary
  rw [if_pos hVisible]
  refine ⟨True.intro, rfl, rfl, ?_⟩
  intro mode rest hMode hEnds
  apply (lexes_text content.toList hMode hEnds).mono
  rintro _ ls ⟨rfl, hText⟩
  refine ⟨rfl, fun context => .leaf _ _ ?_⟩
  have hReads : ReadsOperand context _ ls := readsOperand_text hText
  rwa [String.ofList_toList] at hReads

------------------------------------------------------------
-- Containers
------------------------------------------------------------

/- Elements between brackets, by what the brackets are read as. -/
theorem lays_bracketed
    {b : Bracket}
    {opener closer : Char}
    {es : List Element}
    (hMarks : (b, opener, closer) ∈ bracketMarks)
    (hElements :
      ∀ e ∈ es, LaysElement Mode.awaitsOperand e.text
        (e.IsSpelled .container))
    (hReads : ∀ ls,
      IsBracketed (Element.IsSpelled .container) b es ls →
        ∀ context, ReadsOperand context t ls) :
    Lays
      ([opener] ++ Written.commas (es.map Element.text) ++ [closer])
      t (.leaf t) := by
  refine ⟨True.intro, rfl, ?_, ?_⟩
  · have hAll :
        ∀ m ∈ bracketMarks, startsOperandText m.2.1 = true := by
      decide
    exact hAll _ hMarks
  · intro mode rest hMode _
    apply (lexes_bracketed hMarks hElements hMode).mono
    rintro _ ls ⟨rfl, hBracketed⟩
    exact ⟨rfl, fun context =>
      .leaf _ _ (hReads ls hBracketed context)⟩

------------------------------------------------------------
-- Elements of terms
------------------------------------------------------------

/- Terms that are operands, and pairs of keys and such terms. -/
def leaves
    (items : List Term) : List (OperatorTree Term Sign) :=
  items.map .leaf

def leafPairs
    (pairs : List (String × Term)) :
    List (String × OperatorTree Term Sign) :=
  pairs.map fun p => (p.1, .leaf p.2)

variable {items : List Term}
variable {pairs : List (String × Term)}
variable {entries : List (Term × Term)}

theorem term_leaves
    (items : List Term) :
    (leaves items).map (·.term) = items := by
  unfold leaves
  rw [List.map_map]
  exact List.map_id items

theorem pairTerms_leafPairs
    (pairs : List (String × Term)) :
    pairTerms (leafPairs pairs) = pairs.map Term.keyed := by
  unfold pairTerms leafPairs
  rw [List.map_map]
  rfl

theorem ordered_of_mem_leaves
    {tree : OperatorTree Term Sign}
    (hMember : tree ∈ leaves items) :
    tree.Ordered Sign.binding := by
  rcases List.mem_map.mp hMember with ⟨t, _, rfl⟩
  exact True.intro

theorem ordered_of_mem_leafPairs
    {p : String × OperatorTree Term Sign}
    (hMember : p ∈ leafPairs pairs) :
    p.2.Ordered Sign.binding := by
  rcases List.mem_map.mp hMember with ⟨q, _, rfl⟩
  exact True.intro

/- A term is written in a way that is read as the term. -/
def LaysOperand
    (t : Term) : Prop :=
  Lays t.written.text t (.leaf t)

/- A pair may be written as a key with its value. -/
structure LaysPair
    (p : String × Term) : Prop where
  plain : Literal.isPlain p.1.toList = true
  value : LaysOperand p.2

theorem laysElement_of_mem_all
    (hItems : ∀ t ∈ items, LaysOperand t)
    (hPairs : ∀ p ∈ pairs, LaysPair p) :
    ∀ e ∈ Element.all (leaves items) (leafPairs pairs),
      LaysElement Mode.awaitsOperand e.text
        (e.IsSpelled .container) := by
  intro e hMember
  rcases List.mem_append.mp hMember with hMember | hMember
  · simp only [leaves, List.map_map, List.mem_map,
      Function.comp_apply] at hMember
    rcases hMember with ⟨t, hTerm, rfl⟩
    have hLays : Lays (OperatorTree.leaf t).text t (.leaf t) :=
      hItems t hTerm
    exact hLays.laysElement
  · simp only [leafPairs, Element.ofPairs, List.map_map,
      List.mem_map, Function.comp_apply] at hMember
    rcases hMember with ⟨p, hPair, rfl⟩
    exact (hPairs p hPair).value.laysElement_pair
      (hPairs p hPair).plain

theorem laysElement_of_mem_entries
    (hKeys : ∀ e ∈ entries, LaysOperand e.1)
    (hValues : ∀ e ∈ entries, LaysOperand e.2) :
    ∀ e ∈ Element.all (entryTrees entries) [],
      LaysElement Mode.awaitsOperand e.text
        (e.IsSpelled .container) := by
  intro e hMember
  simp only [Element.all, entryTrees, Element.ofPairs, List.map_map,
    List.map_nil, List.append_nil, List.mem_map,
    Function.comp_apply] at hMember
  rcases hMember with ⟨entry, hEntry, rfl⟩
  have hLays :
      Lays (entryTree entry.1 entry.2).text _
        (entryTree entry.1 entry.2) :=
    (hKeys entry hEntry).binary (hValues entry hEntry)
      (fun _ hRoot => by cases hRoot)
      (fun _ hRoot => by cases hRoot)
      (fun hRange => absurd hRange (by decide))
  exact hLays.laysElement

------------------------------------------------------------
-- Written elements
------------------------------------------------------------

theorem Written.sequence_map
    (items : List Term)
    (pairs : List (String × Term)) :
    Written.sequence (items.map Term.written)
        ((pairs.map Term.keyed).map Term.written) =
      Written.commas
        ((Element.all (leaves items) (leafPairs pairs)).map
          Element.text) := by
  unfold Written.sequence Element.all Element.ofPairs leaves leafPairs
  simp only [List.map_append, List.map_map]
  rfl

/- Pairs with atom keys all belong to the end that they are at. -/
theorem Written.keyedTail_append
    {ws us : List Written}
    (hKeyed : ∀ u ∈ us, u.isKeyed = true) :
    Written.keyedTail (ws ++ us) = Written.keyedTail ws ++ us := by
  unfold Written.keyedTail
  rw [List.reverse_append, List.takeWhile_append_of_pos,
    List.reverse_append, List.reverse_reverse]
  intro u hMember
  exact hKeyed u (List.mem_reverse.mp hMember)

theorem isKeyed_of_mem_keyed
    {w : Written}
    (hMember : w ∈ (pairs.map Term.keyed).map Term.written) :
    w.isKeyed = true := by
  rw [List.map_map] at hMember
  rcases List.mem_map.mp hMember with ⟨p, _, rfl⟩
  rfl

theorem exists_keyed_of_isKeyed
    {t : Term}
    (hKeyed : t.written.isKeyed = true) :
    ∃ p, t = .keyed p := by
  cases t with
  | tuple parts =>
      rw [Written.isKeyed, Term.written,
        Term.writtenAll_eq_map] at hKeyed
      rcases parts with
        _ | ⟨first, _ | ⟨second, _ | ⟨third, parts⟩⟩⟩
      · cases hKeyed
      · cases first <;> cases hKeyed
      · cases first with
        | atom name => exact ⟨(name, second), rfl⟩
        | _ => cases hKeyed
      · cases first <;> cases hKeyed
  | _ => cases hKeyed

/- Terms that are all written as pairs with atom keys are such. -/
theorem exists_map_keyed
    (hKeyed : ∀ t ∈ items, t.written.isKeyed = true) :
    ∃ pairs : List (String × Term),
      items = pairs.map Term.keyed := by
  induction items with
  | nil => exact ⟨[], rfl⟩
  | cons t items ih =>
      rcases exists_keyed_of_isKeyed
          (hKeyed t List.mem_cons_self) with
        ⟨p, rfl⟩
      rcases ih (fun t hMember =>
          hKeyed t (List.mem_cons_of_mem _ hMember)) with
        ⟨pairs, rfl⟩
      exact ⟨p :: pairs, rfl⟩

/- The pairs with atom keys at the end of some terms. -/
theorem exists_keyedTail
    (items : List Term) :
    ∃ (front : List Term) (pairs : List (String × Term)),
      items = front ++ pairs.map Term.keyed ∧
        Written.keyedTail (items.map Term.written) =
          (pairs.map Term.keyed).map Term.written := by
  induction items using List.reverseRecOn with
  | nil => exact ⟨[], [], rfl, rfl⟩
  | append_singleton items t ih =>
      rw [List.map_append]
      cases hKeyed : t.written.isKeyed with
      | true =>
          rcases ih with ⟨front, pairs, hItems, hTail⟩
          rcases exists_keyed_of_isKeyed hKeyed with ⟨p, rfl⟩
          refine ⟨front, pairs ++ [p], by simp [hItems], ?_⟩
          rw [Written.keyedTail_append (by simpa using hKeyed), hTail]
          simp
      | false =>
          refine ⟨items ++ [t], [], by simp, ?_⟩
          simp [Written.keyedTail, hKeyed]

theorem Written.listText_append
    {ws us : List Written}
    (hTail : Written.keyedTail (ws ++ us) = us) :
    Written.listText (ws ++ us) =
      "[".toList ++ Written.sequence ws us ++ "]".toList := by
  have hLength : (ws ++ us).length - us.length = ws.length := by
    rw [List.length_append, Nat.add_sub_cancel]
  unfold Written.listText
  rw [hTail, hLength, List.take_left]

/-
  Pairs with atom keys among the items of a list are written as
  keys with their values if they are at its end.
-/
theorem exists_text_list
    (items : List Term)
    (pairs : List (String × Term)) :
    ∃ (front : List Term) (more : List (String × Term)),
      items = front ++ more.map Term.keyed ∧
        (Term.list (items ++ pairs.map Term.keyed)).written.text =
          ['['] ++
            Written.commas
              ((Element.all (leaves front)
                (leafPairs (more ++ pairs))).map Element.text) ++
            [']'] := by
  rcases exists_keyedTail items with ⟨front, more, hItems, hTail⟩
  refine ⟨front, more, hItems, ?_⟩
  have hSplit :
      (items ++ pairs.map Term.keyed).map Term.written =
        front.map Term.written ++
          ((more ++ pairs).map Term.keyed).map Term.written := by
    rw [hItems]
    simp
  have hAll :
      Written.keyedTail
          (front.map Term.written ++
            ((more ++ pairs).map Term.keyed).map Term.written) =
        ((more ++ pairs).map Term.keyed).map Term.written := by
    rw [← hSplit, List.map_append,
      Written.keyedTail_append (fun _ => isKeyed_of_mem_keyed), hTail]
    simp
  change Written.listText (Term.writtenAll _) = _
  rw [Term.writtenAll_eq_map, hSplit, Written.listText_append hAll,
    Written.sequence_map]
  rfl

/- What stands between curlies without any keys. -/
theorem braces_sequence
    (items : List Term) :
    Written.braces (Written.sequence (items.map Term.written) []) =
      ['{'] ++
        Written.commas
          ((Element.all (leaves items) (leafPairs [])).map
            Element.text) ++
        ['}'] := by
  have hSequence := Written.sequence_map items []
  rw [List.map_nil, List.map_nil] at hSequence
  rw [hSequence]
  rfl

theorem text_pair
    (first second : Term) :
    (Term.pair first second).written.text =
      Written.braces
        (Written.sequence ([first, second].map Term.written) []) :=
  Written.tupleText_pair first.written second.written

theorem text_tuple
    (items : List Term) :
    (Term.operation "\x7b\x7d" items).written.text =
      Written.braces
        (Written.sequence (items.map Term.written) []) := by
  rw [Term.text_operation]
  rfl

/- A pair is no call. -/
theorem Written.update?_pair
    (text : List Char)
    (first second : Written) :
    Written.update? [.tuple text [first, second]] = none := by
  have hNamed :
      (Written.tuple text [first, second]).named? = none := by
    cases first <;> cases second <;> rfl
  simp only [Written.update?, Written.argsOf?, hNamed,
    Option.bind_none]

/- A map that holds pairs is no update of another map. -/
theorem text_map
    (entries : List (Term × Term)) :
    (Term.operation "%\x7b\x7d"
        (entries.map fun e => .pair e.1 e.2)).written.text =
      ['%'] ++
        Written.braces
          (Written.entries
            ((entries.map fun e => Term.pair e.1 e.2).map
              Term.written)) := by
  have hUpdate :
      Written.update?
          ((entries.map fun e => Term.pair e.1 e.2).map
            Term.written) =
        none := by
    rcases entries with _ | ⟨e, _ | ⟨e', entries⟩⟩
    · rfl
    · exact Written.update?_pair _ _ _
    · rfl
  rw [Term.text_operation]
  change ['%'] ++ Written.mapBody _ = _
  unfold Written.mapBody
  rw [hUpdate]

/- The source of a map by the elements between its curlies. -/
def mapText
    (es : List Element) : List Char :=
  ['%'] ++ (['{'] ++ Written.commas (es.map Element.text) ++ ['}'])

/- The keys of a map are not all atoms. -/
theorem text_map_entries
    (hOther : Written.areKeyed
      ((entries.map fun e => Term.pair e.1 e.2).map Term.written) =
        false) :
    (Term.operation "%\x7b\x7d"
        (entries.map fun e => .pair e.1 e.2)).written.text =
      mapText (Element.all (entryTrees entries) (leafPairs [])) := by
  have hEntries :
      ((entries.map fun e => Term.pair e.1 e.2).map
          Term.written).map Written.entry =
        (Element.all (entryTrees entries) (leafPairs [])).map
          Element.text := by
    simp only [Element.all, Element.ofPairs, leafPairs, entryTrees,
      List.map_map, List.map_nil, List.append_nil]
    rfl
  rw [text_map, Written.entries, hOther, if_neg Bool.false_ne_true,
    hEntries]
  rfl

/- The keys of a map are all atoms, if there are any. -/
theorem text_map_keyed
    (pairs : List (String × Term)) :
    (Term.operation "%\x7b\x7d"
        (pairs.map Term.keyed)).written.text =
      mapText (Element.all (entryTrees []) (leafPairs pairs)) := by
  have hPairs :
      pairs.map Term.keyed =
        (pairs.map fun p => (Term.atom p.1, p.2)).map
          fun e => Term.pair e.1 e.2 := by
    rw [List.map_map]
    rfl
  have hSequence := Written.sequence_map [] pairs
  unfold Written.sequence at hSequence
  rw [List.map_nil, List.map_nil, List.nil_append] at hSequence
  rw [hPairs, text_map, ← hPairs]
  cases pairs with
  | nil => rfl
  | cons p pairs =>
      have hKeyed :
          Written.areKeyed
              (((p :: pairs).map Term.keyed).map Term.written) =
            true := by
        rw [Written.areKeyed, Bool.and_eq_true]
        exact ⟨rfl,
          List.all_eq_true.mpr fun _ => isKeyed_of_mem_keyed⟩
      rw [Written.entries, if_pos hKeyed, hSequence]
      rfl

------------------------------------------------------------
-- Containers of terms
------------------------------------------------------------

theorem laysOperand_list
    (hItems : ∀ t ∈ items, LaysOperand t)
    (hKeyed : ∀ p, Term.keyed p ∈ items → LaysPair p)
    (hPairs : ∀ p ∈ pairs, LaysPair p) :
    LaysOperand (.list (items ++ pairs.map Term.keyed)) := by
  rcases exists_text_list items pairs with
    ⟨front, more, hSplit, hText⟩
  unfold LaysOperand
  rw [hText]
  apply lays_bracketed (b := .square) (by decide)
  · apply laysElement_of_mem_all
    · intro t hMember
      apply hItems t
      rw [hSplit]
      exact List.mem_append_left _ hMember
    · intro p hMember
      rcases List.mem_append.mp hMember with hMember | hMember
      · apply hKeyed p
        rw [hSplit]
        exact List.mem_append_right _ (List.mem_map_of_mem hMember)
      · exact hPairs p hMember
  · rintro _ ⟨opened, ls, closed, rfl, hOpened, hClosed, hElements⟩
      context
    have hReads : ReadsOperand context _ _ :=
      readsOperand_list hOpened hElements
        (fun _ => ordered_of_mem_leaves)
        (fun _ => ordered_of_mem_leafPairs) hClosed
    rw [term_leaves, pairTerms_leafPairs] at hReads
    rw [hSplit, List.append_assoc, ← List.map_append]
    exact hReads

theorem laysOperand_curly
    (hItems : ∀ t ∈ items, LaysOperand t) :
    Lays
      (Written.braces
        (Written.sequence (items.map Term.written) []))
      (Construct.tuple .none Span.none items)
      (.leaf (Construct.tuple .none Span.none items)) := by
  rw [braces_sequence]
  apply lays_bracketed (b := .curly) (by decide)
  · exact laysElement_of_mem_all hItems (by simp)
  · rintro _ ⟨opened, ls, closed, rfl, hOpened, hClosed, hElements⟩
      context
    have hReads : ReadsOperand context _ _ :=
      readsOperand_tuple hOpened hElements
        (fun _ => ordered_of_mem_leaves) hClosed
    rw [term_leaves] at hReads
    exact hReads

theorem laysOperand_pair
    {first second : Term}
    (hFirst : LaysOperand first)
    (hSecond : LaysOperand second) :
    LaysOperand (.pair first second) := by
  unfold LaysOperand
  rw [text_pair]
  have hItems : ∀ t ∈ [first, second], LaysOperand t := by
    simp only [List.forall_mem_cons, List.not_mem_nil,
      false_implies, implies_true, and_true]
    exact ⟨hFirst, hSecond⟩
  exact laysOperand_curly hItems

theorem laysOperand_tuple
    (hLength : items.length ≠ 2)
    (hItems : ∀ t ∈ items, LaysOperand t) :
    LaysOperand (.operation "\x7b\x7d" items) := by
  have hTuple :
      Construct.tuple .none Span.none items =
        .operation "\x7b\x7d" items := by
    rcases items with _ | ⟨t, _ | ⟨u, _ | ⟨v, items⟩⟩⟩
    · rfl
    · rfl
    · exact absurd rfl hLength
    · rfl
  have hLays := laysOperand_curly hItems
  rw [hTuple] at hLays
  unfold LaysOperand
  rw [text_tuple]
  exact hLays

/- A map whose entries have arrows, with keyed pairs behind them. -/
theorem lays_map
    (hKeys : ∀ e ∈ entries, LaysOperand e.1)
    (hValues : ∀ e ∈ entries, LaysOperand e.2)
    (hPairs : ∀ p ∈ pairs, LaysPair p)
    (hTerms :
      (entries.map fun e => .pair e.1 e.2) ++ pairs.map Term.keyed =
        items) :
    Lays
      (mapText (Element.all (entryTrees entries) (leafPairs pairs)))
      (.operation "%\x7b\x7d" items)
      (.leaf (.operation "%\x7b\x7d" items)) := by
  have hElements :
      ∀ e ∈ Element.all (entryTrees entries) (leafPairs pairs),
        LaysElement Mode.awaitsOperand e.text
        (e.IsSpelled .container) := by
    intro e hMember
    rcases List.mem_append.mp hMember with hMember | hMember
    · exact laysElement_of_mem_entries hKeys hValues e
        (List.mem_append_left _ hMember)
    · have hNone : ∀ t ∈ ([] : List Term), LaysOperand t := by
        simp
      exact laysElement_of_mem_all hNone hPairs e
        (List.mem_append_right _ hMember)
  refine ⟨True.intro, rfl, rfl, ?_⟩
  intro mode rest hMode _
  apply (lexes_mapMark hMode).append
  rintro _ _ ⟨rfl, mark, rfl, hMark, _⟩
  apply (lexes_bracketed (b := .curly) (by decide) hElements rfl).mono
  rintro _ _ ⟨rfl, opened, ls, closed, rfl, hOpened, hClosed,
    hSeparated⟩
  refine ⟨rfl, fun context => .leaf _ _ ?_⟩
  have hReads : ReadsOperand context _ _ :=
    readsOperand_map hMark hOpened hSeparated
      (fun _ => ordered_of_mem_leafPairs) hClosed
  rw [pairTerms_leafPairs, hTerms] at hReads
  exact hReads

theorem laysOperand_keywords
    (hPairs : ∀ p ∈ pairs, LaysPair p) :
    LaysOperand
      (.operation "%\x7b\x7d" (pairs.map Term.keyed)) := by
  unfold LaysOperand
  rw [text_map_keyed]
  exact lays_map (by simp) (by simp) hPairs rfl

theorem laysOperand_map
    (hKeys : ∀ e ∈ entries, LaysOperand e.1)
    (hValues : ∀ e ∈ entries, LaysOperand e.2)
    (hKeyed : ∀ p,
      Term.keyed p ∈ (entries.map fun e => Term.pair e.1 e.2) →
        LaysPair p) :
    LaysOperand
      (.operation "%\x7b\x7d"
        (entries.map fun e => .pair e.1 e.2)) := by
  cases hAll : Written.areKeyed
    ((entries.map fun e => Term.pair e.1 e.2).map Term.written) with
  | false =>
      unfold LaysOperand
      rw [text_map_entries hAll]
      exact lays_map hKeys hValues (by simp) (List.append_nil _)
  | true =>
      rw [Written.areKeyed, Bool.and_eq_true] at hAll
      have hPairs :
          ∃ pairs : List (String × Term),
            (entries.map fun e => Term.pair e.1 e.2) =
              pairs.map Term.keyed := by
        apply exists_map_keyed
        intro t hMember
        exact List.all_eq_true.mp hAll.2 t.written
          (List.mem_map_of_mem hMember)
      rcases hPairs with ⟨pairs, hPairs⟩
      rw [hPairs] at hKeyed ⊢
      exact laysOperand_keywords
        fun p hMember => hKeyed p (List.mem_map_of_mem hMember)

------------------------------------------------------------
-- All data
------------------------------------------------------------

theorem keyed_ne_operation
    (p : String × Term)
    (name : String)
    (items : List Term) :
    Term.keyed p ≠ .operation name items := by
  rcases p with ⟨key, value⟩
  intro hEq
  cases hEq

/-
  Data are laid out as they are written, and those that are
  pairs with atom keys also as keys with their values. The
  induction is on how the data are built.
-/
theorem IsData.laysOperand
    (hData : IsData (· ≠ "Elixir") t) :
    LaysOperand t ∧ ∀ p, Term.keyed p = t → LaysPair p := by
  induction hData with
  | integer value =>
      refine ⟨?_, fun _ hEq => by cases hEq⟩
      exact (laysOut_integer value).toLays
  | binary content hVisible =>
      exact ⟨lays_binary hVisible, fun _ hEq => by cases hEq⟩
  | atom name hPlain hBare =>
      exact ⟨lays_atom hPlain hBare, fun _ hEq => by cases hEq⟩
  | list items pairs _ hKeys _ ihItems ihValues =>
      refine ⟨?_, fun _ hEq => by cases hEq⟩
      exact laysOperand_list
        (fun t hMember => (ihItems t hMember).1)
        (fun p hMember => (ihItems _ hMember).2 p rfl)
        (fun p hMember => ⟨hKeys p hMember, (ihValues p hMember).1⟩)
  | pair first second hFirst _ ihFirst ihSecond =>
      refine ⟨laysOperand_pair ihFirst.1 ihSecond.1, ?_⟩
      rintro ⟨key, value⟩ hEq
      cases hEq
      cases hFirst with
      | atom _ hPlain _ => exact ⟨hPlain, ihSecond.1⟩
  | tuple items hLength _ ih =>
      refine ⟨?_, fun p hEq => absurd hEq (keyed_ne_operation p _ _)⟩
      exact laysOperand_tuple hLength
        fun t hMember => (ih t hMember).1
  | map entries hKeys _ ihKeys ihValues =>
      refine ⟨?_, fun p hEq => absurd hEq (keyed_ne_operation p _ _)⟩
      apply laysOperand_map
        (fun e hMember => (ihKeys e hMember).1)
        (fun e hMember => (ihValues e hMember).1)
      rintro ⟨key, value⟩ hMember
      rcases List.mem_map.mp hMember with ⟨e, hEntry, hEq⟩
      rcases e with ⟨first, second⟩
      cases hEq
      have hKey := hKeys _ hEntry
      cases hKey with
      | atom _ hPlain _ =>
          exact ⟨hPlain, (ihValues _ hEntry).1⟩
  | keywords pairs hKeys _ ih =>
      refine ⟨?_, fun p hEq => absurd hEq (keyed_ne_operation p _ _)⟩
      exact laysOperand_keywords
        fun p hMember => ⟨hKeys p hMember, (ih p hMember).1⟩

/-
  Data that are written out and read again are the same, and
  there is no error, unless they are nested too deeply. They
  hold the atom `Elixir` only as a key that is written as one.
-/
theorem quoteSource_render_data
    (t : Term)
    (hData : IsData (· ≠ "Elixir") t)
    (hShallow :
      ∀ e ∈ (quoteSource .none t.render).2, ¬ e.IsTooDeep) :
    quoteSource .none t.render = (t, []) :=
  hData.laysOperand.1.quoteSource_render hShallow

/- A map with arrows and a map with keys, in a list. -/
theorem quoteSource_render_data_nested :
    let arrows : Term :=
      .operation "%\x7b\x7d"
        [.pair (.atom "nil") (.binary "\t#\x7b\""),
         .pair (.integer 7) (.operation "\x7b\x7d" [.atom "Foo"])]
    let keys : Term :=
      .operation "%\x7b\x7d" [.pair (.atom "do") (.atom "end")]
    let t : Term :=
      .list [arrows, .pair (.atom "Elixir") keys]
    t.render =
        "[%\x7bnil => \"\\t\\#\x7b\\\"\", 7 => \x7b:Foo\x7d\x7d, "
          ++ "Elixir: %\x7bdo: :end\x7d]" ∧
      quoteSource .none t.render = (t, []) := by
  intro arrows keys t
  have hText :
      t.render =
        "[%\x7bnil => \"\\t\\#\x7b\\\"\", 7 => \x7b:Foo\x7d\x7d, "
          ++ "Elixir: %\x7bdo: :end\x7d]" := by
    decide
  have hAtom : ∀ name ∈ ["nil", "Foo", "do", "end"],
      IsData (· ≠ "Elixir") (.atom name) := by
    have hPlain : ∀ name ∈ ["nil", "Foo", "do", "end"],
        Literal.isPlain name.toList = true ∧ name ≠ "Elixir" := by
      decide
    exact fun name hName =>
      .atom name (hPlain name hName).1 (hPlain name hName).2
  have hArrows : IsData (· ≠ "Elixir") arrows := by
    have hTuple :
        IsData (· ≠ "Elixir") (.operation "\x7b\x7d" [.atom "Foo"]) :=
      .tuple _ (by decide) (by simpa using hAtom "Foo" (by simp))
    have hBinary :
        IsData (· ≠ "Elixir") (.binary "\t#\x7b\"") :=
      .binary _ (by decide)
    apply IsData.map
      [(.atom "nil", .binary "\t#\x7b\""),
       (.integer 7, .operation "\x7b\x7d" [.atom "Foo"])]
    · simpa using ⟨hAtom "nil" (by simp), IsData.integer 7⟩
    · simpa using ⟨hBinary, hTuple⟩
  have hKeys : IsData (· ≠ "Elixir") keys := by
    apply IsData.map [(.atom "do", .atom "end")]
    · simpa using hAtom "do" (by simp)
    · simpa using hAtom "end" (by simp)
  have hData : IsData (· ≠ "Elixir") t := by
    apply IsData.list [arrows] [("Elixir", keys)]
    · simpa using hArrows
    · decide
    · simpa using hKeys
  refine ⟨hText, quoteSource_render_data t hData ?_⟩
  rw [hText]
  decide +kernel

/-
  The atom `Elixir` is an atom with a plain name, but it is
  read as the name of a module.
-/
theorem quoteSource_render_elixir :
    let t : Term := .atom "Elixir"
    t.render = "Elixir" ∧
      IsData (fun _ => True) t ∧
      quoteSource .none t.render =
        (.operation "__aliases__" [.atom "Elixir"], []) ∧
      quoteSource .none t.render ≠ (t, []) := by
  have hData : IsData (fun _ => True) (.atom "Elixir") :=
    .atom "Elixir" (by decide) True.intro
  exact ⟨by decide +kernel, hData, by decide +kernel,
    by decide +kernel⟩

end ElixirReader
