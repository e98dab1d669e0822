import ElixirReader.Proofs.Quote.Layout

/-
  This file shows how the texts of bodies are put together:
  statements and clauses on lines of their own, the sections of
  do blocks, and functions. What is inside is moved to the right.

  Key definitions include:
    * `LaysBody`
    * `LaysBlock`
    * `headText`

  Main declarations:
    * `laysText_clause`
    * `laysBlock_sections`
    * `LaysBlock.laysCall_open`
    * `laysChain_function`
    * `laysChain_tallFunction`
-/

namespace ElixirReader

open Parse Written Unicode

variable {t : Term}
variable {ts items : List Term}
variable {pairs : List (String × Term)}
variable {context : Context}
variable {text body rest : List Char}
variable {depth : Nat}
variable {mode : Mode}
variable {spaced : Bool}
variable {Spelled : List Lexeme → Prop}
variable {P : Body Node → Prop}

------------------------------------------------------------
-- Statements
------------------------------------------------------------

/- Statements on a line each. -/
theorem laysText_statements
    (hStatements : ∀ t ∈ ts,
      LaysChain .statement (·.Denotes t) t.written.text)
    (hSome : ts ≠ []) :
    LaysText (Written.lines (ts.map fun t => t.written.text))
      (Separated .endOfLine IsStatement ts) := by
  apply LaysText.lines ?_ hSome
  intro t hMember
  apply (hStatements t hMember).laysText.mono
  exact fun ls hReads => hReads .statement (Context.isWithin_refl _)

------------------------------------------------------------
-- Lines that are moved
------------------------------------------------------------

/- What is indented below a line moves by two more blanks. -/
theorem deepened_below
    (depth : Nat)
    (hNeat : IsNeat text) :
    deepened depth ("\n".toList ++ Written.indent text) =
      deepened (depth + 2) ['\n'] ++ deepened (depth + 2) text := by
  rw [hNeat.break_indent, deepened_deepened, deepened_cons]

/- A text below the word or arrow that opens it. -/
theorem LaysText.lexes_below
    (hLays : LaysText text Spelled)
    (hEnds : EndsOperand rest) :
    Lexes [] .afterOperator
      (deepened depth ("\n".toList ++ Written.indent text)) rest
      (fun m ls => m.endsElement = true ∧ Spelled ls) := by
  rw [deepened_below depth hLays.neat]
  apply (lexes_lineBlank (.inl rfl)
    (hLays.isBlank_eq (depth + 2))).append
  rintro m _ ⟨hMode, rfl⟩
  exact (hLays.lays (depth + 2)).lexes m rest
    (Mode.awaitsWord_of_awaitsOperand hMode) hEnds

/- A text behind a blank, on the same line. -/
theorem LaysText.lexes_beside
    (hLays : LaysText text Spelled)
    (hEnds : EndsOperand rest) :
    Lexes [] .afterOperator (deepened depth ([' '] ++ text)) rest
      (fun m ls => m.endsElement = true ∧ Spelled ls) := by
  rw [deepened_append, deepened_of_notMem depth (by decide)]
  apply (lexes_blank (.inl rfl) (hLays.isBlank_eq depth)).append
  rintro _ _ ⟨rfl, rfl⟩
  exact (hLays.lays depth).lexes _ rest rfl hEnds

------------------------------------------------------------
-- Clauses
------------------------------------------------------------

/- The head of a clause with the arrow behind it. -/
def headText
    (items : List Term)
    (pairs : List (String × Term)) : List Char :=
  if Element.all (leaves items) (leafPairs pairs) = [] then
    ['-', '>']
  else
    itemsText items pairs ++ [' ', '-', '>']

/- The elements of a head, as they are laid out. -/
def LaysHead
    (items : List Term)
    (pairs : List (String × Term)) : Prop :=
  ∀ e ∈ headElements items pairs,
    LaysText e.2.text (e.2.IsWritten e.1)

/- Pairs that come first are read as a statement. -/
theorem LaysItems.laysHead
    (hPairs : LaysItems .statement [] pairs) :
    LaysHead [] pairs := by
  intro e hMember
  rcases List.mem_map.mp hMember with ⟨pair, hPair, rfl⟩
  exact hPairs.laysText_of_mem pair hPair

theorem LaysItems.laysHead_cons
    (hItems : LaysItems .container items pairs)
    (hFirst : LaysChain .statement (·.Denotes t) t.written.text) :
    LaysHead (t :: items) pairs := by
  intro e hMember
  rcases List.mem_cons.mp hMember with rfl | hMember
  · exact hFirst.laysItem
  · rcases List.mem_map.mp hMember with ⟨element, hElement, rfl⟩
    exact hItems.laysText_of_mem element hElement

/- The elements of a head, which is not empty. -/
theorem LaysHead.laysText
    (hHead : LaysHead items pairs)
    (hSome : headElements items pairs ≠ []) :
    LaysText (itemsText items pairs)
      (Separated .comma (fun e => e.2.IsWritten e.1)
        (headElements items pairs)) := by
  have hText :
      itemsText items pairs =
        Written.commas
          ((headElements items pairs).map fun e => e.2.text) := by
    rw [itemsText, ← map_snd_headElements, List.map_map]
    rfl
  rw [hText]
  exact LaysText.commas hHead hSome

theorem headElements_ne_nil
    (hSome : Element.all (leaves items) (leafPairs pairs) ≠ []) :
    headElements items pairs ≠ [] := by
  intro hNil
  apply hSome
  rw [← map_snd_headElements, hNil, List.map_nil]

theorem isNeat_headText
    (hHead : LaysHead items pairs) :
    IsNeat (headText items pairs) := by
  have hArrow : IsLine ['-', '>'] := ⟨by decide, by decide, by decide⟩
  have hSpaced : IsLine [' ', '-', '>'] :=
    ⟨by decide, by decide, by decide⟩
  unfold headText
  split
  · exact hArrow.isNeat
  · rename_i hSome
    have hLays := hHead.laysText (headElements_ne_nil hSome)
    exact hLays.neat.append hSpaced.isNeat

theorem starts_headText
    (hHead : LaysHead items pairs) :
    (headText items pairs).head?.any (fun c => !isBlank c) = true := by
  unfold headText
  split
  · decide
  · rename_i hSome
    have hStarts :=
      ((hHead.laysText (headElements_ne_nil hSome)).lays 0).starts
    rw [deepened_zero] at hStarts
    exact head?_any_append _ hStarts

theorem lexes_headText
    (hHead : LaysHead items pairs)
    (hUnguarded : Unguarded items)
    (hMode : mode.awaitsWord = true) :
    Lexes [] mode (deepened depth (headText items pairs)) rest
      (fun m ls =>
        m = .afterOperator ∧ ReadsHead (itemTerms items pairs) ls) := by
  unfold headText
  split
  · rename_i hNone
    have hTerms : itemTerms items pairs = [] := by
      cases items with
      | nil =>
          cases pairs with
          | nil => rfl
          | cons p pairs => cases hNone
      | cons t items => cases hNone
    rw [deepened_of_notMem depth (by decide), hTerms]
    apply (lexes_arrow hMode).mono
    rintro _ _ ⟨rfl, arrow, rfl, hArrow, _⟩
    exact ⟨rfl, readsHead_arrow hArrow⟩
  · rename_i hSome
    have hFilled := headElements_ne_nil hSome
    have hLays := hHead.laysText hFilled
    have hArrow : deepened depth [' ', '-', '>'] = [' ', '-', '>'] :=
      deepened_of_notMem depth (by decide)
    rw [deepened_append, hArrow]
    have hEnds : EndsOperand ([' ', '-', '>'] ++ rest) :=
      .inl (by decide)
    apply ((hLays.lays depth).lexes mode _ hMode hEnds).append
    rintro m ls ⟨hMode', hElements⟩
    change Lexes [] m ([' '] ++ ['-', '>']) rest _
    apply (lexes_blankBehind hMode' (by simp [isBlank])).append
    rintro m' _ ⟨hAwaits, rfl⟩
    apply (lexes_arrow hAwaits).mono
    rintro _ _ ⟨rfl, arrow, rfl, hKind, _⟩
    have hSpells : SpellsHead items pairs ls :=
      ⟨hElements.mono fun e _ h =>
          h.spelled e.1 (Context.isWithin_refl e.1),
        hFilled, hUnguarded, hElements.begins hFilled
          fun _ _ h => h.begins⟩
    exact ⟨rfl, hSpells.readsHead hKind⟩

/- A clause, with its body beside the arrow or below it. -/
theorem laysText_clause
    (hElements : LaysHead items pairs)
    (hUnguarded : Unguarded items)
    (hBody : LaysText body (Separated .endOfLine IsStatement ts))
    (hSome : ts ≠ []) :
    LaysText (headText items pairs ++ behindArrow body)
      (ReadsClause (.operation "->"
        [.list (itemTerms items pairs), .block ts])) := by
  have hHead := isNeat_headText hElements
  have hBlank : IsLine [' '] := ⟨by decide, by decide, by decide⟩
  refine ⟨?_, fun depth => ⟨?_, ?_⟩⟩
  · unfold behindArrow
    split
    · exact hHead.break hBody.neat.indent
    · exact hHead.append (hBlank.isNeat.append hBody.neat)
  · rw [head?_deepened]
    exact head?_any_append _ (starts_headText hElements)
  · intro mode rest hMode hEnds
    rw [deepened_append]
    apply (lexes_headText hElements hUnguarded hMode).append
    rintro _ ls ⟨rfl, hReads⟩
    have hBehind :
        Lexes [] .afterOperator (deepened depth (behindArrow body))
          rest
          (fun m ls => m.endsElement = true ∧
            Separated .endOfLine IsStatement ts ls) := by
      unfold behindArrow
      split
      · exact hBody.lexes_below hEnds
      · exact hBody.lexes_beside hEnds
    apply hBehind.mono
    exact fun m tail h => ⟨h.1, hReads.readsClause h.2 hSome⟩

------------------------------------------------------------
-- Bodies
------------------------------------------------------------

/- A text is laid out as a body, which may be empty. -/
def LaysBody
    (P : Body Node → Prop)
    (text : List Char) : Prop :=
  text = [] ∧ ReadsBody P [] ∨ LaysText text (ReadsBody P)

theorem laysBody_statements
    (hStatements : ∀ t ∈ ts,
      LaysChain .statement (·.Denotes t) t.written.text) :
    LaysBody (·.term = .block ts)
      (Written.lines (ts.map fun t => t.written.text)) := by
  cases ts with
  | nil => exact .inl ⟨rfl, readsBody_nil⟩
  | cons t ts =>
      have hSome : t :: ts ≠ [] := List.cons_ne_nil t ts
      exact .inr ((laysText_statements hStatements hSome).mono
        fun ls hLines => readsBody_statements hLines hSome)

/- Clauses on lines of their own. -/
theorem laysText_clauses
    (hClauses : ∀ t ∈ ts, LaysText t.written.text (ReadsClause t))
    (hSome : ts ≠ []) :
    LaysText (Written.lines (ts.map fun t => t.written.text))
      (ReadsBody (ClausesOf ts)) :=
  (LaysText.lines hClauses hSome).mono
    fun _ hLines => readsBody_clauses hLines hSome

/- A body of clauses is the list of them. -/
theorem laysBody_clauses
    (hClauses : ∀ t ∈ ts, LaysText t.written.text (ReadsClause t))
    (hSome : ts ≠ []) :
    LaysBody (·.term = .list ts)
      (Written.lines (ts.map fun t => t.written.text)) := by
  refine .inr ((laysText_clauses hClauses hSome).mono
    fun ls hReads => hReads.mono ?_)
  rintro _ ⟨clauses, rfl, rfl⟩
  rfl

/- What is below the word that opens a section. -/
def belowText
    (body : List Char) : List Char :=
  if body.isEmpty then [] else "\n".toList ++ Written.indent body

/- A body, up to what comes on the next line. -/
theorem LaysBody.lexes_below
    (hBody : LaysBody P body)
    (hNext : ∀ c ∈ rest.head?, isBlank c = false) :
    Lexes [] .afterOperator
      (deepened depth (belowText body ++ ['\n'])) rest
      (fun m ls =>
        m.awaitsWord = true ∧
          ∃ statements lead,
            ls = statements ++ lead ∧ IsLead lead ∧
              ReadsBody P statements) := by
  rcases hBody with ⟨rfl, hReads⟩ | hLays
  · apply (lexes_lineBlank (.inl rfl) hNext).mono
    rintro m _ ⟨hMode, rfl⟩
    exact ⟨Mode.awaitsWord_of_awaitsOperand hMode, [], [], rfl,
      .inl rfl, hReads⟩
  · have hText :
        belowText body = "\n".toList ++ Written.indent body := by
      rw [belowText, if_neg]
      simpa using hLays.neat.filled
    have hEnds : EndsOperand (deepened depth ['\n'] ++ rest) :=
      .inl (by decide)
    rw [hText, deepened_append depth ("\n".toList ++ _)]
    apply (hLays.lexes_below hEnds).append
    rintro m statements ⟨hMode, hReads⟩
    apply (lexes_lineEnd hMode hNext).mono
    rintro m' _ ⟨hMode', l, rfl, hLine⟩
    exact ⟨Mode.awaitsWord_of_awaitsOperand hMode', statements, [l],
      rfl, .inr ⟨l, rfl, hLine⟩, hReads⟩

------------------------------------------------------------
-- Sections
------------------------------------------------------------

/- The words that open the sections behind the first one. -/
def sectionNames : List String :=
  ["after", "catch", "else", "rescue"]

theorem exists_word_of_sectionName
    {name : String}
    (hName : name ∈ sectionNames) :
    ∃ w : Word,
      w.reserved? = some (name, .afterOperator) ∧
        (Kind.word w).endsBlock = true ∧
        Kind.word w ≠ .word .end := by
  simp only [sectionNames, List.mem_cons, List.not_mem_nil,
    or_false] at hName
  rcases hName with rfl | rfl | rfl | rfl
  · exact ⟨.after, rfl, rfl, by decide⟩
  · exact ⟨.catch, rfl, rfl, by decide⟩
  · exact ⟨.else, rfl, rfl, by decide⟩
  · exact ⟨.rescue, rfl, rfl, by decide⟩

/- The sections of a block, the first one without its word. -/
def sectionsText
    (body : List Char) : List (String × Term) → List Char
| [] => belowText body ++ "\nend".toList
| p :: sections =>
    belowText body ++ ("\n".toList ++ (p.1.toList ++
      sectionsText (bodyText p.2.written) sections))

variable {sections : List (String × Term)}

/- The text of a body is laid out, whatever it consists of. -/
def LaysSection
    (t : Term) : Prop :=
  LaysBody (·.term = t) (bodyText t.written)

theorem head?_sectionsText
    (body : List Char)
    (sections : List (String × Term)) :
    (sectionsText body sections).head? = some '\n' := by
  cases sections <;> unfold sectionsText belowText <;> split <;> rfl

theorem isNeat_belowText
    (hNeat : IsNeat text)
    (hBody : LaysBody P body) :
    IsNeat (text ++ belowText body) := by
  unfold belowText
  rcases hBody with ⟨rfl, _⟩ | hLays
  · simpa using hNeat
  · rw [if_neg (by simpa using hLays.neat.filled)]
    exact hNeat.break hLays.neat.indent

theorem isLine_sectionName
    {name : String}
    (hName : name ∈ sectionNames) :
    IsLine name.toList := by
  have hAll :
      ∀ n ∈ sectionNames,
        n.toList ≠ [] ∧ '\n' ∉ n.toList ∧ '\r' ∉ n.toList := by
    decide
  rcases hAll name hName with ⟨hFilled, hBreak, hReturn⟩
  exact ⟨hFilled, hBreak, hReturn⟩

theorem isNeat_sectionsText
    (hNeat : IsNeat text)
    (hFirst : LaysSection t)
    (hNames : ∀ p ∈ sections, p.1 ∈ sectionNames)
    (hSections : ∀ p ∈ sections, LaysSection p.2) :
    IsNeat (text ++ sectionsText (bodyText t.written) sections) := by
  have hBelow := isNeat_belowText hNeat hFirst
  induction sections generalizing text t with
  | nil =>
      have hEnd : IsLine "end".toList :=
        ⟨by decide, by decide, by decide⟩
      rw [sectionsText, ← List.append_assoc]
      exact hBelow.break hEnd.isNeat
  | cons p sections ih =>
      have hName := isLine_sectionName (hNames p List.mem_cons_self)
      have hSection := hSections p List.mem_cons_self
      have hText := hBelow.break hName.isNeat
      have hAssoc :
          text ++ sectionsText (bodyText t.written) (p :: sections) =
            text ++ belowText (bodyText t.written) ++
              ('\n' :: p.1.toList) ++
                sectionsText (bodyText p.2.written) sections := by
        simp [sectionsText]
      rw [hAssoc]
      exact ih hText hSection
        (fun q hMember => hNames q (List.mem_cons_of_mem p hMember))
        (fun q hMember => hSections q (List.mem_cons_of_mem p hMember))
        (isNeat_belowText hText hSection)

/- Sections start on a line of their own. -/
theorem endsName_sectionsText
    (depth : Nat)
    (body : List Char)
    (sections : List (String × Term)) :
    EndsName (deepened depth (sectionsText body sections) ++ rest) := by
  intro c hHead
  have hBreak := head?_sectionsText body sections
  rw [← head?_deepened depth] at hBreak
  rw [List.head?_append, hBreak] at hHead
  cases hHead
  decide

/- No blank starts the name of a section. -/
theorem isBlank_of_sectionName
    {name : String}
    (hName : name ∈ sectionNames) :
    ∀ c ∈ (name.toList ++ rest).head?, isBlank c = false := by
  have hAll :
      ∀ n ∈ sectionNames, Literal.isPlain n.toList = true := by
    decide
  intro c hHead
  have hStarts :=
    of_head?_append (starts_of_isPlain (hAll name hName)) c hHead
  exact isBlank_of_startsOperandText hStarts

theorem lexes_sectionName
    {name : String}
    (hName : name ∈ sectionNames)
    (hMode : mode.awaitsWord = true)
    (hEnds : EndsName rest) :
    Lexes [] mode name.toList rest
      (fun m ls =>
        m = .afterOperator ∧
          ∃ l, ls = [l] ∧ l.text = name ∧
            l.kind.endsBlock = true ∧ l.kind ≠ .word .end) := by
  rcases exists_word_of_sectionName hName with
    ⟨w, hWord, hEndsBlock, hMore⟩
  apply (lexes_reserved hWord hMode hEnds).mono
  rintro _ _ ⟨rfl, l, rfl, hKind, hText⟩
  rw [← hKind] at hEndsBlock hMore
  exact ⟨rfl, l, rfl,
    hText.trans (String.ofList_toList (s := name)), hEndsBlock,
    hMore⟩

/-
  The sections of a block up to its end. The induction is on
  the sections behind the first one.
-/
theorem lexesSolid_sectionsText
    (name : String)
    (hFirst : LaysSection t)
    (hNames : ∀ p ∈ sections, p.1 ∈ sectionNames)
    (hSections : ∀ p ∈ sections, LaysSection p.2)
    (hEnds : EndsName rest) :
    LexesSolid .afterOperator spaced
      (deepened depth (sectionsText (bodyText t.written) sections))
      rest
      (fun m ls =>
        m = .afterMark ∧
          SpellsSections name ((name, t) :: sections) ls) := by
  induction sections generalizing t name spaced with
  | nil =>
      have hText :
          sectionsText (bodyText t.written) [] =
            belowText (bodyText t.written) ++ ['\n'] ++
              "end".toList := by
        simp [sectionsText]
      have hWord : Word.end.reserved? = some ("end", .afterMark) := rfl
      have hNext :
          ∀ c ∈ ("end".toList ++ rest).head?, isBlank c = false := by
        rintro _ ⟨⟩
        decide
      rw [hText, deepened_append depth _ "end".toList,
        deepened_of_notMem depth (by decide : '\n' ∉ "end".toList)]
      apply LexesSolid.behind (hFirst.lexes_below hNext)
      rintro m _ spaced' ⟨hMode, body, lead, rfl, hLead, hReads⟩
      apply (lexesSolid_reserved hWord hMode hEnds).mono
      rintro _ _ ⟨rfl, closed, rfl, hKind, _⟩
      rw [List.append_assoc]
      exact ⟨rfl, .last name t body lead closed hReads hLead hKind⟩
  | cons p sections ih =>
      have hName := hNames p List.mem_cons_self
      have hText :
          sectionsText (bodyText t.written) (p :: sections) =
            belowText (bodyText t.written) ++ ['\n'] ++
              (p.1.toList ++
                sectionsText (bodyText p.2.written) sections) := by
        simp [sectionsText]
      have hSelf :
          deepened depth (p.1.toList ++
              sectionsText (bodyText p.2.written) sections) =
            p.1.toList ++ deepened depth
              (sectionsText (bodyText p.2.written) sections) := by
        rw [deepened_append, deepened_of_notMem depth
          (isLine_sectionName hName).noBreak]
      have hNext :
          ∀ c ∈ (p.1.toList ++ deepened depth
              (sectionsText (bodyText p.2.written) sections) ++
                rest).head?,
            isBlank c = false := by
        rw [List.append_assoc]
        exact isBlank_of_sectionName hName
      rw [hText, deepened_append depth (_ ++ ['\n']), hSelf]
      apply LexesSolid.behind (hFirst.lexes_below hNext)
      rintro m _ spaced' ⟨hMode, body, lead, rfl, hLead, hReads⟩
      apply LexesSolid.behind (lexes_sectionName hName hMode
        (endsName_sectionsText depth _ sections))
      rintro _ _ spaced'' ⟨rfl, l, rfl, hWord, hEndsBlock, hMore⟩
      apply (ih p.1 (hSections p List.mem_cons_self)
        (fun q hMember => hNames q (List.mem_cons_of_mem p hMember))
        (fun q hMember =>
          hSections q (List.mem_cons_of_mem p hMember))).mono
      rintro m ls ⟨hMode', hMoreSections⟩
      refine ⟨hMode', ?_⟩
      have hCons :=
        SpellsSections.cons name t (p :: sections) body lead ls l
          hReads hLead hEndsBlock hMore (hWord ▸ hMoreSections)
      simpa using hCons

------------------------------------------------------------
-- Do blocks
------------------------------------------------------------

/- A text is laid out as a do block behind a call. -/
structure LaysBlock
    (t : Term)
    (text : List Char) : Prop where
  neat : IsNeat text
  starts : text.head? = some ' '
  lexes : ∀ depth mode spaced rest,
    mode.endsElement = true →
      EndsName rest →
        LexesSolid mode spaced (deepened depth text) rest
          (fun m ls => m.endsChain = true ∧ ReadsBlock t ls)

theorem laysBlock_sections
    (hFirst : LaysSection t)
    (hNames : ∀ p ∈ sections, p.1 ∈ sectionNames)
    (hSections : ∀ p ∈ sections, LaysSection p.2) :
    LaysBlock (.list ((("do", t) :: sections).map Term.keyed))
      (" do".toList ++
        sectionsText (bodyText t.written) sections) := by
  have hDo : IsLine " do".toList := ⟨by decide, by decide, by decide⟩
  refine ⟨isNeat_sectionsText hDo.isNeat hFirst hNames hSections,
    rfl, ?_⟩
  intro depth mode spaced rest hMode hEnds
  have hText :
      deepened depth (" do".toList ++
          sectionsText (bodyText t.written) sections) =
        [' '] ++ ("do".toList ++ deepened depth
          (sectionsText (bodyText t.written) sections)) := by
    rw [deepened_append, deepened_of_notMem depth hDo.noBreak]
    rfl
  have hWord : Word.do.reserved? = some ("do", .afterOperator) := rfl
  rw [hText]
  apply LexesSolid.behind (lexes_blankBehind hMode (by
    rintro _ ⟨⟩
    decide))
  rintro m _ spaced' ⟨hAwaits, rfl⟩
  apply LexesSolid.behind (lexes_reserved hWord hAwaits
    (endsName_sectionsText depth _ sections))
  rintro _ _ spaced'' ⟨rfl, l, rfl, hKind, _⟩
  apply (lexesSolid_sectionsText "do" hFirst hNames hSections
    hEnds).mono
  rintro _ ls ⟨rfl, hSpells⟩
  exact ⟨rfl, hSpells.readsBlock hKind⟩

/- A block alone behind a name. -/
theorem LaysBlock.laysCall
    (hBlock : LaysBlock t text)
    (hBlocks : context.doBlocks = true) :
    LaysCall context [t] text := by
  refine ⟨hBlock.neat, ?_, ?_⟩
  · intro c hHead
    rw [hBlock.starts] at hHead
    cases hHead
    decide
  · intro depth mode rest hMode hEnds
    apply (hBlock.lexes depth mode false rest
      (Mode.endsElement_of_endsChain hMode) hEnds).mono
    exact fun m ls h => ⟨h.1, fun c hWithin =>
      h.2.readsCall (hWithin.doBlocks hBlocks)⟩

theorem Kind.startsArgument_of_beginsItem
    {k : Kind}
    (hBegins : k.beginsItem = true) :
    k ≠ .operator .notWord ∧ k.startsArgument = true := by
  rcases Bool.or_eq_true_iff.mp hBegins with hKey | hChain
  · rcases of_beginsPair hKey with rfl | rfl <;>
      exact ⟨Kind.noConfusion, rfl⟩
  · cases k with
    | word w => cases w <;> first | exact ⟨Kind.noConfusion, rfl⟩ |
        cases hChain
    | _ => first | exact ⟨Kind.noConfusion, rfl⟩ | cases hChain

/- Behind a blank, an item starts an argument. -/
theorem argumentAhead_of_beginsItem
    {ls : List Lexeme}
    (more : List Lexeme)
    (hBegins : ls.head?.any (·.kind.beginsItem) = true)
    (hSpaced : ∀ l ∈ ls.head?, l.spaced = true) :
    argumentAhead (ls ++ more) = true := by
  rcases exists_of_head?_any hBegins with ⟨l, rest, rfl, hBegins⟩
  have hStarts := Kind.startsArgument_of_beginsItem hBegins
  rw [List.cons_append, argumentAhead, hSpaced l rfl,
    if_neg hStarts.1, hStarts.2]
  rfl

theorem itemTerms_ne_nil
    (hSome : Element.all (leaves items) (leafPairs pairs) ≠ []) :
    itemTerms items pairs ≠ [] := by
  cases items with
  | nil =>
      cases pairs with
      | nil => exact absurd rfl hSome
      | cons p pairs => exact List.cons_ne_nil _ _
  | cons t items => exact List.cons_ne_nil _ _

/- Items without parentheses and a block behind them. -/
theorem LaysBlock.laysCall_open
    (hBlock : LaysBlock t text)
    (hItems : LaysItems .argument items pairs)
    (hSome : Element.all (leaves items) (leafPairs pairs) ≠ [])
    (hMany :
      context.manyArguments = true ∨
        (itemTerms items pairs).length ≤ 1)
    (hBlocks : context.doBlocks = true) :
    LaysCall context (itemTerms items pairs ++ [t])
      ([' '] ++ itemsText items pairs ++ text) := by
  have hBlank : IsLine [' '] := ⟨by decide, by decide, by decide⟩
  have hLays := LaysText.commas hItems.laysText_of_mem hSome
  refine ⟨(hBlank.isNeat.append hLays.neat).append hBlock.neat,
    ?_, ?_⟩
  · rintro c ⟨⟩
    decide
  · intro depth mode rest hMode hEnds
    have hEnded := Mode.endsElement_of_endsChain hMode
    have hText :
        deepened depth ([' '] ++ itemsText items pairs ++ text) =
          ' ' :: deepened depth (itemsText items pairs) ++
            deepened depth text := by
      rw [deepened_append, deepened_append,
        deepened_of_notMem depth hBlank.noBreak]
      rfl
    have hEnds' : EndsOperand (deepened depth text ++ rest) := by
      have hStarts := hBlock.starts
      rw [← head?_deepened depth] at hStarts
      cases hList : deepened depth text with
      | nil =>
          rw [hList] at hStarts
          cases hStarts
      | cons c cs =>
          rw [hList] at hStarts
          cases hStarts
          exact .inl (by decide)
    rw [hText]
    apply LexesSolid.behind (lexes_spaced
      (Mode.awaitsOperand_or_endsOperand hEnded)
      (hLays.isBlank_eq depth)
      ((hLays.lays depth).lexes _ _
        (Mode.awaitsWord_afterBlank hEnded) hEnds'))
    rintro m ls spaced ⟨⟨hMode', hElements⟩, hSpaced⟩
    apply (hBlock.lexes depth m spaced rest hMode' hEnds).mono
    rintro m' block ⟨hMode'', hReads⟩
    refine ⟨hMode'', fun c hWithin => ?_⟩
    have hTerms :
        argumentTerms (leaves items) (leafPairs pairs) =
          itemTerms items pairs :=
      argumentTerms_leaves items pairs
    rw [← hTerms]
    apply ReadsBlock.readsCall_open
      (hElements.mono fun _ _ h =>
        h.spelled .argument (Context.isWithin_refl _))
      ?_ (fun _ => ordered_of_mem_leaves)
      (fun _ => ordered_of_mem_leafPairs) ?_
      (fun more => argumentAhead_of_beginsItem more
        (hElements.begins hSome fun _ _ h => h.begins) hSpaced)
      hReads
      (hWithin.doBlocks hBlocks)
    · rw [hTerms]
      exact itemTerms_ne_nil hSome
    · rw [hTerms]
      exact hMany.imp_left hWithin.manyArguments

------------------------------------------------------------
-- Functions
------------------------------------------------------------

/- The lexemes of a function, from those of its clauses. -/
theorem lexesSolid_function
    {inside : List Char}
    (hMode : mode.awaitsWord = true)
    (hEnds : EndsName rest)
    (hBehind : EndsName (inside ++ "end".toList ++ rest))
    (hInside :
      Lexes [] .afterOperator inside ("end".toList ++ rest)
        (fun m ls =>
          m.awaitsWord = true ∧
            ∃ clauses lead,
              ls = clauses ++ lead ∧ IsLead lead ∧
                ReadsBody (ClausesOf ts) clauses)) :
    LexesSolid mode spaced
      ("fn".toList ++ (inside ++ "end".toList)) rest
      (fun m ls =>
        m.endsChain = true ∧
          ∀ c : Context, ReadsChain c
            (·.Denotes (.operation "fn" ts)) ls) := by
  have hFn : Word.fn.reserved? = some ("fn", .afterOperator) := rfl
  have hEnd : Word.end.reserved? = some ("end", .afterMark) := rfl
  apply LexesSolid.behind (lexes_reserved hFn hMode hBehind)
  rintro _ _ spaced' ⟨rfl, opened, rfl, hOpened, _⟩
  apply LexesSolid.behind hInside
  rintro m _ spaced'' ⟨hMode', clauses, lead, rfl, hLead, hReads⟩
  apply (lexesSolid_reserved hEnd hMode' hEnds).mono
  rintro _ _ ⟨rfl, closed, rfl, hClosed, _⟩
  refine ⟨rfl, fun c => ?_⟩
  have hChain :
      ReadsChain c (·.Denotes (.operation "fn" ts))
        (opened :: (clauses ++ (lead ++ [closed]))) :=
    readsChain_fn hOpened hReads hLead hClosed
  simpa using hChain

theorem endsName_cons
    {c : Char}
    {cs : List Char}
    (hEnds : c ∈ nameEnds) :
    EndsName (c :: cs) := by
  rintro _ ⟨⟩
  exact hEnds

/- A function in one line. -/
theorem laysChain_function
    (hClauses : LaysText text (ReadsBody (ClausesOf ts))) :
    LaysChain context (·.Denotes (.operation "fn" ts))
      ("fn ".toList ++ text ++ " end".toList) := by
  have hFn : IsLine "fn ".toList := ⟨by decide, by decide, by decide⟩
  have hEnd : IsLine " end".toList :=
    ⟨by decide, by decide, by decide⟩
  refine ⟨rfl,
    (hFn.isNeat.append hClauses.neat).append hEnd.isNeat, ?_⟩
  intro depth mode spaced rest hMode hEnds
  have hText :
      deepened depth ("fn ".toList ++ text ++ " end".toList) =
        "fn".toList ++ (deepened depth ([' '] ++ text) ++ [' '] ++
          "end".toList) := by
    rw [deepened_append, deepened_append, deepened_append depth [' '],
      deepened_of_notMem depth hFn.noBreak,
      deepened_of_notMem depth hEnd.noBreak,
      deepened_of_notMem depth (by decide : '\n' ∉ [' '])]
    simp
  rw [hText]
  apply (lexesSolid_function hMode hEnds ?_ ?_).mono
  · exact fun m ls h => ⟨h.1, fun c _ => h.2 c⟩
  · rw [deepened_append, deepened_of_notMem depth (by decide)]
    exact endsName_cons (by decide)
  · have hEnds' : EndsOperand ([' '] ++ ("end".toList ++ rest)) :=
      .inl (by decide)
    apply (hClauses.lexes_beside hEnds').append
    rintro m clauses ⟨hMode', hReads⟩
    apply (lexes_blankBehind hMode' ?_).mono
    · rintro m' _ ⟨hAwaits, rfl⟩
      exact ⟨hAwaits, clauses, [], rfl, .inl rfl, hReads⟩
    · rintro _ ⟨⟩
      decide

/- A function with its clauses below. -/
theorem laysChain_tallFunction
    (hClauses : LaysText text (ReadsBody (ClausesOf ts))) :
    LaysChain context (·.Denotes (.operation "fn" ts))
      ("fn\n".toList ++ Written.indent text ++ "\nend".toList) := by
  have hFn : IsLine "fn".toList := ⟨by decide, by decide, by decide⟩
  have hEnd : IsLine "end".toList :=
    ⟨by decide, by decide, by decide⟩
  refine ⟨rfl,
    (hFn.isNeat.break hClauses.neat.indent).break hEnd.isNeat, ?_⟩
  intro depth mode spaced rest hMode hEnds
  have hText :
      deepened depth
          ("fn\n".toList ++ Written.indent text ++ "\nend".toList) =
        "fn".toList ++
          (deepened depth ("\n".toList ++ Written.indent text) ++
            deepened depth ['\n'] ++ "end".toList) := by
    have hSplit :
        "fn\n".toList ++ Written.indent text ++ "\nend".toList =
          "fn".toList ++ ("\n".toList ++ Written.indent text) ++
            ['\n'] ++ "end".toList := by
      simp
    rw [hSplit, deepened_append depth _ "end".toList,
      deepened_append depth _ ['\n'],
      deepened_append depth "fn".toList,
      deepened_of_notMem depth hFn.noBreak,
      deepened_of_notMem depth hEnd.noBreak]
    simp only [List.append_assoc]
  rw [hText]
  apply (lexesSolid_function hMode hEnds ?_ ?_).mono
  · exact fun m ls h => ⟨h.1, fun c _ => h.2 c⟩
  · rw [deepened_below depth hClauses.neat, deepened_break]
    exact endsName_cons (by decide)
  · have hEnds' :
        EndsOperand (deepened depth ['\n'] ++
          ("end".toList ++ rest)) :=
      .inl (by decide)
    apply (hClauses.lexes_below hEnds').append
    rintro m clauses ⟨hMode', hReads⟩
    apply (lexes_lineEnd hMode' ?_).mono
    · rintro m' _ ⟨hAwaits, l, rfl, hLine⟩
      exact ⟨Mode.awaitsWord_of_awaitsOperand hAwaits, clauses, [l],
        rfl, .inr ⟨l, rfl, hLine⟩, hReads⟩
    · rintro _ ⟨⟩
      decide

end ElixirReader
