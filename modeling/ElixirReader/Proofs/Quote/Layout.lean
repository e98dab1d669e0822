import ElixirReader.Proofs.Lexer.Blocks
import ElixirReader.Proofs.Quote.Clauses
import ElixirReader.Proofs.Quote.Names

/-
  This file shows how texts of code are put together from the
  texts of their parts: names, suffixes and arguments. A text is
  laid out if it is read as it should be, wherever its lines are
  moved to.

  Key definitions include:
    * `Context.IsWithin`
    * `LaysText`
    * `LaysChain`
    * `LaysCall`

  Main declarations:
    * `LaysText.commas`
    * `LaysText.lines`
    * `LaysChain.suffix`
    * `LaysCall.laysChain`
    * `LaysItems.laysCall`
-/

namespace ElixirReader

open Parse Written Unicode

variable {α : Type}
variable {t : Term}
variable {ts : List Term}
variable {context : Context}
variable {text text' rest : List Char}
variable {Spelled Spelled' : List Lexeme → Prop}
variable {P Q : Node → Prop}

------------------------------------------------------------
-- Texts
------------------------------------------------------------

/-
  A neat text is taken as an element, wherever its lines are
  moved to.
-/
structure LaysText
    (text : List Char)
    (Spelled : List Lexeme → Prop) : Prop where
  neat : IsNeat text
  lays : ∀ depth,
    LaysElement Mode.awaitsWord (deepened depth text) Spelled

theorem LaysText.mono
    (hLays : LaysText text Spelled)
    (hSpelled : ∀ ls, Spelled ls → Spelled' ls) :
    LaysText text Spelled' := by
  refine ⟨hLays.neat, fun depth =>
    ⟨(hLays.lays depth).starts, ?_⟩⟩
  intro mode rest hMode hEnds
  apply ((hLays.lays depth).lexes mode rest hMode hEnds).mono
  exact fun _ ls h => ⟨h.1, hSpelled ls h.2⟩

/- No blank comes first, wherever the lines are moved to. -/
theorem LaysText.isBlank_eq
    (depth : Nat)
    (hLays : LaysText text Spelled) :
    ∀ c ∈ (deepened depth text ++ rest).head?, isBlank c = false := by
  intro c hHead
  have hStarts :=
    of_head?_append (hLays.lays depth).starts c hHead
  simpa using hStarts

variable {as : List α}
variable {write : α → List Char}
variable {SpelledBy : α → List Lexeme → Prop}

/- Texts with separators between them move together. -/
theorem LaysText.intercalate
    {separator : List Char}
    {kind : Kind}
    (hSeparator : ∀ depth,
      LaysSeparator Mode.awaitsWord (deepened depth separator) kind)
    (hNeat : IsNeat (separator.intercalate (as.map write)))
    (hItems : ∀ a ∈ as, LaysText (write a) (SpelledBy a))
    (hSome : as ≠ []) :
    LaysText (separator.intercalate (as.map write))
      (Separated kind SpelledBy as) := by
  refine ⟨hNeat, ?_⟩
  intro depth
  have hText :
      deepened depth (separator.intercalate (as.map write)) =
        (deepened depth separator).intercalate
          (as.map fun a => deepened depth (write a)) := by
    rw [deepened_intercalate, List.map_map]
    rfl
  have hLays : ∀ a ∈ as,
      LaysElement Mode.awaitsWord (deepened depth (write a))
        (SpelledBy a) :=
    fun a hMember => (hItems a hMember).lays depth
  rw [hText]
  refine ⟨?_, ?_⟩
  · cases as with
    | nil => exact absurd rfl hSome
    | cons a as =>
        exact head?_intercalate _ _ (hLays a List.mem_cons_self).starts
  · intro mode rest hMode hEnds
    exact lexes_intercalate (hSeparator depth) hLays hSome hMode hEnds

theorem LaysText.commas
    (hItems : ∀ a ∈ as, LaysText (write a) (SpelledBy a))
    (hSome : as ≠ []) :
    LaysText (Written.commas (as.map write))
      (Separated .comma SpelledBy as) := by
  have hComma : IsLine ", ".toList :=
    ⟨by decide, by decide, by decide⟩
  refine LaysText.intercalate ?_ ?_ hItems hSome
  · intro depth
    rw [deepened_of_notMem depth hComma.noBreak]
    exact laysSeparator_comma rfl
  · apply hComma.isNeat.intercalate
    · intro text hMember
      rcases List.mem_map.mp hMember with ⟨a, hItem, rfl⟩
      exact (hItems a hItem).neat
    · simpa using hSome

/- A line break, with the indentation behind it. -/
theorem laysSeparator_line
    (depth : Nat) :
    LaysSeparator Mode.awaitsWord (deepened depth "\n".toList)
      .endOfLine := by
  refine ⟨?_, ?_⟩
  · intro rest
    exact .inl (by decide)
  · intro mode rest hMode hNext
    apply (lexes_lineEnd hMode hNext).mono
    exact fun m _ h => ⟨Mode.awaitsWord_of_awaitsOperand h.1, h.2⟩

theorem LaysText.lines
    (hItems : ∀ a ∈ as, LaysText (write a) (SpelledBy a))
    (hSome : as ≠ []) :
    LaysText (Written.lines (as.map write))
      (Separated .endOfLine SpelledBy as) := by
  apply LaysText.intercalate laysSeparator_line ?_ hItems hSome
  apply IsNeat.lines
  · intro text hMember
    rcases List.mem_map.mp hMember with ⟨a, hItem, rfl⟩
    exact (hItems a hItem).neat
  · simpa using hSome

------------------------------------------------------------
-- Chains
------------------------------------------------------------

/- What a context allows, another one allows as well. -/
structure Context.IsWithin
    (c c' : Context) : Prop where
  manyArguments : c.manyArguments = true → c'.manyArguments = true
  doBlocks : c.doBlocks = true → c'.doBlocks = true

theorem starts_of_startsOperandText
    (hStarts : text.head?.any startsOperandText = true) :
    text.head?.any (fun c => !isBlank c) = true := by
  cases text with
  | nil => cases hStarts
  | cons c cs =>
      change (!isBlank c) = true
      rw [isBlank_of_startsOperandText hStarts]
      rfl

/- A text is laid out as a chain. -/
structure LaysChain
    (context : Context)
    (P : Node → Prop)
    (text : List Char) : Prop where
  starts : text.head?.any startsOperandText = true
  neat : IsNeat text
  lexes : ∀ depth mode spaced rest,
    mode.awaitsWord = true →
      EndsName rest →
        LexesSolid mode spaced (deepened depth text) rest
          (fun m ls =>
            m.endsChain = true ∧
              ∀ c, context.IsWithin c → ReadsChain c P ls)

theorem LaysChain.laysText
    (hLays : LaysChain context P text) :
    LaysText text
      (fun ls => ∀ c, context.IsWithin c → ReadsChain c P ls) := by
  refine ⟨hLays.neat, fun depth => ⟨?_, ?_⟩⟩
  · rw [head?_deepened]
    exact starts_of_startsOperandText hLays.starts
  · intro mode rest hMode hEnds
    apply Lexes.mono (LexesSolid.lexes fun spaced =>
      hLays.lexes depth mode spaced rest hMode hEnds.endsNameBefore)
    exact fun m ls h => ⟨Mode.endsElement_of_endsChain h.1, h.2⟩

theorem LaysChain.mono
    (hLays : LaysChain context P text)
    (hSame : ∀ node, P node → Q node) :
    LaysChain context Q text := by
  refine ⟨hLays.starts, hLays.neat, ?_⟩
  intro depth mode spaced rest hMode hEnds
  apply (hLays.lexes depth mode spaced rest hMode hEnds).mono
  exact fun m ls h => ⟨h.1, fun c hWithin => (h.2 c hWithin).mono hSame⟩

/-
  An element is spelled as what is allowed in a context, and in
  contexts that allow more. It starts with a chain or a key.
-/
structure Element.IsWritten
    (context : Context)
    (e : Element)
    (ls : List Lexeme) : Prop where
  begins : ls.head?.any (·.kind.beginsItem) = true
  spelled : ∀ c, context.IsWithin c → e.IsSpelled c ls

theorem Context.isWithin_refl
    (context : Context) :
    context.IsWithin context :=
  ⟨id, id⟩

/- A chain with a term is an element. -/
theorem LaysChain.laysItem
    (hLays : LaysChain context (·.Denotes t) t.written.text) :
    LaysText (Element.expression (.leaf t)).text
      ((Element.expression (.leaf t)).IsWritten context) := by
  apply hLays.laysText.mono
  intro ls hReads
  refine ⟨?_, fun c hWithin =>
    .leaf t ls (hReads c hWithin).readsOperand⟩
  rcases exists_of_head?_any
    (hReads context (Context.isWithin_refl context)).begins with
    ⟨l, rest, rfl, hBegins⟩
  exact Kind.beginsItem_of_beginsChain hBegins

/- Pairs start with a key. -/
theorem Element.IsSpelled.beginsItem
    {key : String}
    {tree : OperatorTree Term Sign}
    {ls : List Lexeme}
    (hSpelled : (Element.pair key tree).IsSpelled context ls) :
    ls.head?.any (·.kind.beginsItem) = true := by
  rcases hSpelled.exists_opensPair with
    ⟨keys, values, rfl, _, hOpens⟩
  apply head?_any_append
  rcases exists_of_head?_any (hOpens .none []).begins with
    ⟨l, rest, rfl, hBegins⟩
  exact Kind.beginsItem_of_beginsPair hBegins

/- A key and a chain behind it are an element. -/
theorem LaysChain.laysPair
    {key : String}
    (hVisible : key.toList.all Literal.isVisible = true)
    (hLays : LaysChain context (·.Denotes t) t.written.text) :
    LaysText (Element.pair key (.leaf t)).text
      ((Element.pair key (.leaf t)).IsWritten context) := by
  have hKey := isLine_key hVisible
  have hText :
      (Element.pair key (.leaf t)).text =
        Literal.key key ++ [' '] ++ t.written.text :=
    rfl
  have hValue := hLays.laysItem
  rw [hText]
  refine ⟨hKey.isNeat.append hLays.neat, fun depth => ?_⟩
  rw [deepened_append, deepened_of_notMem depth hKey.noBreak,
    List.append_assoc]
  refine ⟨head?_any_append _ (head?_key hVisible), ?_⟩
  intro mode rest hMode hEnds
  apply (lexes_pair hVisible hMode (hValue.isBlank_eq depth)
    ((hValue.lays depth).lexes .initial rest rfl hEnds)).mono
  rintro m _ ⟨keys, values, rfl, ⟨hMode', hSpelled⟩, hKeys⟩
  have hPair : ∀ c, context.IsWithin c →
      (Element.pair key (.leaf t)).IsSpelled c (keys ++ values) :=
    fun c hWithin =>
      ⟨keys, values, rfl, hSpelled.spelled c hWithin, hKeys⟩
  exact ⟨hMode',
    (hPair context (Context.isWithin_refl context)).beginsItem, hPair⟩

/- Items and pairs are laid out if their terms are. -/
structure LaysItems
    (context : Context)
    (items : List Term)
    (pairs : List (String × Term)) : Prop where
  items : ∀ t ∈ items,
    LaysChain context (·.Denotes t) t.written.text
  keys : ∀ p ∈ pairs, p.1.toList.all Literal.isVisible = true
  values : ∀ p ∈ pairs,
    LaysChain context (·.Denotes p.2) p.2.written.text

variable {items : List Term}
variable {pairs : List (String × Term)}

theorem LaysItems.laysText_of_mem
    (hItems : LaysItems context items pairs) :
    ∀ e ∈ Element.all (leaves items) (leafPairs pairs),
      LaysText e.text (e.IsWritten context) := by
  intro e hMember
  rcases List.mem_append.mp hMember with hMember | hMember
  · simp only [leaves, List.map_map, List.mem_map,
      Function.comp_apply] at hMember
    rcases hMember with ⟨t, hTerm, rfl⟩
    exact (hItems.items t hTerm).laysItem
  · simp only [leafPairs, Element.ofPairs, List.map_map,
      List.mem_map, Function.comp_apply] at hMember
    rcases hMember with ⟨p, hPair, rfl⟩
    exact (hItems.values p hPair).laysPair (hItems.keys p hPair)

/- The text of items, and of pairs behind them. -/
def itemsText
    (items : List Term)
    (pairs : List (String × Term)) : List Char :=
  Written.commas
    ((Element.all (leaves items) (leafPairs pairs)).map Element.text)

------------------------------------------------------------
-- Names and aliases
------------------------------------------------------------

variable {name : String}

/- A text of a single lexeme is laid out as what it is read as. -/
theorem laysChain_single
    {kind : Kind}
    {mode' : Mode}
    (hStarts : text.head?.any startsOperandText = true)
    (hLine : IsLine text)
    (hEnded : mode'.endsChain = true)
    (hLexes : ∀ mode spaced rest,
      mode.awaitsWord = true →
        EndsName rest →
          LexesSolid mode spaced text rest
            (IsTouching kind text spaced mode'))
    (hReads : ∀ c l,
      l.kind = kind →
        l.text = String.ofList text →
          ReadsChain c P [l]) :
    LaysChain context P text := by
  refine ⟨hStarts, hLine.isNeat, ?_⟩
  intro depth mode spaced rest hMode hEnds
  rw [deepened_of_notMem depth hLine.noBreak]
  apply (hLexes mode spaced rest hMode hEnds).mono
  rintro _ _ ⟨rfl, l, rfl, hKind, hText, _⟩
  exact ⟨hEnded, fun c _ => hReads c l hKind hText⟩

theorem laysChain_variable
    (hName : IsVariableName name.toList) :
    LaysChain context (·.Denotes (.ofName name)) name.toList := by
  have hEnded : Mode.afterIdentifier.endsChain = true := rfl
  apply laysChain_single hName.starts
    hName.isLine hEnded
  · exact fun mode spaced rest => lexesSolid_variable hName
  · intro c l hKind hText
    rw [← String.ofList_toList (s := name), ← hText]
    exact readsChain_variable hKind

theorem laysChain_alias
    (hName : Literal.isAliasSegment name.toList = true) :
    LaysChain context (IsAliasNode none [name]) name.toList := by
  have hPlain : Literal.isPlain name.toList = true :=
    Bool.or_eq_true_iff.mpr (.inr hName)
  have hEnded : Mode.afterAlias.endsChain = true := rfl
  apply laysChain_single (starts_of_isPlain hPlain)
    (isLine_of_isPlain hPlain) hEnded
  · exact fun mode spaced rest => lexesSolid_alias hName
  · intro c l hKind hText
    rw [← String.ofList_toList (s := name), ← hText]
    exact readsChain_alias hKind

theorem laysChain_nil :
    LaysChain context (·.Denotes .nil) "nil".toList :=
  have hEnded : Mode.afterLiteral.endsChain = true := rfl
  laysChain_single (by decide) ⟨by decide, by decide, by decide⟩
    hEnded
    (fun mode spaced rest => lexesSolid_reserved rfl)
    (fun c l hKind _ => readsChain_nil hKind)

------------------------------------------------------------
-- Suffixes
------------------------------------------------------------

/- A text is laid out as a suffix that makes a larger chain. -/
structure LaysSuffix
    (context : Context)
    (P Q : Node → Prop)
    (text : List Char) : Prop where
  neat : IsNeat text
  ends : ∀ c ∈ text.head?, c ∈ nameEnds
  lexes : ∀ depth mode rest,
    mode.endsChain = true →
      EndsName rest →
        LexesSolid mode false (deepened depth text) rest
          (fun m tail =>
            m.endsChain = true ∧
              ∀ c ls, context.IsWithin c →
                ReadsChain c P ls → ReadsChain c Q (ls ++ tail))

theorem endsName_deepened
    (depth : Nat)
    (hNeat : IsNeat text)
    (hEnds : ∀ c ∈ text.head?, c ∈ nameEnds) :
    EndsName (deepened depth text ++ rest) := by
  intro c hHead
  rw [List.head?_append_of_ne_nil _ (hNeat.deepened depth).filled,
    head?_deepened] at hHead
  exact hEnds c hHead

theorem LaysChain.suffix
    (hLays : LaysChain context P text)
    (hSuffix : LaysSuffix context P Q text') :
    LaysChain context Q (text ++ text') := by
  refine ⟨head?_any_append text' hLays.starts,
    hLays.neat.append hSuffix.neat, ?_⟩
  intro depth mode spaced rest hMode hEnds
  rw [deepened_append]
  apply (hLays.lexes depth mode spaced _ hMode
    (endsName_deepened depth hSuffix.neat hSuffix.ends)).append
  rintro m ls ⟨hMode', hReads⟩
  apply (hSuffix.lexes depth m rest hMode' hEnds).mono
  exact fun m' tail h => ⟨h.1, fun c hWithin =>
    h.2 c ls hWithin (hReads c hWithin)⟩

/- A dot with a name that touches it. -/
theorem isLine_dotted
    {name : List Char}
    (hName : IsLine name) :
    IsLine (['.'] ++ name) :=
  IsLine.append ⟨by decide, by decide, by decide⟩ hName

/- A dot, and what comes behind it in one or more lexemes. -/
theorem lexesSolid_dotted
    {depth : Nat}
    {mode : Mode}
    {Behind : Mode → List Lexeme → Prop}
    (hMode : mode.endsChain = true)
    (hNext : ∀ c ∈ (deepened depth text ++ rest).head?, c ≠ '.')
    (hBehind :
      LexesSolid .afterDot false (deepened depth text) rest Behind) :
    LexesSolid mode false (deepened depth (['.'] ++ text)) rest
      (fun m tail => ∃ dot ls,
        tail = dot :: ls ∧ dot.kind = .dot ∧ Behind m ls) := by
  have hDot : deepened depth ['.'] = ['.'] :=
    deepened_of_notMem depth (by decide)
  rw [deepened_append, hDot]
  apply (lexesSolid_dot hMode hNext).append
  rintro _ _ ⟨rfl, dot, rfl, hKind, _⟩
  apply hBehind.mono
  exact fun m ls h => ⟨dot, ls, rfl, hKind, h⟩

/- No dot starts a name. -/
theorem ne_dot_of_isPlain
    {name : List Char}
    (hPlain : Literal.isPlain name = true) :
    ∀ c ∈ (name ++ rest).head?, c ≠ '.' := by
  rcases isWholeName_of_isPlain hPlain with ⟨c, cs, rfl, hStart, _⟩
  rintro _ ⟨⟩ rfl
  exact absurd hStart (by decide)

/- One more segment behind what may have one. -/
theorem laysSuffix_alias
    {base : Option Term}
    {segments : List String}
    (hName : Literal.isAliasSegment name.toList = true)
    (hExtends : ∀ node l,
      P node →
        l.text = name →
          IsAliasNode base segments (extendAlias node l)) :
    LaysSuffix context P (IsAliasNode base segments)
      (['.'] ++ name.toList) := by
  have hPlain : Literal.isPlain name.toList = true :=
    Bool.or_eq_true_iff.mpr (.inr hName)
  have hLine := isLine_of_isPlain hPlain
  refine ⟨(isLine_dotted hLine).isNeat, ?_, ?_⟩
  · rintro c ⟨⟩
    exact List.mem_cons_self
  · intro depth mode rest hMode hEnds
    have hSelf : deepened depth name.toList = name.toList :=
      deepened_of_notMem depth hLine.noBreak
    have hNext :
        ∀ c ∈ (deepened depth name.toList ++ rest).head?,
          c ≠ '.' := by
      rw [hSelf]
      exact ne_dot_of_isPlain hPlain
    have hBehind :
        LexesSolid .afterDot false (deepened depth name.toList) rest
          (IsTouching .alias name.toList false .afterAlias) := by
      rw [hSelf]
      exact lexesSolid_aliasBehindDot hName hEnds
    apply (lexesSolid_dotted hMode hNext hBehind).mono
    rintro _ _ ⟨dot, _, rfl, hDot, rfl, l, rfl, hKind, hText, _⟩
    refine ⟨rfl, fun c ls _ hReads => ?_⟩
    apply hReads.alias hDot hKind
    intro node hNode
    exact hExtends node l hNode
      (hText.trans (String.ofList_toList (s := name)))

/- A name behind a dot that is not called. -/
theorem LaysName.laysSuffix_field
    {word : List Char}
    (hName : LaysName name word) :
    LaysSuffix context (·.Denotes t) (·.Denotes (.field t name))
      (['.'] ++ word) := by
  refine ⟨(isLine_dotted hName.line).isNeat, ?_, ?_⟩
  · rintro c ⟨⟩
    exact List.mem_cons_self
  · intro depth mode rest hMode hEnds
    have hSelf : deepened depth word = word :=
      deepened_of_notMem depth hName.line.noBreak
    have hNext :
        ∀ c ∈ (deepened depth word ++ rest).head?, c ≠ '.' := by
      rw [hSelf]
      exact hName.ne_dot
    have hBehind :
        LexesSolid .afterDot false (deepened depth word) rest
          (fun m ls => m.endsChain = true ∧ ReadsName name ls) := by
      rw [hSelf]
      exact hName.lexes false rest hEnds
    apply (lexesSolid_dotted hMode hNext hBehind).mono
    rintro m _ ⟨dot, names, rfl, hDot, hMode', hReadsName⟩
    exact ⟨hMode', fun c ls _ hReads => hReads.field hDot hReadsName⟩

------------------------------------------------------------
-- Calls
------------------------------------------------------------

variable {args : List Term}

/- A text behind a name makes a call of it. -/
structure LaysCall
    (context : Context)
    (args : List Term)
    (text : List Char) : Prop where
  neat : IsNeat text
  ends : ∀ c ∈ text.head?, c ∈ nameEnds
  lexes : ∀ depth mode rest,
    mode.endsChain = true →
      EndsName rest →
        LexesSolid mode false (deepened depth text) rest
          (fun m ls =>
            m.endsChain = true ∧
              ∀ c, context.IsWithin c → ReadsCall c args ls)

/- A call of a name that is not reserved. -/
theorem LaysCall.laysChain
    (hCall : LaysCall context args text)
    (hName : IsVariableName name.toList) :
    LaysChain context (·.Denotes (.operation name args))
      (name.toList ++ text) := by
  have hLine := hName.isLine
  refine ⟨head?_any_append text hName.starts,
    hLine.isNeat.append hCall.neat, ?_⟩
  intro depth mode spaced rest hMode hEnds
  rw [deepened_append, deepened_of_notMem depth hLine.noBreak]
  apply (lexesSolid_variable hName hMode
    (endsName_deepened depth hCall.neat hCall.ends)).append
  rintro _ _ ⟨rfl, l, rfl, hKind, hText, _⟩
  apply (hCall.lexes depth .afterIdentifier rest rfl hEnds).mono
  rintro m ls ⟨hMode', hReads⟩
  refine ⟨hMode', fun c hWithin => ?_⟩
  rw [← String.ofList_toList (s := name), ← hText]
  exact readsChain_call hKind (hReads c hWithin)

/- A call of a name behind a dot. -/
theorem LaysCall.laysSuffix
    {word : List Char}
    (hCall : LaysCall context args text)
    (hName : LaysName name word) :
    LaysSuffix context (·.Denotes t) (·.Denotes (.remote t name args))
      (['.'] ++ (word ++ text)) := by
  have hDot : IsLine ['.'] := ⟨by decide, by decide, by decide⟩
  refine ⟨hDot.isNeat.append (hName.line.isNeat.append hCall.neat),
    ?_, ?_⟩
  · rintro c ⟨⟩
    exact List.mem_cons_self
  · intro depth mode rest hMode hEnds
    have hSelf :
        deepened depth (word ++ text) =
          word ++ deepened depth text := by
      rw [deepened_append, deepened_of_notMem depth hName.line.noBreak]
    have hNext :
        ∀ c ∈ (deepened depth (word ++ text) ++ rest).head?,
          c ≠ '.' := by
      rw [hSelf, List.append_assoc]
      exact hName.ne_dot
    have hBehind :
        LexesSolid .afterDot false (deepened depth (word ++ text)) rest
          (fun m ls =>
            m.endsChain = true ∧
              ∃ names tail,
                ls = names ++ tail ∧ ReadsName name names ∧
                  ∀ c, context.IsWithin c →
                    ReadsCall c args tail) := by
      rw [hSelf]
      apply (hName.lexes false _
        (endsName_deepened depth hCall.neat hCall.ends)).append
      rintro m names ⟨hMode', hReadsName⟩
      apply (hCall.lexes depth m rest hMode' hEnds).mono
      rintro m' tail ⟨hMode'', hReads⟩
      exact ⟨hMode'', names, tail, rfl, hReadsName, hReads⟩
    apply (lexesSolid_dotted hMode hNext hBehind).mono
    rintro m _ ⟨dot, _, rfl, hDot, hMode', names, tail, rfl,
      hReadsName, hReads⟩
    exact ⟨hMode', fun c ls hWithin hChain =>
      hChain.remote hDot hReadsName (hReads c hWithin)⟩

------------------------------------------------------------
-- Arguments in parentheses
------------------------------------------------------------

/- Elements between brackets, wherever they are moved to. -/
theorem deepened_bracketed
    (depth : Nat)
    (es : List Element)
    {opener closer : Char}
    (hOpener : opener ≠ '\n')
    (hCloser : closer ≠ '\n') :
    deepened depth
        ([opener] ++ Written.commas (es.map Element.text) ++
          [closer]) =
      [opener] ++
        Written.commas (es.map fun e => deepened depth e.text) ++
        [closer] := by
  rw [deepened_append, deepened_append, deepened_commas,
    List.map_map, deepened_of_notMem depth (by simpa using hOpener.symm),
    deepened_of_notMem depth (by simpa using hCloser.symm)]
  rfl

variable {es : List Element}

theorem isNeat_bracketed
    {opener closer : Char}
    (hMarks : IsLine [opener] ∧ IsLine [closer])
    (hItems : ∀ e ∈ es, LaysText e.text (e.IsWritten context)) :
    IsNeat
      ([opener] ++ Written.commas (es.map Element.text) ++
        [closer]) := by
  cases es with
  | nil => exact (hMarks.1.append hMarks.2).isNeat
  | cons e es =>
      have hNeat :=
        (LaysText.commas hItems (List.cons_ne_nil e es)).neat
      exact (hMarks.1.isNeat.append hNeat).append hMarks.2.isNeat

theorem LaysItems.isApplied
    {depth : Nat}
    {mode : Mode}
    {b : Bracket}
    {opener closer : Char}
    (hItems : LaysItems .container items pairs)
    (hMarks : (b, opener, closer) ∈ bracketMarks)
    (hBracket : b ≠ .curly)
    (hMode : mode.opensBracket = true) :
    LexesSolid mode false
      (deepened depth ([opener] ++ itemsText items pairs ++ [closer]))
      rest
      (fun m ls =>
        m = .afterOperand ∧
          IsApplied (Element.IsSpelled .container) b
            (Element.all (leaves items) (leafPairs pairs)) ls) := by
  have hBreaks : opener ≠ '\n' ∧ closer ≠ '\n' := by
    have hAll :
        ∀ m ∈ bracketMarks, m.2.1 ≠ '\n' ∧ m.2.2 ≠ '\n' := by
      decide
    exact hAll _ hMarks
  rw [itemsText, deepened_bracketed depth _ hBreaks.1 hBreaks.2]
  apply lexesSolid_applied hMarks hBracket ?_ hMode
  intro e hMember
  have hLays := (hItems.laysText_of_mem e hMember).mono fun ls h =>
    h.spelled .container (Context.isWithin_refl _)
  exact hLays.lays depth

theorem IsApplied.areArguments
    {ls : List Lexeme}
    (hApplied :
      IsApplied (Element.IsSpelled .container) .parenthesis
        (Element.all (leaves items) (leafPairs pairs)) ls) :
    AreArguments (leaves items) (leafPairs pairs) ls :=
  ⟨hApplied, fun _ => ordered_of_mem_leaves,
    fun _ => ordered_of_mem_leafPairs⟩

/- The terms of items, and of pairs behind them as a list. -/
def itemTerms
    (items : List Term)
    (pairs : List (String × Term)) : List Term :=
  items ++ Term.keywordsOf (pairs.map Term.keyed)

theorem mem_bracketMarks_parenthesis :
    (.parenthesis, '(', ')') ∈ bracketMarks := by
  decide

theorem isLine_parentheses :
    IsLine ['('] ∧ IsLine [')'] :=
  ⟨⟨by decide, by decide, by decide⟩,
    ⟨by decide, by decide, by decide⟩⟩

/- Arguments in parentheses. -/
theorem LaysItems.laysCall
    (hItems : LaysItems .container items pairs) :
    LaysCall context (itemTerms items pairs)
      (['('] ++ itemsText items pairs ++ [')']) := by
  refine ⟨isNeat_bracketed isLine_parentheses
    hItems.laysText_of_mem, ?_, ?_⟩
  · rintro c ⟨⟩
    decide
  · intro depth mode rest hMode _
    have hOpens : mode.opensBracket = true := by
      rw [Mode.opensBracket, hMode, Bool.true_or]
    apply (hItems.isApplied mem_bracketMarks_parenthesis
      (by decide) hOpens).mono
    rintro _ ls ⟨rfl, hApplied⟩
    refine ⟨rfl, fun c _ => ?_⟩
    rw [itemTerms, ← argumentTerms_leaves]
    exact hApplied.areArguments.readsCall

/- A call of a function that is a value. -/
theorem LaysItems.laysSuffix
    (hItems : LaysItems .container items pairs) :
    LaysSuffix context (·.Denotes t)
      (·.Denotes (.anonymous t (itemTerms items pairs)))
      (['.'] ++ (['('] ++ itemsText items pairs ++ [')'])) := by
  have hDot : IsLine ['.'] := ⟨by decide, by decide, by decide⟩
  refine ⟨hDot.isNeat.append (isNeat_bracketed isLine_parentheses
    hItems.laysText_of_mem), ?_, ?_⟩
  · rintro c ⟨⟩
    exact List.mem_cons_self
  · intro depth mode rest hMode hEnds
    have hBehind :
        LexesSolid .afterDot false
          (deepened depth (['('] ++ itemsText items pairs ++ [')']))
          rest _ :=
      hItems.isApplied mem_bracketMarks_parenthesis (by decide) rfl
    have hNext :
        ∀ c ∈ (deepened depth
            (['('] ++ itemsText items pairs ++ [')']) ++ rest).head?,
          c ≠ '.' := by
      rintro c hHead rfl
      cases hHead
    apply (lexesSolid_dotted hMode hNext hBehind).mono
    rintro _ _ ⟨dot, tail, rfl, hKind, rfl, hApplied⟩
    refine ⟨rfl, fun c ls _ hReads => ?_⟩
    rw [itemTerms, ← argumentTerms_leaves]
    exact hReads.anonymous hKind hApplied.areArguments

------------------------------------------------------------
-- Keys
------------------------------------------------------------

/- A text is laid out as the key of an access. -/
structure LaysKey
    (key : Term)
    (text : List Char) : Prop where
  neat : IsNeat text
  lexes : ∀ depth rest,
    EndsOperand rest →
      Lexes [] .afterOpening (deepened depth text) rest
        (fun m ls => m.endsElement = true ∧ ReadsKey key ls)

theorem LaysChain.laysKey
    (hLays : LaysChain .container (·.Denotes t) text) :
    LaysKey t text := by
  have hText := hLays.laysText
  refine ⟨hLays.neat, fun depth rest hEnds => ?_⟩
  apply ((hText.lays depth).lexes .afterOpening rest rfl hEnds).mono
  exact fun m ls h => ⟨h.1,
    (h.2 .container (Context.isWithin_refl _)).readsOperand.readsKey⟩

theorem mem_bracketMarks_square :
    (.square, '[', ']') ∈ bracketMarks := by
  decide

theorem isLine_squares :
    IsLine ['['] ∧ IsLine [']'] :=
  ⟨⟨by decide, by decide, by decide⟩,
    ⟨by decide, by decide, by decide⟩⟩

/- Pairs in brackets of their own may be a key. -/
theorem LaysItems.laysKey
    (hItems : LaysItems .container [] pairs) :
    LaysKey (.list (pairs.map Term.keyed))
      (['['] ++ itemsText [] pairs ++ [']']) := by
  refine ⟨isNeat_bracketed isLine_squares hItems.laysText_of_mem,
    fun depth rest hEnds => ?_⟩
  have hElements :
      ∀ e ∈ Element.all (leaves []) (leafPairs pairs),
        LaysElement Mode.awaitsOperand (deepened depth e.text)
          (e.IsSpelled .container) := by
    intro e hMember
    have hLays := (hItems.laysText_of_mem e hMember).lays depth
    refine ⟨hLays.starts, fun mode rest hMode hEnds => ?_⟩
    apply (hLays.lexes mode rest
      (Mode.awaitsWord_of_awaitsOperand hMode) hEnds).mono
    exact fun m ls h => ⟨h.1,
      h.2.spelled .container (Context.isWithin_refl _)⟩
  rw [itemsText, deepened_bracketed depth _ (by decide) (by decide)]
  apply (lexes_bracketed mem_bracketMarks_square hElements rfl).mono
  rintro _ _ ⟨rfl, opened, body, closed, rfl, hOpened, hClosed,
    hElements⟩
  have hReads :
      ReadsOperand .container
        (.list ((leaves []).map (·.term) ++
          pairTerms (leafPairs pairs)))
        (opened :: (body ++ [closed])) :=
    readsOperand_list hOpened hElements
      (fun _ => ordered_of_mem_leaves)
      (fun _ => ordered_of_mem_leafPairs) hClosed
  rw [term_leaves, pairTerms_leafPairs, List.nil_append] at hReads
  exact ⟨rfl, hReads.readsKey⟩

/- A key in brackets. -/
theorem LaysKey.laysSuffix
    {key : Term}
    (hKey : LaysKey key text) :
    LaysSuffix context (·.Denotes t) (·.Denotes (.access t key))
      (['['] ++ text ++ [']']) := by
  refine ⟨(isLine_squares.1.isNeat.append hKey.neat).append
    isLine_squares.2.isNeat, ?_, ?_⟩
  · rintro c ⟨⟩
    decide
  · intro depth mode rest hMode _
    have hBrackets :
        deepened depth (['['] ++ text ++ [']']) =
          ['['] ++ (deepened depth text ++ [']']) := by
      rw [deepened_append, deepened_append,
        deepened_of_notMem depth isLine_squares.1.noBreak,
        deepened_of_notMem depth isLine_squares.2.noBreak,
        List.append_assoc]
    have hOpens : mode.opensBracket = true := by
      rw [Mode.opensBracket, hMode, Bool.true_or]
    rw [hBrackets]
    apply (lexesSolid_opening mem_bracketMarks_square (by decide)
      hOpens).append
    rintro _ _ ⟨rfl, opened, rfl, hOpened, _, hTouches⟩
    apply LexesSolid.behind (hKey.lexes depth (']' :: rest)
      (.inl (by decide)))
    rintro m keys spaced ⟨hMode', hReads⟩
    apply (lexesSolid_closing mem_bracketMarks_square (by decide)
      (Mode.awaitsOperand_or_endsOperand hMode')).mono
    rintro _ _ ⟨rfl, closed, rfl, hClosed, _⟩
    exact ⟨rfl, fun c ls _ hChain =>
      hChain.access hOpened hTouches hReads hClosed⟩

end ElixirReader
