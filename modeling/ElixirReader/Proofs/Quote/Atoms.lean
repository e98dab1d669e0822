import ElixirReader.Proofs.Lexer.Atoms
import ElixirReader.Proofs.Quote.Data
import ElixirReader.Proofs.Quote.Escapes
import ElixirReader.Term.Inspect

/-
  This file shows that atoms are read back as they are printed,
  whatever characters that can be seen their names consist of,
  and so are the keys of pairs. There is one gap: the colon of
  the atom `::` runs into its name.

  Key definitions include:
    * `IsKeyedList`
    * `Term.ReadsBack`

  Main declarations:
    * `lexes_printedAtom`
    * `OpensPair.list`
    * `readsBack_atom`
-/

namespace ElixirReader

open Parse

variable {m : Metadata}
variable {name : String}
variable {content : List Char}
variable {ls more : List Lexeme}

------------------------------------------------------------
-- Atoms
------------------------------------------------------------

/- A word that is an atom. -/
theorem isPrimary_word
    {l : Lexeme}
    {w : Word}
    (m : Metadata)
    (hKind : l.kind = .word w)
    (hLiteral : w.literal? = some name) :
    IsPrimary m (.atom name) [l] := by
  refine ⟨l, [], rfl, by rw [hKind]; rfl, by rw [hKind]; rfl, ?_⟩
  intro expr
  have hForm : ∃ form : Form Node,
      primaryAt expr .statement l = single form l ∧
        (⟨form, l.span⟩ : Node).quote m = .atom name := by
    cases w with
    | nil =>
        cases hLiteral
        exact ⟨.nil, by simp only [primaryAt, hKind]; rfl, rfl⟩
    | «true» =>
        cases hLiteral
        exact ⟨.boolean true,
          by simp only [primaryAt, hKind]; rfl, rfl⟩
    | «false» =>
        cases hLiteral
        exact ⟨.boolean false,
          by simp only [primaryAt, hKind]; rfl, rfl⟩
    | _ => cases hLiteral
  obtain ⟨form, hPrimary, hQuote⟩ := hForm
  refine ⟨_, ?_, hQuote⟩
  rw [hPrimary]
  exact steps_single form

/- A colon and a name that touches it. -/
theorem isPrimary_atom
    (m : Metadata)
    (hAtom : IsAtom name ls) :
    IsPrimary m (.atom name) ls := by
  obtain ⟨colon, l, rfl, hColon, hKind, rfl, hSpaced⟩ := hAtom
  refine ⟨colon, [l], rfl, by rw [hColon]; rfl,
    by rw [hColon]; rfl, ?_⟩
  intro expr
  refine ⟨⟨.atom l.text, colon.span.merge l.span⟩, ?_, rfl⟩
  simp only [primaryAt, hColon]
  unfold atom
  refine (steps_currentSpan colon).trans
    ((steps_skip_one colon).trans (steps_peek.trans ?_))
  change Steps
    (if l.kind = .atomName ∧ l.spaced = false then _ else _) _ _ _
  rw [if_pos ⟨hKind, hSpaced⟩]
  exact (steps_skip_one l).trans (steps_pure _)

/- A colon and a text between quotes that touches it. -/
theorem isPrimary_quotedAtom
    (m : Metadata)
    (hAtom : IsQuotedAtom content ls) :
    IsPrimary m (.atom (String.ofList content)) ls := by
  obtain ⟨colon, text, rfl, hColon, hText, hSpaced⟩ := hAtom
  refine ⟨colon, text, rfl, by rw [hColon]; rfl,
    by rw [hColon]; rfl, ?_⟩
  intro expr
  obtain ⟨t, span, hSteps, _, hLiteral⟩ := hText.exists_steps expr []
  refine ⟨⟨.quotedAtom t, colon.span.merge span⟩, ?_,
    quote_quotedAtom m _ hLiteral⟩
  obtain ⟨opened, body, closed, rfl, hOpened, _⟩ := hText
  have hNoName :
      ¬ (opened.kind = .atomName ∧ opened.spaced = false) := by
    rw [hOpened]
    exact fun hName => Kind.noConfusion hName.1
  have hQuoted :
      isQuotePromoter opened.kind = true ∧ opened.spaced = false := by
    rw [hOpened]
    exact ⟨rfl, hSpaced opened rfl⟩
  simp only [primaryAt, hColon]
  unfold atom
  refine (steps_currentSpan colon).trans
    ((steps_skip_one colon).trans (steps_peek.trans ?_))
  dsimp only [List.head?_cons]
  rw [if_neg hNoName, if_pos hQuoted]
  rw [List.append_nil] at hSteps
  exact hSteps.trans (steps_pure _)

/-
  Whatever can be seen may be the name of an atom: it is read as
  it is printed, with quotes where the name needs them.
-/
theorem lexes_printedAtom
    (m : Metadata)
    (hVisible : name.toList.all Literal.isVisible = true)
    (hRoot : name ≠ "Elixir")
    (hModule : Literal.moduleName? name.toList = none)
    (hType : name ≠ "::") :
    Lexes [] .initial (Literal.atom name) []
      (fun _ ls => IsPrimary m (.atom name) ls) := by
  have hEnds : EndsOperand [] := True.intro
  rw [Literal.atom, hModule]
  split
  · rename_i hWord
    have hLiteral : ∃ w : Word, w.literal? = some name := by
      simp only [Literal.wordAtoms, List.mem_cons,
        List.not_mem_nil, or_false] at hWord
      rcases hWord with rfl | rfl | rfl | rfl
      · exact ⟨.nil, rfl⟩
      · exact ⟨.true, rfl⟩
      · exact ⟨.false, rfl⟩
      · exact absurd rfl hRoot
    obtain ⟨w, hLiteral⟩ := hLiteral
    obtain ⟨c, cs, hName, hStart, hTail, hOf⟩ :=
      exists_name_of_literal? hLiteral
    rw [hName]
    apply (lexes_word hStart hTail hOf ⟨rfl, rfl⟩ rfl
      hEnds.endsNameBefore).mono
    rintro _ _ ⟨_, l, rfl, hKind, _⟩
    exact isPrimary_word m hKind hLiteral
  · dsimp only
    by_cases hPlain : Literal.isPlain name.toList = true
    · rw [if_pos (.inl hPlain)]
      exact (lexes_atom hPlain rfl hEnds).mono
        fun _ _ hDone => isPrimary_atom m hDone.2
    · by_cases hBare : name ∈ Literal.bareOperators
      · rw [if_pos (.inr hBare)]
        exact (lexes_operatorAtom hBare hType).mono
          fun _ _ hDone => isPrimary_atom m hDone
      · rw [if_neg (not_or.mpr ⟨hPlain, hBare⟩), Literal.binary,
          if_pos hVisible]
        apply (lexes_quotedAtom name.toList rfl
          hEnds.not_mem_head?).mono
        intro _ ls hQuoted
        have hPrimary := isPrimary_quotedAtom m hQuoted
        rwa [String.ofList_toList] at hPrimary

------------------------------------------------------------
-- Lists of one pair
------------------------------------------------------------

section Lists

variable {bad : ParseError → Prop}
variable {n : Nat}
variable {expr : ExpressionParser}
variable {t : Term}
variable {keys values : List Lexeme}
variable {opened closed : Lexeme}

/- A key and a value, up to the bracket behind them. -/
theorem OpensPair.keywords
    (hExpr : Sound n expr)
    (hKey : OpensPair m name keys (values ++ closed :: more))
    (hClosed : closed.kind = .closing .square)
    (hBegins : ∀ l ∈ (values ++ closed :: more).head?,
      l.kind ≠ .endOfLine)
    (hValue : Yields bad (expr 0 .container)
      (values ++ closed :: more) (closed :: more)
      (fun node => node.quote m = t)) :
    Yields bad (Parse.keywords expr .container)
      (keys ++ (values ++ closed :: more)) (closed :: more)
      (fun node => Node.quoteElements m [node] =
        [.pair (.atom name) t]) := by
  obtain ⟨key, hSteps, hQuote⟩ := hKey.reads expr
  obtain ⟨l, rest, rfl, _⟩ := exists_of_head?_any hKey.begins
  have hLast : pairSeparator? (closed :: more) = none := by
    simp [pairSeparator?, hClosed]
  unfold Parse.keywords
  refine (steps_currentSpan l).bind (steps_rest.bind ?_)
  have hPairs : ∀ k, Yields bad
      (pairsFor expr .container (k + 1) l.span)
      (l :: rest ++ (values ++ closed :: more)) (closed :: more)
      (fun r => Node.quotePairs m r.1 = [.pair (.atom name) t]) := by
    intro k
    rw [pairsFor_succ]
    refine hSteps.bind ((steps_skipLineEnds hBegins).bind ?_)
    refine hValue.bind (fun value => grows_pairsAfter key value
      (grows_pairsFor hExpr k)) ?_
    intro value hTerm
    refine steps_rest.bind ?_
    rw [hLast]
    apply Yields.pure
    change [Term.pair (key.quote m) (value.quote m)] = _
    rw [hQuote, hTerm]
  refine (hPairs _).bind (fun _ => .pure _) ?_
  rintro ⟨nodes, span⟩ hTerms
  apply Yields.pure
  change Node.quotePairs m nodes ++ [] = _
  rw [hTerms, List.append_nil]

/- A pair is all that there is between the brackets. -/
theorem OpensPair.items
    (hExpr : Sound n expr)
    (hKey : OpensPair m name keys (values ++ closed :: more))
    (hClosed : closed.kind = .closing .square)
    (hBegins : ∀ l ∈ (values ++ closed :: more).head?,
      l.kind ≠ .endOfLine)
    (hValue : Yields bad (expr 0 .container)
      (values ++ closed :: more) (closed :: more)
      (fun node => node.quote m = t)) :
    Yields bad (Parse.items expr (.closing .square))
      (keys ++ (values ++ closed :: more)) (closed :: more)
      (fun nodes => Node.quoteElements m nodes =
        [.pair (.atom name) t]) := by
  have hPairs := hKey.keywords hExpr hClosed hBegins hValue
  have hAhead := hKey.ahead
  obtain ⟨l, rest, rfl, hStarts⟩ := exists_of_head?_any hKey.begins
  obtain ⟨hNoLineEnd, hNoClosing⟩ := Kind.not_of_beginsPair hStarts
  have hEnds : EndsElement .container (closed :: more) :=
    (endsElements_closing hClosed).endsElement
  have hGoes :
      endsAt (· == .closing .square)
        (l :: rest ++ (values ++ closed :: more)).head? = false := by
    simp [endsAt, hNoClosing]
  unfold Parse.items
  refine steps_rest.bind ?_
  unfold itemsFor
  refine (steps_skipLineEnds ?_).bind (steps_peek.bind ?_)
  · rintro _ ⟨⟩
    exact hNoLineEnd
  rw [hGoes, if_neg Bool.false_ne_true]
  refine steps_rest.bind ?_
  rw [hAhead, if_pos rfl]
  unfold lastItem
  refine hPairs.bind (fun _ => (Grows.silent fun _ => rfl).bind
    fun _ => (grows_eat _).bind fun _ => .pure _) ?_
  intro node hTerms
  exact (steps_skipLineEnds hEnds.ne_endOfLine).bind
    ((steps_eat_none (ne_of_closing hClosed Kind.noConfusion)).bind
      (.pure hTerms))

/- A list of one pair is read as that pair. -/
theorem OpensPair.list
    (hExpr : Sound n expr)
    (hKey : OpensPair m name keys (values ++ closed :: more))
    (hClosed : closed.kind = .closing .square)
    (hBegins : ∀ l ∈ (values ++ closed :: more).head?,
      l.kind ≠ .endOfLine)
    (hValue : Yields bad (expr 0 .container)
      (values ++ closed :: more) (closed :: more)
      (fun node => node.quote m = t)) :
    Yields bad (container expr .square .list)
      (opened :: (keys ++ (values ++ closed :: more))) more
      (fun node => node.quote m =
        .list [.pair (.atom name) t]) := by
  have hEnclosed :
      Yields bad (enclosed expr .square)
        (opened :: (keys ++ (values ++ closed :: more))) more
        (fun r => Node.quoteElements m r.1 =
          [.pair (.atom name) t]) := by
    unfold enclosed
    refine (steps_currentSpan opened).bind
      ((steps_skip_one opened).bind ?_)
    refine (hKey.items hExpr hClosed hBegins hValue).bind
      (grows_close _ _) ?_
    intro nodes hTerms
    exact (steps_close opened.span nodes hClosed).yields hTerms
  unfold container
  refine hEnclosed.bind (fun _ => .pure _) ?_
  rintro ⟨nodes, span⟩ hTerms
  apply Yields.pure
  exact congrArg Term.list hTerms

end Lists

------------------------------------------------------------
-- Printed terms
------------------------------------------------------------

/- An integer in front of a bracket, as an expression. -/
theorem yields_value
    {bad : ParseError → Prop}
    {l closed : Lexeme}
    {value : Nat}
    (n h : Nat)
    (m : Metadata)
    (hKind : l.kind = .digits .decimal)
    (hText : l.text = String.ofList (decimalDigits value))
    (hClosed : closed.kind = .closing .square) :
    Yields bad (Parse.expression (n + 1) (h + 1) 0 .container)
      ([l] ++ closed :: more) (closed :: more)
      (fun node => node.quote m = .integer value) := by
  have hEnds : EndsElement .container (closed :: more) :=
    (endsElements_closing hClosed).endsElement
  have hValue :
      Numeral.integer? 10 l.text.toList = some (value : Int) := by
    rw [hText, String.toList_ofList, Numeral.integer?_decimalDigits]
  apply Yields.operandExpression _ (hEnds.bindsBelow 0)
  apply Yields.numberOperand (sound_expression n) hKind hEnds.follows
  · intro value' hValue'
    rw [hValue] at hValue'
    cases hValue'
    rfl
  · intro hNone
    rw [hValue] at hNone
    cases hNone

/- The lexemes are a list of one pair with a number as its value. -/
def IsKeyedList
    (name : String)
    (value : Nat)
    (ls : List Lexeme) : Prop :=
  ∃ opened pair closed,
    ls = opened :: (pair ++ [closed]) ∧
      opened.kind = .opening .square ∧
        closed.kind = .closing .square ∧
          IsPair name
            (fun values => ∃ l,
              values = [l] ∧ l.kind = .digits .decimal ∧
                l.text = String.ofList (decimalDigits value))
            pair

theorem lexes_keyedList
    (value : Nat)
    (hVisible : name.toList.all Literal.isVisible = true) :
    Lexes [] .initial
      (['['] ++ (Literal.key name ++ ' ' :: decimalDigits value) ++
        [']']) []
      (fun _ ls => IsKeyedList name value ls) := by
  have hMarks : (Bracket.square, '[', ']') ∈ bracketMarks := by
    decide
  have hEnds : EndsOperand ([']'] ++ []) := .inl (by decide)
  rw [List.append_assoc]
  apply (lexes_opening hMarks rfl).append
  rintro _ _ ⟨rfl, opened, rfl, hOpened, _⟩
  have hNext : ∀ c ∈ (decimalDigits value ++ ([']'] ++ [])).head?,
      isBlank c = false := by
    intro c hHead
    have hDigits : ∀ d ∈ decimalDigits value, d.isDigit = true :=
      fun _ => isDigit_of_mem_decimalDigits
    cases hList : decimalDigits value with
    | nil => exact absurd hList Nat.toDigits_ne_nil
    | cons d ds =>
        rw [hList] at hDigits hHead
        cases hHead
        exact (not_of_isDigit (hDigits c List.mem_cons_self)).1
  apply (lexes_pair hVisible rfl hNext
    (lexes_digits value rfl hEnds)).append
  rintro _ _ ⟨keys, _, rfl, ⟨rfl, l, rfl, hKind, hText⟩, hKeys⟩
  apply (lexes_closing hMarks (.inr rfl)).mono
  rintro _ _ ⟨_, closed, rfl, hClosed, _⟩
  exact ⟨opened, keys ++ [l], closed, rfl, hOpened, hClosed, keys,
    [l], rfl, ⟨l, rfl, hKind, hText⟩, hKeys⟩

/- The statements of such a list are that list. -/
theorem IsKeyedList.yields
    {value : Nat}
    (m : Metadata)
    (hList : IsKeyedList name value ls) :
    Yields (fun _ => False)
      (Parse.statements topLevelExpression isTopLevelEnd) ls []
      (fun nodes => Term.block (Node.quoteAll m nodes) =
        Term.list [.pair (.atom name) (.integer value)]) := by
  obtain ⟨opened, pair, closed, rfl, hOpened, hClosed, hPair⟩ := hList
  obtain ⟨keys, _, rfl, ⟨l, rfl, hKind, hText⟩, hOpens⟩ :=
    hPair.exists_opensPair (by
      rintro _ ⟨l, rfl, _⟩
      exact List.cons_ne_nil l [])
  have hKey := hOpens m [closed]
  have hBegins : ∀ l' ∈ ([l] ++ [closed]).head?,
      l'.kind ≠ .endOfLine := by
    rintro _ ⟨⟩
    rw [hKind]
    exact Kind.noConfusion
  have hRead : Yields (fun _ => False)
      (primaryAt (Parse.expression 63 127) .statement opened)
      (opened :: (keys ++ [l] ++ [closed])) []
      (fun node => node.quote m =
        .list [.pair (.atom name) (.integer value)]) := by
    simp only [primaryAt, hOpened]
    rw [List.append_assoc]
    exact hKey.list (sound_expression 63 127) hClosed hBegins
      (yields_value 62 126 m hKind hText hClosed)
  apply (yields_statements_of_primary hRead (by rw [hOpened]; rfl)
    (by rw [hOpened]; rfl)).mono
  rintro _ ⟨node, rfl, hTerm⟩
  exact hTerm

------------------------------------------------------------
-- Reading back
------------------------------------------------------------

/- Neither way to print a term loses anything of it. -/
def Term.ReadsBack
    (m : Metadata)
    (t : Term) : Prop :=
  quoteSource m t.inspect = (t, []) ∧
    quoteSource m t.render = (t, [])

/- A printed atom starts with a letter, or with its colon. -/
theorem head?_printedAtom
    (hModule : Literal.moduleName? name.toList = none) :
    (Literal.atom name).head? ≠ some Lexer.byteOrderMark := by
  rw [Literal.atom, hModule]
  split
  · rename_i hWord
    have hAll : ∀ word ∈ Literal.wordAtoms,
        word.toList.head? ≠ some Lexer.byteOrderMark := by
      decide
    exact hAll name hWord
  · dsimp only
    split <;> rw [List.head?_cons] <;> decide

/- The text of a list of one pair, as data and as source. -/
theorem text_keyedList
    (name : String)
    (value : Nat) :
    let t : Term := .list [.pair (.atom name) (.integer value)]
    let text := ['['] ++
      (Literal.key name ++ ' ' :: decimalDigits value) ++ [']']
    t.inspect = String.ofList text ∧ t.render = String.ofList text := by
  have hInteger : integerText value = decimalDigits value := by
    rw [integerText, if_neg (by omega), Int.natAbs_natCast]
  have hOne : ", ".toList.intercalate
      [Literal.key name ++ [' '] ++ integerText value] =
        Literal.key name ++ ' ' :: decimalDigits value := by
    rw [hInteger, List.intercalate_singleton, List.append_assoc,
      List.singleton_append]
  refine ⟨congrArg String.ofList ?_, congrArg String.ofList ?_⟩
  · change ['['] ++ ", ".toList.intercalate
      [Literal.key name ++ [' '] ++ integerText value] ++ [']'] = _
    rw [hOne]
  · obtain ⟨front, more, hNil, hText⟩ :=
      exists_text_list [] [(name, .integer value)]
    obtain ⟨rfl, hNone⟩ := List.append_eq_nil_iff.mp hNil.symm
    obtain rfl := List.map_eq_nil_iff.mp hNone
    refine hText.trans ?_
    change ['['] ++ ", ".toList.intercalate
      [Literal.key name ++ [' '] ++ integerText value] ++ [']'] = _
    rw [hOne]

/-
  Atoms are read back as they are printed, and so are lists of
  one pair with such a key: names are any characters that can be
  seen or that have an escape, apart from those of modules. The
  atom `::` is read back only where it is a key.
-/
theorem readsBack_atom
    (m : Metadata)
    (name : String)
    (value : Nat)
    (hVisible : ∀ c ∈ name.toList, Literal.isVisible c = true)
    (hRoot : name ≠ "Elixir")
    (hModule : Literal.moduleName? name.toList = none) :
    (name ≠ "::" → (Term.atom name).ReadsBack m) ∧
      (Term.list [.pair (.atom name) (.integer value)]).ReadsBack m
    := by
  have hAll : name.toList.all Literal.isVisible = true :=
    List.all_eq_true.mpr hVisible
  constructor
  · intro hType
    have hRead : quoteSource m (String.ofList (Literal.atom name)) =
        (.atom name, []) := by
      apply quoteSource_of_primary
      · rw [String.toList_ofList]
        exact head?_printedAtom hModule
      · rw [String.toList_ofList]
        exact lexes_printedAtom m hAll hRoot hModule hType
    exact ⟨hRead, hRead⟩
  · obtain ⟨hInspect, hRender⟩ := text_keyedList name value
    have hRead : quoteSource m (String.ofList (['['] ++
        (Literal.key name ++ ' ' :: decimalDigits value) ++ [']'])) =
        (.list [.pair (.atom name) (.integer value)], []) := by
      apply quoteSource_of_yields
      · rw [String.toList_ofList, List.append_assoc,
          List.singleton_append, List.head?_cons]
        decide
      · rw [String.toList_ofList]
        exact (lexes_keyedList value hAll).mono
          fun _ _ hList => hList.yields m
    rw [Term.ReadsBack, hInspect, hRender]
    exact ⟨hRead, hRead⟩

/- A name that needs quotes and escapes, as an atom and as a key. -/
theorem readsBack_atom_escaped :
    let name : String := "a \"b\" #\x7bc\x7d\n?"
    (Term.atom name).ReadsBack .lineColumn ∧
      (Term.list [.pair (.atom name) (.integer 1)]).ReadsBack
        .lineColumn := by
  intro name
  have hVisible : name.toList.all Literal.isVisible = true := by
    decide
  have hBack := readsBack_atom .lineColumn name 1
    (List.all_eq_true.mp hVisible) (by decide) (by decide)
  exact ⟨hBack.1 (by decide), hBack.2⟩

/- The colon of an atom and its name are read as one operator. -/
theorem quoteSource_inspect_type :
    let name : String := "::"
    (∀ c ∈ name.toList, Literal.isVisible c = true) ∧
      name ≠ "Elixir" ∧ Literal.moduleName? name.toList = none ∧
      (Term.atom name).inspect = ":::" ∧
      (quoteSource .none ":::").2.map SourceError.message =
        ["unexpected token: '::' at line 1, column 1"] ∧
      ¬ (Term.atom name).ReadsBack .none := by
  intro name
  have hVisible : name.toList.all Literal.isVisible = true := by
    decide
  have hText : (Term.atom name).inspect = ":::" := by
    decide
  have hErrors : (quoteSource .none ":::").2.map SourceError.message =
      ["unexpected token: '::' at line 1, column 1"] := by
    decide +kernel
  refine ⟨List.all_eq_true.mp hVisible, by decide, by decide,
    hText, hErrors, ?_⟩
  intro hBack
  have hRead := hBack.1
  rw [hText] at hRead
  rw [hRead] at hErrors
  cases hErrors

end ElixirReader
