import ElixirReader.Proofs.Parser.Segments
import ElixirReader.Proofs.Quote.Equations
import ElixirReader.Proofs.Quote.Operands

/-
  This file shows what a literal without interpolations is
  quoted to, and that a source that consists of one is read
  without errors: it nests nothing, so no limit is reached.

  Key definitions include:
    * `Part.ofRun`
    * `IsPrimary`

  Main declarations:
    * `IsInside.literal?_eq`
    * `IsInside.parts_eq`
    * `Yields.operandExpression`
    * `yields_statements_of_primary`
    * `quoteSource_of_yields`
    * `quoteSource_of_primary`
-/

namespace ElixirReader

open Parse

variable {segments : List (Segment Node)}
variable {body : List Lexeme}
variable {m : Metadata}

------------------------------------------------------------
-- Terms of literals
------------------------------------------------------------

theorem Segment.join_characters
    {decode : Bool}
    {indent : Nat}
    (ss : List (Segment Node)) :
    String.join (ss.map (·.characters decode indent)) =
      String.ofList (said decode indent ss) := by
  induction ss with
  | nil => rfl
  | cons s ss ih =>
      rw [List.map_cons, String.join_cons, ih, said_cons,
        String.ofList_append, String.ofList_toList]

/- Without interpolations a text is what its segments say. -/
theorem IsInside.literal?_eq
    (m : Metadata)
    (kind : TextKind)
    (heredoc : Bool)
    (indent : Nat)
    (hInside : IsInside segments body) :
    (Node.quoteText m ⟨kind, heredoc, indent, segments⟩).literal? =
      some (String.ofList (Segment.said true indent segments)) := by
  rw [Node.quoteText_eq, Text.literal?_map, Text.literal?,
    Text.isInterpolated, hInside.any_isInterpolation,
    if_neg Bool.false_ne_true, Segment.join_characters]

/- One run of characters, unless it is empty. -/
def Part.ofRun
    {α : Type}
    (cs : List Char) : List (Part α) :=
  if cs = [] then [] else [.literal (String.ofList cs)]

theorem Part.prepend_ofRun
    {α : Type}
    (text : String)
    (cs : List Char) :
    Part.prepend text (Part.ofRun cs : List (Part α)) =
      Part.ofRun (text.toList ++ cs) := by
  unfold Part.ofRun
  by_cases hEmpty : cs = []
  · simp [hEmpty, Part.prepend]
  · rw [if_neg hEmpty, if_neg (by simp [hEmpty]), Part.prepend,
      String.ofList_append, String.ofList_toList]

theorem IsInside.parts_eq
    (m : Metadata)
    (kind : TextKind)
    (heredoc : Bool)
    (indent : Nat)
    (decode : Bool)
    (hInside : IsInside segments body) :
    (Node.quoteText m ⟨kind, heredoc, indent, segments⟩).parts
        decode =
      Part.ofRun (Segment.said decode indent segments) := by
  have hPlain := hInside.any_isInterpolation
  have hParts :
      segments.foldr (Text.prependSegment decode indent) [] =
        Part.ofRun (Segment.said decode indent segments) := by
    clear hInside
    induction segments with
    | nil => rfl
    | cons s ss ih =>
        rw [List.any_cons, Bool.or_eq_false_iff] at hPlain
        rw [List.foldr_cons, ih hPlain.2, Segment.said_cons,
          ← Part.prepend_ofRun]
        cases s with
        | interpolation node => cases hPlain.1
        | _ => rfl
  rw [Node.quoteText_eq, Text.parts_map, Text.parts, hParts]
  unfold Part.ofRun
  split <;> rfl

------------------------------------------------------------
-- Sources
------------------------------------------------------------

/- An operand that no operator follows is an expression. -/
theorem Yields.operandExpression
    {bad : ParseError → Prop}
    {n h precedence : Nat}
    {context : Context}
    {ls back : List Lexeme}
    {Result : Node → Prop}
    (hOperand :
      Yields bad (operand (Parse.expression n) h context) ls back
        Result)
    (hBelow : BindsBelow precedence back) :
    Yields bad (Parse.expression (n + 1) (h + 1) precedence context)
      ls back Result := by
  have hGrows : ∀ node,
      Grows (folds (Parse.expression n) precedence context h node) :=
    fun node => Run.grows fun s =>
      Run.folds (sound_expression n) precedence node
  apply Yields.nested
  apply hOperand.bind hGrows
  intro node hResult
  exact (OperatorGrammar.steps_folds node hBelow).yields hResult

/-
  Where a primary expression is read up to the end, it is all
  that the statements of a level above consist of.
-/
theorem yields_statements_of_primary
    {bad : ParseError → Prop}
    {n h : Nat}
    {l : Lexeme}
    {more : List Lexeme}
    {Result : Node → Prop}
    (hPrimary :
      Yields bad (primaryAt (Parse.expression n h) .statement l)
        (l :: more) [] Result)
    (hKind : l.kind.startsPrimary = true)
    (hSeparator : isSeparator l.kind = false) :
    Yields bad
      (Parse.statements (Parse.expression (n + 1) (h + 1))
        isTopLevelEnd)
      (l :: more) []
      (fun nodes => ∃ node, nodes = [node] ∧ Result node) := by
  have hOperand :
      Yields bad (operand (Parse.expression n) h .statement)
        (l :: more) [] Result :=
    Yields.primaryOperand (sound_expression n) hPrimary hKind .ending
  have hNode :
      Yields bad (Parse.expression (n + 1) (h + 1) 0 .statement)
        (l :: more) [] Result :=
    hOperand.operandExpression (bindsBelow_nil 0)
  have hStarts : Starts isTopLevelEnd (l :: more) := by
    rw [Starts, hSeparator]
    rfl
  exact hNode.statements (sound_expression (n + 1) (h + 1)) hStarts
    True.intro (Nat.zero_lt_succ _)

/-
  Lexemes that are read as one expression with a term, whatever
  parser there is for what they hold.
-/
def IsPrimary
    (m : Metadata)
    (t : Term)
    (ls : List Lexeme) : Prop :=
  ∃ l more,
    ls = l :: more ∧ l.kind.startsPrimary = true ∧
      isSeparator l.kind = false ∧
        ∀ expr, ∃ node,
          Steps (primaryAt expr .statement l) ls [] node ∧
            node.quote m = t

theorem IsPrimary.yields
    {bad : ParseError → Prop}
    {t : Term}
    {ls : List Lexeme}
    (hPrimary : IsPrimary m t ls) :
    Yields bad (Parse.statements topLevelExpression isTopLevelEnd)
      ls [] (fun nodes => .block (Node.quoteAll m nodes) = t) := by
  obtain ⟨l, more, rfl, hKind, hSeparator, hReads⟩ := hPrimary
  obtain ⟨node, hSteps, hTerm⟩ := hReads (Parse.expression 63 127)
  have hRead :
      Yields bad (primaryAt (Parse.expression 63 127) .statement l)
        (l :: more) [] (fun node => node.quote m = t) :=
    hSteps.yields hTerm
  apply (yields_statements_of_primary hRead hKind hSeparator).mono
  rintro _ ⟨node, rfl, hTerm⟩
  exact hTerm

/- A source in which nothing gets in the way has no errors. -/
theorem quoteSource_of_yields
    {source : String}
    {t : Term}
    (hMark : source.toList.head? ≠ some Lexer.byteOrderMark)
    (hLexes : Lexes [] .initial source.toList []
      (fun _ ls =>
        Yields (fun _ => False)
          (Parse.statements topLevelExpression isTopLevelEnd) ls []
          (fun nodes => .block (Node.quoteAll m nodes) = t))) :
    quoteSource m source = (t, []) := by
  obtain ⟨hClean, _, hYields⟩ := hLexes.tokenize hMark
  rw [quoteSource_eq, hClean]
  rcases hYields.parseLexemes with ⟨_, _, hFalse⟩ | ⟨hTerm, hErrors⟩
  · exact hFalse.elim
  · rw [hTerm, hErrors]
    rfl

/- A source that is one primary expression is quoted as it. -/
theorem quoteSource_of_primary
    {source : String}
    {t : Term}
    (hMark : source.toList.head? ≠ some Lexer.byteOrderMark)
    (hLexes : Lexes [] .initial source.toList []
      (fun _ ls => IsPrimary m t ls)) :
    quoteSource m source = (t, []) :=
  quoteSource_of_yields hMark
    (hLexes.mono fun _ _ hPrimary => hPrimary.yields)

end ElixirReader
