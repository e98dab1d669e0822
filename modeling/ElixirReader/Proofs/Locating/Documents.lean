import ElixirReader.Proofs.Analysis.Drivers
import ElixirReader.Proofs.Diagnosis.Documents
import ElixirReader.Proofs.Diagnosis.Escapes
import ElixirReader.Proofs.Locating.Operands

/-
  This file shows that every span in a parsed document, and that
  of every error, goes from the start of a token to the end of a
  token that is not before it, so that the source can be sliced
  by it.

  It also shows in which order the errors of a source are listed.
  Those of tokens come first. The errors of each stage are in the
  order of the source, but for those that look back: one about a
  construct that was not ended, or that turns out to lack
  something, is noted behind the errors inside of it.

  Key definitions include:
    * `Span.PointsAt`
    * `Span.Slices`
    * `LexError.IsBefore`
    * `SourceError.IsBefore`

  Main declarations:
    * `located_parse`
    * `pointsAt_parse`
    * `isBefore_tokenize`
    * `isBefore_analyze`
-/

namespace ElixirReader

open Parse

variable {source : String}
variable {tokens : List Token}
variable {x y : Span}

------------------------------------------------------------
-- Spans of tokens
------------------------------------------------------------

/-
  A span goes from the start of a token to the end of one that
  is not before it, and has the line and column of the first.
-/
def Span.PointsAt
    (tokens : List Token)
    (x : Span) : Prop :=
  ∃ (i j : Nat) (first last : Token),
    i ≤ j ∧ tokens[i]? = some first ∧ tokens[j]? = some last ∧
      x = { first.span with stop := last.span.stop }

/- A part of a source that ends between characters. -/
structure Span.Slices
    (source : String)
    (x : Span) : Prop where
  ordered : x.start ≤ x.stop
  start : String.Pos.Raw.IsValid source ⟨x.start⟩
  stop : String.Pos.Raw.IsValid source ⟨x.stop⟩

theorem Span.pointsAt_of_mem
    {t : Token}
    (hToken : t ∈ tokens) :
    t.span.PointsAt tokens := by
  obtain ⟨i, hI⟩ := List.mem_iff_getElem?.mp hToken
  exact ⟨i, i, t, t, Nat.le_refl i, hI, hI, rfl⟩

/- Of two tokens the one that starts first comes first. -/
theorem Tiles.le_of_start_le
    {a i j : Nat}
    {t u : Token}
    (hTiles : Tiles source a tokens)
    (hT : tokens[i]? = some t)
    (hU : tokens[j]? = some u)
    (hLe : t.span.start ≤ u.span.start) :
    i ≤ j := by
  obtain ⟨hSolid, hApart⟩ := hTiles.apart
  obtain ⟨hI, rfl⟩ := List.getElem?_eq_some_iff.mp hT
  obtain ⟨hJ, rfl⟩ := List.getElem?_eq_some_iff.mp hU
  apply Nat.le_of_not_lt
  intro hLess
  have hBehind := List.pairwise_iff_getElem.mp hApart j i hJ hI hLess
  have hPositive := (hSolid _ (List.getElem_mem hJ)).2
  omega

/- A merged span starts at one token and ends at another one. -/
theorem Tiles.pointsAt_merge
    {a : Nat}
    (hTiles : Tiles source a tokens)
    (hX : x.PointsAt tokens)
    (hY : y.PointsAt tokens) :
    (x.merge y).PointsAt tokens := by
  obtain ⟨i, j, t, u, hLe, hT, hU, rfl⟩ := hX
  obtain ⟨i', j', t', u', hLe', hT', hU', rfl⟩ := hY
  have hStop {k k' : Nat} {v v' : Token}
      (hV : tokens[k]? = some v) (hV' : tokens[k']? = some v')
      {first : Nat} (hFirst : first ≤ k) (hFirst' : first ≤ k') :
      ∃ last w, first ≤ last ∧ tokens[last]? = some w ∧
        max v.span.stop v'.span.stop = w.span.stop := by
    rcases Nat.le_total v.span.stop v'.span.stop with hMax | hMax
    · exact ⟨k', v', hFirst', hV', Nat.max_eq_right hMax⟩
    · exact ⟨k, v, hFirst, hV, Nat.max_eq_left hMax⟩
  by_cases hStart : t.span.start ≤ t'.span.start
  · have hI := hTiles.le_of_start_le hT hT' hStart
    obtain ⟨last, w, hLast, hW, hMax⟩ :=
      hStop hU hU' hLe (Nat.le_trans hI hLe')
    exact ⟨i, last, t, w, hLast, hT, hW, by
      simp [Span.merge, hStart, hMax]⟩
  · have hI := hTiles.le_of_start_le hT' hT
      (Nat.le_of_not_le hStart)
    obtain ⟨last, w, hLast, hW, hMax⟩ :=
      hStop hU' hU hLe' (Nat.le_trans hI hLe)
    exact ⟨i', last, t', w, hLast, hT', hW, by
      simp [Span.merge, hStart, hMax]⟩

instance
    (source : String) :
    Merges (Span.PointsAt (tokenize source).1) where
  merge hX hY :=
    have ⟨_, hTiles⟩ := exists_tiles_tokenize source
    hTiles.pointsAt_merge hX hY

/- A source can be sliced by what points at its tokens. -/
theorem Span.PointsAt.slices
    (hX : x.PointsAt (tokenize source).1) :
    x.Slices source := by
  obtain ⟨_, hTiles⟩ := exists_tiles_tokenize source
  obtain ⟨i, j, t, u, hLe, hT, hU, rfl⟩ := hX
  have hMemT := List.mem_of_getElem? hT
  have hMemU := List.mem_of_getElem? hU
  refine ⟨?_, (hTiles.isValid t hMemT).1, (hTiles.isValid u hMemU).2⟩
  change t.span.start ≤ u.span.stop
  have hSolid := (hTiles.apart.1 u hMemU).2
  by_cases hStart : u.span.start ≤ t.span.start
  · -- Then both are one token.
    have hSame := Nat.le_antisymm hLe
      (hTiles.le_of_start_le hU hT hStart)
    rw [hSame, hU] at hT
    cases hT
    exact Nat.le_of_lt hSolid
  · omega

------------------------------------------------------------
-- Documents
------------------------------------------------------------

/- The span of a lexeme is that of its token. -/
theorem Lexeme.pointsAt
    {l : Lexeme}
    (hMem : l ∈ ofTokens tokens) :
    l.span.PointsAt tokens :=
  Span.pointsAt_of_mem (token_mem hMem)

/- The lexemes of a source start in order. -/
theorem Scanned.sorted
    {all : List Lexeme}
    (hScanned : Scanned all) :
    all.Pairwise fun l l' => l.span.start ≤ l'.span.start := by
  apply hScanned.apart.imp_of_mem
  intro l m hL _ hApart
  exact Nat.le_trans (Nat.le_of_lt (hScanned.solid l hL)) hApart

/- Before the first of some lexemes all is in order. -/
theorem inOrder_start
    {P : Span → Prop}
    {lexemes : List Lexeme}
    (hAll : ∀ l ∈ lexemes, P l.span)
    (hSorted : lexemes.Pairwise
      fun l l' => l.span.start ≤ l'.span.start)
    (hSome : lexemes ≠ []) :
    InOrder P (ParseState.start lexemes) := by
  obtain ⟨front, last, rfl⟩ :=
    (List.eq_nil_or_concat' lexemes).resolve_left hSome
  have hLast : (ParseState.start (front ++ [last])).last =
      last.span := by
    simp [ParseState.start]
  refine ⟨hAll, fun _ hNone => (nomatch hNone), ?_, hSorted, ?_,
    .nil, fun _ hNone => (nomatch hNone)⟩
  · rw [hLast]
    exact hAll last (by simp)
  · rw [hLast]
    intro l hMem
    rcases List.mem_append.mp hMem with hFront | hEnd
    · exact (List.pairwise_append.mp hSorted).2.2 l hFront last
        List.mem_cons_self
    · rw [List.mem_singleton.mp hEnd]

theorem document_parse
    (tokens : List Token) :
    (parse tokens).1 =
      ⟨(parseLexemes (Lexeme.ofTokens tokens)).1,
        Document.spanOf (Lexeme.ofTokens tokens)⟩ :=
  rfl

/- No lexemes make an empty document without errors. -/
theorem parseLexemes_nil :
    (parseLexemes []).1 = [] ∧ (parseLexemes []).2.errors = [] :=
  ⟨rfl, rfl⟩

/- The trees that are parsed, and the errors that are noted. -/
theorem located_parseLexemes
    {P : Span → Prop}
    [Merges P]
    {lexemes : List Lexeme}
    (hAll : ∀ l ∈ lexemes, P l.span)
    (hSorted : lexemes.Pairwise
      fun l l' => l.span.start ≤ l'.span.start) :
    AllLocated P (parseLexemes lexemes).1 ∧
      (∀ e ∈ (parseLexemes lexemes).2.errors, P e.span) ∧
      (parseLexemes lexemes).2.errors.Pairwise
        ParseError.IsBefore := by
  by_cases hNone : lexemes = []
  · obtain ⟨hTrees, hErrors⟩ := parseLexemes_nil
    rw [hNone, hTrees, hErrors]
    exact ⟨allThroughout_nil, List.forall_mem_nil _, .nil⟩
  · have hRun :
        Locates P (fun ns _ => AllLocated P ns)
          (statements (expression maxNesting maxHeight)
            fun _ => false)
          (ParseState.start lexemes) :=
      Locates.statementList (Locates.expression maxNesting maxHeight)
    obtain ⟨hOrder, _, hTrees⟩ :=
      hRun (inOrder_start hAll hSorted hNone)
    exact ⟨hTrees, fun e hError => (hOrder.noted e hError).1,
      hOrder.ordered⟩

/- What holds of the tokens of a source and of merged spans. -/
theorem located_parse
    (source : String)
    {P : Span → Prop}
    [Merges P]
    (hTokens : ∀ l ∈ Lexeme.ofTokens (tokenize source).1, P l.span) :
    AllLocated P (parse (tokenize source).1).1.expressions ∧
      (∀ e ∈ (parse (tokenize source).1).2, P e.span) ∧
      (parse (tokenize source).1).2.Pairwise ParseError.IsBefore :=
  located_parseLexemes hTokens (scanned_tokenize source).sorted

/- A document goes from its first lexeme to its last. -/
theorem pointsAt_spanOf
    (hSome : Lexeme.ofTokens (tokenize source).1 ≠ []) :
    (Document.spanOf (Lexeme.ofTokens (tokenize source).1)).PointsAt
      (tokenize source).1 := by
  have hAll (l : Lexeme) :
      l ∈ Lexeme.ofTokens (tokenize source).1 →
        l.span.PointsAt (tokenize source).1 :=
    Lexeme.pointsAt
  have hSorted := (scanned_tokenize source).sorted
  cases hLexemes : Lexeme.ofTokens (tokenize source).1 with
  | nil => exact absurd hLexemes hSome
  | cons l ls =>
      rw [hLexemes] at hAll hSorted
      exact (Locates.coveringSpan hAll
        (List.pairwise_cons.mp hSorted).1).1

/-
  Every span in what is parsed of a source points at tokens,
  whether it is in a tree or that of an error, and the source
  can be sliced by it. The span of a document goes from its
  first lexeme to its last, if there is one.
-/
theorem pointsAt_parse
    (source : String) :
    let tokens := (tokenize source).1
    let document := (parse tokens).1
    (∀ n ∈ document.expressions, ∀ m ∈ n.preorder, ∀ x ∈ m.marks,
        x.PointsAt tokens ∧ x.Slices source) ∧
      (∀ e ∈ (parse tokens).2,
        e.span.PointsAt tokens ∧ e.span.Slices source) ∧
      if Lexeme.ofTokens tokens = [] then
        document = ⟨[], Span.none⟩
      else
        document.span.PointsAt tokens ∧
          document.span.Slices source := by
  intro tokens document
  obtain ⟨hTrees, hErrors, _⟩ := located_parse source
    (P := Span.PointsAt tokens) (fun _ => Lexeme.pointsAt)
  refine ⟨?_, ?_, ?_⟩
  · intro n hRoot m hNode x hMark
    have hX : x.PointsAt tokens := hTrees n hRoot m hNode x hMark
    exact ⟨hX, hX.slices⟩
  · exact fun e hError =>
      ⟨hErrors e hError, (hErrors e hError).slices⟩
  · split
    · rename_i hNone
      have hEmpty := document_parse tokens
      rw [hNone, parseLexemes_nil.1] at hEmpty
      exact hEmpty
    · rename_i hSome
      have hSpan := pointsAt_spanOf hSome
      exact ⟨hSpan, hSpan.slices⟩

------------------------------------------------------------
-- Errors of tokens
------------------------------------------------------------

/-
  An error is not about a literal that is left open, and it is
  in front of a later one unless that is.
-/
def LexError.IsBefore
    (e e' : LexError) : Prop :=
  e.fault.isUnterminated = false ∧
    (e.span.start < e'.span.start ∨ e'.fault.isUnterminated = true)

namespace Token

variable {es : List Enclosure}
variable {t : Token}
variable {e : LexError}

/- A token is not to blame for the end of the source. -/
theorem isUnterminated_error?
    (hError : t.error? es = some e) :
    e.fault.isUnterminated = false ∧ e.span = t.span := by
  unfold error? at hError
  split at hError
  · cases hError
    refine ⟨?_, rfl⟩
    change (t.faultIn es).isUnterminated = false
    unfold faultIn
    split
    · rfl
    · rfl
    · rfl
    · split <;> rfl
  · cases hError

/- Each error of some tokens is at one of them. -/
theorem exists_of_mem_errorsIn
    {ts : List Token}
    (hError : e ∈ errorsIn es ts) :
    e.fault.isUnterminated = false ∧ ∃ t ∈ ts, e.span = t.span := by
  induction ts generalizing es with
  | nil => cases hError
  | cons t ts ih =>
      rcases List.mem_append.mp hError with hHere | hThere
      · obtain ⟨hFault, hSpan⟩ :=
          isUnterminated_error? (Option.mem_toList.mp hHere)
        exact ⟨hFault, t, List.mem_cons_self, hSpan⟩
      · obtain ⟨hFault, u, hLater, hSpan⟩ := ih hThere
        exact ⟨hFault, u, List.mem_cons_of_mem t hLater, hSpan⟩

/- The errors of tokens that start in order start in order. -/
theorem isBefore_errorsIn
    {ts : List Token}
    (hOrder : ts.Pairwise fun t u => t.span.start < u.span.start) :
    (errorsIn es ts).Pairwise LexError.IsBefore := by
  induction hOrder generalizing es with
  | nil => exact .nil
  | @cons t ts hFirst _ ih =>
      refine List.pairwise_append.mpr ⟨?_, ih, ?_⟩
      · cases t.error? es with
        | none => exact .nil
        | some e => exact List.pairwise_singleton _ e
      · intro e hHere e' hThere
        obtain ⟨hFault, hSpan⟩ :=
          isUnterminated_error? (Option.mem_toList.mp hHere)
        obtain ⟨_, u, hLater, hSpan'⟩ := exists_of_mem_errorsIn hThere
        refine ⟨hFault, .inl ?_⟩
        rw [hSpan, hSpan']
        exact hFirst u hLater

end Token

/-
  The errors of the tokens of a source start one behind the
  other. Only the last one may be about a literal that is left
  open, and then it is where that starts.
-/
theorem isBefore_tokenize
    (source : String) :
    (tokenize source).2.Pairwise LexError.IsBefore := by
  obtain ⟨_, hTiles⟩ := exists_tiles_tokenize source
  obtain ⟨hSolid, hApart⟩ := hTiles.apart
  have hOrder : (tokenize source).1.Pairwise
      fun t u => t.span.start < u.span.start := by
    apply hApart.imp_of_mem
    intro t u hT _ hStops
    exact Nat.lt_of_lt_of_le (hSolid t hT).2 hStops
  obtain ⟨last, _, hErrors⟩ :=
    (Lexer.mirrored_startingIn .initial source).errors_take
      (Lexer.coherent_startingIn .initial source) ⟨rfl, rfl, rfl⟩
      (Nat.lt_succ_self _)
  change (tokenize source).2 = [] ++ Token.errorsIn _
    (tokenize source).1 ++ _ at hErrors
  rw [hErrors, List.nil_append]
  refine List.pairwise_append.mpr
    ⟨Token.isBefore_errorsIn hOrder, ?_, ?_⟩
  · cases Enclosure.outermost? last with
    | none => exact .nil
    | some promoter => exact List.pairwise_singleton _ _
  · intro e hShown e' hLeft
    obtain ⟨_, _, rfl⟩ :=
      Option.map_eq_some_iff.mp (Option.mem_toList.mp hLeft)
    exact ⟨(Token.exists_of_mem_errorsIn hShown).1, .inr rfl⟩

------------------------------------------------------------
-- Errors of an analysis
------------------------------------------------------------

/- Errors of tokens come first, and each sort in its order. -/
def SourceError.IsBefore : SourceError → SourceError → Prop
| .lex e, .lex e' => e.IsBefore e'
| .lex _, .parse _ => True
| .parse _, .lex _ => False
| .parse e, .parse e' => e.IsBefore e'

/-
  In the errors of an analysis, those of tokens come first. Of
  two errors of one stage the later one in the list does not
  start before the other, unless it looks back: it is about a
  literal, a bracket or a block without an end, a `fn` without
  an arrow, a step without a range, or a quoted name with
  interpolations.
-/
theorem isBefore_analyze
    (m : Metadata)
    (source : String) :
    ∃ a, analyze m false source = .ok a ∧
      a.errors.Pairwise SourceError.IsBefore := by
  refine ⟨_, analyze_false m source, ?_⟩
  obtain ⟨_, _, hParsed⟩ := located_parse source
    (P := Span.PointsAt (tokenize source).1) fun _ => Lexeme.pointsAt
  refine List.pairwise_append.mpr ⟨?_, ?_, ?_⟩
  · exact (isBefore_tokenize source).map _ fun _ _ hBefore => hBefore
  · exact hParsed.map _ fun _ _ hBefore => hBefore
  · intro e hLexical e' hSyntactic
    obtain ⟨_, _, rfl⟩ := List.mem_map.mp hLexical
    obtain ⟨_, _, rfl⟩ := List.mem_map.mp hSyntactic
    trivial

/-
  Two numbers stand side by side in a parenthesis that is left
  open. The error about the parenthesis is the last one.
-/
theorem exists_unsorted_analyze :
    (tokenize "(1 2").2 = [] ∧
      ∃ a, analyze .none false "(1 2" = .ok a ∧
        ¬ a.errors.Pairwise fun e e' =>
          e.span.start ≤ e'.span.start := by
  refine ⟨by decide, _, analyze_false .none _, ?_⟩
  dsimp only
  decide +kernel

end ElixirReader
