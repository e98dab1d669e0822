import ElixirReader.Proofs.Lexer.Atoms
import ElixirReader.Proofs.Parser.Containers
import ElixirReader.Proofs.Quote.Literals

/-
  This file shows which nodes the elements of a list, a tuple or
  a map are read as: expressions, and a run of pairs at the end.

  Key definitions include:
    * `OpensPair`
    * `Element`
    * `Element.IsSpelled`
    * `EndsElement`
    * `AreElements`

  Main declarations:
    * `yields_pairsFor`
    * `yields_items`
    * `AreElements.quoteElements_eq`
-/

namespace ElixirReader

open Parse

variable {α : Type}
variable {n height : Nat}
variable {expr : ExpressionParser}
variable {context : Context}
variable {ls more : List Lexeme}

------------------------------------------------------------
-- Errors stay noted
------------------------------------------------------------

/- A part that notes no error at all. -/
theorem Grows.silent
    {p : Parse α}
    (hSilent : ∀ s, (p s).2.errors = s.errors) :
    Grows p :=
  fun s => hSilent s ▸ List.prefix_refl _

theorem grows_report
    (fault : ParseFault)
    (span : Span) :
    Grows (report fault span) := by
  intro s
  change s.errors <+: (s.report fault span).errors
  unfold ParseState.report
  split
  · exact List.prefix_refl _
  · exact List.prefix_append _ _

theorem grows_eat
    (kind : Kind) :
    Grows (eat kind) := by
  intro s
  have hErrors : (eat kind s).2.errors = s.errors := by
    cases hRest : s.rest with
    | nil => rw [eat_of_ne (by simp [hRest])]
    | cons l ls =>
        by_cases hKind : l.kind = kind
        · rw [eat_of_cons hRest hKind]
          rfl
        · rw [eat_of_ne (by simpa [hRest] using hKind)]
  exact hErrors ▸ List.prefix_refl _

theorem grows_keywordKey
    (hExpr : Sound n expr) :
    Grows (keywordKey expr) := by
  intro s
  cases hAhead : ElixirReader.keywordAhead s.rest with
  | true =>
      have hRun :
          Run .any n true (keywordKey expr) (keywordKey expr) s :=
        Run.keywordKey hExpr hAhead (.inl rfl)
      rcases hRun.walk.moves with ⟨taken, hMoves⟩
      exact hMoves.errors
  | false =>
      cases hRest : s.rest with
      | nil =>
          unfold keywordKey
          rw [Parse.bind_apply, peek_of_nil hRest]
          exact List.prefix_refl _
      | cons l ls =>
          have hName : l.kind ≠ .atomName := by
            intro hName
            rw [hRest] at hAhead
            simp [ElixirReader.keywordAhead, hName] at hAhead
          unfold keywordKey
          rw [Parse.bind_apply, peek_of_cons hRest]
          simp only [if_neg hName]
          change s.errors <+:
            ((if ElixirReader.keywordAhead s.rest = true then _
              else _ : Parse (Option Node)) s).2.errors
          rw [hAhead, if_neg Bool.false_ne_true]
          exact (grows_report _ _).bind (fun _ => .pure _) s

theorem grows_pairsAfter
    {k : Nat}
    {span : Span}
    (key value : Node)
    (hNext : ∀ span, Grows (pairsFor expr context k span)) :
    Grows (pairsAfter expr context k span key value) := by
  refine (Grows.silent fun _ => rfl).bind fun ls => ?_
  split
  · exact .pure _
  · exact (Grows.silent fun _ => rfl).bind fun _ =>
      (hNext _).bind fun _ => .pure _

theorem grows_pairsFor
    (hExpr : Sound n expr)
    (k : Nat)
    (span : Span) :
    Grows (pairsFor expr context k span) := by
  induction k generalizing span with
  | zero => exact .silent fun _ => rfl
  | succ k ih =>
      rw [pairsFor_succ]
      refine (grows_keywordKey hExpr).bind fun key => ?_
      cases key with
      | none => exact .pure _
      | some key =>
          exact (Grows.silent fun _ => rfl).bind fun _ =>
            (hExpr.grows 0 context).bind fun value =>
              grows_pairsAfter key value ih

/- What follows an element that is no pair. -/
def itemsAfter
    (expr : ExpressionParser)
    (closer : Kind)
    (k : Nat)
    (item : Node) : Parse (List Node) := do
  skipLineEnds
  match ← eat .comma with
  | none => return [item]
  | some _ => return item :: (← itemsFor expr closer k)

theorem grows_itemsAfter
    {closer : Kind}
    {k : Nat}
    (item : Node)
    (hNext : Grows (itemsFor expr closer k)) :
    Grows (itemsAfter expr closer k item) := by
  refine (Grows.silent fun _ => rfl).bind fun _ =>
    (grows_eat _).bind fun comma => ?_
  cases comma with
  | none => exact .pure _
  | some comma => exact hNext.bind fun _ => .pure _

theorem grows_itemsFor
    (hExpr : Sound n expr)
    (closer : Kind)
    (k : Nat) :
    Grows (itemsFor expr closer k) := by
  induction k with
  | zero => exact .silent fun _ => rfl
  | succ k ih =>
      unfold itemsFor
      refine (Grows.silent fun _ => rfl).bind fun _ =>
        (Grows.silent fun _ => rfl).bind fun l => ?_
      split
      · exact .pure _
      · refine (Grows.silent fun _ => rfl).bind fun ls => ?_
        split
        · have hKeywords : Grows (keywords expr .container) :=
            (Grows.silent fun _ => rfl).bind fun _ =>
              (Grows.silent fun _ => rfl).bind fun _ =>
                (grows_pairsFor hExpr _ _).bind fun _ => .pure _
          exact hKeywords.bind fun _ =>
            (Grows.silent fun _ => rfl).bind fun _ =>
              (grows_eat _).bind fun _ => .pure _
        · exact (hExpr.grows 0 .container).bind fun item =>
            grows_itemsAfter item ih

------------------------------------------------------------
-- Keys
------------------------------------------------------------

/- The kinds that keys start with. -/
def Kind.beginsPair : Kind → Bool
| atomName => true
| promoter .string .quoted => true
| _ => false

theorem Kind.not_of_beginsPair
    {k : Kind}
    (hBegins : k.beginsPair = true) :
    k ≠ .endOfLine ∧ ∀ b, k ≠ .closing b := by
  cases k with
  | endOfLine => cases hBegins
  | closing b => cases hBegins
  | _ => exact ⟨Kind.noConfusion, fun _ => Kind.noConfusion⟩

theorem Kind.of_beginsPair
    {k : Kind}
    (hBegins : k.beginsPair = true) :
    k = .atomName ∨ k = .promoter .string .quoted := by
  unfold beginsPair at hBegins
  split at hBegins
  · exact .inl rfl
  · exact .inr rfl
  · cases hBegins

/-
  Lexemes that are read as a key with a name in front of some
  others, and are not taken for anything else.
-/
structure OpensPair
    (m : Metadata)
    (name : String)
    (ls more : List Lexeme) : Prop where
  begins : ls.head?.any (·.kind.beginsPair) = true
  ahead : keywordAhead (ls ++ more) = true
  reads : ∀ expr, ∃ node,
    Steps (keywordKey expr) (ls ++ more) more (some node) ∧
      node.quote m = .atom name

variable {name : String}
variable {content : List Char}

theorem opensPair_bare
    (m : Metadata)
    (more : List Lexeme)
    (hKey : IsKey name ls) :
    OpensPair m name ls more := by
  rcases hKey with ⟨l, colon, rfl, hKind, rfl, hColon⟩
  refine ⟨by simp [hKind, Kind.beginsPair],
    by simp [keywordAhead, hKind], ?_⟩
  intro expr
  refine ⟨⟨.atom l.text, l.span.merge colon.span⟩, ?_, rfl⟩
  unfold keywordKey bareKey
  refine steps_peek.trans ?_
  change Steps (if l.kind = .atomName then _ else _) _ _ _
  rw [if_pos hKind]
  exact Steps.trans
    ((steps_skip_one l).trans
      ((steps_eat hColon).trans (steps_pure _)))
    (steps_pure _)

/- Of a text in quotes, the colon that touches it makes a key. -/
theorem IsQuotedKey.keywordAhead_eq
    (hKey : IsQuotedKey content ls)
    (hSpaced : ∀ l ∈ more.head?, l.spaced = true) :
    keywordAhead (ls ++ more) = true := by
  rcases hKey with ⟨_, colon, rfl, ⟨opened, body, closed, rfl,
    hOpened, hClosed, hSpells⟩, hColon, hTouches⟩
  have hAhead : keyColonAhead (colon :: more) = true := by
    have hBehind : more.head?.all
        (fun l => l.spaced || l.kind == .endOfLine) = true := by
      rw [Option.all_eq_true]
      intro l hHead
      rw [hSpaced l hHead]
      rfl
    rw [keyColonAhead, hColon, hTouches, hBehind]
    rfl
  have hQuoted :=
    quotedKeyAhead_of_spells (colon :: more) hSpells hClosed
  have hAssoc :
      opened :: (body ++ [closed]) ++ [colon] ++ more =
        opened :: (body ++ closed :: colon :: more) := by
    simp
  rw [hAssoc, keywordAhead, hOpened]
  exact hQuoted.trans hAhead

theorem opensPair_quoted
    (m : Metadata)
    (hKey : IsQuotedKey content ls)
    (hSpaced : ∀ l ∈ more.head?, l.spaced = true) :
    OpensPair m (String.ofList content) ls more := by
  have hAhead := hKey.keywordAhead_eq hSpaced
  rcases hKey with ⟨texts, colon, rfl, hText, hColon, _⟩
  have hPromoter : ∃ opened rest,
      texts = opened :: rest ∧
        opened.kind = .promoter .string .quoted := by
    rcases hText with ⟨opened, body, closed, rfl, hOpened, _⟩
    exact ⟨opened, _, rfl, hOpened⟩
  rcases hPromoter with ⟨opened, rest, rfl, hOpened⟩
  refine ⟨by simp [hOpened, Kind.beginsPair], hAhead, ?_⟩
  intro expr
  rcases hText.exists_steps expr (colon :: more) with
    ⟨t, span, hSteps, _, hLiteral⟩
  refine ⟨⟨.quotedAtom t, span.merge colon.span⟩, ?_,
    quote_quotedAtom m _ hLiteral⟩
  have hAssoc :
      opened :: rest ++ [colon] ++ more =
        opened :: rest ++ colon :: more := by
    simp
  have hOther : opened.kind ≠ .atomName := by
    rw [hOpened]
    exact Kind.noConfusion
  rw [hAssoc] at hAhead ⊢
  unfold keywordKey
  refine steps_peek.trans ?_
  change Steps (if opened.kind = .atomName then _ else _) _ _ _
  rw [if_neg hOther]
  refine steps_rest.trans ?_
  rw [hAhead, if_pos rfl]
  exact hSteps.trans ((steps_expect _ hColon).trans (steps_pure _))

/- A pair is a key, whatever is behind it, and a value. -/
theorem IsPair.exists_opensPair
    {IsValue : List Lexeme → Prop}
    (hPair : IsPair name IsValue ls)
    (hFilled : ∀ values, IsValue values → values ≠ []) :
    ∃ keys values,
      ls = keys ++ values ∧ IsValue values ∧
        ∀ m more, OpensPair m name keys (values ++ more) := by
  rcases hPair with ⟨keys, values, rfl, hValue, hKey⟩
  refine ⟨keys, values, rfl, hValue, fun m more => ?_⟩
  rcases hKey with hKey | ⟨hKey, hSpaced⟩
  · exact opensPair_bare m _ hKey
  · rw [← String.ofList_toList (s := name)]
    apply opensPair_quoted m hKey
    rw [List.head?_append_of_ne_nil _ (hFilled values hValue)]
    exact hSpaced

------------------------------------------------------------
-- Elements
------------------------------------------------------------

/- An expression, or a pair of a key and a value. -/
inductive Element where
| expression (tree : OperatorTree Term Sign)
| pair (key : String) (value : OperatorTree Term Sign)

/- A pair is spelled by its key, a colon and its value. -/
def Element.IsSpelled
    (context : Context) : Element → List Lexeme → Prop
| .expression tree, ls => (termGrammar context).Spells tree ls
| .pair key value, ls =>
    IsPair key ((termGrammar context).Spells value) ls

/-
  The elements end here, at a closing bracket or an arrow, or at
  a block where no call in the context may have one.
-/
def EndsElements
    (context : Context) : List Lexeme → Prop
| [] => False
| l :: _ =>
    (∃ b, l.kind = .closing b) ∨ l.kind = .operator .stab ∨
      l.kind = .word .do ∧ context.doBlocks = false

/- A comma comes next, or the elements end. -/
def EndsElement
    (context : Context) : List Lexeme → Prop
| [] => False
| l :: ls => l.kind = .comma ∨ EndsElements context (l :: ls)

variable {tree : OperatorTree Term Sign}

theorem EndsElement.follows
    (hEnds : EndsElement context more) :
    Follows context more := by
  cases more with
  | nil => exact hEnds.elim
  | cons l more =>
      rcases hEnds with hKind | ⟨b, hKind⟩ | hKind | ⟨hDo, hContext⟩
      · exact .kind l more (by rw [hKind]; rfl)
      · exact .kind l more (by rw [hKind]; rfl)
      · exact .kind l more (by rw [hKind]; rfl)
      · exact .block l more hDo hContext

theorem EndsElement.bindsBelow
    (precedence : Nat)
    (hEnds : EndsElement context more) :
    BindsBelow precedence more := by
  cases more with
  | nil => exact hEnds.elim
  | cons l more =>
      apply bindsBelow_of_head?
      rcases hEnds with hKind | ⟨b, hKind⟩ | hKind | ⟨hKind, _⟩ <;>
        rw [hKind] <;> rfl

theorem EndsElement.kind_ne
    {kind : Kind}
    (hEnds : EndsElement context more)
    (hComma : kind ≠ .comma)
    (hClosing : ∀ b, kind ≠ .closing b)
    (hArrow : kind ≠ .operator .stab)
    (hDo : kind ≠ .word .do) :
    ∀ l ∈ more.head?, l.kind ≠ kind := by
  cases more with
  | nil => exact hEnds.elim
  | cons l more =>
      rintro _ hMember rfl
      cases hMember
      rcases hEnds with hKind | ⟨b, hKind⟩ | hKind | ⟨hKind, _⟩
      · exact hComma hKind
      · exact hClosing b hKind
      · exact hArrow hKind
      · exact hDo hKind

theorem EndsElement.ne_endOfLine
    (hEnds : EndsElement context more) :
    ∀ l ∈ more.head?, l.kind ≠ .endOfLine :=
  hEnds.kind_ne Kind.noConfusion (fun _ => Kind.noConfusion)
    Kind.noConfusion Kind.noConfusion

theorem EndsElements.endsElement
    (hEnds : EndsElements context more) :
    EndsElement context more := by
  cases more with
  | nil => exact hEnds
  | cons l more => exact .inr hEnds

/- A tree in front of the end of an element. -/
theorem EndsElement.yields
    (precedence : Nat)
    (hEnds : EndsElement context more)
    (hSpells : (termGrammar context).Spells tree ls)
    (hOrdered : tree.Ordered Sign.binding)
    (hTight : ∀ o ∈ tree.root?,
      precedence ≤ o.binding.precedence) :
    Yields TooDeep (expression n height precedence context)
      (ls ++ more) more (Means tree) :=
  yields_of_spells n height precedence hSpells hOrdered
    hTight hEnds.follows (hEnds.bindsBelow precedence)

theorem Element.IsSpelled.exists_opensPair
    (hSpelled : (Element.pair name tree).IsSpelled context ls) :
    ∃ keys values,
      ls = keys ++ values ∧ (termGrammar context).Spells tree values ∧
        ∀ m more, OpensPair m name keys (values ++ more) := by
  apply IsPair.exists_opensPair hSpelled
  rintro _ hSpells rfl
  have hBegins := begins_of_spells hSpells
  cases hBegins

theorem Element.IsSpelled.ne_nil
    {e : Element}
    (hSpelled : e.IsSpelled context ls) :
    ls ≠ [] := by
  rintro rfl
  cases e with
  | expression tree =>
      have hBegins := begins_of_spells hSpelled
      cases hBegins
  | pair key value =>
      rcases hSpelled.exists_opensPair with
        ⟨keys, values, hNil, hSpells, _⟩
      rcases List.append_eq_nil_iff.mp hNil.symm with ⟨rfl, rfl⟩
      have hBegins := begins_of_spells hSpells
      cases hBegins

/- The pairs of keys and values at the end of some elements. -/
def Element.ofPairs
    (pairs : List (String × OperatorTree Term Sign)) :
    List Element :=
  pairs.map fun p => .pair p.1 p.2

def Element.all
    (trees : List (OperatorTree Term Sign))
    (pairs : List (String × OperatorTree Term Sign)) :
    List Element :=
  trees.map .expression ++ ofPairs pairs

/- The terms of pairs of keys and values. -/
def pairTerms
    (pairs : List (String × OperatorTree Term Sign)) : List Term :=
  pairs.map fun p => .pair (.atom p.1) p.2.term

------------------------------------------------------------
-- Pairs
------------------------------------------------------------

variable {pairs : List (String × OperatorTree Term Sign)}
variable {closed : Lexeme}
variable {b : Bracket}

theorem endsElements_closing
    (hClosed : closed.kind = .closing b) :
    EndsElements context (closed :: more) :=
  .inl ⟨b, hClosed⟩

/- A closing bracket is no comma. -/
theorem ne_of_closing
    {kind : Kind}
    (hClosed : closed.kind = .closing b)
    (hOther : kind ≠ .closing b) :
    ∀ m ∈ (closed :: more).head?, m.kind ≠ kind := by
  intro m hMember
  cases hMember
  rw [hClosed]
  exact hOther.symm

theorem ne_endOfLine_of_spells
    (hSpells : (termGrammar context).Spells tree ls) :
    ∀ m ∈ (ls ++ more).head?, m.kind ≠ .endOfLine :=
  ((beginsOperand_of_head? (begins_of_spells hSpells)).append
    more).ne_endOfLine

/- What is behind an element goes on with a comma, or it ends. -/
theorem endsElement_append
    {behind : List Lexeme}
    {es : List Element}
    {Spelled : Element → List Lexeme → Prop}
    (hBehind : Continues .comma Spelled es behind)
    (hEnds : EndsElements context more) :
    EndsElement context (behind ++ more) := by
  rcases hBehind with ⟨_, rfl⟩ | ⟨comma, rest, rfl, hComma, _⟩
  · exact hEnds.endsElement
  · exact .inl hComma

/- A run of pairs starts with a key. -/
theorem beginsPair_of_pairs
    (more : List Lexeme)
    (hPairs :
      Separated .comma (Element.IsSpelled context)
        (Element.ofPairs pairs) ls)
    (hSome : pairs ≠ []) :
    (∃ l rest, ls = l :: rest ∧ l.kind.beginsPair = true) ∧
      keywordAhead (ls ++ more) = true := by
  cases pairs with
  | nil => exact absurd rfl hSome
  | cons p pairs =>
      rcases hPairs.exists_append with
        ⟨first, behind, rfl, hSpelled, _⟩
      rcases hSpelled.exists_opensPair with
        ⟨keys, values, rfl, _, hOpens⟩
      have hOpen := hOpens .none (behind ++ more)
      rcases exists_of_head?_any hOpen.begins with
        ⟨l, rest, rfl, hBegins⟩
      have hAssoc :
          l :: rest ++ values ++ behind ++ more =
            l :: rest ++ (values ++ (behind ++ more)) := by
        simp
      refine ⟨⟨l, _, rfl, hBegins⟩, ?_⟩
      rw [hAssoc]
      exact hOpen.ahead

/- A comma separates pairs if a key comes behind it. -/
theorem pairSeparator?_of_keywordAhead
    {comma l : Lexeme}
    (hComma : comma.kind = .comma)
    (hBegins : l.kind.beginsPair = true)
    (hAhead : keywordAhead (l :: more) = true) :
    pairSeparator? (comma :: l :: more) = some 1 := by
  have hNoLineEnd : runLength isLineEnd (l :: more) = 0 := by
    apply runLength_eq_zero
    rintro _ ⟨⟩
    simpa [isLineEnd] using (Kind.not_of_beginsPair hBegins).1
  simp [pairSeparator?, hNoLineEnd, hComma, hAhead]

/- Behind the last pair no comma separates it from another one. -/
theorem EndsElements.pairSeparator?_eq
    (hEnds : EndsElements context more) :
    pairSeparator? more = none := by
  cases more with
  | nil => exact hEnds.elim
  | cons l more =>
      rcases hEnds with ⟨b, hKind⟩ | hKind | ⟨hKind, _⟩ <;>
        simp [pairSeparator?, hKind]

/- Pairs with commas between them, up to their end. -/
theorem yields_pairsFor
    {k : Nat}
    (span : Span)
    (hPairs : Separated .comma (Element.IsSpelled context) (Element.ofPairs pairs) ls)
    (hSome : pairs ≠ [])
    (hOrdered : ∀ p ∈ pairs, p.2.Ordered Sign.binding)
    (hEnds : EndsElements context more)
    (hBound : pairs.length ≤ k) :
    Yields TooDeep
      (pairsFor (expression n height) context k span)
      (ls ++ more) more
      (fun r => Node.quotePairs .none r.1 = pairTerms pairs) := by
  induction pairs generalizing ls k span with
  | nil => exact absurd rfl hSome
  | cons p pairs ih =>
      cases k with
      | zero => cases hBound
      | succ k =>
          rcases hPairs.exists_append with
            ⟨_, behind, rfl, hSpelled, hBehind⟩
          rcases hSpelled.exists_opensPair with
            ⟨keys, values, rfl, hSpells, hOpens⟩
          have hEnd : EndsElement context (behind ++ more) :=
            endsElement_append hBehind hEnds
          rcases (hOpens .none (behind ++ more)).reads
              (expression n height) with
            ⟨key, hSteps, hQuote⟩
          have hAssoc :
              keys ++ values ++ behind ++ more =
                keys ++ (values ++ (behind ++ more)) := by
            simp
          rw [hAssoc, pairsFor_succ]
          refine hSteps.bind
            ((steps_skipLineEnds
              (ne_endOfLine_of_spells hSpells)).bind ?_)
          refine (hEnd.yields 0 hSpells
            (hOrdered p List.mem_cons_self)
            (fun _ _ => Nat.zero_le _)).bind
            (fun value => grows_pairsAfter key value
              (grows_pairsFor (sound_expression n height) k)) ?_
          intro value hMeans
          refine steps_rest.bind ?_
          rcases hBehind with
            ⟨hLast, rfl⟩ | ⟨comma, rest, rfl, hComma, hMore, hRest⟩
          · have hNil : pairs = [] := List.map_eq_nil_iff.mp hLast
            rw [List.nil_append, hEnds.pairSeparator?_eq]
            apply Yields.pure
            change [Term.pair _ _] = _
            rw [hQuote, hMeans.quote_eq, hNil]
            rfl
          · have hMorePairs : pairs ≠ [] := by
              rintro rfl
              exact hMore rfl
            rcases beginsPair_of_pairs more hRest hMorePairs with
              ⟨⟨l, ls, rfl, hBegins⟩, hAhead⟩
            have hSeparator :
                pairSeparator? (comma :: (l :: ls ++ more)) =
                  some 1 :=
              pairSeparator?_of_keywordAhead hComma hBegins hAhead
            rw [List.cons_append, hSeparator]
            refine (steps_skip_one comma).bind ?_
            refine (ih _ hRest hMorePairs
              (fun q hMember =>
                hOrdered q (List.mem_cons_of_mem p hMember))
              (Nat.le_of_succ_le_succ hBound)).bind
              (fun _ => .pure _) ?_
            intro r hQuoted
            apply Yields.pure
            change Term.pair _ _ :: Node.quotePairs .none r.1 = _
            rw [hQuote, hMeans.quote_eq, hQuoted]
            rfl

------------------------------------------------------------
-- All elements
------------------------------------------------------------

/- The nodes of expressions, and of a run of pairs behind them. -/
inductive AreElements :
    List (OperatorTree Term Sign) →
      List (String × OperatorTree Term Sign) →
        List Node → Prop where
| nil :
    AreElements [] [] []
| pairs
    (pairs : List (String × OperatorTree Term Sign))
    (nodes : List (Node × Node))
    (span : Span)
    (hSome : pairs ≠ [])
    (hPairs : Node.quotePairs .none nodes = pairTerms pairs) :
    AreElements [] pairs [⟨.keywords nodes, span⟩]
| cons
    (tree : OperatorTree Term Sign)
    (trees : List (OperatorTree Term Sign))
    (pairs : List (String × OperatorTree Term Sign))
    (node : Node)
    (nodes : List Node)
    (hFirst : Means tree node)
    (hRest : AreElements trees pairs nodes) :
    AreElements (tree :: trees) pairs (node :: nodes)

variable {trees : List (OperatorTree Term Sign)}

/- A run of pairs is read as one node. -/
theorem yields_keywords
    (hPairs :
      Separated .comma (Element.IsSpelled context) (Element.ofPairs pairs) ls)
    (hSome : pairs ≠ [])
    (hOrdered : ∀ p ∈ pairs, p.2.Ordered Sign.binding)
    (hEnds : EndsElements context more) :
    Yields TooDeep (keywords (expression n height) context)
      (ls ++ more) more (fun node => AreElements [] pairs [node]) := by
  rcases beginsPair_of_pairs more hPairs hSome with
    ⟨⟨l, rest, rfl, _⟩, _⟩
  have hBound : pairs.length ≤ (l :: rest ++ more).length + 1 := by
    have hLength := hPairs.length_le fun _ _ hItem => hItem.ne_nil
    rw [Element.ofPairs, List.length_map] at hLength
    rw [List.length_append]
    omega
  unfold keywords
  refine (steps_currentSpan l).bind (steps_rest.bind ?_)
  refine (yields_pairsFor l.span hPairs hSome hOrdered hEnds
    hBound).bind (fun _ => .pure _) ?_
  rintro ⟨nodes, span⟩ hQuoted
  exact .pure (.pairs pairs nodes span hSome hQuoted)

/- A run of pairs ends the elements. -/
theorem yields_lastItem
    (hPairs :
      Separated .comma (Element.IsSpelled .container) (Element.ofPairs pairs)
        ls)
    (hSome : pairs ≠ [])
    (hOrdered : ∀ p ∈ pairs, p.2.Ordered Sign.binding)
    (hClosed : closed.kind = .closing b) :
    Yields TooDeep (lastItem (expression n height))
      (ls ++ closed :: more) (closed :: more)
      (AreElements [] pairs) := by
  have hEnds : EndsElements .container (closed :: more) :=
    endsElements_closing hClosed
  unfold lastItem
  refine (yields_keywords hPairs hSome hOrdered hEnds).bind
    (fun _ => (Grows.silent fun _ => rfl).bind fun _ =>
      (grows_eat _).bind fun _ => .pure _) ?_
  intro node hElements
  exact (steps_skipLineEnds hEnds.endsElement.ne_endOfLine).bind
    ((steps_eat_none (ne_of_closing hClosed Kind.noConfusion)).bind
      (.pure hElements))

/- Where there are no expressions, there may be pairs. -/
theorem yields_itemsFor_pairs
    (k : Nat)
    (hPairs : Separated .comma (Element.IsSpelled .container) (Element.ofPairs pairs) ls)
    (hOrdered : ∀ p ∈ pairs, p.2.Ordered Sign.binding)
    (hClosed : closed.kind = .closing b) :
    Yields TooDeep
      (itemsFor (expression n height) (.closing b) (k + 1))
      (ls ++ closed :: more) (closed :: more)
      (AreElements [] pairs) := by
  unfold itemsFor
  cases pairs with
  | nil =>
      cases hPairs
      have hEnds : EndsElement .container (closed :: more) :=
        (endsElements_closing hClosed).endsElement
      have hEnd :
          endsAt (· == .closing b) (closed :: more).head? = true := by
        simp [endsAt, hClosed]
      refine (steps_skipLineEnds hEnds.ne_endOfLine).bind
        (steps_peek.bind ?_)
      rw [hEnd, if_pos rfl]
      exact .pure .nil
  | cons p pairs =>
      have hSome := List.cons_ne_nil p pairs
      rcases beginsPair_of_pairs (closed :: more) hPairs hSome with
        ⟨⟨l, rest, rfl, hBegins⟩, hAhead⟩
      have hOther := Kind.not_of_beginsPair hBegins
      have hNoLineEnd :
          ∀ m ∈ (l :: rest ++ closed :: more).head?,
            m.kind ≠ .endOfLine := by
        rintro _ ⟨⟩
        exact hOther.1
      have hGoes :
          endsAt (· == .closing b)
            (l :: rest ++ closed :: more).head? = false := by
        simp [endsAt, hOther.2]
      refine (steps_skipLineEnds hNoLineEnd).bind
        (steps_peek.bind ?_)
      rw [hGoes, if_neg Bool.false_ne_true]
      refine steps_rest.bind ?_
      rw [hAhead, if_pos rfl]
      exact yields_lastItem hPairs hSome hOrdered hClosed

/- At a tree no elements end and no pairs start. -/
theorem endsAt_of_spells
    (hSpells : (termGrammar context).Spells tree ls) :
    endsAt (· == .closing b) (ls ++ more).head? = false := by
  rcases exists_of_head?_any (begins_of_spells hSpells) with
    ⟨l, rest, rfl, hBegins⟩
  have hNot := (Kind.not_of_beginsOperand hBegins).2.2.2 b
  simp [endsAt, hNot]

/-
  Elements with commas between them, up to a closing bracket.
  The induction is on the expressions; the pairs behind them
  are read all at once.
-/
theorem yields_itemsFor
    {k : Nat}
    (hElements :
      Separated .comma (Element.IsSpelled .container) (Element.all trees pairs) ls)
    (hTrees : ∀ t ∈ trees, t.Ordered Sign.binding)
    (hPairs : ∀ p ∈ pairs, p.2.Ordered Sign.binding)
    (hClosed : closed.kind = .closing b)
    (hBound : trees.length < k) :
    Yields TooDeep
      (itemsFor (expression n height) (.closing b) k)
      (ls ++ closed :: more) (closed :: more)
      (AreElements trees pairs) := by
  induction trees generalizing ls k with
  | nil =>
      cases k with
      | zero => cases hBound
      | succ k =>
          exact yields_itemsFor_pairs k hElements hPairs hClosed
  | cons tree trees ih =>
      cases k with
      | zero => cases hBound
      | succ k =>
          rcases hElements.exists_append with
            ⟨first, behind, rfl, hSpells, hBehind⟩
          have hEnds :
              EndsElement .container (behind ++ closed :: more) :=
            endsElement_append hBehind (endsElements_closing hClosed)
          rw [List.append_assoc]
          unfold itemsFor
          refine (steps_skipLineEnds
            (ne_endOfLine_of_spells hSpells)).bind
              (steps_peek.bind ?_)
          rw [endsAt_of_spells hSpells, if_neg Bool.false_ne_true]
          refine steps_rest.bind ?_
          rw [keywordAhead_of_spells hSpells hEnds.follows,
            if_neg Bool.false_ne_true]
          refine (hEnds.yields 0 hSpells
            (hTrees tree List.mem_cons_self)
            (fun _ _ => Nat.zero_le _)).bind
            (fun item => grows_itemsAfter item
              (grows_itemsFor (sound_expression n height) _ k)) ?_
          intro item hMeans
          refine (steps_skipLineEnds hEnds.ne_endOfLine).bind ?_
          rcases hBehind with
            ⟨hLast, rfl⟩ | ⟨comma, rest, rfl, hComma, _, hRest⟩
          · have hNil : trees = [] ∧ pairs = [] := by
              simpa [Element.ofPairs] using hLast
            refine (steps_eat_none
              (ne_of_closing hClosed Kind.noConfusion)).bind
                (.pure ?_)
            rw [hNil.1, hNil.2]
            exact .cons _ _ _ _ _ hMeans .nil
          · refine (steps_eat hComma).bind ?_
            refine (ih hRest
              (fun t hMember =>
                hTrees t (List.mem_cons_of_mem tree hMember))
              (Nat.lt_of_succ_lt_succ hBound)).bind
              (fun _ => .pure _) ?_
            intro nodes hNodes
            exact .pure (.cons _ _ _ _ _ hMeans hNodes)

theorem yields_items
    (hElements :
      Separated .comma (Element.IsSpelled .container) (Element.all trees pairs) ls)
    (hTrees : ∀ t ∈ trees, t.Ordered Sign.binding)
    (hPairs : ∀ p ∈ pairs, p.2.Ordered Sign.binding)
    (hClosed : closed.kind = .closing b) :
    Yields TooDeep (items (expression n height) (.closing b))
      (ls ++ closed :: more) (closed :: more)
      (AreElements trees pairs) := by
  have hBound : trees.length < (ls ++ closed :: more).length + 1 := by
    have hLength := hElements.length_le fun _ _ hItem => hItem.ne_nil
    rw [Element.all, List.length_append, List.length_map]
      at hLength
    rw [List.length_append]
    omega
  exact steps_rest.bind
    (yields_itemsFor hElements hTrees hPairs hClosed hBound)

------------------------------------------------------------
-- What elements are quoted to
------------------------------------------------------------

variable {nodes : List Node}

theorem Node.quoteElements_cons
    (node : Node)
    (nodes : List Node) :
    quoteElements .none (node :: nodes) =
      quoteElements .none [node] ++ quoteElements .none nodes := by
  rcases node with ⟨form, span⟩
  cases form <;> simp [quoteElements]

/- As elements of a list, pairs are put behind the expressions. -/
theorem AreElements.quoteElements_eq
    (hElements : AreElements trees pairs nodes) :
    Node.quoteElements .none nodes =
      trees.map (·.term) ++ pairTerms pairs := by
  induction hElements with
  | nil => rfl
  | pairs pairs nodes span _ hPairs =>
      simp [Node.quoteElements, hPairs]
  | cons tree trees pairs node nodes hFirst _ ih =>
      rw [Node.quoteElements_cons, hFirst.denotes.elements_eq, ih]
      rfl

/- Without pairs, the nodes are the expressions. -/
theorem AreElements.quoteAll_eq
    (hElements : AreElements trees [] nodes) :
    Node.quoteAll .none nodes = trees.map (·.term) := by
  generalize hNone : ([] : List (String × OperatorTree Term Sign)) =
    pairs at hElements
  induction hElements with
  | nil => rfl
  | pairs pairs nodes span hSome _ => exact absurd hNone.symm hSome
  | cons tree trees pairs node nodes hFirst _ ih =>
      rw [Node.quoteAll, hFirst.quote_eq, ih hNone]
      rfl

end ElixirReader
