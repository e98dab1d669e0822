import ElixirReader.Proofs.Likeness.Places

/-
  This file shows that places make no difference to terms: if
  no metadata are asked for, trees that are alike are quoted to
  the same term.

  Key definitions include:
    * `Node.KeepsTerm`

  Main declarations:
    * `keepsTerm`
    * `Alike.quote_eq`
-/

namespace ElixirReader

open Placed (unplaced)

variable {n : Node}
variable {ns : List Node}

/- Without its places a tree has the same term. -/
def Node.KeepsTerm
    (n : Node) : Prop :=
  (unplaced n).quote .none = n.quote .none

open Node (KeepsTerm)

------------------------------------------------------------
-- Lists
------------------------------------------------------------

theorem quote_unplacedAll
    (hAll : ∀ n ∈ ns, KeepsTerm n) :
    (unplaced ns).map (Node.quote .none) =
      ns.map (Node.quote .none) := by
  change (ns.map unplaced).map _ = _
  rw [List.map_map]
  exact List.map_congr_left hAll

theorem quote_unplacedOption
    {n : Option Node}
    (hAll : ∀ m ∈ n.toList, KeepsTerm m) :
    (unplaced n).map (Node.quote .none) =
      n.map (Node.quote .none) := by
  cases n with
  | none => rfl
  | some n => exact congrArg some (hAll n List.mem_cons_self)

theorem pairTerms_unplaced
    {ps : List (Node × Node)}
    (hAll : ∀ n ∈ ps.flatMap fun (k, v) => [k, v], KeepsTerm n) :
    (unplaced ps).map (Node.pairTerm .none) =
      ps.map (Node.pairTerm .none) := by
  change (ps.map unplaced).map _ = _
  rw [List.map_map]
  apply List.map_congr_left
  rintro ⟨key, value⟩ hMember
  have hKey : KeepsTerm key :=
    hAll key (List.mem_flatMap.mpr ⟨_, hMember, by simp⟩)
  have hValue : KeepsTerm value :=
    hAll value (List.mem_flatMap.mpr ⟨_, hMember, by simp⟩)
  change Term.pair _ _ = Term.pair _ _
  exact congr (congrArg Term.pair hKey) hValue

------------------------------------------------------------
-- Blocks
------------------------------------------------------------

theorem clauseTerms_unplaced
    {cs : List (Clause Node)}
    (hAll : ∀ n ∈ cs.flatMap Clause.nodes, KeepsTerm n) :
    (unplaced cs).map (Clause.quote .none) =
      cs.map (Clause.quote .none) := by
  change (cs.map unplaced).map _ = _
  rw [List.map_map]
  apply List.map_congr_left
  rintro ⟨head, guard, body, arrow⟩ hMember
  have hNodes : ∀ n ∈ head ++ guard.toList ++ body, KeepsTerm n :=
    fun n hNode => hAll n (List.mem_flatMap.mpr ⟨_, hMember, hNode⟩)
  simp only [List.mem_append, or_imp, forall_and] at hNodes
  rw [Function.comp_apply, unplaced_clause, Clause.quote, Clause.quote,
    quote_unplacedAll hNodes.1.1, quote_unplacedOption hNodes.1.2,
    quote_unplacedAll hNodes.2]
  rfl

theorem sectionTerms_unplaced
    {ss : List (Section Node)}
    (hAll : ∀ n ∈ ss.flatMap Section.nodes, KeepsTerm n) :
    (unplaced ss).map (Section.quote .none) =
      ss.map (Section.quote .none) := by
  change (ss.map unplaced).map _ = _
  rw [List.map_map]
  apply List.map_congr_left
  rintro ⟨name, body⟩ hMember
  have hNodes : ∀ n ∈ body.nodes, KeepsTerm n :=
    fun n hNode => hAll n (List.mem_flatMap.mpr ⟨_, hMember, hNode⟩)
  apply congrArg (Term.pair (.atom name))
  cases body with
  | expressions ns =>
      exact congrArg Term.block (quote_unplacedAll hNodes)
  | clauses cs =>
      exact congrArg Term.list (clauseTerms_unplaced hNodes)

------------------------------------------------------------
-- Texts
------------------------------------------------------------

/- The parts of a text, each made into a term. -/
theorem partTerms_unplaced
    {t : Text Node}
    (decode : Bool)
    (f : Part Quoted → Term)
    (hAll : ∀ n ∈ t.nodes, KeepsTerm n)
    (hSame : ∀ n, KeepsTerm n →
      f (.interpolation ((unplaced n).quoted .none)) =
        f (.interpolation (n.quoted .none))) :
    (((unplaced t).map (Node.quoted .none)).parts decode).map f =
      ((t.map (Node.quoted .none)).parts decode).map f := by
  change (((t.map unplaced).map _).parts _).map _ = _
  rw [Text.parts_map, Text.parts_map, Text.parts_map, List.map_map,
    List.map_map, List.map_map]
  apply List.map_congr_left
  intro p hMember
  cases p with
  | literal text => rfl
  | interpolation n =>
      apply hSame n
      apply hAll
      rw [← Text.nodes_parts decode]
      exact List.mem_flatMap.mpr ⟨_, hMember, List.mem_cons_self⟩

theorem literal?_unplaced
    (t : Text Node) :
    (unplaced t).literal? = t.literal? :=
  Text.literal?_map _ t

theorem Alike.literal?_eq
    {t t' : Text Node}
    (h : Alike t t') :
    t.literal? = t'.literal? := by
  rw [← literal?_unplaced t, h, literal?_unplaced]

variable {t : Text Node}

/- What a text is made of is put together from its parts. -/
theorem binaryTerm_unplaced
    (span : Span)
    (decode : Bool)
    (hAll : ∀ n ∈ t.nodes, KeepsTerm n) :
    Construct.binary .none Span.none decode
        ((unplaced t).map (Node.quoted .none)) =
      Construct.binary .none span decode
        (t.map (Node.quoted .none)) := by
  rw [Construct.binary, Construct.binary,
    partTerms_unplaced decode (Construct.binaryPart .none) hAll]
  · rfl
  · intro n hNode
    change Construct.form .none Span.none "::" [Construct.remote _ _ _ _
      [(unplaced n).quote .none], _] = _
    rw [hNode]
    rfl

theorem charlistTerm_unplaced
    (span : Span)
    (hAll : ∀ n ∈ t.nodes, KeepsTerm n) :
    Construct.charlist .none Span.none
        ((unplaced t).map (Node.quoted .none)) =
      Construct.charlist .none span (t.map (Node.quoted .none)) := by
  rw [Construct.charlist, Construct.charlist, Text.literal?_map,
    Text.literal?_map, literal?_unplaced]
  split
  · rfl
  · rw [partTerms_unplaced true (Construct.charlistPart .none) hAll]
    · rfl
    · intro n hNode
      change Construct.remote _ _ _ _ [(unplaced n).quote .none] = _
      rw [hNode]
      rfl

theorem textTerm_unplaced
    (span : Span)
    (hAll : ∀ n ∈ t.nodes, KeepsTerm n) :
    Construct.text .none Span.none
        ((unplaced t).map (Node.quoted .none)) =
      Construct.text .none span (t.map (Node.quoted .none)) := by
  have hKind :
      ((unplaced t).map (Node.quoted .none)).kind =
        (t.map (Node.quoted .none)).kind := rfl
  rw [Construct.text, Construct.text, hKind]
  split
  · rw [Construct.string, Construct.string, Text.literal?_map,
      Text.literal?_map, literal?_unplaced,
      binaryTerm_unplaced span true hAll]
  · exact charlistTerm_unplaced span hAll

theorem quotedAtomTerm_unplaced
    (span : Span)
    (hAll : ∀ n ∈ t.nodes, KeepsTerm n) :
    Construct.quotedAtom .none Span.none
        ((unplaced t).map (Node.quoted .none)) =
      Construct.quotedAtom .none span
        (t.map (Node.quoted .none)) := by
  rw [Construct.quotedAtom, Construct.quotedAtom, Text.literal?_map,
    Text.literal?_map, literal?_unplaced,
    binaryTerm_unplaced span true hAll]
  rfl

------------------------------------------------------------
-- Elements and entries
------------------------------------------------------------

theorem elementTerms_unplaced
    (hNode : KeepsTerm n)
    (hBelow : ∀ c ∈ n.children, KeepsTerm c) :
    (unplaced n).elementTerms .none = n.elementTerms .none := by
  rcases n with ⟨f, span⟩
  rw [Node.KeepsTerm, unplaced_mk] at hNode
  rw [unplaced_mk]
  cases f with
  | keywords ps => exact pairTerms_unplaced hBelow
  | _ => exact congrArg (fun t => [t]) hNode

theorem entryTerms_unplaced
    (hNode : KeepsTerm n)
    (hBelow : ∀ c ∈ n.children, KeepsTerm c) :
    (unplaced n).entryTerms .none = n.entryTerms .none := by
  rcases n with ⟨f, span⟩
  rw [Node.KeepsTerm, unplaced_mk] at hNode
  rw [unplaced_mk]
  cases f with
  | keywords ps => exact pairTerms_unplaced hBelow
  | binary operator key value at' =>
      have hPair := @pairTerms_unplaced [(key, value)] hBelow
      rw [Form.unplacedParts, Node.entryTerms, Node.entryTerms]
      simp only [Node.form]
      split
      · exact hPair
      · exact congrArg (fun t => [t]) hNode
  | _ => exact congrArg (fun t => [t]) hNode

/- The terms that each of some nodes has its own number of. -/
theorem flatMap_unplaced
    {f : Node → List Term}
    (hAll : ∀ n ∈ ns, f (unplaced n) = f n) :
    (unplaced ns).flatMap f = ns.flatMap f := by
  change (ns.map unplaced).flatMap f = _
  rw [List.flatMap_map, List.flatMap_def, List.flatMap_def]
  exact congrArg List.flatten (List.map_congr_left hAll)

theorem elementsTerms_unplaced
    (hAll : ∀ n ∈ ns, KeepsTerm n ∧ ∀ c ∈ n.children, KeepsTerm c) :
    Node.quoteElements .none (unplaced ns) =
      Node.quoteElements .none ns := by
  rw [Node.quoteElements_eq, Node.quoteElements_eq]
  exact flatMap_unplaced fun n hMember =>
    elementTerms_unplaced (hAll n hMember).1 (hAll n hMember).2

theorem entriesTerms_unplaced
    (hAll : ∀ n ∈ ns, KeepsTerm n ∧ ∀ c ∈ n.children, KeepsTerm c) :
    Node.quoteEntries .none (unplaced ns) =
      Node.quoteEntries .none ns := by
  rw [Node.quoteEntries_eq, Node.quoteEntries_eq]
  exact flatMap_unplaced fun n hMember =>
    entryTerms_unplaced (hAll n hMember).1 (hAll n hMember).2

/- A map is quoted with its entries, which may update another one. -/
theorem mapTerm_unplaced
    {update : Option Node}
    {entries : List Node}
    (span : Span)
    (hUpdate : ∀ n ∈ update.toList, KeepsTerm n)
    (hAll : ∀ n ∈ entries,
      KeepsTerm n ∧ ∀ c ∈ n.children, KeepsTerm c) :
    Construct.map .none Span.none
        (Node.quoteOption .none (unplaced update))
        (Node.quoteEntries .none (unplaced entries)) =
      Construct.map .none span (Node.quoteOption .none update)
        (Node.quoteEntries .none entries) := by
  rw [entriesTerms_unplaced hAll, Node.quoteOption_eq,
    Node.quoteOption_eq]
  cases update with
  | none => rfl
  | some base =>
      have hBase : (unplaced base).quote .none = base.quote .none :=
        hUpdate base List.mem_cons_self
      change Construct.form .none Span.none _ [Construct.form _ _ _
        [(unplaced base).quote .none, _]] = _
      rw [hBase]
      rfl

/- A call is quoted with its target and its arguments. -/
theorem callTerm_unplaced
    {target : Target Node}
    {args : List Node}
    {doBlock : Option (DoBlock Node)}
    (parentheses : Bool)
    (span : Span)
    (hTarget : ∀ n ∈ target.nodes, KeepsTerm n)
    (hArgs : ∀ n ∈ args, KeepsTerm n)
    (hBlock : ∀ n ∈ doBlock.toList.flatMap DoBlock.nodes,
      KeepsTerm n) :
    Node.quote .none ⟨.call (unplaced target) (unplaced args)
        parentheses (unplaced doBlock), Span.none⟩ =
      Node.quote .none
        ⟨.call target args parentheses doBlock, span⟩ := by
  have hTerms :
      Node.argumentTerms .none (unplaced args) (unplaced doBlock) =
        Node.argumentTerms .none args doBlock := by
    rw [Node.argumentTerms, Node.argumentTerms,
      quote_unplacedAll hArgs]
    rcases doBlock with _ | ⟨sections, blockSpan⟩
    · rfl
    · have hSections := @sectionTerms_unplaced sections
        (by simpa [DoBlock.nodes] using hBlock)
      exact congrArg (fun ts => args.map (Node.quote .none) ++
        [Term.list ts]) hSections
  rw [Node.quote_call, Node.quote_call, hTerms]
  cases target with
  | bare name => rfl
  | remote receiver name dot nameSpan =>
      have hReceiver : (unplaced receiver).quote .none =
          receiver.quote .none :=
        hTarget receiver List.mem_cons_self
      simp only [unplaced_remote, Target.map, Construct.call,
        Node.quoted, hReceiver]
      rfl
  | anonymous function dot =>
      have hFunction : (unplaced function).quote .none =
          function.quote .none :=
        hTarget function List.mem_cons_self
      simp only [unplaced_anonymous, Target.map, Construct.call,
        Node.quoted, hFunction]
      rfl

/- A step behind a range makes one term of both. -/
theorem operationTerm_unplaced
    {operator : String}
    {left right : Node}
    (at' span : Span)
    (hLeft : KeepsTerm left)
    (hBelow : ∀ c ∈ left.children, KeepsTerm c)
    (hRight : KeepsTerm right) :
    Node.quote .none ⟨.binary operator (unplaced left)
        (unplaced right) Span.none, Span.none⟩ =
      Node.quote .none ⟨.binary operator left right at', span⟩ := by
  rw [Node.KeepsTerm] at hLeft hRight
  rcases left with ⟨f, leftSpan⟩
  rw [unplaced_mk] at hLeft ⊢
  cases f with
  | binary inner first last innerAt =>
      have hFirst := hBelow first List.mem_cons_self
      have hLast := hBelow last (List.mem_cons_of_mem _
        List.mem_cons_self)
      rw [Node.KeepsTerm] at hFirst hLast
      rw [Form.unplacedParts] at hLeft ⊢
      rw [Node.quote, Node.quote, hLeft, hRight, hFirst, hLast]
      rfl
  | _ =>
      have hBoth := congr (congrArg
        (Construct.operator .none Span.none operator) hLeft) hRight
      exact hBoth

------------------------------------------------------------
-- Trees
------------------------------------------------------------

/- Every form keeps its term if the nodes below it do. -/
theorem keepsTerm
    (n : Node) :
    KeepsTerm n := by
  induction n using Node.induction_below with
  | hStep n ih =>
      rcases n with ⟨f, span⟩
      have hBelow : ∀ c ∈ f.nodes, KeepsTerm c :=
        fun c hChild => (ih c hChild).1
      rw [Node.KeepsTerm, unplaced_mk]
      cases f with
      | quotedAtom t =>
          rw [Form.unplacedParts, Node.quote, Node.quote,
            Node.quoteText_eq, Node.quoteText_eq]
          exact quotedAtomTerm_unplaced span hBelow
      | text t =>
          rw [Form.unplacedParts, Node.quote, Node.quote,
            Node.quoteText_eq, Node.quoteText_eq]
          exact textTerm_unplaced span hBelow
      | sigil name t modifiers =>
          rw [Form.unplacedParts, Node.quote, Node.quote,
            Node.quoteText_eq, Node.quoteText_eq, Construct.sigil,
            Construct.sigil, binaryTerm_unplaced span false hBelow]
          rfl
      | «alias» base segments =>
          cases base with
          | none => rfl
          | some base =>
              have hBase : (unplaced base).quote .none =
                  base.quote .none :=
                hBelow base List.mem_cons_self
              rw [Form.unplacedParts, Node.quote, Node.quote,
                Node.quoteOption_eq, Node.quoteOption_eq]
              exact congrArg (fun t => Construct.form .none span
                "__aliases__" (t :: segments.map Term.atom)) hBase
      | call target args parentheses doBlock =>
          apply callTerm_unplaced
          · exact fun n hNode => hBelow n (by simp [Form.nodes, hNode])
          · exact fun n hNode => hBelow n (by simp [Form.nodes, hNode])
          · exact fun n hNode => hBelow n
              (List.mem_append.mpr (.inr hNode))
      | unary operator operand =>
          have hOperand := hBelow operand List.mem_cons_self
          exact congrArg
            (fun t => Construct.form .none span operator [t]) hOperand
      | binary operator left right at' =>
          have hLeft := ih left List.mem_cons_self
          apply operationTerm_unplaced at' span hLeft.1 hLeft.2
          exact hBelow right
            (List.mem_cons_of_mem _ List.mem_cons_self)
      | access subject key =>
          have hSubject := hBelow subject List.mem_cons_self
          have hKey := hBelow key
            (List.mem_cons_of_mem _ List.mem_cons_self)
          have hBoth := congr
            (congrArg (Construct.access .none span) hSubject) hKey
          exact hBoth
      | list items =>
          exact congrArg Term.list (elementsTerms_unplaced ih)
      | keywords pairs =>
          rw [Form.unplacedParts, Node.quote, Node.quote,
            Node.quotePairs_eq, Node.quotePairs_eq,
            pairTerms_unplaced hBelow]
      | tuple items =>
          have hItems : ∀ c ∈ items, KeepsTerm c := hBelow
          rw [Form.unplacedParts, Node.quote, Node.quote,
            Node.quoteAll_eq, Node.quoteAll_eq,
            quote_unplacedAll hItems]
          rfl
      | map entries =>
          rcases entries with ⟨update, entries⟩
          exact mapTerm_unplaced span
            (fun n hNode => hBelow n (List.mem_append.mpr (.inl hNode)))
            (fun n hNode => ih n (List.mem_append.mpr (.inr hNode)))
      | struct name entries =>
          rcases entries with ⟨update, entries⟩
          have hName := hBelow name List.mem_cons_self
          have hMap := @mapTerm_unplaced update entries span
            (fun n hNode => hBelow n (List.mem_cons_of_mem _
              (List.mem_append.mpr (.inl hNode))))
            (fun n hNode => ih n (List.mem_cons_of_mem _
              (List.mem_append.mpr (.inr hNode))))
          have hBoth := congr (congrArg (fun t u =>
            Construct.form .none span "%" [t, u]) hName) hMap
          exact hBoth
      | bitstring items =>
          have hItems : ∀ c ∈ items, KeepsTerm c := hBelow
          rw [Form.unplacedParts, Node.quote, Node.quote,
            Node.quoteAll_eq, Node.quoteAll_eq,
            quote_unplacedAll hItems]
          rfl
      | block nodes =>
          have hItems : ∀ c ∈ nodes, KeepsTerm c := hBelow
          rw [Form.unplacedParts, Node.quote, Node.quote,
            Node.quoteAll_eq, Node.quoteAll_eq,
            quote_unplacedAll hItems]
      | fn clauses =>
          rw [Form.unplacedParts, Node.quote, Node.quote,
            Node.quoteClauses_eq, Node.quoteClauses_eq,
            clauseTerms_unplaced hBelow]
          rfl
      | _ => rfl

/- Trees that are alike have the same term. -/
theorem Alike.quote_eq
    {n m : Node}
    (h : Alike n m) :
    n.quote .none = m.quote .none := by
  rw [← keepsTerm n, h, keepsTerm m]

end ElixirReader
