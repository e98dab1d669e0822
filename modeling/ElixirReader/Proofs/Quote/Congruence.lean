import ElixirReader.Proofs.Quote.Equations
import Mathlib.Data.List.Forall2

/-
  This file compares what a tree is quoted to under two choices
  of metadata. A relation between terms is a congruence if it
  holds of equal literals, goes into lists and pairs, and goes
  into calls that say where they stand in the one way and in the
  other. Quoting respects all of them. One says that the term of
  a tree is code: a literal, a list or pair of code, or a call
  whose name and arguments are code.

  Key definitions include:
    * `IsCallMetadata`
    * `AreCallees`
    * `Congruence`

  Main declarations:
    * `Congruence.callOf`
    * `Congruence.text`
    * `Congruence.quote`
    * `Congruence.quoteDocument`
    * `congruence_isExpression`
    * `isExpression_quote`
-/

namespace ElixirReader

------------------------------------------------------------
-- Congruences
------------------------------------------------------------

/- What quoted calls say about themselves, by the metadata asked. -/
inductive IsCallMetadata : (Metadata → Term) → Prop where
| nothing :
    IsCallMetadata fun _ => .list []
| place
    (span : Span) :
    IsCallMetadata fun m => m.term span
| field
    (span : Span) :
    IsCallMetadata fun m =>
      .keywords (("no_parens", .boolean true) :: m.entries span)

/-
  What is called in quoted calls, with the one metadata and with
  the other: a name, or what is on both sides of a dot.
-/
inductive AreCallees
    (m m' : Metadata)
    (R : Term → Term → Prop) : Term → Term → Prop where
| name
    (name : String) :
    AreCallees m m' R (.atom name) (.atom name)
| dot
    (span : Span)
    {sides sides' : List Term}
    (hSides : List.Forall₂ R sides sides') :
    AreCallees m m' R (Construct.dot m span sides)
      (Construct.dot m' span sides')

/-
  A relation between terms quoted with the one metadata and with
  the other that all forms of code go along with.
-/
structure Congruence
    (m m' : Metadata)
    (R : Term → Term → Prop) : Prop where
  atom : ∀ name, R (.atom name) (.atom name)
  integer : ∀ value, R (.integer value) (.integer value)
  float : ∀ value, R (.float value) (.float value)
  binary : ∀ text, R (.binary text) (.binary text)
  list :
    ∀ {ts ts' : List Term},
      List.Forall₂ R ts ts' → R (.list ts) (.list ts')
  pair :
    ∀ {t t' u u' : Term},
      R t t' → R u u' → R (.pair t u) (.pair t' u')
  named :
    ∀ (name : String) (span : Span),
      R (.call (.atom name) (m.term span) .nil)
        (.call (.atom name) (m'.term span) .nil)
  call :
    ∀ {metadata : Metadata → Term} {name name' : Term}
      {args args' : List Term},
      IsCallMetadata metadata → AreCallees m m' R name name' →
        R name name' → List.Forall₂ R args args' →
          R (.call name (metadata m) (.list args))
            (.call name' (metadata m') (.list args'))

/- Two lists made of one, element by element. -/
theorem forall₂_map_map
    {α β : Type}
    {R : β → β → Prop}
    {f g : α → β}
    {as : List α}
    (hAll : ∀ a ∈ as, R (f a) (g a)) :
    List.Forall₂ R (as.map f) (as.map g) := by
  rw [List.forall₂_map_left_iff, List.forall₂_map_right_iff,
    List.forall₂_same]
  exact hAll

namespace Congruence

variable {m m' : Metadata}
variable {R : Term → Term → Prop}
variable {span : Span}
variable {name : String}
variable {t t' u u' v v' : Term}
variable {args args' : List Term}

------------------------------------------------------------
-- Calls
------------------------------------------------------------

theorem form
    (hR : Congruence m m' R)
    (hArgs : List.Forall₂ R args args') :
    R (Construct.form m span name args)
      (Construct.form m' span name args') :=
  hR.call (.place span) (.name name) (hR.atom name) hArgs

/- A call of what is on both sides of a dot. -/
theorem dotted
    (hR : Congruence m m' R)
    {metadata : Metadata → Term}
    (hMetadata : IsCallMetadata metadata)
    {sides sides' : List Term}
    (hSides : List.Forall₂ R sides sides')
    (hArgs : List.Forall₂ R args args') :
    R (.call (Construct.dot m span sides) (metadata m) (.list args))
      (.call (Construct.dot m' span sides') (metadata m')
        (.list args')) :=
  hR.call hMetadata (.dot span hSides) (hR.form hSides) hArgs

theorem remote
    (hR : Congruence m m' R)
    (hModule : R t t')
    (hArgs : List.Forall₂ R args args') :
    R (Construct.remote m span t name args)
      (Construct.remote m' span t' name args') :=
  hR.dotted (.place span)
    (.cons hModule (.cons (hR.atom name) .nil)) hArgs

/- A call of a target that is quoted in both ways. -/
theorem callOf
    (hR : Congruence m m' R)
    {target : Target Node}
    (parentheses : Bool)
    (hTarget : ∀ n ∈ target.nodes, R (n.quote m) (n.quote m'))
    (hArgs : List.Forall₂ R args args') :
    R (Construct.call m span (target.map (Node.quoted m))
        parentheses args)
      (Construct.call m' span (target.map (Node.quoted m'))
        parentheses args') := by
  cases target with
  | bare name => exact hR.form hArgs
  | remote receiver name at' nameSpan =>
      have hSides :
          List.Forall₂ R [receiver.quote m, .atom name]
            [receiver.quote m', .atom name] :=
        .cons (hTarget receiver List.mem_cons_self)
          (.cons (hR.atom name) .nil)
      have hEmpty : args.isEmpty = args'.isEmpty := by
        cases hArgs <;> rfl
      simp only [Construct.call, Target.map, Construct.remoteMetadata,
        hEmpty]
      split
      · exact hR.dotted (.field nameSpan) hSides hArgs
      · exact hR.dotted (.place nameSpan) hSides hArgs
  | anonymous function at' =>
      exact hR.dotted (.place at')
        (.cons (hTarget function List.mem_cons_self) .nil) hArgs

------------------------------------------------------------
-- Operators and containers
------------------------------------------------------------

theorem operator
    (hR : Congruence m m' R)
    (hLeft : R t t')
    (hRight : R u u') :
    R (Construct.operator m span name t u)
      (Construct.operator m' span name t' u') := by
  have hOperands : List.Forall₂ R [t, u] [t', u'] :=
    .cons hLeft (.cons hRight .nil)
  unfold Construct.operator
  split
  · exact hR.form (.cons (hR.form hOperands) .nil)
  · exact hR.form hOperands

theorem tuple
    (hR : Congruence m m' R)
    (hItems : List.Forall₂ R args args') :
    R (Construct.tuple m span args)
      (Construct.tuple m' span args') := by
  rcases hItems with _ | ⟨hFirst, _ | ⟨hSecond, _ | ⟨hThird, hMore⟩⟩⟩
  · exact hR.form .nil
  · exact hR.form (.cons hFirst .nil)
  · exact hR.pair hFirst hSecond
  · exact hR.form (.cons hFirst (.cons hSecond (.cons hThird hMore)))

theorem map
    (hR : Congruence m m' R)
    {update : Option Node}
    (hUpdate : ∀ n ∈ update.toList, R (n.quote m) (n.quote m'))
    (hEntries : List.Forall₂ R args args') :
    R (Construct.map m span (update.map (Node.quoted m)) args)
      (Construct.map m' span (update.map (Node.quoted m')) args') := by
  cases update with
  | none => exact hR.form hEntries
  | some base =>
      have hBase := hUpdate base List.mem_cons_self
      exact hR.form (.cons
        (hR.form (.cons hBase (.cons (hR.list hEntries) .nil))) .nil)

theorem block
    (hR : Congruence m m' R)
    (hTerms : List.Forall₂ R args args') :
    R (.block args) (.block args') := by
  rcases hTerms with _ | ⟨hFirst, _ | ⟨hSecond, hMore⟩⟩
  · exact hR.call .nothing (.name _) (hR.atom _) .nil
  · exact hFirst
  · exact hR.call .nothing (.name _) (hR.atom _)
      (.cons hFirst (.cons hSecond hMore))

theorem clause
    (hR : Congruence m m' R)
    {c : Clause Node}
    (hNodes : ∀ n ∈ c.nodes, R (n.quote m) (n.quote m')) :
    R (c.quote m) (c.quote m') := by
  rcases c with ⟨head, guard, body, arrow⟩
  have hHead : List.Forall₂ R (head.map (Node.quote m))
      (head.map (Node.quote m')) :=
    forall₂_map_map fun n hMember =>
      hNodes n (by simp [Clause.nodes, hMember])
  have hBody : List.Forall₂ R (body.map (Node.quote m))
      (body.map (Node.quote m')) :=
    forall₂_map_map fun n hMember =>
      hNodes n (by simp [Clause.nodes, hMember])
  have hLast :
      R (Construct.clauseBody (body.map (Node.quote m)))
        (Construct.clauseBody (body.map (Node.quote m'))) := by
    cases body with
    | nil => exact hR.atom "nil"
    | cons n ns => exact hR.block hBody
  have hHeads :
      List.Forall₂ R
        (Construct.clauseHead m arrow (head.map (Node.quote m))
          (guard.map (Node.quote m)))
        (Construct.clauseHead m' arrow (head.map (Node.quote m'))
          (guard.map (Node.quote m'))) := by
    cases guard with
    | none => exact hHead
    | some g =>
        have hGuard := hNodes g (by simp [Clause.nodes])
        exact .cons
          (hR.form (List.rel_append hHead (.cons hGuard .nil))) .nil
  exact hR.form (.cons (hR.list hHeads) (.cons hLast .nil))

theorem clauses
    (hR : Congruence m m' R)
    {cs : List (Clause Node)}
    (hNodes : ∀ n ∈ cs.flatMap Clause.nodes,
      R (n.quote m) (n.quote m')) :
    List.Forall₂ R (cs.map (Clause.quote m))
      (cs.map (Clause.quote m')) :=
  forall₂_map_map fun c hMember => hR.clause fun n hNode =>
    hNodes n (List.mem_flatMap.mpr ⟨c, hMember, hNode⟩)

theorem sections
    (hR : Congruence m m' R)
    {ss : List (Section Node)}
    (hNodes : ∀ n ∈ ss.flatMap Section.nodes,
      R (n.quote m) (n.quote m')) :
    List.Forall₂ R (ss.map (Section.quote m))
      (ss.map (Section.quote m')) := by
  apply forall₂_map_map
  rintro ⟨name, body⟩ hMember
  have hInside : ∀ n ∈ body.nodes, R (n.quote m) (n.quote m') :=
    fun n hNode => hNodes n (List.mem_flatMap.mpr ⟨_, hMember, hNode⟩)
  apply hR.pair (hR.atom name)
  cases body with
  | expressions ns => exact hR.block (forall₂_map_map hInside)
  | clauses cs => exact hR.list (hR.clauses hInside)

------------------------------------------------------------
-- Quoted literals
------------------------------------------------------------

theorem codePoints
    (hR : Congruence m m' R)
    (text : String) :
    R (.codePoints text) (.codePoints text) :=
  hR.list (forall₂_map_map fun c _ => hR.integer c.toNat)

variable {n : Node}
variable {inside : Text Node}

theorem conversion
    (hR : Congruence m m' R)
    (hNode : R (n.quote m) (n.quote m')) :
    R (Construct.conversion m (n.quoted m))
      (Construct.conversion m' (n.quoted m')) :=
  hR.remote (hR.atom _) (.cons hNode .nil)

theorem binaryPart
    (hR : Congruence m m' R)
    {p : Part Node}
    (hNodes : ∀ n ∈ p.nodes, R (n.quote m) (n.quote m')) :
    R (Construct.binaryPart m (p.map (Node.quoted m)))
      (Construct.binaryPart m' (p.map (Node.quoted m'))) := by
  cases p with
  | literal text => exact hR.binary text
  | interpolation n =>
      have hNode := hNodes n List.mem_cons_self
      exact hR.form (.cons (hR.conversion hNode)
        (.cons (hR.named "binary" n.span) .nil))

theorem charlistPart
    (hR : Congruence m m' R)
    {p : Part Node}
    (hNodes : ∀ n ∈ p.nodes, R (n.quote m) (n.quote m')) :
    R (Construct.charlistPart m (p.map (Node.quoted m)))
      (Construct.charlistPart m' (p.map (Node.quoted m'))) := by
  cases p with
  | literal text => exact hR.binary text
  | interpolation n =>
      exact hR.conversion (hNodes n List.mem_cons_self)

/- The parts of a text, each quoted in both ways. -/
theorem parts
    {f : Metadata → Part Quoted → Term}
    (decode : Bool)
    (hPart : ∀ p : Part Node,
      (∀ n ∈ p.nodes, R (n.quote m) (n.quote m')) →
        R (f m (p.map (Node.quoted m)))
          (f m' (p.map (Node.quoted m'))))
    (hNodes : ∀ n ∈ inside.nodes, R (n.quote m) (n.quote m')) :
    List.Forall₂ R
      (((inside.map (Node.quoted m)).parts decode).map (f m))
      (((inside.map (Node.quoted m')).parts decode).map (f m')) := by
  rw [Text.parts_map, Text.parts_map, List.map_map, List.map_map]
  apply forall₂_map_map
  intro p hMember
  apply hPart
  intro n hNode
  apply hNodes
  rw [← inside.nodes_parts decode]
  exact List.mem_flatMap.mpr ⟨p, hMember, hNode⟩

theorem binaryOf
    (hR : Congruence m m' R)
    (decode : Bool)
    (hNodes : ∀ n ∈ inside.nodes, R (n.quote m) (n.quote m')) :
    R (Construct.binary m span decode (inside.map (Node.quoted m)))
      (Construct.binary m' span decode
        (inside.map (Node.quoted m'))) :=
  hR.form (parts decode (fun _ => hR.binaryPart) hNodes)

theorem text
    (hR : Congruence m m' R)
    (hNodes : ∀ n ∈ inside.nodes, R (n.quote m) (n.quote m')) :
    R (Construct.text m span (inside.map (Node.quoted m)))
      (Construct.text m' span (inside.map (Node.quoted m'))) := by
  simp only [Construct.text, Construct.string, Construct.charlist,
    Text.literal?_map, Text.map_kind]
  split <;> split
  · exact hR.binary _
  · exact hR.binaryOf true hNodes
  · exact hR.codePoints _
  · have hParts := hR.list
      (parts true (fun _ => hR.charlistPart) hNodes)
    exact hR.remote (hR.atom _) (.cons hParts .nil)

theorem quotedAtom
    (hR : Congruence m m' R)
    (hNodes : ∀ n ∈ inside.nodes, R (n.quote m) (n.quote m')) :
    R (Construct.quotedAtom m span (inside.map (Node.quoted m)))
      (Construct.quotedAtom m' span (inside.map (Node.quoted m'))) := by
  simp only [Construct.quotedAtom, Text.literal?_map]
  split
  · exact hR.atom _
  · exact hR.remote (hR.atom _)
      (.cons (hR.binaryOf true hNodes) (.cons (hR.atom _) .nil))

theorem sigil
    (hR : Congruence m m' R)
    (modifiers : String)
    (hNodes : ∀ n ∈ inside.nodes, R (n.quote m) (n.quote m')) :
    R (Construct.sigil m span name (inside.map (Node.quoted m))
        modifiers)
      (Construct.sigil m' span name (inside.map (Node.quoted m'))
        modifiers) :=
  hR.form (.cons (hR.binaryOf false hNodes)
    (.cons (hR.codePoints modifiers) .nil))

------------------------------------------------------------
-- Elements and entries
------------------------------------------------------------

variable {ns : List Node}

theorem pairTerms
    (hR : Congruence m m' R)
    {ps : List (Node × Node)}
    (hNodes : ∀ n ∈ ps.flatMap fun (k, v) => [k, v],
      R (n.quote m) (n.quote m')) :
    List.Forall₂ R (ps.map (Node.pairTerm m))
      (ps.map (Node.pairTerm m')) := by
  apply forall₂_map_map
  intro p hMember
  apply hR.pair <;>
    exact hNodes _ (List.mem_flatMap.mpr ⟨p, hMember, by simp⟩)

/- What is quoted alike below a node is quoted alike in pieces. -/
theorem pieces
    (hR : Congruence m m' R)
    (hNode : R (n.quote m) (n.quote m'))
    (hBelow : ∀ d ∈ n.children, R (d.quote m) (d.quote m')) :
    List.Forall₂ R (n.elementTerms m) (n.elementTerms m') ∧
      List.Forall₂ R (n.entryTerms m) (n.entryTerms m') := by
  rcases n with ⟨form, span⟩
  cases form with
  | keywords pairs => exact ⟨hR.pairTerms hBelow, hR.pairTerms hBelow⟩
  | binary operator key value at' =>
      refine ⟨.cons hNode .nil, ?_⟩
      simp only [Node.entryTerms, Node.form]
      split
      · have hPair := hR.pair (hBelow key List.mem_cons_self)
          (hBelow value (List.mem_cons_of_mem _ List.mem_cons_self))
        exact .cons hPair .nil
      · exact .cons hNode .nil
  | _ => exact ⟨.cons hNode .nil, .cons hNode .nil⟩

/- Nodes of which each gives some terms. -/
theorem forall₂_flatMap
    {f : Metadata → Node → List Term}
    (hPieces : ∀ n ∈ ns, List.Forall₂ R (f m n) (f m' n)) :
    List.Forall₂ R (ns.flatMap (f m)) (ns.flatMap (f m')) := by
  induction ns with
  | nil => exact .nil
  | cons n ns ih =>
      rw [List.flatMap_cons, List.flatMap_cons]
      exact List.rel_append (hPieces n List.mem_cons_self)
        (ih fun n' hMember =>
          hPieces n' (List.mem_cons_of_mem n hMember))

------------------------------------------------------------
-- Trees
------------------------------------------------------------

/- An update and entries of a map, with what is below them. -/
theorem mapOf
    (hR : Congruence m m' R)
    {entries : Entries Node}
    (hBelow : ∀ c ∈ entries.nodes,
      R (c.quote m) (c.quote m') ∧
        ∀ d ∈ c.children, R (d.quote m) (d.quote m')) :
    R (Construct.map m span (entries.update.map (Node.quoted m))
        (entries.entries.flatMap (Node.entryTerms m)))
      (Construct.map m' span (entries.update.map (Node.quoted m'))
        (entries.entries.flatMap (Node.entryTerms m'))) := by
  apply hR.map
  · exact fun n hMember =>
      (hBelow n (List.mem_append_left _ hMember)).1
  · apply forall₂_flatMap
    intro n hMember
    have hEntry := hBelow n (List.mem_append_right _ hMember)
    exact (hR.pieces hEntry.1 hEntry.2).2

/- A tree is quoted to terms that a congruence relates. -/
theorem quote
    (hR : Congruence m m' R)
    (n : Node) :
    R (n.quote m) (n.quote m') := by
  induction n using Node.induction_below with
  | hStep n hBelow =>
      rcases n with ⟨f, span⟩
      have hNodes : ∀ n ∈ f.nodes, R (n.quote m) (n.quote m') :=
        fun n hMember => (hBelow n hMember).1
      cases f with
      | integer value => exact hR.integer value
      | float value => exact hR.float value
      | char code => exact hR.integer code
      | boolean value => exact hR.atom _
      | nil => exact hR.atom _
      | atom name => exact hR.atom name
      | quotedAtom t =>
          simp only [Node.quote, Node.quoteText_eq]
          exact hR.quotedAtom hNodes
      | text t =>
          simp only [Node.quote, Node.quoteText_eq]
          exact hR.text hNodes
      | sigil name t modifiers =>
          simp only [Node.quote, Node.quoteText_eq]
          exact hR.sigil modifiers hNodes
      | identifier name => exact hR.named name span
      | «alias» base segments =>
          have hSegments :
              List.Forall₂ R (segments.map Term.atom)
                (segments.map Term.atom) :=
            forall₂_map_map fun name _ => hR.atom name
          simp only [Node.quote, Node.quoteOption_eq]
          apply hR.form
          cases base with
          | none => exact hSegments
          | some n => exact .cons (hNodes n List.mem_cons_self) hSegments
      | call target args parentheses block =>
          rw [Node.quote_call, Node.quote_call]
          have hArgs :
              List.Forall₂ R (args.map (Node.quote m))
                (args.map (Node.quote m')) :=
            forall₂_map_map fun n hMember =>
              hNodes n (by simp [Form.nodes, hMember])
          have hBlock :
              List.Forall₂ R
                (block.toList.map fun b =>
                  Term.list (b.sections.map (Section.quote m)))
                (block.toList.map fun b =>
                  Term.list (b.sections.map (Section.quote m'))) := by
            apply forall₂_map_map
            intro b hMember
            apply hR.list (hR.sections fun n hNode => ?_)
            apply hNodes
            exact List.mem_append_right _
              (List.mem_flatMap.mpr ⟨b, hMember, hNode⟩)
          refine hR.callOf parentheses (fun n hMember => ?_)
            (List.rel_append hArgs hBlock)
          exact hNodes n (by simp [Form.nodes, hMember])
      | unary operator operand =>
          exact hR.form (.cons (hNodes operand List.mem_cons_self) .nil)
      | binary operator left right at' =>
          have hLeft := hBelow left List.mem_cons_self
          have hRight := hNodes right
            (List.mem_cons_of_mem _ List.mem_cons_self)
          rcases Node.quote_binary_cases operator left right at' span with
            ⟨_, first, last, innerAt, leftSpan, rfl, hQuote⟩ | hQuote
          · rw [hQuote, hQuote]
            have hFirst := hLeft.2 first List.mem_cons_self
            have hLast := hLeft.2 last
              (List.mem_cons_of_mem _ List.mem_cons_self)
            exact hR.form
              (.cons hFirst (.cons hLast (.cons hRight .nil)))
          · rw [hQuote, hQuote]
            exact hR.operator hLeft.1 hRight
      | access subject key =>
          have hSubject := hNodes subject List.mem_cons_self
          have hKey := hNodes key
            (List.mem_cons_of_mem _ List.mem_cons_self)
          exact hR.remote (hR.atom _)
            (.cons hSubject (.cons hKey .nil))
      | list items =>
          simp only [Node.quote, Node.quoteElements_eq]
          apply hR.list (forall₂_flatMap fun n hMember => ?_)
          have hItem := hBelow n hMember
          exact (hR.pieces hItem.1 hItem.2).1
      | keywords pairs =>
          simp only [Node.quote, Node.quotePairs_eq]
          exact hR.list (hR.pairTerms hNodes)
      | tuple items =>
          simp only [Node.quote, Node.quoteAll_eq]
          exact hR.tuple (forall₂_map_map hNodes)
      | map entries =>
          simp only [Node.quote, Node.quoteOption_eq,
            Node.quoteEntries_eq]
          exact hR.mapOf hBelow
      | struct name entries =>
          simp only [Node.quote, Node.quoteOption_eq,
            Node.quoteEntries_eq]
          have hEntries :
              ∀ c ∈ entries.nodes,
                R (c.quote m) (c.quote m') ∧
                  ∀ d ∈ c.children, R (d.quote m) (d.quote m') :=
            fun c hMember => hBelow c (List.mem_cons_of_mem _ hMember)
          exact hR.form (.cons (hNodes name List.mem_cons_self)
            (.cons (hR.mapOf hEntries) .nil))
      | bitstring items =>
          simp only [Node.quote, Node.quoteAll_eq]
          exact hR.form (forall₂_map_map hNodes)
      | block nodes =>
          simp only [Node.quote, Node.quoteAll_eq]
          exact hR.block (forall₂_map_map hNodes)
      | fn clauses =>
          simp only [Node.quote, Node.quoteClauses_eq]
          exact hR.form (hR.clauses hNodes)
      | error message =>
          exact hR.form (.cons (hR.binary message) .nil)

theorem quoteDocument
    (hR : Congruence m m' R)
    (d : Document) :
    R (d.quote m) (d.quote m') := by
  rw [Document.quote_eq, Document.quote_eq]
  exact hR.block (forall₂_map_map fun n _ => hR.quote n)

end Congruence

------------------------------------------------------------
-- Code
------------------------------------------------------------

theorem Term.areExpressions_iff
    (ts : List Term) :
    areExpressions ts = true ↔ ∀ t ∈ ts, t.isExpression = true := by
  induction ts with
  | nil => simp [areExpressions]
  | cons t ts ih => simp [areExpressions, ih]

/- The terms on the one side of a list of pairs. -/
theorem forall_of_forall₂
    {α β : Type}
    {P : α → Prop}
    {as : List α}
    {bs : List β}
    (hAll : List.Forall₂ (fun a _ => P a) as bs) :
    ∀ a ∈ as, P a := by
  induction hAll with
  | nil => simp
  | cons hFirst _ ih =>
      intro a hMember
      rcases List.mem_cons.mp hMember with rfl | hMember
      · exact hFirst
      · exact ih a hMember

/- What quoted calls say about themselves is a list. -/
theorem IsCallMetadata.exists_list
    {metadata : Metadata → Term}
    (hMetadata : IsCallMetadata metadata)
    (m : Metadata) :
    ∃ items, metadata m = .list items := by
  cases hMetadata <;> exact ⟨_, rfl⟩

/- Every form of code makes code of code. -/
theorem congruence_isExpression
    (m : Metadata) :
    Congruence m m fun t _ => t.isExpression = true := by
  refine ⟨fun _ => rfl, fun _ => rfl, fun _ => rfl, fun _ => rfl,
    ?_, ?_, ?_, ?_⟩
  · intro ts ts' hItems
    exact (Term.areExpressions_iff ts).mpr (forall_of_forall₂ hItems)
  · intro t t' u u' hFirst hSecond
    simp [Term.pair, Term.isExpression, hFirst, hSecond]
  · intro name span
    simp [Term.call, Term.nil, Metadata.term, Term.keywords,
      Term.isExpression]
  · intro metadata name name' args args' hMetadata _ hName hArgs
    rcases hMetadata.exists_list m with ⟨items, hItems⟩
    have hAll :=
      (Term.areExpressions_iff args).mpr (forall_of_forall₂ hArgs)
    simp [Term.call, hItems, Term.isExpression, hName, hAll]

/- What a tree or a document is quoted to is code. -/
theorem isExpression_quote
    (m : Metadata) :
    (∀ n : Node, (n.quote m).isExpression = true) ∧
      ∀ d : Document, (d.quote m).isExpression = true :=
  ⟨fun n => (congruence_isExpression m).quote n,
    fun d => (congruence_isExpression m).quoteDocument d⟩

end ElixirReader
