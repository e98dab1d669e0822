import ElixirReader.Quote.Basic
import ElixirReader.Tree.Traversal

/-
  This file states what quoting does to a node in terms of what
  it does to the nodes right below it. Lists of nodes, clauses
  and texts are quoted one by one, so what holds for each form
  holds for all trees.

  Key definitions include:
    * `Node.quoted`
    * `Node.elementTerms`
    * `Node.entryTerms`
    * `Clause.quote`
    * `Section.quote`

  Main declarations:
    * `Node.induction_below`
    * `Node.quote_binary_cases`
    * `Text.parts_map`
-/

namespace ElixirReader

------------------------------------------------------------
-- Induction on trees
------------------------------------------------------------

namespace Node

/- A tree is larger than each of the trees right below it. -/
theorem length_preorder_lt
    {n c : Node}
    (hChild : c ∈ n.children) :
    c.preorder.length < n.preorder.length := by
  rcases List.append_of_mem hChild with ⟨before, behind, hSplit⟩
  rw [n.preorder_eq, hSplit]
  simp only [List.flatMap_append, List.flatMap_cons,
    List.length_cons, List.length_append]
  omega

/-
  What holds for a node if it does for its children and theirs
  holds for all.
-/
theorem induction_below
    {P : Node → Prop}
    (hStep : ∀ n,
      (∀ c ∈ n.children, P c ∧ ∀ d ∈ c.children, P d) → P n)
    (n : Node) :
    P n := by
  generalize hSize : n.preorder.length = size
  induction size using Nat.strongRecOn generalizing n with
  | ind size ih =>
      subst hSize
      apply hStep
      intro c hChild
      have hLess := length_preorder_lt hChild
      refine ⟨ih _ hLess c rfl, fun d hBelow => ?_⟩
      exact ih _ (Nat.lt_trans (length_preorder_lt hBelow) hLess) d rfl

end Node

------------------------------------------------------------
-- Texts
------------------------------------------------------------

variable {α β : Type}

/- A segment with something else in place of its node. -/
def Segment.map
    (f : α → β) : Segment α → Segment β
| .fragment text => .fragment text
| .escape text => .escape text
| .indent blanks => .indent blanks
| .interpolation node => .interpolation (f node)

/- A text with something else in place of its nodes. -/
def Text.map
    (f : α → β)
    (t : Text α) : Text β :=
  ⟨t.kind, t.heredoc, t.indent, t.segments.map (Segment.map f)⟩

@[simp] theorem Text.map_kind
    (f : α → β)
    (t : Text α) :
    (t.map f).kind = t.kind :=
  rfl

/- A part with something else in place of its node. -/
def Part.map
    (f : α → β) : Part α → Part β
| .literal text => .literal text
| .interpolation node => .interpolation (f node)

/- The nodes of a part. -/
def Part.nodes : Part α → List α
| .literal _ => []
| .interpolation node => [node]

theorem Part.prepend_map
    (f : α → β)
    (text : String)
    (ps : List (Part α)) :
    Part.prepend text (ps.map (Part.map f)) =
      (Part.prepend text ps).map (Part.map f) := by
  rcases ps with _ | ⟨_ | _, ps⟩ <;>
    simp only [Part.prepend, List.map_nil, List.map_cons, Part.map]
  all_goals
    split <;> rfl

theorem Part.nodes_prepend
    (text : String)
    (ps : List (Part α)) :
    (Part.prepend text ps).flatMap Part.nodes =
      ps.flatMap Part.nodes := by
  rcases ps with _ | ⟨_ | _, ps⟩ <;> simp only [Part.prepend]
  · split <;> rfl
  · rfl
  · split <;> rfl

/- The parts of a text do not depend on what its nodes are. -/
theorem Text.parts_map
    (f : α → β)
    (decode : Bool)
    (t : Text α) :
    (t.map f).parts decode = (t.parts decode).map (Part.map f) := by
  rcases t with ⟨kind, heredoc, indent, segments⟩
  simp only [Text.parts, Text.map]
  induction segments with
  | nil => rfl
  | cons s ss ih =>
      rw [List.map_cons, List.foldr_cons, List.foldr_cons, ih]
      cases s with
      | interpolation node => rfl
      | _ => exact Part.prepend_map f _ _

/- No node of a text gets lost between its parts. -/
theorem Text.nodes_parts
    (decode : Bool)
    (t : Text α) :
    (t.parts decode).flatMap Part.nodes = t.nodes := by
  rcases t with ⟨kind, heredoc, indent, segments⟩
  simp only [Text.parts, Text.nodes]
  induction segments with
  | nil => rfl
  | cons s ss ih =>
      rw [List.foldr_cons, List.flatMap_cons, ← ih]
      cases s with
      | interpolation node => rfl
      | _ => exact Part.nodes_prepend _ _

theorem Text.isInterpolated_map
    (f : α → β)
    (t : Text α) :
    (t.map f).isInterpolated = t.isInterpolated := by
  simp only [Text.isInterpolated, Text.map, List.any_map]
  congr 1
  funext s
  cases s <;> rfl

theorem Text.literal?_map
    (f : α → β)
    (t : Text α) :
    (t.map f).literal? = t.literal? := by
  have hCharacters :
      (fun s : Segment β => s.characters true t.indent) ∘
          Segment.map f =
        fun s : Segment α => s.characters true t.indent := by
    funext s
    cases s <;> rfl
  rw [Text.literal?, Text.literal?, Text.isInterpolated_map]
  simp only [Text.map, List.map_map]
  rw [hCharacters]

/- What is read as a literal has no nodes. -/
theorem Text.nodes_of_literal?
    {t : Text α}
    {text : String}
    (hLiteral : t.literal? = some text) :
    t.nodes = [] := by
  rw [Text.literal?] at hLiteral
  split at hLiteral
  · cases hLiteral
  · rename_i hPlain
    rw [Text.nodes, List.flatMap_eq_nil_iff]
    intro s hMember
    cases s with
    | interpolation node =>
        exact absurd (List.any_eq_true.mpr ⟨_, hMember, rfl⟩) hPlain
    | _ => rfl

------------------------------------------------------------
-- Parts of nodes
------------------------------------------------------------

/- A target with something else in place of its node. -/
def Target.map
    (f : α → β) : Target α → Target β
| .bare name => .bare name
| .remote receiver name at' nameSpan =>
    .remote (f receiver) name at' nameSpan
| .anonymous function at' => .anonymous (f function) at'

namespace Node

variable (m : Metadata)

/- The term of a node, and where the node stands. -/
def quoted
    (n : Node) : Quoted :=
  ⟨n.quote m, n.span⟩

/- The term of a pair of nodes. -/
def pairTerm
    (p : Node × Node) : Term :=
  .pair (p.1.quote m) (p.2.quote m)

/- The terms of an element of a list. -/
def elementTerms
    (n : Node) : List Term :=
  match n.form with
  | .keywords pairs => pairs.map (pairTerm m)
  | _ => [n.quote m]

/- The terms of an entry of a map. -/
def entryTerms
    (n : Node) : List Term :=
  match n.form with
  | .keywords pairs => pairs.map (pairTerm m)
  | .binary operator key value _ =>
      if operator = "=>" then [pairTerm m (key, value)]
      else [n.quote m]
  | _ => [n.quote m]

end Node

/- The term of a clause. -/
def Clause.quote
    (m : Metadata)
    (c : Clause Node) : Term :=
  Construct.clause m c.arrow (c.head.map (Node.quote m))
    (c.guard.map (Node.quote m)) (c.body.map (Node.quote m))

/- The term of a body. -/
def Body.quote
    (m : Metadata) : Body Node → Term
| .expressions ns => .block (ns.map (Node.quote m))
| .clauses cs => .list (cs.map (Clause.quote m))

/- The term of a section of a do block. -/
def Section.quote
    (m : Metadata)
    (s : Section Node) : Term :=
  .pair (.atom s.name) (s.body.quote m)

------------------------------------------------------------
-- Equations
------------------------------------------------------------

namespace Node

variable (m : Metadata)

theorem quoteAll_eq
    (ns : List Node) :
    quoteAll m ns = ns.map (quote m) := by
  induction ns with
  | nil => rfl
  | cons n ns ih => rw [quoteAll, ih, List.map_cons]

theorem quoteOption_eq
    (n : Option Node) :
    quoteOption m n = n.map (quoted m) := by
  rcases n with _ | ⟨form, span⟩ <;> rfl

theorem quotePairs_eq
    (ps : List (Node × Node)) :
    quotePairs m ps = ps.map (pairTerm m) := by
  induction ps with
  | nil => rfl
  | cons p ps ih => rw [quotePairs, ih, List.map_cons, pairTerm]

theorem quoteElements_eq
    (ns : List Node) :
    quoteElements m ns = ns.flatMap (elementTerms m) := by
  induction ns with
  | nil => rfl
  | cons n ns ih =>
      rcases n with ⟨form, span⟩
      cases form <;>
        simp [quoteElements, quotePairs_eq, elementTerms, Node.form, ih]

theorem quoteEntries_eq
    (ns : List Node) :
    quoteEntries m ns = ns.flatMap (entryTerms m) := by
  induction ns with
  | nil => rfl
  | cons n ns ih =>
      rcases n with ⟨form, span⟩
      cases form with
      | binary operator key value at' =>
          simp only [quoteEntries, entryTerms, Node.form, ih,
            List.flatMap_cons, pairTerm]
          split <;> rfl
      | _ =>
          simp [quoteEntries, quotePairs_eq, entryTerms, Node.form, ih]

theorem quoteSegments_eq
    (ss : List (Segment Node)) :
    quoteSegments m ss = ss.map (Segment.map (quoted m)) := by
  induction ss with
  | nil => rfl
  | cons s ss ih =>
      rcases s with text | text | blanks | ⟨form, span⟩ <;>
        simp [quoteSegments, Segment.map, quoted, Node.span, ih]

theorem quoteText_eq
    (t : Text Node) :
    quoteText m t = t.map (quoted m) := by
  cases t
  simp [quoteText, Text.map, quoteSegments_eq]

theorem quoteTarget_eq
    (t : Target Node) :
    quoteTarget m t = t.map (quoted m) := by
  rcases t with name | ⟨⟨form, span⟩⟩ | ⟨⟨form, span⟩⟩ <;> rfl

theorem quoteClauses_eq
    (cs : List (Clause Node)) :
    quoteClauses m cs = cs.map (Clause.quote m) := by
  induction cs with
  | nil => rfl
  | cons c cs ih =>
      rcases c with ⟨head, guard, body, arrow⟩
      have hGuard :
          (quoteOption m guard).map Quoted.term =
            guard.map (quote m) := by
        rw [quoteOption_eq, Option.map_map]
        rfl
      rw [quoteClauses, quoteAll_eq, quoteAll_eq, hGuard, ih]
      rfl

theorem quoteSections_eq
    (ss : List (Section Node)) :
    quoteSections m ss = ss.map (Section.quote m) := by
  induction ss with
  | nil => rfl
  | cons s ss ih =>
      rcases s with ⟨name, nodes | clauses⟩
      · rw [quoteSections, quoteAll_eq, ih]
        rfl
      · rw [quoteSections, quoteClauses_eq, ih]
        rfl

/- The arguments of a call, the last one for its do block. -/
def argumentTerms
    (args : List Node)
    (block : Option (DoBlock Node)) : List Term :=
  args.map (quote m) ++
    block.toList.map fun b => .list (b.sections.map (Section.quote m))

theorem quote_call
    (target : Target Node)
    (args : List Node)
    (parentheses : Bool)
    (block : Option (DoBlock Node))
    (span : Span) :
    quote m ⟨.call target args parentheses block, span⟩ =
      Construct.call m span (target.map (quoted m)) parentheses
        (argumentTerms m args block) := by
  rcases block with _ | ⟨sections, blockSpan⟩
  · rw [quote, quoteTarget_eq, quoteAll_eq]
    simp [argumentTerms]
  · rw [quote, quoteTarget_eq, quoteAll_eq, quoteSections_eq]
    rfl

/-
  An operator is quoted with its operands, unless it is a step
  behind a range.
-/
theorem quote_binary_cases
    (operator : String)
    (left right : Node)
    (at' span : Span) :
    (operator = "//" ∧ ∃ first last innerAt leftSpan,
      left = ⟨.binary ".." first last innerAt, leftSpan⟩ ∧
        ∀ m, quote m ⟨.binary operator left right at', span⟩ =
          Construct.range m innerAt (first.quote m) (last.quote m)
            (right.quote m)) ∨
      ∀ m, quote m ⟨.binary operator left right at', span⟩ =
        Construct.operator m at' operator (left.quote m)
          (right.quote m) := by
  rcases left with ⟨form, leftSpan⟩
  cases form with
  | binary inner first last innerAt =>
      by_cases hStep : operator = "//" ∧ inner = ".."
      · left
        refine ⟨hStep.1, first, last, innerAt, leftSpan,
          by rw [hStep.2], ?_⟩
        intro m
        rw [quote, if_pos hStep]
      · right
        intro m
        rw [quote, if_neg hStep]
  | _ =>
      right
      intro m
      rfl

end Node

theorem Document.quote_eq
    (m : Metadata)
    (d : Document) :
    d.quote m = .block (d.expressions.map (Node.quote m)) := by
  rw [Document.quote, Node.quoteAll_eq]

end ElixirReader
