import ElixirReader.Analysis.Basic
import ElixirReader.Proofs.Quote.Congruence

/-
  This file shows that quoting loses no error: read from left to
  right, the messages in a term are those of the errors in the
  tree, parents before children. Each construct tells what the
  terms that it is made of tell, in order.

  Key definitions include:
    * `Term.errorMessage?`
    * `Term.errorMessages`
    * `Node.errorMessage?`
    * `Node.isNamed`
    * `Node.isPrefixNamed`

  Main declarations:
    * `Construct.errorMessages_form`
    * `Node.errorMessages_quote_eq`
    * `errorMessages_quote`
    * `errorMessages_quote_prefix`
-/

namespace ElixirReader

------------------------------------------------------------
-- Messages
------------------------------------------------------------

/- What stands for an error is named so. -/
def errorName : String :=
  "__error__"

namespace Term

/- The message of a call that stands for an error. -/
def errorMessage? : Term → Option String
| .tuple [.atom name, .list _, .list [.binary message]] =>
    if name = errorName then some message else none
| _ => none

/- The messages of all errors in a term, from left to right. -/
mutual
def errorMessages : Term → List String
| .tuple items =>
    (errorMessage? (.tuple items)).toList ++ allErrorMessages items
| .list items => allErrorMessages items
| .atom _ => []
| .integer _ => []
| .float _ => []
| .binary _ => []
termination_by structural t => t

def allErrorMessages : List Term → List String
| [] => []
| t :: ts => t.errorMessages ++ allErrorMessages ts
termination_by structural ts => ts
end

theorem allErrorMessages_eq
    (ts : List Term) :
    allErrorMessages ts = ts.flatMap errorMessages := by
  induction ts with
  | nil => rfl
  | cons t ts ih => rw [allErrorMessages, ih, List.flatMap_cons]

@[simp] theorem errorMessages_atom
    (name : String) :
    (Term.atom name).errorMessages = [] :=
  rfl

@[simp] theorem errorMessages_nil :
    Term.nil.errorMessages = [] :=
  rfl

@[simp] theorem errorMessages_binary
    (text : String) :
    (Term.binary text).errorMessages = [] :=
  rfl

@[simp] theorem errorMessages_list
    (ts : List Term) :
    (Term.list ts).errorMessages = ts.flatMap errorMessages :=
  allErrorMessages_eq ts

@[simp] theorem errorMessages_pair
    (t u : Term) :
    (pair t u).errorMessages = t.errorMessages ++ u.errorMessages := by
  simp [pair, errorMessages, errorMessage?, allErrorMessages]

@[simp] theorem errorMessages_codePoints
    (text : String) :
    (codePoints text).errorMessages = [] := by
  rw [codePoints, errorMessages_list, List.flatMap_eq_nil_iff]
  intro t hMember
  rcases List.mem_map.mp hMember with ⟨c, _, rfl⟩
  rfl

end Term

open Term

variable {m : Metadata}
variable {span : Span}
variable {name : String}
variable {args : List Term}

/- What quoted calls say about themselves tells no error. -/
theorem IsCallMetadata.errorMessages_eq
    {metadata : Metadata → Term}
    (hMetadata : IsCallMetadata metadata)
    (m : Metadata) :
    (metadata m).errorMessages = [] := by
  cases hMetadata <;> cases m <;> rfl

/- A call that is no error tells what its name and arguments do. -/
theorem errorMessages_applied
    {metadata : Metadata → Term}
    {callee : Term}
    (hMetadata : IsCallMetadata metadata)
    (hOther : callee ≠ .atom errorName ∨ args.length ≠ 1) :
    (call callee (metadata m) (.list args)).errorMessages =
      callee.errorMessages ++ args.flatMap errorMessages := by
  have hNone :
      errorMessage? (call callee (metadata m) (.list args)) = none := by
    unfold call errorMessage?
    split
    · rename_i hItems
      injection hItems with hItems
      injection hItems with hName hItems
      injection hItems with _ hItems
      injection hItems with hArgs _
      injection hArgs with hArgs
      subst hName hArgs
      apply if_neg
      rintro rfl
      exact hOther.elim (absurd rfl) (absurd rfl)
    · rfl
  change (errorMessage? (call callee (metadata m) _)).toList ++
    allErrorMessages _ = _
  rw [hNone, allErrorMessages_eq]
  simp [hMetadata.errorMessages_eq]

------------------------------------------------------------
-- Constructs
------------------------------------------------------------

namespace Construct

theorem errorMessages_form
    (hOther : name ≠ errorName ∨ args.length ≠ 1) :
    (form m span name args).errorMessages =
      args.flatMap errorMessages :=
  errorMessages_applied (.place span)
    (hOther.imp_left fun hName hAtom => hName (Term.atom.inj hAtom))

theorem errorMessages_dot
    (t : Term) :
    (dot m span [t, .atom name]).errorMessages = t.errorMessages := by
  rw [dot, errorMessages_form (.inl (by decide))]
  simp

theorem errorMessages_remote
    (module : Term) :
    (remote m span module name args).errorMessages =
      module.errorMessages ++ args.flatMap errorMessages := by
  have hCall :
      (Term.call (dot m span [module, .atom name]) (m.term span)
          (.list args)).errorMessages =
        (dot m span [module, .atom name]).errorMessages ++
          args.flatMap errorMessages :=
    errorMessages_applied (.place span) (.inl Term.noConfusion)
  rw [errorMessages_dot] at hCall
  exact hCall

theorem errorMessages_operator
    (t u : Term) :
    (operator m span name t u).errorMessages =
      t.errorMessages ++ u.errorMessages := by
  have hOperands (name : String) :
      (form m span name [t, u]).errorMessages =
        t.errorMessages ++ u.errorMessages := by
    rw [errorMessages_form (.inr (by simp))]
    simp
  unfold operator
  split
  · rw [errorMessages_form (.inl (by decide))]
    simpa using hOperands "in"
  · exact hOperands name

theorem errorMessages_tuple :
    (tuple m span args).errorMessages =
      args.flatMap errorMessages := by
  unfold tuple
  split
  · simp
  · exact errorMessages_form (.inl (by decide))

theorem errorMessages_map
    (update : Option Quoted) :
    (map m span update args).errorMessages =
      (update.toList.flatMap fun q => q.term.errorMessages) ++
        args.flatMap errorMessages := by
  cases update with
  | none => exact errorMessages_form (.inl (by decide))
  | some base =>
      rw [map, errorMessages_form (.inl (by decide))]
      simp [errorMessages_form (.inl (by decide : "|" ≠ errorName))]

theorem errorMessages_block :
    (Term.block args).errorMessages =
      args.flatMap errorMessages := by
  rcases args with _ | ⟨t, _ | ⟨u, ts⟩⟩
  · rfl
  · simp [Term.block]
  · exact errorMessages_applied (m := .none) .nothing
      (.inl (by decide))

end Construct

------------------------------------------------------------
-- Nodes
------------------------------------------------------------

namespace Node

/- The messages in the term of a node. -/
def told
    (m : Metadata)
    (n : Node) : List String :=
  (n.quote m).errorMessages

/- The messages in the terms of nodes, one node after another. -/
theorem flatMap_map_quote
    (m : Metadata)
    (ns : List Node) :
    (ns.map (quote m)).flatMap errorMessages = ns.flatMap (told m) := by
  rw [List.flatMap_map]
  rfl

theorem flatMap_map_pairTerm
    (m : Metadata)
    (ps : List (Node × Node)) :
    (ps.map (pairTerm m)).flatMap errorMessages =
      (ps.flatMap fun (k, v) => [k, v]).flatMap (told m) := by
  rw [List.flatMap_map, List.flatMap_assoc]
  congr 1
  funext p
  simp [pairTerm, told]

theorem flatMap_flatMap_elementTerms
    (m : Metadata)
    (ns : List Node) :
    (ns.flatMap (elementTerms m)).flatMap errorMessages =
      ns.flatMap (told m) := by
  rw [List.flatMap_assoc]
  congr 1
  funext n
  rcases n with ⟨form, span⟩
  cases form with
  | keywords pairs =>
      simp [elementTerms, Node.form, told, quote, quotePairs_eq]
  | _ => simp [elementTerms, Node.form, told]

/- Two operands tell what they tell, however they are joined. -/
theorem told_binary
    (operator : String)
    (left right : Node)
    (at' span : Span) :
    told m ⟨.binary operator left right at', span⟩ =
      told m left ++ told m right := by
  have hJoined (name : String) (l r : Node) :
      (Construct.operator m at' name (l.quote m)
        (r.quote m)).errorMessages = told m l ++ told m r :=
    Construct.errorMessages_operator _ _
  rcases quote_binary_cases operator left right at' span with
    ⟨rfl, first, last, innerAt, leftSpan, rfl, hQuote⟩ | hQuote
  · have hRange :
        told m ⟨.binary ".." first last innerAt, leftSpan⟩ =
          told m first ++ told m last := by
      rcases quote_binary_cases ".." first last innerAt leftSpan with
        ⟨hStep, _⟩ | hRange
      · exact absurd hStep (by decide)
      · rw [told, hRange]
        exact Construct.errorMessages_operator _ _
    rw [hRange, told, hQuote, Construct.range,
      Construct.errorMessages_form (.inl (by decide))]
    simp [told]
  · rw [told, hQuote]
    exact hJoined operator left right

theorem flatMap_flatMap_entryTerms
    (ns : List Node) :
    (ns.flatMap (entryTerms m)).flatMap errorMessages =
      ns.flatMap (told m) := by
  rw [List.flatMap_assoc]
  congr 1
  funext n
  rcases n with ⟨form, span⟩
  cases form with
  | keywords pairs =>
      simp [entryTerms, Node.form, told, quote, quotePairs_eq]
  | binary operator key value at' =>
      simp only [entryTerms, Node.form]
      split
      · rw [told_binary]
        simp [pairTerm, told]
      · simp [told]
  | _ => simp [entryTerms, Node.form, told]

end Node

------------------------------------------------------------
-- Clauses
------------------------------------------------------------

theorem Clause.errorMessages_quoted
    (c : Clause Node) :
    (c.quote m).errorMessages = c.nodes.flatMap (Node.told m) := by
  rcases c with ⟨head, guard, body, arrow⟩
  have hHead :
      (Construct.clauseHead m arrow (head.map (Node.quote m))
          (guard.map (Node.quote m))).flatMap errorMessages =
        (head ++ guard.toList).flatMap (Node.told m) := by
    cases guard with
    | none =>
        simpa [Construct.clauseHead] using Node.flatMap_map_quote m head
    | some g =>
        have hWhen :
            (Construct.form m arrow "when"
                (head.map (Node.quote m) ++
                  [g.quote m])).errorMessages =
              (head.map (Node.quote m) ++ [g.quote m]).flatMap
                errorMessages :=
          Construct.errorMessages_form (.inl (by decide))
        simp [Construct.clauseHead, hWhen, Node.flatMap_map_quote,
          Node.told]
  have hBody :
      (Construct.clauseBody (body.map (Node.quote m))).errorMessages =
        body.flatMap (Node.told m) := by
    rw [← Node.flatMap_map_quote]
    cases body with
    | nil => rfl
    | cons n ns => exact Construct.errorMessages_block
  rw [Clause.quote, Construct.clause,
    Construct.errorMessages_form (.inl (by decide))]
  simp only [List.flatMap_cons, errorMessages_list, hHead, hBody,
    List.flatMap_nil, List.append_nil, Clause.nodes,
    List.flatMap_append]

theorem flatMap_map_clause
    (cs : List (Clause Node)) :
    (cs.map (Clause.quote m)).flatMap errorMessages =
      (cs.flatMap Clause.nodes).flatMap (Node.told m) := by
  rw [List.flatMap_map, List.flatMap_assoc]
  congr 1
  funext c
  exact c.errorMessages_quoted

theorem flatMap_map_section
    (ss : List (Section Node)) :
    (ss.map (Section.quote m)).flatMap errorMessages =
      (ss.flatMap Section.nodes).flatMap (Node.told m) := by
  rw [List.flatMap_map, List.flatMap_assoc]
  congr 1
  funext s
  rcases s with ⟨name, ns | cs⟩
  · rw [Section.quote, errorMessages_pair]
    simp [Body.quote, Construct.errorMessages_block,
      Node.flatMap_map_quote, Section.nodes, Body.nodes]
  · rw [Section.quote, errorMessages_pair]
    simp [Body.quote, flatMap_map_clause, Section.nodes, Body.nodes]

------------------------------------------------------------
-- Quoted literals
------------------------------------------------------------

theorem errorMessages_conversion
    (n : Node) :
    (Construct.conversion m (n.quoted m)).errorMessages = n.told m := by
  rw [Construct.conversion, Construct.errorMessages_remote]
  simp [moduleAtom, Node.quoted, Node.told]

theorem errorMessages_binaryPart
    (p : Part Node) :
    (Construct.binaryPart m (p.map (Node.quoted m))).errorMessages =
      p.nodes.flatMap (Node.told m) := by
  cases p with
  | literal text => rfl
  | interpolation n =>
      have hBinary :
          (call (.atom "binary") (m.term n.span) .nil).errorMessages =
            [] := by
        cases m <;> rfl
      have hParts :
          (Construct.conversion m (n.quoted m)).errorMessages ++
              (call (.atom "binary") (m.term n.span)
                .nil).errorMessages =
            n.told m := by
        rw [errorMessages_conversion, hBinary, List.append_nil]
      simp only [Part.map, Construct.binaryPart]
      rw [Construct.errorMessages_form (.inl (by decide))]
      simpa [Part.nodes, Node.quoted] using hParts

theorem errorMessages_charlistPart
    (p : Part Node) :
    (Construct.charlistPart m (p.map (Node.quoted m))).errorMessages =
      p.nodes.flatMap (Node.told m) := by
  cases p with
  | literal text => rfl
  | interpolation n =>
      change (Construct.conversion m (n.quoted m)).errorMessages = _
      rw [errorMessages_conversion]
      simp [Part.nodes]

/- Parts that each tell what their nodes tell. -/
theorem flatMap_parts
    {f : Part Quoted → Term}
    (decode : Bool)
    (t : Text Node)
    (hPart : ∀ p : Part Node,
      (f (p.map (Node.quoted m))).errorMessages =
        p.nodes.flatMap (Node.told m)) :
    (((t.map (Node.quoted m)).parts decode).map f).flatMap
        errorMessages =
      t.nodes.flatMap (Node.told m) := by
  rw [Text.parts_map, List.map_map, List.flatMap_map,
    ← t.nodes_parts decode, List.flatMap_assoc]
  congr 1
  funext p
  exact hPart p

theorem errorMessages_binaryOf
    (decode : Bool)
    (t : Text Node) :
    (Construct.binary m span decode
        (t.map (Node.quoted m))).errorMessages =
      t.nodes.flatMap (Node.told m) := by
  rw [Construct.binary,
    Construct.errorMessages_form (.inl (by decide)),
    flatMap_parts decode t errorMessages_binaryPart]

theorem errorMessages_textOf
    (t : Text Node) :
    (Construct.text m span (t.map (Node.quoted m))).errorMessages =
      t.nodes.flatMap (Node.told m) := by
  simp only [Construct.text, Construct.string, Construct.charlist,
    Text.literal?_map, Text.map_kind]
  split <;> split
  · rename_i hLiteral
    rw [Text.nodes_of_literal? hLiteral]
    rfl
  · exact errorMessages_binaryOf true t
  · rename_i hLiteral
    rw [Text.nodes_of_literal? hLiteral]
    simp
  · rw [Construct.errorMessages_remote]
    simp [moduleAtom, flatMap_parts true t errorMessages_charlistPart]

theorem errorMessages_quotedAtomOf
    (t : Text Node) :
    (Construct.quotedAtom m span
        (t.map (Node.quoted m))).errorMessages =
      t.nodes.flatMap (Node.told m) := by
  simp only [Construct.quotedAtom, Text.literal?_map]
  split
  · rename_i hLiteral
    rw [Text.nodes_of_literal? hLiteral]
    rfl
  · rw [Construct.errorMessages_remote]
    simp [errorMessages_binaryOf]

theorem errorMessages_sigilOf
    (modifiers : String)
    (t : Text Node) :
    (Construct.sigil m span name (t.map (Node.quoted m))
        modifiers).errorMessages =
      t.nodes.flatMap (Node.told m) := by
  have hName : "sigil_" ++ name ≠ errorName := by
    intro hEq
    have hLists := congrArg String.toList hEq
    rw [String.toList_append] at hLists
    have hHead : some 's' = some '_' := congrArg List.head? hLists
    exact absurd hHead (by decide)
  rw [Construct.sigil, Construct.errorMessages_form (.inl hName)]
  simp [errorMessages_binaryOf]

------------------------------------------------------------
-- Trees
------------------------------------------------------------

namespace Node

/- The message of a node that is an error. -/
def errorMessage?
    (n : Node) : Option String :=
  match n.form with
  | .error message => some message
  | _ => none

/- Whether a node is a name, or calls a function by its name. -/
def isNamed
    (name : String)
    (n : Node) : Bool :=
  match n.form with
  | .identifier other => other == name
  | .call (.bare other) _ _ _ => other == name
  | _ => false

/- Whether a node is an operator by that name with one operand. -/
def isPrefixNamed
    (name : String)
    (n : Node) : Bool :=
  match n.form with
  | .unary other _ => other == name
  | _ => false

/- A call tells what its target, arguments and block tell. -/
theorem told_call
    (target : Target Node)
    (args : List Node)
    (parentheses : Bool)
    (block : Option (DoBlock Node))
    (hNamed :
      isNamed errorName ⟨.call target args parentheses block, span⟩ =
        false) :
    told m ⟨.call target args parentheses block, span⟩ =
      (Form.nodes (.call target args parentheses block)).flatMap
        (told m) := by
  have hArgs :
      (argumentTerms m args block).flatMap errorMessages =
        args.flatMap (told m) ++
          (block.toList.flatMap DoBlock.nodes).flatMap (told m) := by
    rw [argumentTerms, List.flatMap_append, flatMap_map_quote]
    cases block with
    | none => rfl
    | some b => simp [flatMap_map_section, DoBlock.nodes]
  rw [told, quote_call]
  cases target with
  | bare name =>
      have hOther : name ≠ errorName := by
        simpa [isNamed, Node.form] using hNamed
      rw [Target.map, Construct.call,
        Construct.errorMessages_form (.inl hOther), hArgs]
      simp [Form.nodes, Target.nodes]
  | remote receiver name at' nameSpan =>
      have hCall (metadata : Metadata → Term)
          (hMetadata : IsCallMetadata metadata) :
          (Term.call (Construct.dot m at' [receiver.quote m, .atom name])
              (metadata m)
              (.list (argumentTerms m args block))).errorMessages =
            (Form.nodes (.call (.remote receiver name at' nameSpan) args
              parentheses block)).flatMap (told m) := by
        rw [errorMessages_applied hMetadata (.inl Term.noConfusion),
          Construct.errorMessages_dot, hArgs]
        simp [Form.nodes, Target.nodes, told]
      simp only [Target.map, Construct.call, Construct.remoteMetadata]
      split
      · exact hCall _ (.field nameSpan)
      · exact hCall _ (.place nameSpan)
  | anonymous function at' =>
      rw [Target.map, Construct.call,
        errorMessages_applied (.place at') (.inl Term.noConfusion),
        hArgs, Construct.dot,
        Construct.errorMessages_form (.inl (by decide))]
      simp [Form.nodes, Target.nodes, told, quoted]

theorem errorMessages_mapOf
    (entries : Entries Node) :
    (Construct.map m span (entries.update.map (quoted m))
        (entries.entries.flatMap (entryTerms m))).errorMessages =
      entries.nodes.flatMap (told m) := by
  rcases entries with ⟨update, entries⟩
  rw [Construct.errorMessages_map, flatMap_flatMap_entryTerms]
  cases update <;> simp [Entries.nodes, quoted, told]

/- A node tells its own message, and then what its children tell. -/
theorem told_eq
    {n : Node}
    (hNamed : n.isNamed errorName = false)
    (hPrefix : n.isPrefixNamed errorName = false) :
    n.told m =
      n.errorMessage?.toList ++ n.children.flatMap (told m) := by
  rcases n with ⟨f, span⟩
  cases f with
  | integer value => rfl
  | float value => rfl
  | char code => rfl
  | boolean value => rfl
  | nil => rfl
  | atom name => rfl
  | quotedAtom t =>
      simp only [told, quote, quoteText_eq]
      exact errorMessages_quotedAtomOf t
  | text t =>
      simp only [told, quote, quoteText_eq]
      exact errorMessages_textOf t
  | sigil name t modifiers =>
      simp only [told, quote, quoteText_eq]
      exact errorMessages_sigilOf modifiers t
  | identifier name => cases m <;> rfl
  | «alias» base segments =>
      have hSegments :
          (segments.map Term.atom).flatMap errorMessages = [] := by
        simp [List.flatMap_map]
      simp only [told, quote, quoteOption_eq]
      rw [Construct.errorMessages_form (.inl (by decide)),
        List.flatMap_append, hSegments]
      cases base <;>
        simp [children, Node.form, Form.nodes, errorMessage?, quoted,
          told]
  | call target args parentheses block =>
      exact told_call target args parentheses block hNamed
  | unary operator operand =>
      have hOther : operator ≠ errorName := by
        simpa [isPrefixNamed, Node.form] using hPrefix
      rw [told, quote, Construct.errorMessages_form (.inl hOther)]
      simp [children, Node.form, Form.nodes, errorMessage?, told]
  | binary operator left right at' =>
      rw [told_binary]
      simp [children, Node.form, Form.nodes, errorMessage?]
  | access subject key =>
      rw [told, quote, Construct.access, Construct.errorMessages_remote]
      simp [children, Node.form, Form.nodes, errorMessage?, moduleAtom,
        told]
  | list items =>
      simp only [told, quote, quoteElements_eq, errorMessages_list]
      exact flatMap_flatMap_elementTerms m items
  | keywords pairs =>
      simp only [told, quote, quotePairs_eq, errorMessages_list]
      exact flatMap_map_pairTerm m pairs
  | tuple items =>
      simp only [told, quote, quoteAll_eq, Construct.errorMessages_tuple]
      exact flatMap_map_quote m items
  | map entries =>
      simp only [told, quote, quoteOption_eq, quoteEntries_eq]
      exact errorMessages_mapOf entries
  | struct name entries =>
      simp only [told, quote, quoteOption_eq, quoteEntries_eq]
      rw [Construct.errorMessages_form (.inl (by decide))]
      simp only [List.flatMap_cons, errorMessages_mapOf,
        List.flatMap_nil, List.append_nil]
      rfl
  | bitstring items =>
      simp only [told, quote, quoteAll_eq]
      rw [Construct.errorMessages_form (.inl (by decide))]
      exact flatMap_map_quote m items
  | block nodes =>
      simp only [told, quote, quoteAll_eq, Construct.errorMessages_block]
      exact flatMap_map_quote m nodes
  | fn clauses =>
      simp only [told, quote, quoteClauses_eq]
      rw [Construct.errorMessages_form (.inl (by decide))]
      exact flatMap_map_clause clauses
  | error message =>
      rw [told, quote]
      cases m <;> rfl

/- Error nodes are those that have a message. -/
theorem isError_eq
    (n : Node) :
    n.isError = n.errorMessage?.isSome := by
  rcases n with ⟨f, span⟩
  cases f <;> rfl

end Node

/-
  The messages of the errors in a term are those of the errors in
  the tree that was quoted, in order, if nothing else in the tree
  is named like what stands for an error. So the tree holds an
  error whenever the term does.
-/
theorem errorMessages_quote
    (m : Metadata)
    (n : Node)
    (hNamed : ∀ d ∈ n.preorder, d.isNamed errorName = false)
    (hPrefix : ∀ d ∈ n.preorder, d.isPrefixNamed errorName = false) :
    (n.quote m).errorMessages =
        n.preorder.filterMap Node.errorMessage? ∧
      (n.containsError = true ↔ (n.quote m).errorMessages ≠ []) := by
  have hMessages :
      n.told m = n.preorder.filterMap Node.errorMessage? := by
    induction n using Node.induction_below with
    | hStep n ih =>
        have hBelow : ∀ c ∈ n.children, ∀ d ∈ c.preorder,
            d ∈ n.preorder := by
          intro c hChild d hMember
          rw [n.preorder_eq]
          exact List.mem_cons_of_mem n
            (List.mem_flatMap.mpr ⟨c, hChild, hMember⟩)
        have hSelf : n ∈ n.preorder := by
          rw [n.preorder_eq]
          exact List.mem_cons_self
        have hChildren :
            n.children.flatMap (Node.told m) =
              n.children.flatMap fun c =>
                c.preorder.filterMap Node.errorMessage? :=
          List.flatMap_congr fun c hChild => (ih c hChild).1
            (fun d hMember => hNamed d (hBelow c hChild d hMember))
            (fun d hMember => hPrefix d (hBelow c hChild d hMember))
        rw [Node.told_eq (hNamed n hSelf) (hPrefix n hSelf), hChildren,
          n.preorder_eq, List.filterMap_cons, List.filterMap_flatMap]
        cases n.errorMessage? <;> rfl
  refine ⟨hMessages, ?_⟩
  change _ ↔ n.told m ≠ []
  rw [hMessages, Node.containsError, List.any_eq_true, ne_eq,
    List.filterMap_eq_nil_iff]
  simp only [Node.isError_eq, not_forall, Option.isSome_iff_ne_none,
    exists_prop]

/- Two errors below a map are told in order. -/
theorem errorMessages_quote_map :
    ∃ n ∈ (parse (tokenize "%\x7ba | (1 2) => -\x7d").1).1.expressions,
      (∀ d ∈ n.preorder, d.isNamed errorName = false) ∧
        (∀ d ∈ n.preorder, d.isPrefixNamed errorName = false) ∧
        (n.quote .line).errorMessages =
          n.preorder.filterMap Node.errorMessage? ∧
        n.containsError = true ∧
        (n.quote .line).errorMessages ≠ [] := by
  have hTree :
      (parse (tokenize "%\x7ba | (1 2) => -\x7d").1).1.expressions.any
        (fun n => n.containsError && n.preorder.all fun d =>
          !d.isNamed errorName && !d.isPrefixNamed errorName) =
        true := by
    decide +kernel
  rcases List.any_eq_true.mp hTree with ⟨n, hRoot, hHolds⟩
  rw [Bool.and_eq_true, List.all_eq_true] at hHolds
  have hNamed : ∀ d ∈ n.preorder, d.isNamed errorName = false := by
    intro d hMember
    simpa using (Bool.and_eq_true_iff.mp (hHolds.2 d hMember)).1
  have hPrefix :
      ∀ d ∈ n.preorder, d.isPrefixNamed errorName = false := by
    intro d hMember
    simpa using (Bool.and_eq_true_iff.mp (hHolds.2 d hMember)).2
  have hMessages := errorMessages_quote .line n hNamed hPrefix
  exact ⟨n, hRoot, hNamed, hPrefix, hMessages.1, hHolds.1,
    hMessages.2.mp hHolds.1⟩

/-
  A prefix operator named like what stands for an error is told
  as one, though there is none in the tree.
-/
theorem errorMessages_quote_prefix :
    (∀ d ∈ Node.preorder
        ⟨.unary errorName
          ⟨.text ⟨.string, false, 0, [.fragment "m"]⟩, ⟨1, 4, 1, 2⟩⟩,
          ⟨0, 4, 1, 1⟩⟩,
      d.isNamed errorName = false ∧ d.isError = false) ∧
      (Node.quote .none
        ⟨.unary errorName
          ⟨.text ⟨.string, false, 0, [.fragment "m"]⟩, ⟨1, 4, 1, 2⟩⟩,
          ⟨0, 4, 1, 1⟩⟩).errorMessages = ["m"] := by
  refine ⟨?_, rfl⟩
  intro d hMember
  have hNodes :
      d = ⟨.unary errorName
          ⟨.text ⟨.string, false, 0, [.fragment "m"]⟩, ⟨1, 4, 1, 2⟩⟩,
          ⟨0, 4, 1, 1⟩⟩ ∨
        d = ⟨.text ⟨.string, false, 0, [.fragment "m"]⟩,
          ⟨1, 4, 1, 2⟩⟩ := by
    simpa [Node.preorder, Node.ofForm, Node.ofText,
      Node.ofSegments] using hMember
  rcases hNodes with rfl | rfl <;> exact ⟨rfl, rfl⟩

end ElixirReader
