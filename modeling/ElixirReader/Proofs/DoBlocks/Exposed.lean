import ElixirReader.Proofs.Building.Operands

/-
  This file tells what stands open in a tree: what is reached
  through operands, receivers, subjects, the values of keywords
  and the arguments of calls without parentheses, but not through
  brackets, quotes or the words around a block. Where a context
  admits no do blocks, none is left open.

  Key definitions include:
    * `Form.exposed`
    * `Node.Exposes`
    * `Node.openArguments`
    * `Node.ShowsNoBlock`
    * `Node.IsClear`
    * `Node.Suits`

  Main declarations:
    * `Node.showsNoBlock_iff`
    * `sustains_suits`
    * `Extends.suits`
-/

namespace ElixirReader

open Parse

variable {context : Context}

------------------------------------------------------------
-- What stands open
------------------------------------------------------------

/- The nodes below a form that nothing encloses. -/
def Form.exposed : Form ν → List ν
| .alias base _ => base.toList
| .call target arguments parentheses _ =>
    target.nodes ++ if parentheses then [] else arguments
| .unary _ operand => [operand]
| .binary _ left right _ => [left, right]
| .access subject _ => [subject]
| .keywords pairs => pairs.map Prod.snd
| _ => []

namespace Node

/- A node, what stands open below it, and so on. -/
inductive Exposes : Node → Node → Prop where
| self
    (n : Node) :
    Exposes n n
| deeper
    {n d m : Node}
    (hBelow : d ∈ n.form.exposed)
    (hExposes : Exposes d m) :
    Exposes n m

/- Whether a node is a call with a do block. -/
def carriesBlock
    (n : Node) : Bool :=
  match n.form with
  | .call _ _ _ (some _) => true
  | _ => false

/- The arguments of a call that has no parentheses around them. -/
def openArguments
    (n : Node) : List Node :=
  match n.form with
  | .call _ arguments false _ => arguments
  | _ => []

/- Nothing that stands open in a tree carries a do block. -/
def ShowsNoBlock
    (n : Node) : Prop :=
  ∀ m, n.Exposes m → m.carriesBlock = false

/- If a call has no parentheses, its arguments show no do block. -/
def IsClear
    (n : Node) : Prop :=
  ∀ argument ∈ n.openArguments, argument.ShowsNoBlock

theorem showsNoBlock_iff
    {n : Node} :
    n.ShowsNoBlock ↔
      n.carriesBlock = false ∧
        ∀ d ∈ n.form.exposed, d.ShowsNoBlock := by
  constructor
  · intro hShows
    exact ⟨hShows n (.self n), fun d hBelow m hExposes =>
      hShows m (.deeper hBelow hExposes)⟩
  · rintro ⟨hRoot, hBelow⟩ m hExposes
    cases hExposes with
    | self => exact hRoot
    | deeper hMember hExposes => exact hBelow _ hMember m hExposes

/-
  What is shown of a tree in a context. Where no do blocks are
  admitted, none stands open.
-/
structure Suits
    (context : Context)
    (n : Node) : Prop where
  all : n.Throughout IsClear
  shows : context.doBlocks = false → n.ShowsNoBlock

end Node

------------------------------------------------------------
-- Starts of expressions
------------------------------------------------------------

theorem Node.isClear_of_isPlain
    {n : Node}
    (hPlain : n.form.isPlain = true) :
    n.IsClear := by
  rcases n with ⟨f, span⟩
  cases f <;> first
    | exact List.forall_mem_nil _
    | cases hPlain

theorem Node.IsAnew.showsNoBlock
    {n : Node}
    (hAnew : n.IsAnew Node.IsClear) :
    n.ShowsNoBlock := by
  rcases n with ⟨f, span⟩
  have hClosed := hAnew.closed
  apply Node.showsNoBlock_iff.mpr
  cases f with
  | «alias» base segments =>
      cases base with
      | none => exact ⟨rfl, List.forall_mem_nil _⟩
      | some base => cases hClosed
  | _ => first
    | exact ⟨rfl, List.forall_mem_nil _⟩
    | cases hClosed

variable {target : Target Node}
variable {suffix : Suffix}
variable {start : Span}

/- The arguments of a call without parentheses show no do block. -/
theorem Suffix.Fits.isClear
    (hSuffix :
      suffix.Fits Node.IsClear Node.Suits context) :
    (suffix.call target start).IsClear := by
  have hArguments := hSuffix.arguments
  rcases suffix with ⟨arguments, parentheses, doBlock, last⟩
  cases parentheses with
  | true => exact List.forall_mem_nil _
  | false =>
      exact fun argument hMember =>
        (hArguments rfl argument hMember).shows rfl

/- Nor does the call where the context does not admit one. -/
theorem Suffix.Fits.showsNoBlock
    (hSuffix :
      suffix.Fits Node.IsClear Node.Suits context)
    (hContext : context.doBlocks = false)
    (hTarget : ∀ n ∈ target.nodes, n.ShowsNoBlock) :
    (suffix.call target start).ShowsNoBlock := by
  have hArguments := hSuffix.arguments
  have hNone := hSuffix.doBlock hContext
  rcases suffix with ⟨arguments, parentheses, doBlock, last⟩
  obtain rfl : doBlock = none := hNone
  refine Node.showsNoBlock_iff.mpr ⟨rfl, fun d hBelow => ?_⟩
  rcases List.mem_append.mp hBelow with hReceiver | hArgument
  · exact hTarget d hReceiver
  · cases parentheses with
    | true => cases hArgument
    | false => exact (hArguments rfl d hArgument).shows rfl

/- What is shown of trees holds of what expressions start with. -/
theorem sustains_suits :
    Sustains Node.IsClear Node.Suits := by
  constructor
  · exact fun span hPlain => Node.isClear_of_isPlain hPlain
  · exact fun hSuits => hSuits.all
  · intro context n hOpens
    have hChildren :=
      hOpens.allThroughout_children fun _ _ hSuits => hSuits.all
    cases hOpens with
    | anew hAnew => exact ⟨hAnew.all, fun _ => hAnew.showsNoBlock⟩
    | keywords span hPairs =>
        refine ⟨Node.throughout_iff.mpr
          ⟨Node.isClear_of_isPlain rfl, hChildren⟩, fun hContext => ?_⟩
        refine Node.showsNoBlock_iff.mpr ⟨rfl, fun d hBelow => ?_⟩
        obtain ⟨p, hMember, rfl⟩ := List.mem_map.mp hBelow
        exact (hPairs p hMember).2.shows hContext
    | call name start hSuffix =>
        exact ⟨Node.throughout_iff.mpr ⟨hSuffix.isClear, hChildren⟩,
          fun hContext => hSuffix.showsNoBlock hContext
            (List.forall_mem_nil _)⟩
    | unary operator span hOperand =>
        refine ⟨Node.throughout_iff.mpr
          ⟨Node.isClear_of_isPlain rfl, hChildren⟩, fun hContext => ?_⟩
        exact Node.showsNoBlock_iff.mpr ⟨rfl,
          List.forall_mem_singleton.mpr (hOperand.shows hContext)⟩

------------------------------------------------------------
-- Larger trees
------------------------------------------------------------

/- What stands open below an alias is what stood before its dot. -/
theorem showsNoBlock_extendAlias
    {receiver : Node}
    (segment : Lexeme)
    (hReceiver : receiver.ShowsNoBlock) :
    (extendAlias receiver segment).ShowsNoBlock := by
  rcases receiver with ⟨form, span⟩
  apply Node.showsNoBlock_iff.mpr
  cases form with
  | «alias» base segments =>
      exact ⟨rfl, (Node.showsNoBlock_iff.mp hReceiver).2⟩
  | _ => exact ⟨rfl, List.forall_mem_singleton.mpr hReceiver⟩

/- A suffix takes the tree before it as it is. -/
theorem Extends.suits
    {node larger : Node}
    (hExtends : Extends Node.IsClear Node.Suits context
      node larger)
    (hNode : node.Suits context) :
    larger.Suits context := by
  have hChildren := hExtends.allThroughout_children hNode.all
  cases hExtends with
  | anew hAnew => exact ⟨hAnew.all, fun _ => hAnew.showsNoBlock⟩
  | segment segment =>
      exact ⟨sustains_suits.throughout_extendAlias segment hNode.all,
        fun hContext => showsNoBlock_extendAlias segment
          (hNode.shows hContext)⟩
  | call start hTarget hSuffix =>
      refine ⟨Node.throughout_iff.mpr ⟨hSuffix.isClear, hChildren⟩,
        fun hContext => hSuffix.showsNoBlock hContext ?_⟩
      rw [hTarget]
      exact List.forall_mem_singleton.mpr (hNode.shows hContext)
  | access span hKey =>
      refine ⟨Node.throughout_iff.mpr
        ⟨List.forall_mem_nil _, hChildren⟩, fun hContext => ?_⟩
      exact Node.showsNoBlock_iff.mpr ⟨rfl,
        List.forall_mem_singleton.mpr (hNode.shows hContext)⟩

theorem suits_binary
    {left right : Node}
    (name : String)
    (at' span : Span)
    (hLeft : left.Suits context)
    (hRight : right.Suits context) :
    Node.Suits context ⟨.binary name left right at', span⟩ := by
  refine ⟨Node.throughout_iff.mpr ⟨List.forall_mem_nil _, ?_⟩,
    fun hContext => ?_⟩
  · exact List.forall_mem_cons.mpr
      ⟨hLeft.all, List.forall_mem_singleton.mpr hRight.all⟩
  · exact Node.showsNoBlock_iff.mpr ⟨rfl, List.forall_mem_cons.mpr
      ⟨hLeft.shows hContext,
        List.forall_mem_singleton.mpr (hRight.shows hContext)⟩⟩

end ElixirReader
