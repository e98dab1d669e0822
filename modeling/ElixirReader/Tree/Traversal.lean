import ElixirReader.Tree.Basic

/-
  This file defines the nodes right below a node, all nodes of
  a tree from the root down, and which trees hold errors.

  Key definitions include:
    * `Form.nodes`
    * `Node.children`
    * `Node.preorder`
    * `Node.isError`
    * `Node.containsError`
-/

namespace ElixirReader

------------------------------------------------------------
-- Nodes of a form
------------------------------------------------------------

def Segment.nodes : Segment ν → List ν
| .interpolation n => [n]
| _ => []

def Text.nodes
    (t : Text ν) : List ν :=
  t.segments.flatMap Segment.nodes

def Clause.nodes
    (c : Clause ν) : List ν :=
  c.head ++ c.guard.toList ++ c.body

def Body.nodes : Body ν → List ν
| .expressions ns => ns
| .clauses cs => cs.flatMap Clause.nodes

def Section.nodes
    (s : Section ν) : List ν :=
  s.body.nodes

def DoBlock.nodes
    (b : DoBlock ν) : List ν :=
  b.sections.flatMap Section.nodes

def Target.nodes : Target ν → List ν
| .bare _ => []
| .remote receiver _ _ _ => [receiver]
| .anonymous function _ => [function]

def Entries.nodes
    (e : Entries ν) : List ν :=
  e.update.toList ++ e.entries

/- The nodes right below a form, in the order of the source. -/
def Form.nodes : Form ν → List ν
| .quotedAtom t => t.nodes
| .text t => t.nodes
| .sigil _ t _ => t.nodes
| .alias base _ => base.toList
| .call target arguments _ doBlock =>
    target.nodes ++ arguments ++ doBlock.toList.flatMap DoBlock.nodes
| .unary _ operand => [operand]
| .binary _ left right _ => [left, right]
| .access subject key => [subject, key]
| .list items => items
| .keywords pairs => pairs.flatMap fun (k, v) => [k, v]
| .tuple items => items
| .map entries => entries.nodes
| .struct name entries => name :: entries.nodes
| .bitstring items => items
| .block nodes => nodes
| .fn clauses => clauses.flatMap Clause.nodes
| .integer _ => []
| .float _ => []
| .char _ => []
| .boolean _ => []
| .nil => []
| .atom _ => []
| .identifier _ => []
| .error _ => []

namespace Node

/- The nodes right below a node. -/
def children
    (n : Node) : List Node :=
  n.form.nodes

/- Whether a node stands in place of what could not be read. -/
def isError
    (n : Node) : Bool :=
  match n.form with
  | .error _ => true
  | _ => false

------------------------------------------------------------
-- All nodes of a tree
------------------------------------------------------------

/-
  A node and all nodes below it: parents before children, and
  children in order.
-/
mutual
def preorder : Node → List Node
| ⟨f, s⟩ => ⟨f, s⟩ :: ofForm f
termination_by structural n => n

def ofForm : Form Node → List Node
| .quotedAtom t => ofText t
| .text t => ofText t
| .sigil _ t _ => ofText t
| .alias base _ => ofOption base
| .call target args _ none => ofTarget target ++ ofNodes args
| .call target args _ (some ⟨sections, _⟩) =>
    ofTarget target ++ ofNodes args ++ ofSections sections
| .unary _ n => n.preorder
| .binary _ l r _ => l.preorder ++ r.preorder
| .access n k => n.preorder ++ k.preorder
| .list ns => ofNodes ns
| .keywords ps => ofPairs ps
| .tuple ns => ofNodes ns
| .map es => ofEntries es
| .struct n es => n.preorder ++ ofEntries es
| .bitstring ns => ofNodes ns
| .block ns => ofNodes ns
| .fn cs => ofClauses cs
| .integer _ => []
| .float _ => []
| .char _ => []
| .boolean _ => []
| .nil => []
| .atom _ => []
| .identifier _ => []
| .error _ => []
termination_by structural f => f

def ofOption : Option Node → List Node
| none => []
| some n => n.preorder
termination_by structural n => n

def ofNodes : List Node → List Node
| [] => []
| n :: ns => n.preorder ++ ofNodes ns
termination_by structural ns => ns

def ofPairs : List (Node × Node) → List Node
| [] => []
| (k, v) :: ps => k.preorder ++ v.preorder ++ ofPairs ps
termination_by structural ps => ps

def ofText : Text Node → List Node
| ⟨_, _, _, segments⟩ => ofSegments segments
termination_by structural t => t

def ofSegments : List (Segment Node) → List Node
| [] => []
| .interpolation n :: ss => n.preorder ++ ofSegments ss
| .fragment _ :: ss => ofSegments ss
| .escape _ :: ss => ofSegments ss
| .indent _ :: ss => ofSegments ss
termination_by structural ss => ss

def ofTarget : Target Node → List Node
| .bare _ => []
| .remote r _ _ _ => r.preorder
| .anonymous f _ => f.preorder
termination_by structural t => t

def ofEntries : Entries Node → List Node
| ⟨update, entries⟩ => ofOption update ++ ofNodes entries
termination_by structural e => e

def ofClauses : List (Clause Node) → List Node
| [] => []
| ⟨head, guard, body, _⟩ :: cs =>
    ofNodes head ++ ofOption guard ++ ofNodes body ++ ofClauses cs
termination_by structural cs => cs

def ofSections : List (Section Node) → List Node
| [] => []
| ⟨_, .expressions ns⟩ :: ss => ofNodes ns ++ ofSections ss
| ⟨_, .clauses cs⟩ :: ss => ofClauses cs ++ ofSections ss
termination_by structural ss => ss
end

------------------------------------------------------------
-- The order of the nodes
------------------------------------------------------------

theorem ofNodes_eq
    (ns : List Node) :
    ofNodes ns = ns.flatMap preorder := by
  induction ns with
  | nil => rfl
  | cons n ns ih => simp [ofNodes, ih]

theorem ofOption_eq
    (n : Option Node) :
    ofOption n = n.toList.flatMap preorder := by
  cases n <;> simp [ofOption]

theorem ofPairs_eq
    (ps : List (Node × Node)) :
    ofPairs ps =
      (ps.flatMap fun (k, v) => [k, v]).flatMap preorder := by
  induction ps with
  | nil => rfl
  | cons p ps ih => simp [ofPairs, ih]

theorem ofSegments_eq
    (ss : List (Segment Node)) :
    ofSegments ss = (ss.flatMap Segment.nodes).flatMap preorder := by
  induction ss with
  | nil => rfl
  | cons s ss ih => cases s <;> simp [ofSegments, Segment.nodes, ih]

theorem ofText_eq
    (t : Text Node) :
    ofText t = t.nodes.flatMap preorder := by
  cases t
  simp [ofText, Text.nodes, ofSegments_eq]

theorem ofTarget_eq
    (t : Target Node) :
    ofTarget t = t.nodes.flatMap preorder := by
  cases t <;> simp [ofTarget, Target.nodes]

theorem ofEntries_eq
    (e : Entries Node) :
    ofEntries e = e.nodes.flatMap preorder := by
  cases e
  simp [ofEntries, Entries.nodes, ofOption_eq, ofNodes_eq]

theorem ofClauses_eq
    (cs : List (Clause Node)) :
    ofClauses cs = (cs.flatMap Clause.nodes).flatMap preorder := by
  induction cs with
  | nil => rfl
  | cons c cs ih =>
      cases c
      simp [ofClauses, Clause.nodes, ofNodes_eq, ofOption_eq, ih]

theorem ofSections_eq
    (ss : List (Section Node)) :
    ofSections ss = (ss.flatMap Section.nodes).flatMap preorder := by
  induction ss with
  | nil => rfl
  | cons s ss ih =>
      rcases s with ⟨name, ns | cs⟩
      · simp [ofSections, Section.nodes, Body.nodes, ofNodes_eq, ih]
      · simp [ofSections, Section.nodes, Body.nodes, ofClauses_eq, ih]

theorem ofForm_eq
    (f : Form Node) :
    ofForm f = f.nodes.flatMap preorder := by
  cases f with
  | call target args p block =>
      cases block with
      | none => simp [ofForm, Form.nodes, ofTarget_eq, ofNodes_eq]
      | some b =>
          cases b
          simp [ofForm, Form.nodes, DoBlock.nodes, ofTarget_eq,
            ofNodes_eq, ofSections_eq]
  | _ =>
      simp [ofForm, Form.nodes, ofText_eq, ofOption_eq, ofNodes_eq,
        ofPairs_eq, ofEntries_eq, ofClauses_eq]

/- A node comes first, and then the trees of its children. -/
theorem preorder_eq
    (n : Node) :
    n.preorder = n :: n.children.flatMap preorder := by
  cases n
  simp [preorder, children, form, ofForm_eq]

/- Whether a node, or any node below it, is an error. -/
def containsError
    (n : Node) : Bool :=
  n.preorder.any isError

theorem containsError_eq
    (n : Node) :
    n.containsError =
      (n.isError || n.children.any containsError) := by
  unfold containsError
  rw [preorder_eq]
  simp [List.any_flatMap]

end Node

end ElixirReader
