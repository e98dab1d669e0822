import ElixirReader.Proofs.Building.Operands

/-
  This file measures how far trees reach to the left. A tree
  grows without brackets by operators and suffixes: what was
  read so far becomes the left operand, the receiver, the
  called function or the subject of something larger. What
  expressions start with extends no tree.

  Key definitions include:
    * `Form.stem`
    * `Node.stems`
    * `Node.IsLow`
    * `Node.Leans`

  Main declarations:
    * `Node.leans_succ`
    * `sustains_isLow`
    * `Opens.leans`
    * `Extends.leans`
-/

namespace ElixirReader

open Parse

variable {j k : Nat}
variable {context : Context}

------------------------------------------------------------
-- Stems
------------------------------------------------------------

/-
  What a form extends to the right: a left operand, a receiver
  or called function, or a subject.
-/
def Form.stem : Form ν → List ν
| .call target _ _ _ => target.nodes
| .binary _ left _ _ => [left]
| .access subject _ => [subject]
| _ => []

namespace Node

/- What a node extends, what that extends, and so on. -/
mutual
def stems : Node → List Node
| ⟨f, _⟩ => stemsOfForm f
termination_by structural n => n

def stemsOfForm : Form Node → List Node
| .call target _ _ _ => stemsOfTarget target
| .binary _ left _ _ => left :: left.stems
| .access subject _ => subject :: subject.stems
| _ => []
termination_by structural f => f

def stemsOfTarget : Target Node → List Node
| .bare _ => []
| .remote receiver _ _ _ => receiver :: receiver.stems
| .anonymous function _ => function :: function.stems
termination_by structural t => t
end

/- The stem of a node comes first, and then its own stems. -/
theorem stems_eq
    (n : Node) :
    n.stems = n.form.stem.flatMap (fun s => s :: s.stems) := by
  rcases n with ⟨f, span⟩
  cases f with
  | call target _ _ _ => cases target <;> simp [stems,
      stemsOfForm, stemsOfTarget, form, Form.stem, Target.nodes]
  | _ => simp [stems, stemsOfForm, form, Form.stem]

/- No node of a tree has more than `k` stems. -/
def IsLow
    (k : Nat)
    (n : Node) : Prop :=
  ∀ m ∈ n.preorder, m.stems.length ≤ k

end Node

/- All of some trees are low. -/
def AreLow
    (k : Nat)
    (ns : List Node) : Prop :=
  ∀ n ∈ ns, n.IsLow k

namespace Node

theorem IsLow.mono
    {n : Node}
    (hLow : n.IsLow j)
    (hLe : j ≤ k) :
    n.IsLow k :=
  fun m hM => Nat.le_trans (hLow m hM) hLe

/- A node with at most `j` stems, and a low tree below it. -/
structure Leans
    (j k : Nat)
    (n : Node) : Prop where
  length_le : n.stems.length ≤ j
  low : n.IsLow k

theorem IsLow.leans
    {n : Node}
    (hLow : n.IsLow k) :
    n.Leans k k :=
  ⟨hLow n (mem_preorder n), hLow⟩

theorem Leans.mono
    {i : Nat}
    {n : Node}
    (hLeans : n.Leans i k)
    (hLe : i ≤ j) :
    n.Leans j k :=
  ⟨Nat.le_trans hLeans.length_le hLe, hLeans.low⟩

theorem stems_of_stem_eq_nil
    {n : Node}
    (hStem : n.form.stem = []) :
    n.stems = [] := by
  rw [stems_eq, hStem, List.flatMap_nil]

/- A low tree that extends nothing starts anew. -/
theorem IsLow.leans_of_stem_eq_nil
    {n : Node}
    (hLow : n.IsLow k)
    (hStem : n.form.stem = []) :
    n.Leans j k := by
  refine ⟨?_, hLow⟩
  rw [stems_of_stem_eq_nil hStem]
  exact Nat.zero_le j

/- A form that extends a node has one more stem than the node. -/
theorem leans_succ
    {f : Form Node}
    {s : Node}
    (span : Span)
    (hStem : f.stem = [s])
    (hLeans : s.Leans j k)
    (hLe : j + 1 ≤ k)
    (hNodes : AreLow k f.nodes) :
    Leans (j + 1) k ⟨f, span⟩ := by
  have hStems : (⟨f, span⟩ : Node).stems = s :: s.stems := by
    rw [stems_eq, form, hStem, List.flatMap_singleton]
  have hLength : (⟨f, span⟩ : Node).stems.length ≤ j + 1 := by
    rw [hStems]
    exact Nat.succ_le_succ hLeans.length_le
  exact ⟨hLength, throughout_iff.mpr
    ⟨Nat.le_trans hLength hLe, hNodes⟩⟩

end Node

------------------------------------------------------------
-- Starts and suffixes
------------------------------------------------------------

theorem Form.stem_of_isPlain
    {f : Form Node}
    (hPlain : f.isPlain = true) :
    f.stem = [] := by
  cases f <;> first | rfl | cases hPlain

theorem Opens.stem_eq_nil
    {L : Node → Prop}
    {V : Context → Node → Prop}
    {n : Node}
    (hOpens : Opens L V context n) :
    n.form.stem = [] := by
  cases hOpens with
  | anew hAnew =>
      exact Form.stem_of_isPlain (Form.isPlain_of_isClosed hAnew.closed)
  | keywords span hPairs => rfl
  | call name start hSuffix => rfl
  | unary operator span hOperand => rfl

/- A tree that extends nothing is low if what is below it is. -/
theorem Node.isLow_of_stem_eq_nil
    {n : Node}
    (hStem : n.form.stem = [])
    (hChildren : AreLow k n.children) :
    n.IsLow k := by
  refine throughout_iff.mpr ⟨?_, hChildren⟩
  rw [stems_of_stem_eq_nil hStem]
  exact Nat.zero_le k

theorem sustains_isLow
    (k : Nat) :
    Sustains (fun n => n.stems.length ≤ k)
      (fun _ => Node.IsLow k) := by
  constructor
  · intro f span hPlain
    have hStem : (⟨f, span⟩ : Node).form.stem = [] :=
      Form.stem_of_isPlain hPlain
    rw [Node.stems_of_stem_eq_nil hStem]
    exact Nat.zero_le k
  · exact fun hLow => hLow
  · intro context n hOpens
    exact Node.isLow_of_stem_eq_nil hOpens.stem_eq_nil
      (hOpens.allThroughout_children fun _ _ hLow => hLow)

theorem Node.IsAnew.leans
    {n : Node}
    (hAnew : n.IsAnew fun n => n.stems.length ≤ k) :
    n.Leans j k :=
  IsLow.leans_of_stem_eq_nil hAnew.all
    (Form.stem_of_isPlain (Form.isPlain_of_isClosed hAnew.closed))

/- What expressions start with extends nothing. -/
theorem Opens.leans
    {n : Node}
    (hOpens : Opens (fun n => n.stems.length ≤ k)
      (fun _ => Node.IsLow k) context n) :
    n.Leans j k :=
  ((sustains_isLow k).opens hOpens).leans_of_stem_eq_nil
    hOpens.stem_eq_nil

/- A suffix extends a tree by one stem, or makes a new one. -/
theorem Extends.leans
    {node larger : Node}
    (hExtends : Extends (fun n => n.stems.length ≤ k)
      (fun _ => Node.IsLow k) context node larger)
    (hNode : node.Leans j k)
    (hLe : j + 1 ≤ k) :
    larger.Leans (j + 1) k := by
  have hChildren := hExtends.allThroughout_children hNode.low
  cases hExtends with
  | anew hAnew => exact hAnew.leans
  | segment segment =>
      have hStem : (extendAlias node segment).form.stem = [] := by
        rcases node with ⟨form, span⟩
        cases form <;> rfl
      exact (Node.isLow_of_stem_eq_nil hStem
        hChildren).leans_of_stem_eq_nil hStem
  | @call target suffix start hTarget hSuffix =>
      exact Node.leans_succ (f := .call target suffix.arguments
        suffix.parentheses suffix.doBlock) _ hTarget hNode hLe
        hChildren
  | @access key span hKey =>
      exact Node.leans_succ (f := .access node key) span rfl hNode hLe
        hChildren

end ElixirReader
