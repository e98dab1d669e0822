import ElixirReader.Parser.Precedence

/-
  This file defines trees of operators between operands, and
  when such a tree is ordered: every operator binds its two
  sides as its precedence and associativity ask for. For each
  chain of operands and operators there is one ordered tree
  that reads like it, and no other.

  Key definitions include:
    * `Binding.AdmitsLeft`
    * `Binding.AdmitsRight`
    * `OperatorTree`
    * `OperatorTree.inOrder`
    * `OperatorTree.Ordered`
    * `OperatorTree.insert`
    * `OperatorTree.ofChain`

  Main declarations:
    * `OperatorTree.Ordered.ext`
    * `OperatorTree.inOrder_ofChain`
    * `OperatorTree.ordered_ofChain`
-/

namespace ElixirReader

------------------------------------------------------------
-- Bindings
------------------------------------------------------------

namespace Binding

/-
  An operator may be the left operand of another one: it binds
  more tightly, or just as tightly with what is on its left.
-/
def AdmitsLeft
    (b inner : Binding) : Prop :=
  b.precedence < inner.precedence ∨
    b.precedence = inner.precedence ∧ inner.associativity = .left

/- An operator may be the right operand of another one. -/
def AdmitsRight
    (b inner : Binding) : Prop :=
  b.precedence < inner.precedence ∨
    b.precedence = inner.precedence ∧ inner.associativity = .right

instance
    (b inner : Binding) :
    Decidable (b.AdmitsLeft inner) :=
  inferInstanceAs (Decidable (_ ∨ _))

instance
    (b inner : Binding) :
    Decidable (b.AdmitsRight inner) :=
  inferInstanceAs (Decidable (_ ∨ _))

/- Operators of one precedence associate in the same way. -/
def Agrees
    (b b' : Binding) : Prop :=
  b.precedence = b'.precedence →
    b.associativity = b'.associativity

theorem Agrees.symm
    {b b' : Binding}
    (hAgrees : b.Agrees b') :
    b'.Agrees b :=
  fun hSame => (hAgrees hSame.symm).symm

theorem AdmitsLeft.precedence_le
    {b inner : Binding}
    (hAdmits : b.AdmitsLeft inner) :
    b.precedence ≤ inner.precedence := by
  rcases hAdmits with hLess | ⟨hSame, _⟩ <;> omega

theorem AdmitsRight.precedence_le
    {b inner : Binding}
    (hAdmits : b.AdmitsRight inner) :
    b.precedence ≤ inner.precedence := by
  rcases hAdmits with hLess | ⟨hSame, _⟩ <;> omega

/- What may stand on the right binds as tightly as is asked for. -/
theorem admitsRight_iff
    {b inner : Binding}
    (hAgrees : b.Agrees inner) :
    b.AdmitsRight inner ↔
      b.rightPrecedence ≤ inner.precedence := by
  unfold AdmitsRight rightPrecedence
  by_cases hSame : b.precedence = inner.precedence
  · rw [hAgrees hSame]
    cases inner.associativity <;> simp [hSame]
  · cases b.associativity <;> simp <;> omega

/- What may stand on the left binds more tightly than the right. -/
theorem admitsLeft_iff
    {b inner : Binding} :
    b.AdmitsLeft inner ↔
      b.precedence < inner.rightPrecedence := by
  unfold AdmitsLeft rightPrecedence
  by_cases hSame : b.precedence = inner.precedence
  · cases inner.associativity <;> simp [hSame]
  · cases inner.associativity <;> simp <;> omega

theorem precedence_le_rightPrecedence
    (b : Binding) :
    b.precedence ≤ b.rightPrecedence := by
  unfold rightPrecedence
  cases b.associativity <;> simp

/- What is admitted by an operator that is admitted is admitted. -/
theorem AdmitsLeft.trans
    {b inner last : Binding}
    (hOuter : b.AdmitsLeft inner)
    (hInner : inner.precedence ≤ last.precedence)
    (hAgrees : inner.Agrees last) :
    b.AdmitsLeft last := by
  rcases hOuter with hLess | ⟨hSame, hLeft⟩
  · exact .inl (by omega)
  · by_cases hEqual : inner.precedence = last.precedence
    · refine .inr ⟨hSame.trans hEqual, ?_⟩
      rw [← hAgrees hEqual, hLeft]
    · exact .inl (by omega)

theorem AdmitsRight.trans
    {b inner last : Binding}
    (hOuter : b.AdmitsRight inner)
    (hInner : inner.precedence ≤ last.precedence)
    (hAgrees : inner.Agrees last) :
    b.AdmitsRight last := by
  rcases hOuter with hLess | ⟨hSame, hRight⟩
  · exact .inl (by omega)
  · by_cases hEqual : inner.precedence = last.precedence
    · refine .inr ⟨hSame.trans hEqual, ?_⟩
      rw [← hAgrees hEqual, hRight]
    · exact .inl (by omega)

end Binding

/- Two kinds of one precedence associate in the same way. -/
theorem Operator.agrees_of_binding?
    {o o' : Operator}
    {b b' : Binding}
    (hBinding : o.binding? = some b)
    (hBinding' : o'.binding? = some b') :
    b.Agrees b' := by
  intro hSame
  cases o <;> cases hBinding <;> cases o' <;> cases hBinding' <;>
    first | rfl | exact absurd hSame (by decide)

theorem Kind.agrees_of_binding?
    {k k' : Kind}
    {b b' : Binding}
    (hBinding : k.binding? = some b)
    (hBinding' : k'.binding? = some b') :
    b.Agrees b' := by
  have hColon :
      ∀ (o : Operator) (b' : Binding),
        o.binding? = some b' → Binding.Agrees ⟨60, .right⟩ b' := by
    intro o b' hOperator hSame
    cases o <;> cases hOperator <;> exact absurd hSame (by decide)
  cases k with
  | operator o =>
      cases k' with
      | operator o' =>
          exact Operator.agrees_of_binding? hBinding hBinding'
      | doubleColon =>
          cases hBinding'
          exact (hColon o b hBinding).symm
      | _ => cases hBinding'
  | doubleColon =>
      cases hBinding
      cases k' with
      | operator o' => exact hColon o' b' hBinding'
      | doubleColon =>
          cases hBinding'
          exact fun _ => rfl
      | _ => cases hBinding'
  | _ => cases hBinding

------------------------------------------------------------
-- Trees
------------------------------------------------------------

inductive OperatorTree (α β : Type) where
| leaf (operand : α)
| node (operator : β) (left right : OperatorTree α β)
deriving DecidableEq, Repr

namespace OperatorTree

variable {α β : Type}

/- The operands and operators from left to right. -/
def inOrder : OperatorTree α β → List (α ⊕ β)
| leaf a => [.inl a]
| node o l r => l.inOrder ++ .inr o :: r.inOrder

/- The operator at the root. -/
def root? : OperatorTree α β → Option β
| leaf _ => none
| node o _ _ => some o

/- The operators of a tree. -/
def operators : OperatorTree α β → List β
| leaf _ => []
| node o l r => l.operators ++ o :: r.operators

section

variable (binding : β → Binding)

/- Every operator admits the ones at the roots of its operands. -/
def Ordered : OperatorTree α β → Prop
| leaf _ => True
| node o l r =>
    (∀ o' ∈ l.root?, (binding o).AdmitsLeft (binding o')) ∧
      (∀ o' ∈ r.root?, (binding o).AdmitsRight (binding o')) ∧
      l.Ordered ∧ r.Ordered

end

variable {binding : β → Binding}

@[simp] theorem inOrder_ne_nil
    (t : OperatorTree α β) :
    t.inOrder ≠ [] := by
  cases t <;> simp [inOrder]

theorem mem_operators_iff
    {t : OperatorTree α β}
    {o : β} :
    o ∈ t.operators ↔ .inr o ∈ t.inOrder := by
  induction t with
  | leaf a => simp [operators, inOrder]
  | node o' l r ihl ihr => simp [operators, inOrder, ihl, ihr]

------------------------------------------------------------
-- Ordered trees
------------------------------------------------------------

/- The root of an ordered tree binds least tightly. -/
theorem Ordered.precedence_le
    {t : OperatorTree α β}
    {o o' : β}
    (hOrdered : t.Ordered binding)
    (hRoot : o ∈ t.root?)
    (hMember : o' ∈ t.operators) :
    (binding o).precedence ≤ (binding o').precedence := by
  induction t generalizing o with
  | leaf a => cases hRoot
  | node o'' l r ihl ihr =>
      cases hRoot
      rcases hOrdered with ⟨hLeft, hRight, hOrderedL, hOrderedR⟩
      rcases List.mem_append.mp hMember with hInL | hMember
      · cases l with
        | leaf a => cases hInL
        | node p l' r' =>
            have hRootL := (hLeft p rfl).precedence_le
            have hRest := ihl hOrderedL rfl hInL
            omega
      · rcases List.mem_cons.mp hMember with rfl | hInR
        · exact Nat.le_refl _
        · cases r with
          | leaf a => cases hInR
          | node p l' r' =>
              have hRootR := (hRight p rfl).precedence_le
              have hRest := ihr hOrderedR rfl hInR
              omega

/- An operator admits all those in its left operand. -/
theorem Ordered.admitsLeft
    {o p : β}
    {l r : OperatorTree α β}
    (hAgrees : ∀ o o', (binding o).Agrees (binding o'))
    (hOrdered : (node o l r).Ordered binding)
    (hMember : p ∈ l.operators) :
    (binding o).AdmitsLeft (binding p) := by
  rcases hOrdered with ⟨hLeft, _, hOrderedL, _⟩
  cases l with
  | leaf a => cases hMember
  | node q l' r' =>
      exact (hLeft q rfl).trans
        (hOrderedL.precedence_le rfl hMember) (hAgrees q p)

/- And all those in its right operand. -/
theorem Ordered.admitsRight
    {o p : β}
    {l r : OperatorTree α β}
    (hAgrees : ∀ o o', (binding o).Agrees (binding o'))
    (hOrdered : (node o l r).Ordered binding)
    (hMember : p ∈ r.operators) :
    (binding o).AdmitsRight (binding p) := by
  rcases hOrdered with ⟨_, hRight, _, hOrderedR⟩
  cases r with
  | leaf a => cases hMember
  | node q l' r' =>
      exact (hRight q rfl).trans
        (hOrderedR.precedence_le rfl hMember) (hAgrees q p)

/-
  Of two operators only one can stand above the other, with
  the one on its left and the other on its right.
-/
theorem not_admitsLeft_of_admitsRight
    {b b' : Binding}
    (hAgrees : b.Agrees b')
    (hRight : b.AdmitsRight b') :
    ¬ b'.AdmitsLeft b := by
  intro hLeft
  rcases hRight with hLess | ⟨hSame, hRight⟩
  · have hLe := hLeft.precedence_le
    omega
  · rcases hLeft with hLess | ⟨_, hLeft⟩
    · omega
    · rw [hAgrees hSame, hRight] at hLeft
      cases hLeft

/-
  Two ordered trees that read alike have the same operator at
  the root: an operator left of the one and right of the other
  would have to admit it on both sides.
-/
theorem Ordered.split
    {o o' : β}
    {l l' r r' : OperatorTree α β}
    (hAgrees : ∀ o o', (binding o).Agrees (binding o'))
    (hOrdered : (node o l r).Ordered binding)
    (hOrdered' : (node o' l' r').Ordered binding)
    (hSame : (node o l r).inOrder = (node o' l' r').inOrder) :
    l.inOrder = l'.inOrder ∧ o = o' ∧
      r.inOrder = r'.inOrder := by
  have hApart :
      ∀ {o o' : β} {l l' r r' : OperatorTree α β},
        (node o l r).Ordered binding →
          (node o' l' r').Ordered binding →
            ¬ (.inr o' ∈ r.inOrder ∧ .inr o ∈ l'.inOrder) := by
    rintro o o' l l' r r' hOrdered hOrdered' ⟨hInR, hInL⟩
    exact not_admitsLeft_of_admitsRight (hAgrees o o')
      (hOrdered.admitsRight hAgrees (mem_operators_iff.mpr hInR))
      (hOrdered'.admitsLeft hAgrees (mem_operators_iff.mpr hInL))
  rcases List.append_eq_append_iff.mp hSame with
    ⟨between, hLeft, hRight⟩ | ⟨between, hLeft, hRight⟩
  · cases between with
    | nil =>
        rw [List.append_nil] at hLeft
        rcases List.cons.inj hRight with ⟨hRoot, hRest⟩
        exact ⟨hLeft.symm, Sum.inr.inj hRoot, hRest⟩
    | cons x between =>
        rcases List.cons.inj hRight with ⟨rfl, hRest⟩
        exact absurd ⟨by simp [hRest], by simp [hLeft]⟩
          (hApart hOrdered hOrdered')
  · cases between with
    | nil =>
        rw [List.append_nil] at hLeft
        rcases List.cons.inj hRight with ⟨hRoot, hRest⟩
        exact ⟨hLeft, (Sum.inr.inj hRoot).symm, hRest.symm⟩
    | cons x between =>
        rcases List.cons.inj hRight with ⟨rfl, hRest⟩
        exact absurd ⟨by simp [hRest], by simp [hLeft]⟩
          (hApart hOrdered' hOrdered)

/- No two ordered trees read alike. -/
theorem Ordered.ext
    {t t' : OperatorTree α β}
    (hAgrees : ∀ o o', (binding o).Agrees (binding o'))
    (hOrdered : t.Ordered binding)
    (hOrdered' : t'.Ordered binding)
    (hSame : t.inOrder = t'.inOrder) :
    t = t' := by
  have hLonger :
      ∀ (o : β) (l r : OperatorTree α β) (a : α),
        (node o l r).inOrder ≠ (leaf a).inOrder := by
    intro o l r a hEq
    have hLength := congrArg List.length hEq
    have hSome := List.length_pos_iff.mpr l.inOrder_ne_nil
    simp [inOrder] at hLength
    omega
  induction t generalizing t' with
  | leaf a =>
      cases t' with
      | leaf a' => rw [Sum.inl.inj (List.head_eq_of_cons_eq hSame)]
      | node o' l' r' => exact absurd hSame.symm (hLonger o' l' r' a)
  | node o l r ihl ihr =>
      cases t' with
      | leaf a' => exact absurd hSame (hLonger o l r a')
      | node o' l' r' =>
          rcases hOrdered.split hAgrees hOrdered' hSame with
            ⟨hSameL, rfl, hSameR⟩
          rw [ihl hOrdered.2.2.1 hOrdered'.2.2.1 hSameL,
            ihr hOrdered.2.2.2 hOrdered'.2.2.2 hSameR]

------------------------------------------------------------
-- The tree of a chain
------------------------------------------------------------

section

variable (binding : β → Binding)

/-
  A tree with one more operator and operand on the right. It
  goes into the right operand as far down as it binds tightly
  enough.
-/
def insert
    (o : β)
    (a : α) : OperatorTree α β → OperatorTree α β
| leaf b => node o (leaf b) (leaf a)
| node o' l r =>
    if (binding o').rightPrecedence ≤ (binding o).precedence then
      node o' l (r.insert o a)
    else
      node o (node o' l r) (leaf a)

/- The tree of an operand and of operators with operands. -/
def ofChain
    (first : α)
    (later : List (β × α)) : OperatorTree α β :=
  later.foldl (fun t (o, a) => t.insert binding o a) (leaf first)

end

/- An operand, and operators with operands, from left to right. -/
def chain
    (first : α)
    (later : List (β × α)) : List (α ⊕ β) :=
  .inl first :: later.flatMap fun (o, a) => [.inr o, .inl a]

theorem inOrder_insert
    (o : β)
    (a : α)
    (t : OperatorTree α β) :
    (t.insert binding o a).inOrder =
      t.inOrder ++ [.inr o, .inl a] := by
  induction t with
  | leaf b => rfl
  | node o' l r ihl ihr =>
      unfold insert
      split
      · simp [inOrder, ihr]
      · simp [inOrder]

/- The new operator is the root, or the root stays the same. -/
theorem root?_insert
    {o o' : β}
    {a : α}
    {t : OperatorTree α β}
    (hRoot : o' ∈ (t.insert binding o a).root?) :
    o' = o ∨ o' ∈ t.root? := by
  cases t with
  | leaf b =>
      cases hRoot
      exact .inl rfl
  | node p l r =>
      unfold insert at hRoot
      split at hRoot
      · exact .inr hRoot
      · cases hRoot
        exact .inl rfl

theorem Ordered.insert
    {t : OperatorTree α β}
    (o : β)
    (a : α)
    (hAgrees : ∀ o o', (binding o).Agrees (binding o'))
    (hOrdered : t.Ordered binding) :
    (t.insert binding o a).Ordered binding := by
  induction t with
  | leaf b =>
      refine ⟨?_, ?_, True.intro, True.intro⟩ <;>
        (intro o' hRoot; cases hRoot)
  | node p l r ihl ihr =>
      have hOrdered' := hOrdered
      rcases hOrdered with ⟨hLeft, hRight, hOrderedL, hOrderedR⟩
      unfold OperatorTree.insert
      split
      · rename_i hTight
        refine ⟨hLeft, ?_, hOrderedL, ihr hOrderedR⟩
        intro o' hRoot
        rcases root?_insert hRoot with rfl | hOld
        · exact (Binding.admitsRight_iff (hAgrees p _)).mpr hTight
        · exact hRight o' hOld
      · rename_i hLoose
        refine ⟨?_, ?_, hOrdered', True.intro⟩
        · intro o' hRoot
          cases hRoot
          exact Binding.admitsLeft_iff.mpr
            (Nat.lt_of_not_le hLoose)
        · intro o' hRoot
          cases hRoot

theorem foldl_insert
    (later : List (β × α))
    {t : OperatorTree α β}
    (hAgrees : ∀ o o', (binding o).Agrees (binding o'))
    (hOrdered : t.Ordered binding) :
    (later.foldl (fun t (o, a) => t.insert binding o a)
          t).inOrder =
        t.inOrder ++
          later.flatMap (fun (o, a) => [.inr o, .inl a]) ∧
      (later.foldl (fun t (o, a) => t.insert binding o a)
        t).Ordered binding := by
  induction later generalizing t with
  | nil => exact ⟨(List.append_nil _).symm, hOrdered⟩
  | cons x later ih =>
      rcases x with ⟨o, a⟩
      have hNext := ih (hOrdered.insert o a hAgrees)
      refine ⟨?_, hNext.2⟩
      rw [List.foldl_cons, hNext.1, inOrder_insert]
      simp

/- Every chain has a tree that reads like it. -/
theorem inOrder_ofChain
    (first : α)
    (later : List (β × α))
    (hAgrees : ∀ o o', (binding o).Agrees (binding o')) :
    (ofChain binding first later).inOrder =
      chain first later :=
  (foldl_insert (t := leaf first) later hAgrees True.intro).1

/- The tree of a chain is ordered. -/
theorem ordered_ofChain
    (first : α)
    (later : List (β × α))
    (hAgrees : ∀ o o', (binding o).Agrees (binding o')) :
    (ofChain binding first later).Ordered binding :=
  (foldl_insert (t := leaf first) later hAgrees True.intro).2

end OperatorTree

end ElixirReader
