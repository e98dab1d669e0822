import ElixirReader.Proofs.Quote.Congruence

/-
  This file shows that the choice of metadata changes nothing
  but metadata: without the lines and columns in it, what a tree
  is quoted to is always the same term.

  Key definitions include:
    * `Term.isPosition`
    * `Term.withoutPositions`

  Main declarations:
    * `Term.withoutPositions_call`
    * `congruence_withoutPositions`
    * `withoutPositions_quote`
-/

namespace ElixirReader

------------------------------------------------------------
-- Positions
------------------------------------------------------------

namespace Term

/- Whether an entry of metadata tells a line or a column. -/
def isPosition
    (t : Term) : Bool :=
  match t.keyed? with
  | some (key, _) => key == "line" || key == "column"
  | none => false

/-
  A term without the lines and columns that its calls tell. What
  has a list in the middle of three is a call, and the list is
  its metadata.
-/
mutual
def withoutPositions : Term → Term
| .tuple [name, .list metadata, args] =>
    .tuple
      [name.withoutPositions,
       .list (metadata.filter fun t => !t.isPosition),
       args.withoutPositions]
| .tuple items => .tuple (allWithoutPositions items)
| .list items => .list (allWithoutPositions items)
| .atom name => .atom name
| .integer value => .integer value
| .float value => .float value
| .binary text => .binary text
termination_by structural t => t

def allWithoutPositions : List Term → List Term
| [] => []
| t :: ts => t.withoutPositions :: allWithoutPositions ts
termination_by structural ts => ts
end

theorem allWithoutPositions_eq
    (ts : List Term) :
    allWithoutPositions ts = ts.map withoutPositions := by
  induction ts with
  | nil => rfl
  | cons t ts ih => rw [allWithoutPositions, ih, List.map_cons]

theorem withoutPositions_list
    (ts : List Term) :
    (Term.list ts).withoutPositions =
      .list (ts.map withoutPositions) := by
  rw [withoutPositions, allWithoutPositions_eq]

theorem withoutPositions_pair
    (t u : Term) :
    (pair t u).withoutPositions =
      pair t.withoutPositions u.withoutPositions := by
  simp [pair, withoutPositions, allWithoutPositions]

theorem withoutPositions_call
    (name args : Term)
    (metadata : List Term) :
    (call name (.list metadata) args).withoutPositions =
      call name.withoutPositions
        (.list (metadata.filter fun t => !t.isPosition))
        args.withoutPositions := by
  simp [call, withoutPositions]

end Term

------------------------------------------------------------
-- Metadata
------------------------------------------------------------

/- Without positions, quoted calls say what they say without any. -/
theorem IsCallMetadata.exists_filter
    {metadata : Metadata → Term}
    (hMetadata : IsCallMetadata metadata)
    (m : Metadata) :
    ∃ items,
      metadata m = .list items ∧
        metadata .none =
          .list (items.filter fun t => !t.isPosition) := by
  cases hMetadata <;> cases m <;> exact ⟨_, rfl, rfl⟩

/- Terms related to others by an equation, one by one. -/
theorem map_eq_of_forall₂
    {α β : Type}
    {f : α → β}
    {as : List α}
    {bs : List β}
    (hAll : List.Forall₂ (fun a b => f a = b) as bs) :
    as.map f = bs := by
  rw [← List.forall₂_eq_eq_eq, List.forall₂_map_left_iff]
  exact hAll

/- Every form of code loses the positions of what it is made of. -/
theorem congruence_withoutPositions
    (m : Metadata) :
    Congruence m .none fun t t' => t.withoutPositions = t' := by
  refine ⟨fun _ => rfl, fun _ => rfl, fun _ => rfl, fun _ => rfl,
    ?_, ?_, ?_, ?_⟩
  · intro ts ts' hItems
    rw [Term.withoutPositions_list, map_eq_of_forall₂ hItems]
  · rintro t _ u _ rfl rfl
    exact Term.withoutPositions_pair t u
  · intro name span
    rcases (IsCallMetadata.place span).exists_filter m with
      ⟨items, hItems, hNone⟩
    rw [hItems, hNone, Term.withoutPositions_call]
    rfl
  · intro metadata name _ args args' hMetadata _ hName hArgs
    subst hName
    rcases hMetadata.exists_filter m with ⟨items, hItems, hNone⟩
    rw [hItems, hNone, Term.withoutPositions_call,
      Term.withoutPositions_list, map_eq_of_forall₂ hArgs]

/-
  A tree is quoted to the same term with any metadata, once the
  lines and columns are taken away.
-/
theorem withoutPositions_quote
    (m : Metadata)
    (n : Node) :
    (n.quote m).withoutPositions = n.quote .none :=
  (congruence_withoutPositions m).quote n

end ElixirReader
