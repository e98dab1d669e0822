import Mathlib.Data.List.Forall2
import Mathlib.Data.List.Sort
import ElixirReader.Term.Walk

/-
  This file proves what walks over terms do. A walk that
  changes nothing meets every place of a term that is not
  hidden, in order, and gives the term back. A walk that puts
  one term in place of another does so at the outermost places
  and nowhere else, and comes to an end, unless the other term
  holds the one that it stands for.

  Key definitions include:
    * `Term.isHidden`
    * `Term.at?`
    * `Term.IsTour`
    * `Term.Replaces`

  Main declarations:
    * `Term.exists_tour`
    * `Term.exists_replacing`
    * `Term.exists_walk?`
-/

namespace ElixirReader

namespace Term

------------------------------------------------------------
-- Places
------------------------------------------------------------

/- The terms right inside a list or a tuple. -/
def items : Term → List Term
| .list ts => ts
| .tuple ts => ts
| _ => []

/- A list or a tuple with other terms inside. -/
def withItems : Term → List Term → Term
| .list _, ts => .list ts
| .tuple _, ts => .tuple ts
| t, _ => t

/-
  Whether a walk goes past an item. It does so for the metadata
  of a call, and for its name if that is an atom.
-/
def isHidden : Term → Nat → Bool
| .tuple [name, .list _, _], i =>
    i == 1 || (i == 0 && name.atom?.isSome)
| _, _ => false

/- The item at a place, if it is not hidden. -/
def child?
    (t : Term)
    (i : Nat) : Option Term :=
  if t.isHidden i then none else t.items[i]?

/- The term at the end of a path on which nothing is hidden. -/
def at? : Term → List Nat → Option Term
| t, [] => some t
| t, i :: path => (t.child? i).bind (at? · path)

/-
  Some terms are a tour of another term if they are the terms
  at its paths, each path once. Paths are in order when those
  above come before those below, and left before right.
-/
def IsTour
    (t : Term)
    (ts : List Term) : Prop :=
  ∃ paths : List (List Nat),
    paths.Pairwise (· < ·) ∧
    (∀ path, path ∈ paths ↔ (t.at? path).isSome) ∧
    ts.map some = paths.map t.at?

/-
  Put a term in place of all that are old, as long as they are
  not inside another one that is. What is hidden stays as it
  is, and so does the form of what is around.
-/
inductive Replaces
    (isOld : Term → Bool)
    (new : Term) : Term → Term → Prop
| here
    {t : Term}
    (hOld : isOld t = true) :
    Replaces isOld new t new
| inside
    {t : Term}
    {ts : List Term}
    (hOther : isOld t = false)
    (hLength : ts.length = t.items.length)
    (hHidden : ∀ i, t.isHidden i = true → ts[i]? = t.items[i]?)
    (hItems : ∀ i u r,
      t.child? i = some u → ts[i]? = some r →
      Replaces isOld new u r) :
    Replaces isOld new t (t.withItems ts)

/- There is only one way to put a term in place of others. -/
theorem Replaces.eq
    {isOld : Term → Bool}
    {new t r s : Term}
    (hLeft : Replaces isOld new t r)
    (hRight : Replaces isOld new t s) :
    r = s := by
  induction hLeft generalizing s with
  | here hOld =>
      cases hRight with
      | here _ => rfl
      | inside hOther _ _ _ => simp_all
  | @inside t ts hOther hLength hHidden _ ih =>
      cases hRight with
      | here hOld => simp_all
      | @inside _ us _ hLength' hHidden' hItems' =>
          suffices ts = us by rw [this]
          apply List.ext_getElem?
          intro i
          by_cases hi : i < t.items.length
          · cases h : t.isHidden i with
            | true => rw [hHidden i h, hHidden' i h]
            | false =>
                have hChild :
                    t.child? i = some t.items[i] := by
                  simp [child?, h, hi]
                have ht : ts[i]? = some ts[i] := by simp [hLength, hi]
                have hu : us[i]? = some us[i] := by simp [hLength', hi]
                rw [ht, hu, ih i _ _ hChild ht (hItems' i _ _ hChild hu)]
          · rw [List.getElem?_eq_none (by omega),
              List.getElem?_eq_none (by omega)]

------------------------------------------------------------
-- Parts
------------------------------------------------------------

/- The places of the items that a walk visits. -/
def places
    (t : Term) : List Nat :=
  (List.range t.items.length).filter (!t.isHidden ·)

private theorem map_getElem?_range
    {α : Type}
    (xs : List α) :
    (List.range xs.length).map (xs[·]?) = xs.map some := by
  apply List.ext_getElem?
  intro i
  by_cases hi : i < xs.length <;> simp [hi]

theorem mem_places
    (t : Term)
    (i : Nat) :
    i ∈ t.places ↔ (t.child? i).isSome = true := by
  cases h : t.isHidden i <;> simp [places, child?, h]

theorem pairwise_places
    (t : Term) :
    t.places.Pairwise (· < ·) :=
  List.pairwise_lt_range.filter _

/-
  Parts that stand for those of a term are the items at its
  places in a term with the same hidden items.
-/
theorem exists_withItems
    (t : Term)
    (parts : List Term)
    (hLength : parts.length = t.visitedParts.length) :
    ∃ ts : List Term,
      t.withVisitedParts parts = t.withItems ts ∧
      ts.length = t.items.length ∧
      (∀ i, t.isHidden i = true → ts[i]? = t.items[i]?) ∧
      parts.map some = t.places.map (ts[·]?) := by
  have hAll
      (us : List Term)
      (hEq : parts.length = us.length) :
      parts.map some = (List.range us.length).map (parts[·]?) := by
    rw [← hEq, map_getElem?_range]
  revert hLength
  fun_cases visitedParts t with
  | case1 us =>
      intro hLength
      refine ⟨parts, rfl, hLength, by simp [isHidden], ?_⟩
      simpa [places, isHidden, items] using hAll us hLength
  | case2 name metadata args =>
      intro hLength
      obtain ⟨part, rfl⟩ := List.length_eq_one_iff.1 hLength
      refine ⟨[.atom name, .list metadata, part], rfl, rfl, ?_, ?_⟩
      · intro i hHidden
        rcases i with _ | _ | _ | i
        · rfl
        · rfl
        · simp [isHidden] at hHidden
        · rfl
      · simp [places, items, isHidden, List.range_succ, atom?]
  | case3 name metadata args hAtom =>
      intro hLength
      obtain ⟨first, part, rfl⟩ := List.length_eq_two.1 hLength
      refine ⟨[first, .list metadata, part], ?_, rfl, ?_, ?_⟩
      · cases name <;> simp_all [withVisitedParts, withItems]
      · intro i hHidden
        rcases i with _ | _ | _ | i
        · cases name <;> simp_all [isHidden, atom?]
        · rfl
        · simp [isHidden] at hHidden
        · rfl
      · cases name <;>
          simp_all [places, items, isHidden, List.range_succ, atom?]
  | case4 us hCall hNamed =>
      intro hLength
      have hShown (i : Nat) : (tuple us).isHidden i = false := by
        unfold isHidden
        split
        · next hEq => exact absurd (tuple.inj hEq) (hNamed _ _ _)
        · rfl
      refine ⟨parts, ?_, hLength, by simp [hShown], ?_⟩
      · unfold withVisitedParts
        split
        · next hEq => cases hEq
        · next hEq => exact absurd (tuple.inj hEq) (hNamed _ _ _)
        · next hEq => exact absurd (tuple.inj hEq) (hNamed _ _ _)
        · rfl
        · next hTuple _ _ => exact (hTuple us rfl).elim
      · simpa [places, hShown, items] using hAll us hLength
  | case5 t hList hCall hNamed hTuple =>
      intro hLength
      obtain rfl := List.length_eq_zero_iff.1 hLength
      cases t <;> simp_all [withVisitedParts, withItems, items, places,
        isHidden]

/- The visited parts of a term are the items at its places. -/
theorem map_visitedParts
    (t : Term) :
    t.visitedParts.map some = t.places.map t.child? := by
  obtain ⟨ts, hEq, hLength, -, hParts⟩ :=
    t.exists_withItems t.visitedParts rfl
  have hItems : ts = t.items := by
    rw [withVisitedParts_visitedParts] at hEq
    cases t <;> simp_all [withItems, items]
  rw [hParts, hItems]
  apply List.map_congr_left
  intro i hi
  have hShown : t.isHidden i = false := by
    simpa using (List.mem_filter.1 hi).2
  simp [child?, hShown]

theorem depth_le_depths
    (ts : List Term)
    (u : Term)
    (hMem : u ∈ ts) :
    u.depth ≤ depths ts := by
  induction ts with
  | nil => simp at hMem
  | cons t ts ih =>
      rw [depths]
      rcases List.mem_cons.1 hMem with rfl | hMem
      · exact le_max_left _ _
      · exact (ih hMem).trans (le_max_right _ _)

theorem depth_pos
    (t : Term) :
    0 < t.depth := by
  cases t <;> simp [depth]

/- Each visited part is the item at some place. -/
theorem exists_child?
    {t u : Term}
    (hMem : u ∈ t.visitedParts) :
    ∃ i, t.child? i = some u := by
  have hSome := List.mem_map_of_mem (f := some) hMem
  rw [map_visitedParts] at hSome
  obtain ⟨i, -, hChild⟩ := List.mem_map.1 hSome
  exact ⟨i, hChild⟩

theorem depth_lt_of_mem
    (t u : Term)
    (hMem : u ∈ t.visitedParts) :
    u.depth < t.depth := by
  obtain ⟨i, hChild⟩ := exists_child? hMem
  have hItem : u ∈ t.items := by
    unfold child? at hChild
    split at hChild
    · cases hChild
    · exact List.mem_of_getElem? hChild
  have hDepths := depth_le_depths t.items u hItem
  cases t with
  | list ts =>
      rw [depth]
      exact Nat.lt_succ_of_le hDepths
  | tuple ts =>
      rw [depth]
      exact Nat.lt_succ_of_le hDepths
  | _ => cases hItem

/- What is below a part of a term is below the term. -/
theorem at?_cons_of_child?
    {t u : Term}
    {i : Nat}
    (hChild : t.child? i = some u)
    (path : List Nat) :
    t.at? (i :: path) = u.at? path := by
  rw [at?, hChild]
  rfl

/-
  What holds of the visited parts and of some other things
  holds of the items at the places, one by one.
-/
theorem forall₂_places
    {β : Type}
    {R : Term → β → Prop}
    (t : Term)
    (ws : List β)
    (hAll : List.Forall₂ R t.visitedParts ws) :
    List.Forall₂ (fun i w => ∃ u, t.child? i = some u ∧ R u w)
      t.places ws := by
  have hSome : List.Forall₂ (fun part w => ∃ u, part = some u ∧ R u w)
      (t.visitedParts.map some) ws :=
    List.forall₂_map_left_iff.2
      (hAll.imp fun u w h => ⟨u, rfl, h⟩)
  rw [map_visitedParts] at hSome
  exact List.forall₂_map_left_iff.1 hSome

------------------------------------------------------------
-- Tours
------------------------------------------------------------

/- The tours of the items at some places, one after another. -/
theorem exists_paths
    (t : Term)
    (is : List Nat)
    (tours : List (List Term))
    (hSorted : is.Pairwise (· < ·))
    (hTours : List.Forall₂
      (fun i ts => ∃ u, t.child? i = some u ∧ u.IsTour ts) is tours) :
    ∃ paths : List (List Nat),
      paths.Pairwise (· < ·) ∧
      (∀ path, path ∈ paths ↔
        ∃ i ∈ is, ∃ rest, path = i :: rest ∧ (t.at? path).isSome) ∧
      tours.flatten.map some = paths.map t.at? := by
  induction hTours with
  | nil => exact ⟨[], by simp⟩
  | @cons i ts is tours hTour hTours ih =>
      rw [List.pairwise_cons] at hSorted
      obtain ⟨u, hChild, paths, hOrder, hMem, hTerms⟩ := hTour
      obtain ⟨others, hOrders, hMems, hOthers⟩ := ih hSorted.2
      refine ⟨paths.map (i :: ·) ++ others, ?_, ?_, ?_⟩
      · refine List.pairwise_append.2 ⟨?_, hOrders, ?_⟩
        · exact List.pairwise_map.2
            (hOrder.imp fun h => List.cons_lt_cons_self.2 h)
        · intro p hp q hq
          obtain ⟨rest, -, rfl⟩ := List.mem_map.1 hp
          obtain ⟨j, hj, rest', rfl, -⟩ := (hMems q).1 hq
          exact .rel (hSorted.1 j hj)
      · intro path
        simp only [List.mem_append, List.mem_map, hMem, hMems,
          List.mem_cons, exists_eq_or_imp]
        apply or_congr_left
        constructor
        · rintro ⟨rest, hSome, rfl⟩
          exact ⟨rest, rfl, by rwa [at?_cons_of_child? hChild]⟩
        · rintro ⟨rest, rfl, hSome⟩
          exact ⟨rest, by rwa [at?_cons_of_child? hChild] at hSome, rfl⟩
      · simp only [List.flatten_cons, List.map_append, hTerms, hOthers,
          List.map_map]
        congr 1
        apply List.map_congr_left
        intro rest _
        exact (at?_cons_of_child? hChild rest).symm

/- A term and the tours of its parts are a tour of the term. -/
theorem IsTour.above
    (t : Term)
    (tours : List (List Term))
    (hTours : List.Forall₂ IsTour t.visitedParts tours) :
    t.IsTour (t :: tours.flatten) := by
  obtain ⟨paths, hOrder, hMem, hTerms⟩ :=
    t.exists_paths t.places tours t.pairwise_places
      (t.forall₂_places tours hTours)
  refine ⟨[] :: paths, ?_, ?_, by simp [at?, hTerms]⟩
  · refine List.pairwise_cons.2 ⟨?_, hOrder⟩
    intro path hPath
    obtain ⟨i, -, rest, rfl, -⟩ := (hMem path).1 hPath
    exact .nil
  · intro path
    cases path with
    | nil => simp [at?]
    | cons i rest =>
        simp only [List.mem_cons, List.cons_ne_nil, false_or, hMem]
        constructor
        · rintro ⟨_, _, _, _, hSome⟩
          exact hSome
        · intro hSome
          refine ⟨i, (t.mem_places i).2 ?_, rest, rfl, hSome⟩
          rw [at?] at hSome
          exact Option.isSome_of_isSome_bind hSome

------------------------------------------------------------
-- Walks
------------------------------------------------------------

theorem exists_mapM
    {α β : Type}
    {R : α → β → Prop}
    (f : α → Option β)
    (xs : List α)
    (hEach : ∀ x ∈ xs, ∃ y, f x = some y ∧ R x y) :
    ∃ ys, xs.mapM f = some ys ∧ List.Forall₂ R xs ys := by
  induction xs with
  | nil => exact ⟨[], rfl, .nil⟩
  | cons x xs ih =>
      obtain ⟨y, hy, hR⟩ := hEach x (by simp)
      obtain ⟨ys, hys, hAll⟩ := ih fun x' hx => hEach x' (by simp [hx])
      exact ⟨y :: ys, by simp [hy, hys], .cons hR hAll⟩

/-
  A walk that makes tours of the parts of what a term becomes
  changes nothing below it.
-/
theorem exists_walk?_of_parts
    (change : Term → Term)
    (n : Nat)
    (t : Term)
    (hParts : ∀ u ∈ (change t).visitedParts,
      ∃ w, walk? change n u = some w ∧ w.result = u ∧
        u.IsTour w.visited) :
    ∃ w tours, walk? change (n + 1) t = some w ∧
      w.result = change t ∧ w.visited = t :: tours.flatten ∧
      List.Forall₂ IsTour (change t).visitedParts tours := by
  obtain ⟨ws, hWalk, hAll⟩ :=
    exists_mapM (walk? change n) (change t).visitedParts hParts
  have hResults : ws.map Walk.result = (change t).visitedParts := by
    have hEq : List.Forall₂ (· = ·) (change t).visitedParts
        (ws.map Walk.result) :=
      List.forall₂_map_right_iff.2 (hAll.imp fun u w h => h.1.symm)
    rw [List.forall₂_eq_eq_eq] at hEq
    exact hEq.symm
  refine ⟨Walk.above t (change t) ws, ws.map Walk.visited,
    by simp [walk?, hWalk], ?_, by simp [Walk.above, List.flatMap],
    List.forall₂_map_right_iff.2 (hAll.imp fun u w h => h.2)⟩
  rw [Walk.above, hResults, withVisitedParts_visitedParts]

/-
  A walk whose change keeps all that it visits meets the terms
  of a tour, and makes the term that it began with.
-/
theorem exists_tour
    (change : Term → Term)
    (n : Nat)
    (t : Term)
    (hDepth : t.depth ≤ n)
    (hKept : ∀ path u, t.at? path = some u → change u = u) :
    ∃ w, t.walk? change n = some w ∧ w.result = t ∧
      t.IsTour w.visited := by
  induction n generalizing t with
  | zero =>
      have := t.depth_pos
      omega
  | succ n ih =>
      have hSelf : change t = t := hKept [] t rfl
      obtain ⟨w, tours, hWalk, hResult, hVisited, hTours⟩ :=
        exists_walk?_of_parts change n t (by
          rw [hSelf]
          intro u hu
          have hLess := t.depth_lt_of_mem u hu
          obtain ⟨i, hChild⟩ := exists_child? hu
          apply ih u (by omega)
          intro path v hv
          exact hKept (i :: path) v
            ((at?_cons_of_child? hChild path).trans hv))
      rw [hSelf] at hResult hTours
      exact ⟨w, hWalk, hResult, hVisited ▸ IsTour.above t tours hTours⟩

/- Replaced parts stand in the place of those that they replace. -/
theorem Replaces.withVisitedParts
    {isOld : Term → Bool}
    {new : Term}
    (t : Term)
    (rs : List Term)
    (hOther : isOld t = false)
    (hParts : List.Forall₂ (Replaces isOld new) t.visitedParts rs) :
    Replaces isOld new t (t.withVisitedParts rs) := by
  obtain ⟨ts, hEq, hLength, hHidden, hItems⟩ :=
    t.exists_withItems rs hParts.length_eq.symm
  have hPlaces : List.Forall₂
      (fun i item => ∃ u r, t.child? i = some u ∧ item = some r ∧
        Replaces isOld new u r)
      t.places (rs.map some) :=
    List.forall₂_map_right_iff.2
      ((t.forall₂_places rs hParts).imp
        fun i r ⟨u, hChild, hReplaces⟩ =>
          ⟨u, r, hChild, rfl, hReplaces⟩)
  rw [hItems, List.forall₂_map_right_iff, List.forall₂_same] at hPlaces
  rw [hEq]
  refine .inside hOther hLength hHidden fun i u r hChild hItem => ?_
  obtain ⟨u', r', hChild', hItem', hReplaces⟩ :=
    hPlaces i ((t.mem_places i).2 (by simp [hChild]))
  obtain rfl : u' = u := Option.some.inj (hChild'.symm.trans hChild)
  obtain rfl : r' = r := Option.some.inj (hItem'.symm.trans hItem)
  exact hReplaces

/-
  A walk that puts a term in place of all that are old goes on
  below the new term, where it finds nothing that is old.
-/
theorem exists_replacing
    (isOld : Term → Bool)
    (new : Term)
    (hInside : ∀ path u,
      path ≠ [] → new.at? path = some u → isOld u = false)
    (n : Nat)
    (t : Term)
    (hDepth : t.depth + new.depth ≤ n) :
    ∃ w, t.walk? (fun u => if isOld u then new else u) n = some w ∧
      Replaces isOld new t w.result := by
  induction n generalizing t with
  | zero =>
      have := t.depth_pos
      omega
  | succ n ih =>
      have hPos := t.depth_pos
      cases hOld : isOld t with
      | true =>
          obtain ⟨w, -, hWalk, hResult, -, -⟩ :=
            exists_walk?_of_parts
              (fun u => if isOld u then new else u) n t (by
                simp only [hOld, if_true]
                intro u hu
                have hLess := new.depth_lt_of_mem u hu
                obtain ⟨i, hChild⟩ := exists_child? hu
                apply exists_tour _ n u (by omega)
                intro path v hv
                have hAt : new.at? (i :: path) = some v :=
                  (at?_cons_of_child? hChild path).trans hv
                simp [hInside (i :: path) v (by simp) hAt])
          refine ⟨w, hWalk, ?_⟩
          rw [hResult, if_pos hOld]
          exact .here hOld
      | false =>
          obtain ⟨ws, hWalks, hAll⟩ :=
            exists_mapM
              (R := fun u w => Replaces isOld new u w.result)
              (walk? (fun u => if isOld u then new else u) n)
              t.visitedParts (by
                intro u hu
                have hLess := t.depth_lt_of_mem u hu
                exact ih u (by omega))
          refine ⟨Walk.above t t ws, by simp [walk?, hOld, hWalks], ?_⟩
          exact Replaces.withVisitedParts t _ hOld
            (List.forall₂_map_right_iff.2 hAll)

------------------------------------------------------------
-- Changes
------------------------------------------------------------

/-
  A walk that keeps every term meets the terms of a tour and
  makes the term that it began with. A walk that puts one term
  in place of another comes to an end if the new term does not
  hold the old one, and makes the only term in which all that
  are outermost are replaced.
-/
theorem exists_walk?
    (t : Term) :
    (∃ w, Change.keep.walk? t = some w ∧ w.result = t ∧
      t.IsTour w.visited) ∧
    ∀ old new : Term,
      (∀ path u, path ≠ [] → new.at? path = some u →
        u.same old = false) →
      ∃ w, (Change.replace old new).walk? t = some w ∧
        ∀ r, Replaces (·.same old) new t r ↔ w.result = r := by
  refine ⟨?_, ?_⟩
  · exact exists_tour _ _ t (by simp) fun _ _ _ => rfl
  · intro old new hInside
    obtain ⟨w, hWalk, hReplaces⟩ :=
      exists_replacing (·.same old) new hInside _ t le_rfl
    refine ⟨w, hWalk, fun r => ⟨fun h => hReplaces.eq h, ?_⟩⟩
    rintro rfl
    exact hReplaces

/- An old name may well be a name inside what stands for it. -/
theorem replaces_inside_own_call :
    let old := atom "a"
    let new := tuple [atom "a", list [atom "a"], integer 1]
    (∀ path u, path ≠ [] → new.at? path = some u →
      u.same old = false) ∧
    Replaces (·.same old) new
      (list [old, tuple [old, list [old], list [old]]])
      (list [new, tuple [old, list [old], list [new]]]) := by
  intro old new
  have hInside (path : List Nat) (u : Term)
      (hPath : path ≠ [])
      (hAt : new.at? path = some u) :
      u.same old = false := by
    rcases path with _ | ⟨_ | _ | _ | i, rest⟩
    · exact absurd rfl hPath
    · cases hAt
    · cases hAt
    · rcases rest with _ | ⟨j, rest⟩
      · cases hAt
        rfl
      · cases hAt
    · cases hAt
  obtain ⟨w, hWalk, hIff⟩ :=
    (exists_walk? (list [old, tuple [old, list [old], list [old]]])).2
      old new hInside
  refine ⟨hInside, (hIff _).2 ?_⟩
  cases hWalk
  rfl

end Term

end ElixirReader
