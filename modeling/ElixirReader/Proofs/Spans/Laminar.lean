import ElixirReader.Proofs.Errors.Reading

/-
  This file defines when the spans of a tree are laminar: what
  is below a node lies inside of its span, side by side and in
  order. A stretch of the source holds some trees if they lie
  in it so, unless there is an error among them, the span of
  which may be anywhere.

  Key definitions include:
    * `SideBySide`
    * `Node.IsLaminar`
    * `Laid`
    * `Fits`
    * `Holds`
    * `Stretched`

  Main declarations:
    * `isLaminar_mk`
    * `Fits.append`
    * `Holds.fits`
-/

namespace ElixirReader

variable {a b c : Nat}
variable {x : Span}
variable {xs ys : List Span}
variable {n m : Node}
variable {ns ms : List Node}
variable {f : Form Node}
variable {span : Span}

------------------------------------------------------------
-- Spans side by side
------------------------------------------------------------

/- Spans between two offsets, each behind the one before it. -/
def SideBySide : Nat → List Span → Nat → Prop
| a, [], b => a ≤ b
| a, x :: xs, b =>
    a ≤ x.start ∧ x.start ≤ x.stop ∧ SideBySide x.stop xs b

namespace SideBySide

theorem le
    (hSpans : SideBySide a xs b) :
    a ≤ b := by
  induction xs generalizing a with
  | nil => exact hSpans
  | cons x xs ih =>
      rcases hSpans with ⟨hStart, hStop, hMore⟩
      have hLe := ih hMore
      omega

theorem mono
    {a' b' : Nat}
    (hSpans : SideBySide a xs b)
    (hStart : a' ≤ a)
    (hStop : b ≤ b') :
    SideBySide a' xs b' := by
  induction xs generalizing a a' with
  | nil => exact Nat.le_trans (Nat.le_trans hStart hSpans) hStop
  | cons x xs ih =>
      exact ⟨Nat.le_trans hStart hSpans.1, hSpans.2.1,
        ih hSpans.2.2 (Nat.le_refl _)⟩

theorem append_iff :
    SideBySide a (xs ++ ys) b ↔
      ∃ c, SideBySide a xs c ∧ SideBySide c ys b := by
  constructor
  · intro hBoth
    induction xs generalizing a with
    | nil => exact ⟨a, Nat.le_refl a, hBoth⟩
    | cons x xs ih =>
        rcases hBoth with ⟨hStart, hStop, hMore⟩
        rcases ih hMore with ⟨c, hFirst, hSecond⟩
        exact ⟨c, ⟨hStart, hStop, hFirst⟩, hSecond⟩
  · rintro ⟨c, hFirst, hSecond⟩
    induction xs generalizing a with
    | nil => exact hSecond.mono hFirst (Nat.le_refl b)
    | cons x xs ih =>
        exact ⟨hFirst.1, hFirst.2.1, ih hFirst.2.2⟩

/- The others go on where some of the spans end. -/
theorem behind
    (hSpans : SideBySide a (xs ++ ys) b) :
    SideBySide a xs ((xs.getLast?.map Span.stop).getD a) ∧
      SideBySide ((xs.getLast?.map Span.stop).getD a) ys b := by
  induction xs generalizing a with
  | nil => exact ⟨Nat.le_refl a, hSpans⟩
  | cons x xs ih =>
      rcases hSpans with ⟨hStart, hStop, hMore⟩
      have hLast :
          ((x :: xs).getLast?.map Span.stop).getD a =
            (xs.getLast?.map Span.stop).getD x.stop := by
        cases xs with
        | nil => rfl
        | cons y ys =>
            rw [List.getLast?_cons_cons]
            cases hLast : (y :: ys).getLast? with
            | none =>
                cases List.getLast?_eq_none_iff.mp hLast
            | some z => rfl
      rw [hLast]
      exact ⟨⟨hStart, hStop, (ih hMore).1⟩, (ih hMore).2⟩

theorem of_mem
    (hSpans : SideBySide a xs b)
    (hMem : x ∈ xs) :
    a ≤ x.start ∧ x.start ≤ x.stop ∧ x.stop ≤ b := by
  rcases List.append_of_mem hMem with ⟨front, back, rfl⟩
  rcases append_iff.mp hSpans with
    ⟨c, hFront, hStart, hStop, hBack⟩
  exact ⟨Nat.le_trans hFront.le hStart, hStop, hBack.le⟩

theorem pairwise
    (hSpans : SideBySide a xs b) :
    xs.Pairwise fun x y => x.stop ≤ y.start := by
  induction xs generalizing a with
  | nil => exact List.Pairwise.nil
  | cons x xs ih =>
      exact List.Pairwise.cons
        (fun y hMem => (hSpans.2.2.of_mem hMem).1)
        (ih hSpans.2.2)

end SideBySide

------------------------------------------------------------
-- Laminar trees
------------------------------------------------------------

/-
  The children of every node of a tree lie in the span of that
  node, side by side and in their order.
-/
def Node.IsLaminar
    (n : Node) : Prop :=
  ∀ m ∈ n.preorder,
    SideBySide m.span.start (m.children.map Node.span) m.span.stop

/- Laminar trees side by side between two offsets. -/
structure Laid
    (a : Nat)
    (ns : List Node)
    (b : Nat) : Prop where
  spans : SideBySide a (ns.map Node.span) b
  laminar : ∀ n ∈ ns, n.IsLaminar

/- A tree is laminar if those right below it lie in its span. -/
theorem isLaminar_mk :
    Node.IsLaminar ⟨f, span⟩ ↔
      Laid span.start f.nodes span.stop := by
  unfold Node.IsLaminar
  rw [Node.preorder_eq]
  constructor
  · intro hAll
    refine ⟨hAll _ List.mem_cons_self, ?_⟩
    intro n hChild m hMem
    apply hAll
    exact List.mem_cons_of_mem _
      (List.mem_flatMap.mpr ⟨n, hChild, hMem⟩)
  · intro hLaid m hMem
    rcases List.mem_cons.mp hMem with rfl | hMem
    · exact hLaid.spans
    · rcases List.mem_flatMap.mp hMem with ⟨n, hChild, hMem⟩
      exact hLaid.laminar n hChild m hMem

namespace Laid

theorem nil
    (hLe : a ≤ b) :
    Laid a [] b :=
  ⟨hLe, by simp⟩

theorem le
    (hLaid : Laid a ns b) :
    a ≤ b :=
  hLaid.spans.le

theorem mono
    {a' b' : Nat}
    (hLaid : Laid a ns b)
    (hStart : a' ≤ a)
    (hStop : b ≤ b') :
    Laid a' ns b' :=
  ⟨hLaid.spans.mono hStart hStop, hLaid.laminar⟩

theorem append_iff :
    Laid a (ns ++ ms) b ↔ ∃ c, Laid a ns c ∧ Laid c ms b := by
  constructor
  · rintro ⟨hSpans, hLaminar⟩
    rw [List.map_append, SideBySide.append_iff] at hSpans
    rcases hSpans with ⟨c, hFirst, hSecond⟩
    refine ⟨c, ⟨hFirst, ?_⟩, ⟨hSecond, ?_⟩⟩
    · exact fun n hMem =>
        hLaminar n (List.mem_append_left ms hMem)
    · exact fun n hMem =>
        hLaminar n (List.mem_append_right ns hMem)
  · rintro ⟨c, hFirst, hSecond⟩
    refine ⟨?_, ?_⟩
    · rw [List.map_append]
      exact SideBySide.append_iff.mpr
        ⟨c, hFirst.spans, hSecond.spans⟩
    · intro n hMem
      rcases List.mem_append.mp hMem with hMem | hMem
      · exact hFirst.laminar n hMem
      · exact hSecond.laminar n hMem

theorem cons_iff :
    Laid a (n :: ns) b ↔
      a ≤ n.span.start ∧ n.span.start ≤ n.span.stop ∧
        n.IsLaminar ∧ Laid n.span.stop ns b := by
  constructor
  · rintro ⟨⟨hStart, hStop, hMore⟩, hLaminar⟩
    refine ⟨hStart, hStop, hLaminar n List.mem_cons_self,
      hMore, ?_⟩
    exact fun m hMem => hLaminar m (List.mem_cons_of_mem n hMem)
  · rintro ⟨hStart, hStop, hFirst, hMore⟩
    refine ⟨⟨hStart, hStop, hMore.spans⟩, ?_⟩
    intro m hMem
    rcases List.mem_cons.mp hMem with rfl | hMem
    · exact hFirst
    · exact hMore.laminar m hMem

theorem cons_iff_exists :
    Laid a (n :: ns) b ↔ ∃ c, Laid a [n] c ∧ Laid c ns b := by
  rw [← List.singleton_append]
  exact append_iff

/- What lies in a stretch is one tree with its own span. -/
theorem singleton_iff :
    Laid a [n] b ↔
      a ≤ n.span.start ∧ n.span.stop ≤ b ∧ n.IsLaminar := by
  rw [cons_iff]
  constructor
  · rintro ⟨hStart, _, hLaminar, hStop⟩
    exact ⟨hStart, hStop.le, hLaminar⟩
  · rintro ⟨hStart, hStop, hLaminar⟩
    rcases n with ⟨f, span⟩
    exact ⟨hStart, (isLaminar_mk.mp hLaminar).le, hLaminar,
      nil hStop⟩

end Laid

------------------------------------------------------------
-- Trees in a stretch of the source
------------------------------------------------------------

/- Trees without an error lie between two offsets. -/
def Fits
    (a : Nat)
    (ns : List Node)
    (b : Nat) : Prop :=
  ¬ HasError ns → Laid a ns b

/-
  Trees without an error lie in a span, and that lies between
  two offsets.
-/
def Holds
    (a : Nat)
    (span : Span)
    (ns : List Node)
    (b : Nat) : Prop :=
  ¬ HasError ns →
    a ≤ span.start ∧ Laid span.start ns span.stop ∧ span.stop ≤ b

/-
  So do trees in a span that starts with another one, all of
  them behind an offset.
-/
def Stretched
    (a : Nat)
    (opened span : Span)
    (ns : List Node)
    (b : Nat) : Prop :=
  ¬ HasError ns →
    span.start = opened.start ∧ Laid a ns span.stop ∧
      span.stop ≤ b

namespace Fits

theorem nil
    (hLe : a ≤ b) :
    Fits a [] b :=
  fun _ => Laid.nil hLe

theorem of_hasError
    (hError : HasError ns) :
    Fits a ns b :=
  fun hNone => absurd hError hNone

theorem mono
    {a' b' : Nat}
    (hFits : Fits a ns b)
    (hStart : a' ≤ a)
    (hStop : b ≤ b') :
    Fits a' ns b' :=
  fun hNone => (hFits hNone).mono hStart hStop

theorem append
    (hFirst : Fits a ns c)
    (hSecond : Fits c ms b) :
    Fits a (ns ++ ms) b := by
  intro hNone
  rw [hasError_append, not_or] at hNone
  exact Laid.append_iff.mpr
    ⟨c, hFirst hNone.1, hSecond hNone.2⟩

theorem cons
    (hFirst : Fits a [n] c)
    (hSecond : Fits c ns b) :
    Fits a (n :: ns) b :=
  hFirst.append hSecond

end Fits

namespace Holds

/- A node whose span holds what is below it. -/
theorem fits
    (hHolds : Holds a span f.nodes b)
    (hForm : Node.isError ⟨f, span⟩ = false) :
    Fits a [⟨f, span⟩] b := by
  intro hNone
  rw [hasError_cons, containsError_mk span hForm, not_or]
    at hNone
  rcases hHolds hNone.1 with ⟨hStart, hLaid, hStop⟩
  exact Laid.singleton_iff.mpr
    ⟨hStart, hStop, isLaminar_mk.mpr hLaid⟩

/- What a span holds lies where the span does. -/
theorem inside
    (hHolds : Holds a span ns b) :
    Fits a ns b := by
  intro hNone
  rcases hHolds hNone with ⟨hStart, hLaid, hStop⟩
  exact hLaid.mono hStart hStop

/- A span over all that lies in it. -/
theorem of_fits
    (hFits : Fits span.start ns span.stop)
    (hStart : a ≤ span.start)
    (hStop : span.stop ≤ b) :
    Holds a span ns b :=
  fun hNone => ⟨hStart, hFits hNone, hStop⟩

theorem mono
    {a' b' : Nat}
    (hHolds : Holds a span ns b)
    (hStart : a' ≤ a)
    (hStop : b ≤ b') :
    Holds a' span ns b' := by
  intro hNone
  rcases hHolds hNone with ⟨hStart', hLaid, hStop'⟩
  exact ⟨Nat.le_trans hStart hStart', hLaid,
    Nat.le_trans hStop' hStop⟩

/- A mark before what a span holds may be added to the span. -/
theorem behind_mark
    {mark : Span}
    (hHolds : Holds a span ns b)
    (hMark : mark.start ≤ mark.stop)
    (hBefore : mark.stop ≤ a) :
    Holds mark.start (mark.merge span) ns b := by
  intro hNone
  rcases hHolds hNone with ⟨hStart, hLaid, hStop⟩
  have hLe := hLaid.le
  rw [Span.start_merge, Span.stop_merge]
  refine ⟨by omega, hLaid.mono (by omega) (by omega), by omega⟩

end Holds

theorem Stretched.holds
    {opened : Span}
    (hStretched : Stretched c opened span ns b)
    (hOpened : opened.start ≤ c) :
    Holds opened.start span ns b := by
  intro hNone
  rcases hStretched hNone with ⟨hSame, hLaid, hStop⟩
  exact ⟨Nat.le_of_eq hSame.symm,
    hLaid.mono (by omega) (Nat.le_refl _), hStop⟩

/- A tree lies in its own span. -/
theorem Fits.holds
    (hFits : Fits a [n] b) :
    Holds a n.span [n] b := by
  intro hNone
  rcases Laid.singleton_iff.mp (hFits hNone) with
    ⟨hStart, hStop, hLaminar⟩
  refine ⟨hStart, ?_, hStop⟩
  exact Laid.singleton_iff.mpr
    ⟨Nat.le_refl _, Nat.le_refl _, hLaminar⟩

/- A tree before what a span holds may be added to the span. -/
theorem Fits.holds_before
    (hFits : Fits a [n] c)
    (hHolds : Holds c span ns b) :
    Holds a (n.span.merge span) (n :: ns) b := by
  intro hNone
  rw [hasError_cons, not_or] at hNone
  have hLaid := hFits (by simpa using hNone.1)
  rcases hHolds hNone.2 with ⟨hStart, hMore, hStop⟩
  rcases Laid.cons_iff.mp hLaid with
    ⟨hBefore, hOwn, hLaminar, hEnd⟩
  have hFirst := hEnd.le
  have hLe := hMore.le
  rw [Span.start_merge, Span.stop_merge]
  refine ⟨by omega, ?_, by omega⟩
  exact Laid.cons_iff.mpr ⟨by omega, hOwn, hLaminar,
    hMore.mono (by omega) (by omega)⟩

end ElixirReader
