import ElixirReader.Proofs.Quote.CallText
import ElixirReader.Proofs.Quote.Congruence
import ElixirReader.Proofs.Render.Calls

/-
  This file shows that the code of a quoted tree does not depend
  on the positions that quoted calls tell. Two terms are alike if
  they are written the same, and in both of them what is written
  of a larger term is decided by the same.

  Key definitions include:
    * `Term.AreAlike`

  Main declarations:
    * `IsCallMetadata.marks_eq`
    * `congruence_areAlike`
    * `render_quote`
-/

namespace ElixirReader

open Written

------------------------------------------------------------
-- Terms
------------------------------------------------------------

/- Two terms are written alike, wherever they are put. -/
def Term.AreAlike
    (t t' : Term) : Prop :=
  t.written.muted = t'.written.muted

variable {t t' u u' : Term}
variable {ts ts' : List Term}

theorem Term.AreAlike.render_eq
    (hAlike : t.AreAlike t') :
    t.render = t'.render := by
  rw [Term.render, Term.render, ← text_muted t.written, hAlike,
    text_muted]

/- Terms that are written alike, one by one. -/
theorem map_muted_eq
    (hAll : List.Forall₂ Term.AreAlike ts ts') :
    (ts.map Term.written).map muted =
      (ts'.map Term.written).map muted := by
  induction hAll with
  | nil => rfl
  | cons hFirst _ ih =>
      rw [List.map_cons, List.map_cons, List.map_cons, List.map_cons,
        hFirst, ih]

theorem areAlike_list
    (hItems : List.Forall₂ Term.AreAlike ts ts') :
    (Term.list ts).AreAlike (.list ts') := by
  rw [Term.AreAlike, written_list, written_list, muted_list,
    muted_list, ← listText_muted, map_muted_eq hItems,
    listText_muted]

theorem areAlike_pair
    (hFirst : t.AreAlike t')
    (hSecond : u.AreAlike u') :
    (Term.pair t u).AreAlike (.pair t' u') := by
  have hSequence :
      sequence [t.written, u.written] [] =
        sequence [t'.written, u'.written] [] := by
    have hItems := map_muted_eq (.cons hFirst (.cons hSecond .nil))
    have hThis := sequence_muted ([t, u].map Term.written) []
    rw [hItems] at hThis
    exact hThis.symm.trans (sequence_muted _ [])
  have hWritten : ∀ t u : Term,
      (Term.pair t u).written =
        .tuple (braces (sequence [t.written, u.written] []))
          [t.written, u.written] := by
    intro t u
    rw [← tupleText_pair]
    rfl
  rw [Term.AreAlike, hWritten, hWritten, muted_pair, muted_pair,
    hSequence, hFirst, hSecond]

------------------------------------------------------------
-- Calls
------------------------------------------------------------

/-
  Apart from where they stand, quoted calls say the same with any
  metadata.
-/
theorem IsCallMetadata.marks_eq
    {metadata : Metadata → Term}
    (hMetadata : IsCallMetadata metadata)
    (m m' : Metadata) :
    ∃ items items',
      metadata m = .list items ∧ metadata m' = .list items' ∧
        ((items.map Term.written).map muted).filter isBareMark =
          ((items'.map Term.written).map muted).filter
            isBareMark := by
  cases hMetadata <;> cases m <;> cases m' <;>
    exact ⟨_, _, rfl, rfl, rfl⟩

theorem written_call
    (name args : Term)
    (metadata : List Term) :
    (Term.call name (.list metadata) args).written =
      .tuple
        (callText name.written (Term.list metadata).written
          (metadata.map Term.written) args.written)
        [name.written, (Term.list metadata).written,
          args.written] := by
  rw [← Term.writtenAll_eq_map]
  rfl

variable {metadata metadata' : List Term}

/- Calls are alike if their parts and their own texts are. -/
theorem areAlike_call
    (hText :
      callText t.written (Term.list metadata).written
          (metadata.map Term.written) u.written =
        callText t'.written (Term.list metadata').written
          (metadata'.map Term.written) u'.written)
    (hName : t.AreAlike t')
    (hMarks :
      ((metadata.map Term.written).map muted).filter isBareMark =
        ((metadata'.map Term.written).map muted).filter isBareMark)
    (hArgs : u.AreAlike u') :
    (Term.call t (.list metadata) u).AreAlike
      (.call t' (.list metadata') u') := by
  rw [Term.AreAlike, written_call, written_call, written_list,
    written_list, muted_call, muted_call, ← written_list,
    ← written_list, hText, hName, hMarks, hArgs]

theorem callText_name
    (name : String)
    (metadata args : List Term) :
    callText (Term.atom name).written (Term.list metadata).written
        (metadata.map Term.written) (Term.list args).written =
      namedCall name (args.map Term.written) := by
  rw [← Term.writtenAll_eq_map, ← Term.writtenAll_eq_map]
  rfl

theorem callText_dot
    (m : Metadata)
    (span : Span)
    (sides metadata args : List Term) :
    callText (Construct.dot m span sides).written
        (Term.list metadata).written (metadata.map Term.written)
        (Term.list args).written =
      dotCall (Construct.dot m span sides).written
        (metadata.map Term.written) (args.map Term.written) := by
  rw [← Term.writtenAll_eq_map, ← Term.writtenAll_eq_map]
  rfl

------------------------------------------------------------
-- Trees
------------------------------------------------------------

/- All forms of code go along with being written alike. -/
theorem congruence_areAlike
    (m m' : Metadata) :
    Congruence m m' Term.AreAlike := by
  refine ⟨fun _ => rfl, fun _ => rfl, fun _ => rfl, fun _ => rfl,
    areAlike_list, areAlike_pair, ?_, ?_⟩
  · intro name span
    obtain ⟨items, items', hItems, hItems', hMarks⟩ :=
      (IsCallMetadata.place span).marks_eq m m'
    rw [hItems, hItems']
    exact areAlike_call rfl rfl hMarks rfl
  · intro metadata name name' args args' hMetadata hCallees hName hArgs
    obtain ⟨items, items', hItems, hItems', hMarks⟩ :=
      hMetadata.marks_eq m m'
    have hArgsEq := map_muted_eq hArgs
    rw [hItems, hItems']
    refine areAlike_call ?_ hName hMarks (areAlike_list hArgs)
    cases hCallees with
    | name name =>
        rw [callText_name, callText_name, ← namedCall_muted,
          hArgsEq, namedCall_muted]
    | dot span hSides =>
        rw [callText_dot, callText_dot, ← dotCall_muted, hName,
          hMarks, hArgsEq, dotCall_muted]

/-
  The code of a tree, and that of a document, is the same with
  any positions.
-/
theorem render_quote
    (m m' : Metadata) :
    (∀ n : Node, (n.quote m).render = (n.quote m').render) ∧
      ∀ d : Document, (d.quote m).render = (d.quote m').render :=
  ⟨fun n => ((congruence_areAlike m m').quote n).render_eq,
    fun d => ((congruence_areAlike m m').quoteDocument d).render_eq⟩

end ElixirReader
