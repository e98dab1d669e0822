import ElixirReader.Lexer.Basic
import Mathlib.Data.String.Basic

/-
  This file shows that a lexer takes a source apart into
  tokens that lie side by side: no token is empty, each one
  starts where the one before it stopped, and each text is
  what the source has between the two ends of its span. Since
  every token takes a character, there is only a finite
  number of them.

  Key definitions include:
    * `Tiles`
    * `Lexer.Reads`

  Main declarations:
    * `Lexer.Reads.next`
    * `Lexer.Reads.take`
    * `Lexer.tiles_drain_startingIn`
    * `exists_tiles_tokenize`
-/

namespace ElixirReader

open String (utf8Len)

------------------------------------------------------------
-- Tilings
------------------------------------------------------------

/-
  The tokens cover a source from a byte offset to its end.
  The ends of each span are places between two characters.
-/
inductive Tiles
    (source : String) : Nat → List Token → Prop where
| none :
    Tiles source source.utf8ByteSize []
| token
    (t : Token)
    (ts : List Token)
    (hText : t.text ≠ "")
    (hSpan : t.span.start < t.span.stop)
    (hStart : String.Pos.Raw.IsValid source ⟨t.span.start⟩)
    (hStop : String.Pos.Raw.IsValid source ⟨t.span.stop⟩)
    (hSlice :
      String.Pos.Raw.extract source ⟨t.span.start⟩
        ⟨t.span.stop⟩ = t.text)
    (hRest : Tiles source t.span.stop ts) :
    Tiles source t.span.start (t :: ts)

/- Tokens that tile a source are not empty, and in order. -/
theorem Tiles.apart
    {source : String}
    {a : Nat}
    {ts : List Token}
    (hTiles : Tiles source a ts) :
    (∀ t ∈ ts, a ≤ t.span.start ∧ t.span.start < t.span.stop) ∧
      ts.Pairwise fun t u => t.span.stop ≤ u.span.start := by
  induction hTiles with
  | none => exact ⟨fun _ hMem => (List.not_mem_nil hMem).elim, .nil⟩
  | token t ts _ hSpan _ _ _ _ ih =>
      constructor
      · intro u hMem
        rcases List.mem_cons.mp hMem with rfl | hLater
        · exact ⟨Nat.le_refl _, hSpan⟩
        · have hInside := ih.1 u hLater
          omega
      · exact List.pairwise_cons.mpr
          ⟨fun u hLater => (ih.1 u hLater).1, ih.2⟩

/- The source can be cut at both ends of each token. -/
theorem Tiles.isValid
    {source : String}
    {a : Nat}
    {ts : List Token}
    (hTiles : Tiles source a ts) :
    ∀ t ∈ ts,
      String.Pos.Raw.IsValid source ⟨t.span.start⟩ ∧
        String.Pos.Raw.IsValid source ⟨t.span.stop⟩ := by
  induction hTiles with
  | none => exact fun _ hMem => (List.not_mem_nil hMem).elim
  | token t ts _ _ hStart hStop _ _ ih =>
      exact List.forall_mem_cons.mpr ⟨⟨hStart, hStop⟩, ih⟩

/- A part of the source ends between two characters. -/
theorem isValid_utf8Len
    {source : String}
    {before rest : List Char}
    (hSource : source.toList = before ++ rest) :
    String.Pos.Raw.IsValid source ⟨utf8Len before⟩ := by
  apply String.Pos.Raw.isValid_iff_exists_append.mpr
  refine ⟨String.ofList before, String.ofList rest, ?_, ?_⟩
  · rw [← String.ofList_append, ← hSource,
      String.ofList_toList]
  · rw [← String.utf8ByteSize_ofList]
    rfl

/- What a source has between the ends of two of its parts. -/
theorem extract_utf8Len
    {source : String}
    {before text rest : List Char}
    (hSource : source.toList = before ++ text ++ rest) :
    String.Pos.Raw.extract source ⟨utf8Len before⟩
        ⟨utf8Len (before ++ text)⟩ =
      String.ofList text := by
  have hExtract := String.extract_of_valid before text rest
  rw [← hSource, String.ofList_toList] at hExtract
  rw [String.utf8Len_append]
  exact hExtract

theorem Position.offset_after
    (p : Position)
    (text : List Char) :
    (p.after text).offset = p.offset + utf8Len text := by
  induction text generalizing p with
  | nil => rfl
  | cons c text ih =>
      have hNext : (p.next c).offset = p.offset + c.utf8Size := by
        unfold Position.next
        split <;> rfl
      rw [Position.after_cons, ih, hNext, String.utf8Len_cons]
      omega

namespace Lexer

------------------------------------------------------------
-- One token
------------------------------------------------------------

/- A lexer that nobody stops stands behind a part of a source. -/
structure Reads
    (source : String)
    (before : List Char)
    (l : Lexer) : Prop where
  source_eq : source.toList = before ++ l.rest
  offset_eq : l.here.offset = utf8Len before
  raised : l.raised = false
  stopped : l.stopped = false

/-
  A lexer starts behind the byte order mark, which takes up
  three bytes, or at the very start of the source.
-/
theorem reads_startingIn
    (mode : Mode)
    (source : String) :
    ∃ before,
      Reads source before (startingIn mode source) ∧
        utf8Len before =
          if source.toList.head? = some byteOrderMark then 3
          else 0 := by
  cases hList : source.toList with
  | nil =>
      refine ⟨[], ⟨?_, ?_, rfl, rfl⟩, rfl⟩
      · simp [startingIn, hList, body]
      · simp [startingIn, hList, origin]
  | cons c cs =>
      by_cases hMark : c = byteOrderMark
      · subst hMark
        refine ⟨[byteOrderMark], ⟨?_, ?_, rfl, rfl⟩, ?_⟩
        · simp [startingIn, hList, body]
        · simp [startingIn, hList, origin]
        · simp
          rfl
      · refine ⟨[], ⟨?_, ?_, rfl, rfl⟩, ?_⟩
        · simp [startingIn, hList, body, hMark]
        · simp [startingIn, hList, origin, hMark]
        · simp [hMark]

/- A token moves the lexer on by the text that it takes. -/
theorem Reads.next
    {source : String}
    {before : List Char}
    {l : Lexer}
    {c : Char}
    {cs : List Char}
    (hReads : Reads source before l)
    (hRest : l.rest = c :: cs) :
    ∃ more token,
      l.next.1 = some token ∧
        token.text = String.ofList (c :: cs.take more) ∧
        token.span.start = utf8Len before ∧
        token.span.stop =
          utf8Len (before ++ c :: cs.take more) ∧
        l.next.2.rest = cs.drop more ∧
        Reads source (before ++ c :: cs.take more)
          l.next.2 := by
  let t := l.transition c cs
  let text := c :: cs.take t.more
  have hNext :
      l.next =
        (some (l.tokenOf t text),
          l.past t text (cs.drop t.more)) := by
    unfold Lexer.next
    rw [hReads.stopped, hReads.raised, hRest]
    rfl
  have hAfter :
      (l.here.after text).offset = utf8Len (before ++ text) := by
    rw [Position.offset_after, hReads.offset_eq,
      String.utf8Len_append]
  refine ⟨t.more, l.tokenOf t text, ?_, rfl, ?_, ?_, ?_, ?_⟩
  · rw [hNext]
  · exact hReads.offset_eq
  · exact hAfter
  · rw [hNext]
    rfl
  · rw [hNext]
    refine ⟨?_, hAfter, hReads.raised, hReads.stopped⟩
    change source.toList = before ++ text ++ cs.drop t.more
    rw [hReads.source_eq, hRest]
    simp [text]

/- At the end of the source there is no token, ever again. -/
theorem Reads.next_of_rest_nil
    {source : String}
    {before : List Char}
    {l : Lexer}
    (hReads : Reads source before l)
    (hRest : l.rest = []) :
    l.next.1 = none ∧ l.next.2.next = (none, l.next.2) := by
  have hNext : l.next = (none, l.finish) := by
    unfold Lexer.next
    rw [hReads.stopped, hReads.raised, hRest]
    rfl
  rw [hNext]
  refine ⟨rfl, ?_⟩
  change l.finish.next = (none, l.finish)
  unfold finish
  split
  · rename_i hEnded
    rw [hNext]
    unfold finish
    rw [if_pos hEnded]
  · unfold Lexer.next
    simp [hReads.stopped, hReads.raised, hRest, finish]

------------------------------------------------------------
-- All tokens
------------------------------------------------------------

/-
  More requests than there are characters left find every
  token: they tile what is left of the source.
-/
theorem Reads.take
    {source : String}
    {before : List Char}
    {l : Lexer}
    {n : Nat}
    (hReads : Reads source before l)
    (hEnough : l.rest.length < n) :
    (l.take n).1.length ≤ l.rest.length ∧
      Tiles source (utf8Len before)
        ((l.take n).1.map (·.1)) ∧
      String.join ((l.take n).1.map (·.1.text)) =
        String.ofList l.rest ∧
      (l.take n).2.next = (none, (l.take n).2) := by
  induction n generalizing l before with
  | zero => omega
  | succ n ih =>
      cases hRest : l.rest with
      | nil =>
          rcases hReads.next_of_rest_nil hRest with
            ⟨hNone, hEnded⟩
          have hEnd : utf8Len before = source.utf8ByteSize := by
            rw [← String.utf8Len_toList, hReads.source_eq,
              hRest, List.append_nil]
          rw [take_of_none n hNone]
          refine ⟨Nat.le_refl 0, ?_, ?_, hEnded⟩
          · rw [hEnd]
            exact .none
          · simp
      | cons c cs =>
          rcases hReads.next hRest with
            ⟨more, token, hSome, hText, hStart, hStop, hRest',
              hReads'⟩
          let text := c :: cs.take more
          have hFewer : l.next.2.rest.length < n := by
            rw [hRest', List.length_drop]
            rw [hRest, List.length_cons] at hEnough
            omega
          rcases ih hReads' hFewer with
            ⟨hLength, hTiles, hJoin, hEnded⟩
          rw [take_of_some n hSome]
          have hSource :
              source.toList = before ++ text ++ cs.drop more := by
            rw [hReads'.source_eq, hRest']
          refine ⟨?_, ?_, ?_, hEnded⟩
          · rw [hRest', List.length_drop] at hLength
            simp only [List.length_cons]
            omega
          · rw [← hStart]
            rw [← hStop] at hTiles
            refine .token token _ ?_ ?_ ?_ ?_ ?_ hTiles
            · rw [hText]
              simp
            · rw [hStart, hStop, String.utf8Len_append,
                String.utf8Len_cons]
              have hSize := c.utf8Size_pos
              omega
            · rw [hStart]
              exact isValid_utf8Len hReads.source_eq
            · rw [hStop]
              exact isValid_utf8Len hReads'.source_eq
            · rw [hStart, hStop, hText]
              exact extract_utf8Len hSource
          · rw [List.map_cons, String.join_cons, hJoin, hText,
              hRest', ← String.ofList_append,
              List.cons_append, List.take_append_drop]

/- A token takes up at least one character. -/
theorem length_rest_next
    {l : Lexer}
    {token : Token}
    (hSome : l.next.1 = some token) :
    l.next.2.rest.length < l.rest.length := by
  unfold Lexer.next at hSome ⊢
  split at hSome
  · cases hSome
  · split at hSome
    · cases hSome
    · rename_i hStopped hRaised
      rw [if_neg hStopped, if_neg hRaised]
      cases hRest : l.rest with
      | nil =>
          rw [hRest] at hSome
          cases hSome
      | cons c cs =>
          change (cs.drop _).length < (c :: cs).length
          rw [List.length_drop, List.length_cons]
          omega

/- More requests than are needed change nothing. -/
theorem take_eq_take
    {l : Lexer}
    {m n : Nat}
    (hLess : l.rest.length < m)
    (hMore : l.rest.length < n) :
    l.take m = l.take n := by
  induction m generalizing l n with
  | zero => omega
  | succ m ih =>
      cases n with
      | zero => omega
      | succ n =>
          cases hNext : l.next.1 with
          | none => rw [take_of_none m hNext, take_of_none n hNext]
          | some token =>
              have hFewer := length_rest_next hNext
              have hSame : l.next.2.take m = l.next.2.take n :=
                ih (by omega) (by omega)
              rw [take_of_some m hNext, take_of_some n hNext,
                hSame]

end Lexer

/- The tokens of a source tile it, up to its end. -/
theorem exists_tiles_tokenize
    (source : String) :
    ∃ a, Tiles source a (tokenize source).1 := by
  rcases Lexer.reads_startingIn .initial source with
    ⟨before, hReads, _⟩
  exact ⟨_, (hReads.take (Nat.lt_succ_self _)).2.1⟩

end ElixirReader
