import ElixirReader.Proofs.Lexer.Frames

/-
  This file shows that a token takes no more characters than
  are left of the source.

  Main declarations:
    * `Transition.Code.more_le`
    * `Transition.of_more_le`
    * `Lexer.Coherent.more_le`
-/

namespace ElixirReader

open Transition Unicode

namespace Transition

variable {mode : Mode}
variable {top : Option Frame}
variable {c : Char}
variable {cs : List Char}
variable {g : Group}

/- Outside of literals no token reaches beyond what is left. -/
theorem Code.more_le
    {t : Transition}
    (hCode : Code mode top c cs t) :
    t.more ≤ cs.length := by
  cases hCode with
  | fixed _ _ _ _ hMore => exact hMore
  | space _ _ _ _ _ hMore => exact hMore
  | digits _ _ _ _ hMore => exact hMore
  | character _ _ hMore => exact hMore
  | sigilName _ _ _ _ hMore => exact hMore
  | opensCurly => exact Nat.zero_le _
  | closesCurly =>
      unfold closeCurly
      split <;> exact Nat.zero_le _
  | opens g hDelimits =>
      unfold promoter
      dsimp only [plain]
      split
      · exact isTriple_le (hDelimits.heredoc ‹_›).2.1
      · exact Nat.zero_le _

------------------------------------------------------------
-- Bodies of literals
------------------------------------------------------------

theorem body_more_le :
    (body g c cs).more ≤ cs.length := by
  unfold body
  split
  · exact backslashTail_le cs
  · split
    · rename_i hStarts
      exact Nat.succ_le_of_lt (List.length_pos_of_mem
        (List.mem_of_head? hStarts.2.2))
    · have hLength := fragmentLength_le g (c :: cs)
      rw [List.length_cons] at hLength
      change fragmentLength g (c :: cs) - 1 ≤ _
      omega

theorem heredocStart_more_le :
    (heredocStart c cs).more ≤ cs.length := by
  unfold heredocStart
  split
  · exact countWhile_le _ cs
  · split
    · exact lineBreakTail_le c cs
    · exact countWhile_le _ cs

theorem terminator_more_le
    (hTriple : g.layout = .heredoc → isTriple c cs = true) :
    (terminator g).more ≤ cs.length := by
  unfold terminator
  dsimp only [plain]
  split
  · exact isTriple_le (hTriple ‹_›)
  · exact Nat.zero_le _

theorem heredocLineStart_more_le :
    (heredocLineStart g c cs).more ≤ cs.length := by
  unfold heredocLineStart
  split
  · exact countWhile_le _ cs
  · split
    · exact terminator_more_le fun _ => (‹_ ∧ _›).2
    · exact body_more_le

------------------------------------------------------------
-- All tokens
------------------------------------------------------------

theorem group_more_le
    (hQuoted : g.layout = .quoted) :
    (group g c cs).more ≤ cs.length := by
  unfold group
  split
  · apply terminator_more_le (c := c)
    rw [hQuoted]
    exact Layout.noConfusion
  · exact body_more_le

/- A token is not longer than what is left. -/
theorem of_more_le
    (pending : Option Bool)
    (hQuoted : mode = .group →
      (currentGroup .quoted top).layout = .quoted) :
    (of mode pending top c cs).more ≤ cs.length := by
  cases hGroup : mode.isGroup with
  | false => exact (of_code pending hGroup).more_le
  | true =>
      cases mode <;> try cases hGroup
      · exact group_more_le (hQuoted rfl)
      · exact heredocStart_more_le
      · exact heredocLineStart_more_le
      · exact body_more_le

end Transition

namespace Lexer

/- The next token of a lexer is not longer than what is left. -/
theorem Coherent.more_le
    {l : Lexer}
    (c : Char)
    (cs : List Char)
    (hCoherent : Coherent l) :
    (l.transition c cs).more ≤ cs.length := by
  apply of_more_le
  intro hMode
  rcases hCoherent.group_iff.mp (by rw [hMode]; rfl) with
    ⟨g, opened, fs, hFrames⟩
  rw [hFrames]
  change g.layout = .quoted
  cases hLayout : g.layout with
  | quoted => rfl
  | heredoc =>
      exact absurd hMode
        ((hCoherent.heredoc_iff g opened fs hFrames).mp hLayout)

end Lexer

end ElixirReader
