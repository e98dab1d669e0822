import ElixirReader.Render.Block
import Mathlib.Data.List.Chain

/-
  This file describes how the lines of a source move to the
  right when a body is indented. A neat text has something on
  each of its lines, so every line but the first one moves at
  its line break.

  Key definitions include:
    * `Written.deepened`
    * `Written.IsLine`
    * `Written.IsNeat`

  Main declarations:
    * `Written.deepened_deepened`
    * `Written.IsNeat.deepened`
    * `Written.IsNeat.indent_eq`
-/

namespace ElixirReader.Written

------------------------------------------------------------
-- Moving lines
------------------------------------------------------------

/- A text with so many blanks behind each line break. -/
def deepened
    (depth : Nat)
    (text : List Char) : List Char :=
  text.flatMap fun c =>
    if c = '\n' then '\n' :: List.replicate depth ' ' else [c]

variable {depth : Nat}
variable {text text' : List Char}

@[simp] theorem deepened_append
    (depth : Nat)
    (text text' : List Char) :
    deepened depth (text ++ text') =
      deepened depth text ++ deepened depth text' := by
  simp [deepened]

theorem deepened_cons
    (depth : Nat)
    (c : Char)
    (cs : List Char) :
    deepened depth (c :: cs) =
      deepened depth [c] ++ deepened depth cs :=
  deepened_append depth [c] cs

@[simp] theorem deepened_break
    (depth : Nat) :
    deepened depth ['\n'] = '\n' :: List.replicate depth ' ' := by
  simp [deepened]

/- Without line breaks nothing moves. -/
theorem deepened_of_notMem
    (depth : Nat)
    (hLine : '\n' ∉ text) :
    deepened depth text = text := by
  induction text with
  | nil => rfl
  | cons c cs ih =>
      rw [List.mem_cons, not_or] at hLine
      rw [deepened_cons, ih hLine.2, deepened, List.flatMap_singleton,
        if_neg (Ne.symm hLine.1)]
      rfl

theorem deepened_zero
    (text : List Char) :
    deepened 0 text = text := by
  induction text with
  | nil => rfl
  | cons c cs ih =>
      rw [deepened_cons, ih, deepened, List.flatMap_singleton]
      split
      · rename_i hBreak
        rw [hBreak]
        rfl
      · rfl

/- What is moved twice is moved by the sum. -/
theorem deepened_deepened
    (depth depth' : Nat)
    (text : List Char) :
    deepened depth (deepened depth' text) =
      deepened (depth + depth') text := by
  induction text with
  | nil => rfl
  | cons c cs ih =>
      rw [deepened_cons, deepened_append, ih,
        deepened_cons (depth + depth') c]
      by_cases hBreak : c = '\n'
      · subst hBreak
        have hBlanks :
            '\n' ∉ List.replicate depth' ' ' := by
          intro hMember
          cases List.eq_of_mem_replicate hMember
        rw [deepened_break, deepened_cons, deepened_break,
          deepened_of_notMem depth hBlanks, deepened_break,
          List.cons_append, ← List.replicate_add]
      · have hLine : '\n' ∉ [c] := by
          simpa using Ne.symm hBreak
        rw [deepened_of_notMem depth' hLine,
          deepened_of_notMem depth hLine,
          deepened_of_notMem (depth + depth') hLine]

/- Texts move together with the separators between them. -/
theorem deepened_intercalate
    (depth : Nat)
    (separator : List Char)
    (texts : List (List Char)) :
    deepened depth (separator.intercalate texts) =
      (deepened depth separator).intercalate
        (texts.map (deepened depth)) := by
  induction texts with
  | nil => rfl
  | cons text texts ih =>
      cases texts with
      | nil => simp
      | cons text' texts =>
          rw [List.intercalate_cons_cons, deepened_append,
            deepened_append, ih, List.map_cons, List.map_cons,
            List.map_cons, List.intercalate_cons_cons]

theorem deepened_commas
    (depth : Nat)
    (texts : List (List Char)) :
    deepened depth (commas texts) =
      commas (texts.map (deepened depth)) :=
  deepened_intercalate depth ", ".toList texts

/- Where no line break comes first, nothing moves there. -/
theorem head?_deepened
    (depth : Nat)
    (text : List Char) :
    (deepened depth text).head? = text.head? := by
  cases text with
  | nil => rfl
  | cons c cs =>
      rw [deepened_cons, deepened, List.flatMap_singleton]
      split
      · rename_i hBreak
        rw [hBreak]
        rfl
      · rfl

------------------------------------------------------------
-- Neat texts
------------------------------------------------------------

/- A text on one line, with something on it. -/
structure IsLine
    (text : List Char) : Prop where
  filled : text ≠ []
  noBreak : '\n' ∉ text
  noReturn : '\r' ∉ text

/- A text without empty lines, or line breaks around it. -/
structure IsNeat
    (text : List Char) : Prop where
  filled : text ≠ []
  starts : ∀ c ∈ text.head?, c ≠ '\n'
  ends : ∀ c ∈ text.getLast?, c ≠ '\n'
  apart : text.IsChain fun c d => c = '\n' → d ≠ '\n'
  noReturn : '\r' ∉ text

theorem IsLine.append
    (hFirst : IsLine text)
    (hSecond : IsLine text') :
    IsLine (text ++ text') := by
  refine ⟨?_, ?_, ?_⟩
  · simp [hFirst.filled]
  · simp [hFirst.noBreak, hSecond.noBreak]
  · simp [hFirst.noReturn, hSecond.noReturn]

theorem IsLine.isNeat
    (hLine : IsLine text) :
    IsNeat text := by
  have hOther : ∀ c ∈ text, c ≠ '\n' := by
    rintro _ hMember rfl
    exact hLine.noBreak hMember
  refine ⟨hLine.filled, ?_, ?_, ?_, hLine.noReturn⟩
  · exact fun c hHead => hOther c (List.mem_of_head? hHead)
  · exact fun c hLast => hOther c (List.mem_of_getLast? hLast)
  · apply List.Pairwise.isChain
    apply List.pairwise_of_forall_mem_list
    intro c _ d hMember _
    exact hOther d hMember

theorem IsNeat.append
    (hFirst : IsNeat text)
    (hSecond : IsNeat text') :
    IsNeat (text ++ text') := by
  refine ⟨?_, ?_, ?_, ?_, ?_⟩
  · simp [hFirst.filled]
  · intro c hHead
    rw [List.head?_append_of_ne_nil _ hFirst.filled] at hHead
    exact hFirst.starts c hHead
  · intro c hLast
    rw [List.getLast?_append_of_ne_nil _ hSecond.filled] at hLast
    exact hSecond.ends c hLast
  · rw [List.isChain_append]
    refine ⟨hFirst.apart, hSecond.apart, ?_⟩
    exact fun c hLast _ _ hBreak => absurd hBreak
      (hFirst.ends c hLast)
  · simp [hFirst.noReturn, hSecond.noReturn]

/- A line break between two neat texts. -/
theorem IsNeat.break
    (hFirst : IsNeat text)
    (hSecond : IsNeat text') :
    IsNeat (text ++ ('\n' :: text')) := by
  refine ⟨?_, ?_, ?_, ?_, ?_⟩
  · simp [hFirst.filled]
  · intro c hHead
    rw [List.head?_append_of_ne_nil _ hFirst.filled] at hHead
    exact hFirst.starts c hHead
  · intro c hLast
    rw [List.getLast?_append_of_ne_nil _ (by simp),
      List.getLast?_cons_of_ne_nil hSecond.filled] at hLast
    exact hSecond.ends c hLast
  · rw [List.isChain_append, List.isChain_cons]
    refine ⟨hFirst.apart, ⟨?_, hSecond.apart⟩, ?_⟩
    · exact fun c hHead _ => hSecond.starts c hHead
    · exact fun c hLast _ _ hBreak => absurd hBreak
        (hFirst.ends c hLast)
  · simp [hFirst.noReturn, hSecond.noReturn]

/- Neat texts between separators on one line. -/
theorem IsNeat.intercalate
    {separator : List Char}
    {texts : List (List Char)}
    (hSeparator : IsNeat separator)
    (hTexts : ∀ text ∈ texts, IsNeat text)
    (hSome : texts ≠ []) :
    IsNeat (separator.intercalate texts) := by
  induction texts with
  | nil => exact absurd rfl hSome
  | cons text texts ih =>
      have hFirst := hTexts text List.mem_cons_self
      cases texts with
      | nil => simpa using hFirst
      | cons text' texts =>
          rw [List.intercalate_cons_cons]
          exact (hFirst.append hSeparator).append
            (ih (fun t hMember =>
              hTexts t (List.mem_cons_of_mem text hMember))
              (List.cons_ne_nil text' texts))

/- Neat texts on lines of their own. -/
theorem IsNeat.lines
    {texts : List (List Char)}
    (hTexts : ∀ text ∈ texts, IsNeat text)
    (hSome : texts ≠ []) :
    IsNeat (Written.lines texts) := by
  induction texts with
  | nil => exact absurd rfl hSome
  | cons text texts ih =>
      have hFirst := hTexts text List.mem_cons_self
      cases texts with
      | nil => simpa [Written.lines] using hFirst
      | cons text' texts =>
          have hText :
              Written.lines (text :: text' :: texts) =
                text ++ ('\n' :: Written.lines (text' :: texts)) := by
            simp [Written.lines]
          rw [hText]
          exact hFirst.break
            (ih (fun t hMember =>
              hTexts t (List.mem_cons_of_mem text hMember))
              (List.cons_ne_nil text' texts))

/- The end of a text stays where it is when lines move. -/
theorem getLast?_deepened
    (depth : Nat)
    (hEnds : ∀ c ∈ text.getLast?, c ≠ '\n') :
    (deepened depth text).getLast? = text.getLast? := by
  induction text with
  | nil => rfl
  | cons c cs ih =>
      rw [deepened_cons]
      cases cs with
      | nil =>
          have hBreak : c ≠ '\n' := hEnds c rfl
          simp [deepened, hBreak]
      | cons d ds =>
          have hLast := ih fun e hLast => hEnds e (by simpa using hLast)
          have hSome : deepened depth (d :: ds) ≠ [] := by
            intro hNil
            have hHead := head?_deepened depth (d :: ds)
            rw [hNil] at hHead
            cases hHead
          rw [List.getLast?_append_of_ne_nil _ hSome, hLast]
          simp

/- Blanks keep line breaks apart that are apart. -/
theorem isChain_deepened
    (depth : Nat)
    (hApart : text.IsChain fun c d => c = '\n' → d ≠ '\n') :
    (deepened depth text).IsChain fun c d => c = '\n' → d ≠ '\n' := by
  induction text with
  | nil => exact .nil
  | cons c cs ih =>
      rw [List.isChain_cons] at hApart
      have hRest := ih hApart.2
      by_cases hBreak : c = '\n'
      · subst hBreak
        rw [deepened_cons, deepened_break]
        cases depth with
        | zero =>
            rw [List.replicate_zero, List.singleton_append,
              List.isChain_cons]
            refine ⟨?_, hRest⟩
            rw [head?_deepened]
            exact hApart.1
        | succ depth =>
            have hBlanks : IsLine (List.replicate (depth + 1) ' ') :=
              ⟨by simp, by simp, by simp⟩
            rw [List.cons_append, List.isChain_cons,
              List.isChain_append]
            refine ⟨by simp [List.replicate_succ],
              hBlanks.isNeat.apart, hRest, ?_⟩
            exact fun c hLast _ _ hBreak => absurd hBreak
              (hBlanks.isNeat.ends c hLast)
      · have hSelf : deepened depth [c] = [c] := by
          simp [deepened, hBreak]
        rw [deepened_cons, hSelf, List.singleton_append,
          List.isChain_cons]
        exact ⟨fun _ _ hSame => absurd hSame hBreak, hRest⟩

theorem mem_deepened
    {c : Char}
    (hMember : c ∈ deepened depth text) :
    c ∈ text ∨ c = ' ' := by
  rw [deepened, List.mem_flatMap] at hMember
  rcases hMember with ⟨d, hText, hMoved⟩
  split at hMoved
  · rename_i hBreak
    rcases List.mem_cons.mp hMoved with rfl | hBlank
    · exact .inl (hBreak ▸ hText)
    · exact .inr (List.eq_of_mem_replicate hBlank)
  · exact .inl (List.mem_singleton.mp hMoved ▸ hText)

/- A neat text stays so when its lines move. -/
theorem IsNeat.deepened
    (depth : Nat)
    (hNeat : IsNeat text) :
    IsNeat (deepened depth text) := by
  refine ⟨?_, ?_, ?_, isChain_deepened depth hNeat.apart, ?_⟩
  · intro hNil
    have hHead := head?_deepened depth text
    rw [hNil] at hHead
    exact hNeat.filled (List.head?_eq_none_iff.mp hHead.symm)
  · rw [head?_deepened]
    exact hNeat.starts
  · rw [getLast?_deepened depth hNeat.ends]
    exact hNeat.ends
  · intro hMember
    rcases mem_deepened hMember with hText | hBlank
    · exact hNeat.noReturn hText
    · cases hBlank

------------------------------------------------------------
-- Indentation
------------------------------------------------------------

theorem lines_cons_append
    (text text' : List Char)
    (texts : List (List Char)) :
    lines ((text ++ text') :: texts) =
      text ++ lines (text' :: texts) := by
  cases texts <;> simp [lines]

/-
  The lines of a neat text: all but the first one are moved by
  their indentation as they are at the line breaks.
-/
theorem exists_splitLines
    (hFilled : text ≠ [])
    (hEnds : ∀ c ∈ text.getLast?, c ≠ '\n')
    (hApart : text.IsChain fun c d => c = '\n' → d ≠ '\n')
    (hReturn : '\r' ∉ text) :
    ∃ line rest,
      splitLines text = line :: rest ∧
        (line = [] → text.head? = some '\n') ∧
        lines (line :: rest.map indentLine) = deepened 2 text := by
  induction text with
  | nil => exact absurd rfl hFilled
  | cons c cs ih =>
      rw [List.mem_cons, not_or] at hReturn
      cases cs with
      | nil =>
          have hBreak : c ≠ '\n' := hEnds c rfl
          refine ⟨[c], [], ?_, by simp, ?_⟩
          · simp [splitLines, hBreak]
          · simp [lines, deepened, hBreak]
      | cons d ds =>
          rw [List.isChain_cons_cons] at hApart
          rcases ih (List.cons_ne_nil d ds)
              (fun e hLast => hEnds e (by simpa using hLast))
              hApart.2 hReturn.2 with
            ⟨line, rest, hSplit, hStarts, hLines⟩
          by_cases hBreak : c = '\n'
          · -- The line behind the break is one that is moved.
            subst hBreak
            have hLine : line ≠ [] := by
              intro hNil
              exact hApart.1 rfl (Option.some.inj (hStarts hNil))
            have hMoved : indentLine line = "  ".toList ++ line := by
              cases line with
              | nil => exact absurd rfl hLine
              | cons e line => rfl
            refine ⟨[], line :: rest, ?_, fun _ => rfl, ?_⟩
            · rw [splitLines, if_pos rfl, hSplit]
            · have hText :
                  lines ([] :: (line :: rest).map indentLine) =
                    '\n' :: lines ((line :: rest).map indentLine) := by
                simp [lines]
              rw [hText, List.map_cons, hMoved, lines_cons_append,
                hLines, deepened_cons 2 '\n', deepened_break]
              rfl
          · refine ⟨c :: line, rest, ?_, by simp, ?_⟩
            · rw [splitLines, if_neg hBreak,
                if_neg (fun h => hReturn.1 h.1.symm), hSplit]
            · have hNoBreak : '\n' ∉ [c] := by
                simpa using Ne.symm hBreak
              rw [deepened_cons, deepened_of_notMem 2 hNoBreak,
                ← hLines, ← lines_cons_append]
              rfl

/- A neat body is moved by two blanks, its first line as well. -/
theorem IsNeat.indent_eq
    (hNeat : IsNeat text) :
    indent text = "  ".toList ++ Written.deepened 2 text := by
  rcases exists_splitLines hNeat.filled hNeat.ends hNeat.apart
      hNeat.noReturn with
    ⟨line, rest, hSplit, hStarts, hLines⟩
  cases line with
  | nil => exact absurd rfl (hNeat.starts _ (hStarts rfl))
  | cons c line =>
      unfold indent
      rw [hSplit, ← hLines, ← lines_cons_append]
      rfl

theorem IsNeat.indent
    (hNeat : IsNeat text) :
    IsNeat (Written.indent text) := by
  have hBlanks : IsLine "  ".toList :=
    ⟨by decide, by decide, by decide⟩
  rw [hNeat.indent_eq]
  exact hBlanks.isNeat.append (hNeat.deepened 2)

/- A body below a line is moved with the line break before it. -/
theorem IsNeat.break_indent
    (hNeat : IsNeat text) :
    "\n".toList ++ Written.indent text =
      Written.deepened 2 ('\n' :: text) := by
  rw [hNeat.indent_eq, deepened_cons, deepened_break]
  rfl

end ElixirReader.Written
