import ElixirReader.Proofs.Likeness.Matching
import ElixirReader.Proofs.Parser.Primitives
import Mathlib.Data.List.Forall2

/-
  This file shows that looking ahead finds the same in lists
  that match: the same operator, the same key or head of a
  clause, the same parts of a number.

  Key definitions include:
    * `InfixOperator.Same`
    * `BothOrNone`
    * `AllSame`

  Main declarations:
    * `Heads.keywordAhead_eq`
    * `Heads.parenthesizedHeadAhead_eq`
    * `Tight.infixAhead?_cases`
    * `Tight.pairSeparator?_cases`
    * `Heads.numberParts_cases`
-/

namespace ElixirReader

open Parse

variable {b : Before}
variable {k : Kind}
variable {l l' : Lexeme}
variable {ls ls' : List Lexeme}

------------------------------------------------------------
-- Looking for keys
------------------------------------------------------------

theorem Tight.keyColonAhead_eq
    (hTight : Tight ls ls') :
    keyColonAhead ls' = keyColonAhead ls := by
  rcases hTight.cases with
    ⟨rfl, rfl⟩ |
    ⟨l, l', ms, ms', rfl, rfl, hSame, hSpaced, hMore⟩
  · rfl
  · by_cases hKind : l.kind = .colon
    · have hColon : l'.kind = .colon := hSame.kind.symm.trans hKind
      have hEqual : l'.spaced = l.spaced := by
        rcases hSpaced with hLine | hEqual
        · rw [hKind] at hLine
          cases hLine
        · exact hEqual.symm
      have hTail : Tight ms ms' := by
        apply hMore.tight
        intro next
        rw [hKind]
        rfl
      have hNext : ms'.head?.all
            (fun m => m.spaced || m.kind == .endOfLine) =
          ms.head?.all
            (fun m => m.spaced || m.kind == .endOfLine) := by
        rcases hTail.cases with
          ⟨rfl, rfl⟩ |
          ⟨m, m', ns, ns', rfl, rfl, hSame', hSpaced', _⟩
        · rfl
        · change (m'.spaced || m'.kind == .endOfLine) =
            (m.spaced || m.kind == .endOfLine)
          rw [← hSame'.kind]
          rcases hSpaced' with hLine | hEqual'
          · rw [hLine]
            simp
          · rw [hEqual']
      rw [keyColonAhead, keyColonAhead, hNext, hEqual, hKind, hColon]
    · rw [keyColonAhead, keyColonAhead, ← hSame.kind,
        beq_eq_false_iff_ne.mpr hKind]
      rfl

/- One lexeme does the same to what is looked for. -/
theorem quotedKeyAhead_cons_eq
    {joins : Bool}
    (depth : Nat)
    (hKind : l.kind = l'.kind)
    (hMore : Matches ⟨l.kind, joins⟩ ls ls')
    (hTail : ∀ depth,
      quotedKeyAhead depth ls' = quotedKeyAhead depth ls) :
    quotedKeyAhead depth (l' :: ls') =
      quotedKeyAhead depth (l :: ls) := by
  rw [quotedKeyAhead, quotedKeyAhead, ← hKind]
  split
  · exact hTail _
  · exact hTail _
  · rename_i hTerminator
    split
    · apply Tight.keyColonAhead_eq
      apply hMore.tight_of_endsOperand
      rw [hTerminator]
      rfl
    · exact hTail _
  · rename_i hTerminator
    split
    · apply Tight.keyColonAhead_eq
      apply hMore.tight_of_endsOperand
      rw [hTerminator]
      rfl
    · exact hTail _
  · exact hTail _

theorem quotedKeyAhead_append
    (depth : Nat)
    (hBreaks : AreLineEnds ls)
    (ms : List Lexeme) :
    quotedKeyAhead depth (ls ++ ms) = quotedKeyAhead depth ms := by
  induction ls with
  | nil => rfl
  | cons l ls ih =>
      rw [List.cons_append, quotedKeyAhead,
        hBreaks l List.mem_cons_self]
      exact ih fun m hMem => hBreaks m (List.mem_cons_of_mem l hMem)

theorem Matches.quotedKeyAhead_eq
    (hMatches : Matches b ls ls')
    (depth : Nat) :
    quotedKeyAhead depth ls' = quotedKeyAhead depth ls := by
  induction hMatches generalizing depth with
  | nil => rfl
  | next hSame hSpaced hMore ih =>
      exact quotedKeyAhead_cons_eq depth hSame.kind hMore ih
  | @ends b bs bs' hAdmits hBreaks hBreaks' =>
      rw [← List.append_nil bs, ← List.append_nil bs',
        quotedKeyAhead_append depth hBreaks,
        quotedKeyAhead_append depth hBreaks']
  | goesOn hAdmits hBreaks hBreaks' hSpaced hSpaced' hSame hKind
      hMore ih =>
      rw [quotedKeyAhead_append depth hBreaks,
        quotedKeyAhead_append depth hBreaks']
      exact quotedKeyAhead_cons_eq depth hSame.kind hMore ih

theorem Heads.keywordAhead_eq
    (hHeads : Heads ls ls') :
    keywordAhead ls' = keywordAhead ls := by
  cases hHeads with
  | nil => rfl
  | cons hSame hMore =>
      rw [keywordAhead, keywordAhead, ← hSame.kind,
        hMore.quotedKeyAhead_eq]

------------------------------------------------------------
-- Looking for heads of clauses
------------------------------------------------------------

theorem Tight.arrowAhead_eq
    (hTight : Tight ls ls') :
    arrowAhead ls' = arrowAhead ls := by
  rcases hTight.cases with
    ⟨rfl, rfl⟩ | ⟨l, l', ms, ms', rfl, rfl, hSame, _⟩
  · rfl
  · rw [arrowAhead, arrowAhead, hSame.kind]

theorem admitsBreak_of_closes
    {joins : Bool}
    (next : Kind)
    (hCloses : k.closes = true) :
    Before.admitsBreak ⟨k, joins⟩ next = false := by
  cases k with
  | word w => cases w <;> first | rfl | cases hCloses
  | _ => first | rfl | cases hCloses

theorem headAhead_cons_eq
    {joins : Bool}
    (depth : Nat)
    (hKind : l.kind = l'.kind)
    (hMore : Matches ⟨l.kind, joins⟩ ls ls')
    (hTail : ∀ depth, headAhead depth ls' = headAhead depth ls) :
    headAhead depth (l' :: ls') = headAhead depth (l :: ls) := by
  rw [headAhead, headAhead, ← hKind]
  split
  · exact hTail _
  · split
    · rename_i hCloses
      split
      · exact (hMore.tight fun next =>
          admitsBreak_of_closes next hCloses).arrowAhead_eq
      · exact hTail _
    · exact hTail _

theorem headAhead_append
    (depth : Nat)
    (hBreaks : AreLineEnds ls)
    (ms : List Lexeme) :
    headAhead depth (ls ++ ms) = headAhead depth ms := by
  induction ls with
  | nil => rfl
  | cons l ls ih =>
      rw [List.cons_append, headAhead, hBreaks l List.mem_cons_self]
      exact ih fun m hMem => hBreaks m (List.mem_cons_of_mem l hMem)

theorem Matches.headAhead_eq
    (hMatches : Matches b ls ls')
    (depth : Nat) :
    headAhead depth ls' = headAhead depth ls := by
  induction hMatches generalizing depth with
  | nil => rfl
  | next hSame hSpaced hMore ih =>
      exact headAhead_cons_eq depth hSame.kind hMore ih
  | @ends b bs bs' hAdmits hBreaks hBreaks' =>
      rw [← List.append_nil bs, ← List.append_nil bs',
        headAhead_append depth hBreaks,
        headAhead_append depth hBreaks']
  | goesOn hAdmits hBreaks hBreaks' hSpaced hSpaced' hSame hKind
      hMore ih =>
      rw [headAhead_append depth hBreaks,
        headAhead_append depth hBreaks']
      exact headAhead_cons_eq depth hSame.kind hMore ih

theorem Heads.parenthesizedHeadAhead_eq
    (hHeads : Heads ls ls') :
    parenthesizedHeadAhead ls' = parenthesizedHeadAhead ls := by
  cases hHeads with
  | nil => rfl
  | cons hSame hMore =>
      exact headAhead_cons_eq 0 hSame.kind hMore hMore.headAhead_eq

------------------------------------------------------------
-- Looking for operands
------------------------------------------------------------

/- A kind that is looked for behind another is found in both or in none. -/
theorem Matches.any_head?_eq
    (hMatches : Matches b ls ls')
    (hAdmits : b.admitsBreak k = false)
    (hKind : k ≠ .endOfLine) :
    ls'.head?.any (·.kind == k) = ls.head?.any (·.kind == k) := by
  -- A run of newlines, and a kind behind them that may be broken off.
  have hOther :
      ∀ {breaks : List Lexeme} (l : Lexeme) (ms : List Lexeme),
        AreLineEnds breaks → b.admitsBreak l.kind = true →
          (breaks ++ l :: ms).head?.any (·.kind == k) = false := by
    intro breaks l ms hBreaks hNext
    cases breaks with
    | nil =>
        have hNe : l.kind ≠ k := by
          rintro rfl
          rw [hAdmits] at hNext
          cases hNext
        simpa using hNe
    | cons m breaks =>
        have hLine := hBreaks m List.mem_cons_self
        simpa [hLine] using hKind.symm
  have hNone :
      ∀ {breaks : List Lexeme}, AreLineEnds breaks →
        breaks.head?.any (·.kind == k) = false := by
    intro breaks hBreaks
    cases breaks with
    | nil => rfl
    | cons m breaks =>
        have hLine := hBreaks m List.mem_cons_self
        simpa [hLine] using hKind.symm
  cases hMatches with
  | nil => rfl
  | next hSame _ _ => simp [hSame.kind]
  | ends _ hBreaks hBreaks' => rw [hNone hBreaks, hNone hBreaks']
  | goesOn hNext hBreaks hBreaks' _ _ hSame _ _ =>
      rw [hOther _ _ hBreaks hNext,
        hOther _ _ hBreaks' (hSame.kind ▸ hNext)]

theorem Tight.argumentAhead_eq
    (hTight : Tight ls ls') :
    argumentAhead ls' = argumentAhead ls := by
  rcases hTight.cases with
    ⟨rfl, rfl⟩ |
    ⟨l, l', ms, ms', rfl, rfl, hSame, hSpaced, hMore⟩
  · rfl
  · rw [argumentAhead, argumentAhead, ← hSame.kind]
    rcases hSpaced with hLine | hSpaced
    · rw [hLine]
      simp [Kind.startsArgument, Kind.isNumberPart]
    · rw [hSpaced]
      split
      · rename_i hNot
        have hIn := hMore.any_head?_eq
          (show Before.admitsBreak ⟨l.kind, true⟩
            (.operator .inWord) = false by rw [hNot]; rfl)
          (by simp)
        rw [hIn]
      · rfl

theorem Matches.captureArgumentAhead_eq
    (hMatches : Matches b ls ls') :
    captureArgumentAhead ls' = captureArgumentAhead ls := by
  have hOther :
      ∀ {breaks : List Lexeme} (l : Lexeme) (ms : List Lexeme),
        AreLineEnds breaks → (breaks = [] → l.spaced = true) →
          captureArgumentAhead (breaks ++ l :: ms) = false := by
    intro breaks l ms hBreaks hSpaced
    cases breaks with
    | nil => simp [captureArgumentAhead, hSpaced rfl]
    | cons m breaks =>
        simp [captureArgumentAhead, hBreaks m List.mem_cons_self]
  have hNone :
      ∀ {breaks : List Lexeme}, AreLineEnds breaks →
        captureArgumentAhead breaks = false := by
    intro breaks hBreaks
    cases breaks with
    | nil => rfl
    | cons m breaks =>
        simp [captureArgumentAhead, hBreaks m List.mem_cons_self]
  cases hMatches with
  | nil => rfl
  | next hSame hSpaced _ =>
      rw [captureArgumentAhead, captureArgumentAhead, ← hSame.kind]
      rcases hSpaced with hLine | hSpaced
      · rw [hLine]
        rfl
      · rw [hSpaced]
  | ends _ hBreaks hBreaks' => rw [hNone hBreaks, hNone hBreaks']
  | goesOn _ hBreaks hBreaks' hSpaced hSpaced' _ _ _ =>
      rw [hOther _ _ hBreaks hSpaced, hOther _ _ hBreaks' hSpaced']

theorem Tight.suffixAhead?_eq
    (hTight : Tight ls ls') :
    suffixAhead? ls' = suffixAhead? ls := by
  rcases hTight.cases with
    ⟨rfl, rfl⟩ |
    ⟨l, l', ms, ms', rfl, rfl, hSame, hSpaced, _⟩
  · rfl
  · rw [suffixAhead?, suffixAhead?, ← hSame.kind]
    rcases hSpaced with hLine | hSpaced
    · rw [hLine]
      simp
    · rw [hSpaced]

------------------------------------------------------------
-- Looking for operators
------------------------------------------------------------

theorem drop_runLength
    (p : Kind → Bool)
    (ls : List Lexeme) :
    ls.drop (runLength p ls) = dropRun p ls := by
  unfold runLength dropRun
  conv => lhs; arg 2; rw [← List.takeWhile_append_dropWhile
    (p := fun l => p l.kind) (l := ls)]
  rw [List.drop_left]

/-
  Operators that are the same but for their places, and what
  is left behind them. What they join is to be continued.
-/
structure InfixOperator.Same
    (i i' : InfixOperator)
    (ls ls' : List Lexeme) : Prop where
  binding : i.binding = i'.binding
  name : i.name = i'.name
  rest : Awaits (ls.drop i.length) (ls'.drop i'.length)

/- Two operators that come together, or none. -/
def BothOrNone
    (o o' : Option InfixOperator)
    (ls ls' : List Lexeme) : Prop :=
  o = none ∧ o' = none ∨
    ∃ i i', o = some i ∧ o' = some i' ∧ i.Same i' ls ls'

variable {joins : Bool}

theorem BothOrNone.single?
    (hSame : l.Same l')
    (hMore : Matches ⟨l.kind, joins⟩ ls ls') :
    BothOrNone (InfixOperator.single? l) (InfixOperator.single? l')
      (l :: ls) (l' :: ls') := by
  unfold InfixOperator.single?
  rw [← hSame.kind]
  cases hBinding : l.kind.binding? with
  | none => exact .inl ⟨rfl, rfl⟩
  | some binding =>
      have hLine : l.kind ≠ .endOfLine := by
        intro hKind
        rw [hKind] at hBinding
        cases hBinding
      refine .inr ⟨_, _, rfl, rfl, rfl, hSame.text hLine, _, ?_,
        hMore⟩
      cases hKind : l.kind <;> rw [hKind] at hBinding <;>
        first | rfl | cases hBinding

/- An operator of two lexemes comes with both of them, or alone. -/
theorem BothOrNone.pair
    {o o' : Option InfixOperator}
    {m : Kind}
    (binding : Binding)
    (name : String)
    (hMore : Matches ⟨l.kind, joins⟩ ls ls')
    (hLine : m ≠ .endOfLine)
    (hEnds : m.endsOperand = false)
    (p : Lexeme → Prop)
    (hSpaced : ∀ n n' : Lexeme, n.spaced = n'.spaced → p n → p n')
    (hTouches : ∀ n : Lexeme, n.kind = m → p n →
      Before.admitsBreak ⟨l.kind, joins⟩ n.kind = false ∨
        n.spaced = false)
    (hPair : ∀ n ns, ls = n :: ns → n.kind = m → p n →
      o = some (.pair binding name l n))
    (hPair' : ∀ n ns, ls' = n :: ns → n.kind = m → p n →
      o' = some (.pair binding name l' n))
    (hAlone : (∀ n ns, ls = n :: ns → ¬ (n.kind = m ∧ p n)) →
      (∀ n ns, ls' = n :: ns → ¬ (n.kind = m ∧ p n)) →
        BothOrNone o o' (l :: ls) (l' :: ls')) :
    BothOrNone o o' (l :: ls) (l' :: ls') := by
  by_cases hFirst : ∃ n ns, ls = n :: ns ∧ n.kind = m ∧ p n
  · rcases hFirst with ⟨n, ns, rfl, rfl, hP⟩
    rcases hMore.exists_next hLine (hTouches n rfl hP) with
      ⟨n', ns', rfl, hSame, hEqual, hMore'⟩
    refine .inr ⟨_, _, hPair n ns rfl rfl hP,
      hPair' n' ns' rfl hSame.kind.symm (hSpaced n n' hEqual hP),
      rfl, rfl, _, ?_, hMore'⟩
    exact hEnds
  · apply hAlone
    · rintro n ns rfl ⟨hKind, hP⟩
      exact hFirst ⟨n, ns, rfl, hKind, hP⟩
    · rintro n ns rfl ⟨rfl, hP⟩
      rcases hMore.symm.exists_next hLine (hTouches n rfl hP) with
        ⟨n', ns', rfl, hSame, hEqual, _⟩
      exact hFirst ⟨n', ns', rfl, hSame.kind.symm,
        hSpaced n n' hEqual hP⟩

theorem BothOrNone.notIn?
    (hKind : l.kind = .operator .notWord)
    (hMore : Matches ⟨l.kind, joins⟩ ls ls') :
    BothOrNone (InfixOperator.notIn? l ls)
      (InfixOperator.notIn? l' ls') (l :: ls) (l' :: ls') := by
  apply @BothOrNone.pair l l' ls ls' joins _ _ (.operator .inWord)
    ⟨Precedence.membership, .left⟩ "not in" hMore (by simp) rfl
    (fun _ => True) (fun _ _ _ h => h)
  · rintro n hIn _
    rw [hKind, hIn]
    exact .inl rfl
  · rintro n ns rfl hIn _
    exact if_pos hIn
  · rintro n ns rfl hIn _
    exact if_pos hIn
  · intro hNone hNone'
    have hBoth : ∀ (l : Lexeme) ms,
        (∀ n ns, ms = n :: ns →
          ¬ (n.kind = .operator .inWord ∧ True)) →
          InfixOperator.notIn? l ms = none := by
      intro l ms hNot
      cases ms with
      | nil => rfl
      | cons n ns =>
          exact if_neg fun hIn => hNot n ns rfl ⟨hIn, trivial⟩
    exact .inl ⟨hBoth l ls hNone, hBoth l' ls' hNone'⟩

theorem BothOrNone.slash?
    (hSame : l.Same l')
    (hMore : Matches ⟨l.kind, joins⟩ ls ls') :
    BothOrNone (InfixOperator.slash? l ls)
      (InfixOperator.slash? l' ls') (l :: ls) (l' :: ls') := by
  apply @BothOrNone.pair l l' ls ls' joins _ _ (.operator .division)
    ⟨Precedence.step, .right⟩ "//" hMore (by simp) rfl
    (fun n => n.spaced = false)
    (fun _ _ hEqual hTouches => hEqual.symm.trans hTouches)
  · exact fun n _ hTouches => .inr hTouches
  · rintro n ns rfl hSlash hTouches
    exact if_pos ⟨hSlash, hTouches⟩
  · rintro n ns rfl hSlash hTouches
    exact if_pos ⟨hSlash, hTouches⟩
  · intro hNone hNone'
    have hBoth : ∀ (l : Lexeme) ms,
        (∀ n ns, ms = n :: ns →
          ¬ (n.kind = .operator .division ∧ n.spaced = false)) →
          InfixOperator.slash? l ms = InfixOperator.single? l := by
      intro l ms hNot
      cases ms with
      | nil => rfl
      | cons n ns => exact if_neg (hNot n ns rfl)
    rw [hBoth l ls hNone, hBoth l' ls' hNone']
    exact .single? hSame hMore

theorem BothOrNone.sign?
    (newline : Bool)
    (hSame : l.Same l')
    (hLine : l.kind ≠ .endOfLine)
    (hEnds : l.kind.endsOperand = false)
    (hMore : Matches ⟨l.kind, joins⟩ ls ls') :
    BothOrNone (InfixOperator.sign? newline l)
      (InfixOperator.sign? newline l') (l :: ls) (l' :: ls') := by
  cases newline with
  | true => exact .inl ⟨rfl, rfl⟩
  | false =>
      exact .inr ⟨_, _, rfl, rfl, rfl, hSame.text hLine, _, hEnds,
        hMore⟩

theorem BothOrNone.at?
    (newline : Bool)
    (hSame : l.Same l')
    (hMore : Matches ⟨l.kind, joins⟩ ls ls') :
    BothOrNone (InfixOperator.at? newline l ls)
      (InfixOperator.at? newline l' ls') (l :: ls) (l' :: ls') := by
  unfold InfixOperator.at?
  rw [← hSame.kind]
  split
  · rename_i hKind
    exact .notIn? hKind hMore
  · exact .slash? hSame hMore
  · rename_i hKind
    exact .sign? newline hSame (by rw [hKind]; simp)
      (by rw [hKind]; rfl) hMore
  · rename_i hKind
    exact .sign? newline hSame (by rw [hKind]; simp)
      (by rw [hKind]; rfl) hMore
  · exact .single? hSame hMore

theorem infixAhead?_eq
    (ls : List Lexeme) :
    infixAhead? ls =
      match dropRun isLineEnd ls with
      | [] => none
      | l :: rest =>
          (InfixOperator.at? (runLength isLineEnd ls != 0) l
            rest).map fun i =>
              { i with length := runLength isLineEnd ls + i.length } := by
  rw [← drop_runLength isLineEnd]
  rfl

theorem Tight.isLineEnd_eq
    (hTight : Tight ls ls') :
    (runLength isLineEnd ls' != 0) = (runLength isLineEnd ls != 0) := by
  rcases hTight.cases with
    ⟨rfl, rfl⟩ | ⟨l, l', ms, ms', rfl, rfl, hSame, _⟩
  · rfl
  · rw [runLength, runLength, List.takeWhile_cons,
      List.takeWhile_cons, ← hSame.kind]
    split <;> rfl

/- The same operator follows an operand, on whichever line. -/
theorem Tight.infixAhead?_cases
    (hTight : Tight ls ls') :
    BothOrNone (infixAhead? ls) (infixAhead? ls') ls ls' := by
  have hLoose := hTight.loose
  have hDrop := drop_runLength isLineEnd ls
  have hDrop' := drop_runLength isLineEnd ls'
  unfold Loose at hLoose
  rw [infixAhead?_eq, infixAhead?_eq, hTight.isLineEnd_eq]
  generalize dropRun isLineEnd ls = ms at *
  generalize dropRun isLineEnd ls' = ms' at *
  cases hLoose with
  | nil => exact .inl ⟨rfl, rfl⟩
  | @cons l l' ms ms' hSame hMore =>
      dsimp only
      rcases BothOrNone.at? (runLength isLineEnd ls != 0) hSame hMore
        with ⟨hNone, hNone'⟩ | ⟨i, i', hSome, hSome', hBoth⟩
      · rw [hNone, hNone']
        exact .inl ⟨rfl, rfl⟩
      · rw [hSome, hSome']
        refine .inr ⟨_, _, rfl, rfl, hBoth.binding, hBoth.name, ?_⟩
        have hRest := hBoth.rest
        rw [← hDrop, ← hDrop', List.drop_drop, List.drop_drop]
          at hRest
        exact hRest

/- The same comma and key follow a pair, on whichever line. -/
theorem Tight.pairSeparator?_cases
    (hTight : Tight ls ls') :
    pairSeparator? ls = none ∧ pairSeparator? ls' = none ∨
      ∃ n n', pairSeparator? ls = some n ∧
        pairSeparator? ls' = some n' ∧
        (∀ l ∈ ls.take n, isSeparator l.kind = true ∨ l.kind = .comma) ∧
        keywordAhead (ls.drop n) = true ∧
        Begins (ls.drop n) (ls'.drop n') := by
  rcases hTight.cases with
    ⟨rfl, rfl⟩ | ⟨l, l', ms, ms', rfl, rfl, hSame, _, hMore⟩
  · exact .inl ⟨rfl, rfl⟩
  · have hDrop := drop_runLength isLineEnd ms
    have hDrop' := drop_runLength isLineEnd ms'
    have hAhead := hMore.loose.keywordAhead_eq
    unfold pairSeparator?
    dsimp only
    rw [hDrop, hDrop', hAhead, ← hSame.kind]
    split
    · rename_i hComma
      refine .inr ⟨_, _, rfl, rfl, ?_, ?_, ?_⟩
      · intro n hMem
        rw [List.take_succ_cons] at hMem
        rcases List.mem_cons.mp hMem with rfl | hLine
        · exact .inr hComma.1
        · left
          rw [isSeparator, Bool.or_eq_true]
          exact .inl (of_mem_take_runLength hLine)
      · rw [List.drop_succ_cons, hDrop]
        exact hComma.2
      · rw [List.drop_succ_cons, List.drop_succ_cons, hDrop, hDrop']
        apply hMore.begins_dropRun isGap_isLineEnd
        rw [hComma.1]
        rfl
    · exact .inl ⟨rfl, rfl⟩

------------------------------------------------------------
-- Numbers
------------------------------------------------------------

/- Lexemes that are the same one by one, and no newlines. -/
abbrev AllSame :=
  List.Forall₂ fun l l' : Lexeme =>
    l.kind = l'.kind ∧ l.text = l'.text

theorem Lexeme.Same.of_isNumberPart
    (hSame : l.Same l')
    (hPart : l.kind.isNumberPart = true) :
    l.kind = l'.kind ∧ l.text = l'.text := by
  refine ⟨hSame.kind, hSame.text ?_⟩
  intro hLine
  rw [hLine] at hPart
  cases hPart

/- The parts of a number that touch what is before them. -/
theorem Tight.numberParts
    (hTight : Tight ls ls') :
    AllSame
        (ls.takeWhile fun l => l.kind.isNumberPart && !l.spaced)
        (ls'.takeWhile fun l => l.kind.isNumberPart && !l.spaced) ∧
      Tight
        (ls.dropWhile fun l => l.kind.isNumberPart && !l.spaced)
        (ls'.dropWhile fun l => l.kind.isNumberPart && !l.spaced) := by
  induction ls generalizing ls' with
  | nil =>
      rcases hTight.cases with ⟨_, rfl⟩ | ⟨l, _, ms, _, hNil, _⟩
      · exact ⟨.nil, hTight⟩
      · cases hNil
  | cons l ls ih =>
      rcases hTight.cases with
        ⟨hNil, _⟩ |
        ⟨m, l', ms, ms', hCons, rfl, hSame, hSpaced, hMore⟩
      · cases hNil
      · cases hCons
        have hTouches :
            (l'.kind.isNumberPart && !l'.spaced) =
              (l.kind.isNumberPart && !l.spaced) := by
          rw [← hSame.kind]
          rcases hSpaced with hLine | hSpaced
          · rw [hLine]
            rfl
          · rw [hSpaced]
        rw [List.takeWhile_cons, List.takeWhile_cons,
          List.dropWhile_cons, List.dropWhile_cons, hTouches]
        split
        · rename_i hPart
          rw [Bool.and_eq_true] at hPart
          have hEnds : l.kind.endsOperand = true := by
            have hNumber := hPart.1
            cases hKind : l.kind <;> rw [hKind] at hNumber <;>
              first | rfl | cases hNumber
          have hTail := ih (hMore.tight_of_endsOperand hEnds)
          exact ⟨.cons (hSame.of_isNumberPart hPart.1) hTail.1,
            hTail.2⟩
        · exact ⟨.nil, hTight⟩

/- The lexemes of a number, and what is behind them. -/
theorem Heads.numberParts_cases
    (hHeads : Heads ls ls') :
    numberParts ls = [] ∧ numberParts ls' = [] ∨
      ∃ l ms l' ms', numberParts ls = l :: ms ∧
        numberParts ls' = l' :: ms' ∧
        AllSame (l :: ms) (l' :: ms') ∧
        Tight (ls.drop (ms.length + 1))
          (ls'.drop (ms'.length + 1)) := by
  cases hHeads with
  | nil => exact .inl ⟨rfl, rfl⟩
  | @cons l l' ls ls' hSame hMore =>
      by_cases hPart : l.kind.isNumberPart = true
      · have hEnds : l.kind.endsOperand = true := by
          cases hKind : l.kind <;> rw [hKind] at hPart <;>
            first | rfl | cases hPart
        have hTail := (hMore.tight_of_endsOperand hEnds).numberParts
        have hDrop : ∀ ms : List Lexeme,
            ms.drop (ms.takeWhile fun l =>
                l.kind.isNumberPart && !l.spaced).length =
              ms.dropWhile fun l =>
                l.kind.isNumberPart && !l.spaced := by
          intro ms
          conv => lhs; arg 2; rw [← List.takeWhile_append_dropWhile
            (p := fun l : Lexeme =>
              l.kind.isNumberPart && !l.spaced) (l := ms)]
          rw [List.drop_left]
        refine .inr ⟨l, _, l', _, if_pos hPart,
          if_pos (hSame.kind ▸ hPart),
          .cons (hSame.of_isNumberPart hPart) hTail.1, ?_⟩
        rw [List.drop_succ_cons, List.drop_succ_cons, hDrop, hDrop]
        exact hTail.2
      · exact .inl ⟨if_neg hPart, if_neg (hSame.kind ▸ hPart)⟩

namespace AllSame

theorem filter
    (hSame : AllSame ls ls')
    (p : Kind → Bool) :
    AllSame (ls.filter fun l => p l.kind)
      (ls'.filter fun l => p l.kind) := by
  induction hSame with
  | nil => exact .nil
  | cons hHead hTail ih =>
      rw [List.filter_cons, List.filter_cons, ← hHead.1]
      split
      · exact .cons hHead ih
      · exact ih

theorem any_eq
    (hSame : AllSame ls ls')
    (p : Kind → Bool) :
    (ls'.any fun l => p l.kind) = ls.any fun l => p l.kind := by
  induction hSame with
  | nil => rfl
  | cons hHead hTail ih =>
      rw [List.any_cons, List.any_cons, ih, hHead.1]

theorem partsText_eq
    (hSame : AllSame ls ls') :
    partsText ls' = partsText ls := by
  have hTexts : ls'.map Lexeme.text = ls.map Lexeme.text := by
    induction hSame with
    | nil => rfl
    | cons hHead hTail ih =>
        rw [List.map_cons, List.map_cons, ih, hHead.2]
  rw [partsText, partsText, hTexts]

/- The value of a number is told by its lexemes. -/
theorem numberForm?_eq
    (hSame : AllSame ls ls') :
    numberForm? ls' = numberForm? ls := by
  have hBased : ∀ {ms ms' : List Lexeme} (base : Nat),
      AllSame ms ms' → basedForm? base ms' = basedForm? base ms := by
    intro ms ms' base hSame
    rw [basedForm?, basedForm?, (hSame.filter isBasedDigits).partsText_eq]
  have hDecimal : decimalForm? ls' = decimalForm? ls := by
    rw [decimalForm?, decimalForm?, hSame.any_eq (· == .decimalMark),
      (hSame.filter (· != .separator)).partsText_eq]
  cases hSame with
  | nil => rfl
  | cons hHead hTail =>
      unfold numberForm?
      dsimp only
      rw [← hHead.1]
      split
      · cases hTail with
        | nil => rfl
        | cons hLetter hDigits =>
            dsimp only
            rw [← hLetter.1]
            exact congrArg _ (funext fun base => hBased base hDigits)
      · exact hDecimal

end AllSame

end ElixirReader
