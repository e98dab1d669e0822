import ElixirReader.Parser.Expression
import ElixirReader.Proofs.Lexer.Effect

/-
  This file says when two lists of lexemes are the same to the
  parser: they differ in their places, and in the newlines
  behind lexemes that leave an expression to be continued.

  Key definitions include:
    * `Kind.endsOperand`
    * `Before`
    * `Before.admitsBreak`
    * `Matches`
    * `Heads`
    * `Begins`
    * `Tight`
    * `Awaits`
    * `Loose`
    * `Afresh`
    * `Resumes`

  Main declarations:
    * `Matches.tight`
    * `Matches.exists_next`
    * `Matches.begins_dropRun`
    * `Resumes.begins_dropRun`
-/

namespace ElixirReader

open Parse

------------------------------------------------------------
-- What newlines may follow
------------------------------------------------------------

namespace Kind

/-
  The kinds that may be the last of an operand. A name behind
  a colon is left out, since it may be a key as well.
-/
def endsOperand : Kind → Bool
| closing _ => true
| identifier => true
| .alias => true
| character => true
| sigilModifiers => true
| terminator _ _ => true
| word .end => true
| word .true => true
| word .false => true
| word .nil => true
| k => k.isNumberPart

end Kind

/-
  The lexeme before some others, and whether it stands right
  behind an operand.
-/
structure Before where
  kind : Kind
  joins : Bool
deriving DecidableEq, Repr

namespace Before

/- Behind one more lexeme. -/
def step
    (b : Before)
    (k : Kind) : Before :=
  ⟨k, b.kind.endsOperand⟩

/-
  The operators that are continued behind newlines. A range
  that joins no operands is an operand itself, and `not` may be
  the first part of `not in`.
-/
def operatorAdmits
    (joins : Bool)
    (next : Kind) : Operator → Bool
| .range => joins
| .notWord => next != .operator .inWord
| .atSign => false
| .struct => false
| _ => true

/- Whether it is of no matter if newlines come before a kind. -/
def admitsBreak
    (b : Before)
    (next : Kind) : Bool :=
  match b.kind with
  | .opening _ => true
  | .semicolon => true
  | .doubleColon => true
  | .operator o => operatorAdmits b.joins next o
  | k => k.opensBody

theorem operatorAdmits_mono
    {next : Kind}
    {o : Operator}
    (joins : Bool)
    (hAdmits : operatorAdmits false next o = true) :
    operatorAdmits joins next o = true := by
  cases o <;> first | exact hAdmits | cases hAdmits

/- What admits newlines without an operand does so behind one. -/
theorem admitsBreak_mono
    {k next : Kind}
    (joins : Bool)
    (hAdmits : admitsBreak ⟨k, false⟩ next = true) :
    admitsBreak ⟨k, joins⟩ next = true := by
  cases k <;>
    first
    | exact hAdmits
    | exact operatorAdmits_mono joins hAdmits

/- An operand is not continued behind newlines. -/
theorem admitsBreak_of_endsOperand
    {k : Kind}
    (joins : Bool)
    (next : Kind)
    (hEnds : k.endsOperand = true) :
    admitsBreak ⟨k, joins⟩ next = false := by
  cases k with
  | word w => cases w <;> first | rfl | cases hEnds
  | _ => first | rfl | cases hEnds

end Before

------------------------------------------------------------
-- Matching lists
------------------------------------------------------------

/-
  Lexemes that are the same but for their places. It does not
  matter how a newline is written.
-/
structure Lexeme.Same
    (l l' : Lexeme) : Prop where
  kind : l.kind = l'.kind
  text : l.kind ≠ .endOfLine → l.text = l'.text

/- Nothing but newlines. -/
def AreLineEnds
    (ls : List Lexeme) : Prop :=
  ∀ l ∈ ls, l.kind = .endOfLine

/-
  Lists that are the same behind a lexeme, but for their places
  and for newlines where those are admitted. Where there is
  none, trivia stand instead.
-/
inductive Matches : Before → List Lexeme → List Lexeme → Prop where
| nil
    (b : Before) :
    Matches b [] []
| next
    {b : Before}
    {l l' : Lexeme}
    {ls ls' : List Lexeme}
    (hSame : l.Same l')
    (hSpaced : l.kind = .endOfLine ∨ l.spaced = l'.spaced)
    (hMore : Matches (b.step l.kind) ls ls') :
    Matches b (l :: ls) (l' :: ls')
| ends
    {b : Before}
    {breaks breaks' : List Lexeme}
    (hAdmits : b.admitsBreak .endOfLine = true)
    (hBreaks : AreLineEnds breaks)
    (hBreaks' : AreLineEnds breaks') :
    Matches b breaks breaks'
| goesOn
    {b : Before}
    {breaks breaks' : List Lexeme}
    {l l' : Lexeme}
    {ls ls' : List Lexeme}
    (hAdmits : b.admitsBreak l.kind = true)
    (hBreaks : AreLineEnds breaks)
    (hBreaks' : AreLineEnds breaks')
    (hSpaced : breaks = [] → l.spaced = true)
    (hSpaced' : breaks' = [] → l'.spaced = true)
    (hSame : l.Same l')
    (hKind : l.kind ≠ .endOfLine)
    (hMore : Matches ⟨l.kind, false⟩ ls ls') :
    Matches b (breaks ++ l :: ls) (breaks' ++ l' :: ls')

/- Lists whose first lexemes are the same. -/
inductive Heads : List Lexeme → List Lexeme → Prop where
| nil :
    Heads [] []
| cons
    {l l' : Lexeme}
    {ls ls' : List Lexeme}
    (hSame : l.Same l')
    (hMore : Matches ⟨l.kind, true⟩ ls ls') :
    Heads (l :: ls) (l' :: ls')

/- Lists at whose front there is no operand. -/
inductive Begins : List Lexeme → List Lexeme → Prop where
| nil :
    Begins [] []
| cons
    {l l' : Lexeme}
    {ls ls' : List Lexeme}
    (hSame : l.Same l')
    (hMore : Matches ⟨l.kind, false⟩ ls ls') :
    Begins (l :: ls) (l' :: ls')

/- Lists right behind an operand. -/
abbrev Tight :=
  Matches ⟨.identifier, false⟩

/- Lists that are to be continued. -/
def Awaits
    (ls ls' : List Lexeme) : Prop :=
  ∃ b : Before, b.kind.endsOperand = false ∧ Matches b ls ls'

/- What is left behind a run of some kinds. -/
def dropRun
    (p : Kind → Bool)
    (ls : List Lexeme) : List Lexeme :=
  ls.dropWhile fun l => p l.kind

/- Lists that begin alike behind their newlines. -/
def Loose
    (ls ls' : List Lexeme) : Prop :=
  Heads (dropRun isLineEnd ls) (dropRun isLineEnd ls')

/- Lists that begin behind their newlines, without an operand. -/
def Afresh
    (ls ls' : List Lexeme) : Prop :=
  Begins (dropRun isLineEnd ls) (dropRun isLineEnd ls')

variable {b b' : Before}
variable {k : Kind}
variable {l l' : Lexeme}
variable {ls ls' : List Lexeme}

namespace Matches

/- What holds without an operand holds behind one. -/
theorem joins
    (hMatches : Matches ⟨k, false⟩ ls ls')
    (joins : Bool) :
    Matches ⟨k, joins⟩ ls ls' := by
  cases hMatches with
  | nil => exact .nil _
  | next hSame hSpaced hMore => exact .next hSame hSpaced hMore
  | ends hAdmits hBreaks hBreaks' =>
      exact .ends (Before.admitsBreak_mono joins hAdmits) hBreaks
        hBreaks'
  | goesOn hAdmits hBreaks hBreaks' hSpaced hSpaced' hSame hKind
      hMore =>
      exact .goesOn (Before.admitsBreak_mono joins hAdmits) hBreaks
        hBreaks' hSpaced hSpaced' hSame hKind hMore

/- Only of a range it matters what it stands behind. -/
theorem of_ne_range
    {joins : Bool}
    (hMatches : Matches ⟨k, joins⟩ ls ls')
    (hRange : k ≠ .operator .range) :
    Matches ⟨k, false⟩ ls ls' := by
  have hAdmits : ∀ next,
      Before.admitsBreak ⟨k, joins⟩ next =
        Before.admitsBreak ⟨k, false⟩ next := by
    intro next
    cases k with
    | operator o =>
        cases o <;> first | rfl | exact absurd rfl hRange
    | _ => rfl
  cases hMatches with
  | nil => exact .nil _
  | next hSame hSpaced hMore => exact .next hSame hSpaced hMore
  | ends hLast hBreaks hBreaks' =>
      exact .ends ((hAdmits _).symm.trans hLast) hBreaks hBreaks'
  | goesOn hNext hBreaks hBreaks' hSpaced hSpaced' hSame hKind
      hMore =>
      exact .goesOn ((hAdmits _).symm.trans hNext) hBreaks
        hBreaks' hSpaced hSpaced' hSame hKind hMore

/- Where no newlines are admitted the lists match lexeme by lexeme. -/
theorem cases_of_not_admitsBreak
    (hMatches : Matches b ls ls')
    (hAdmits : ∀ next, b.admitsBreak next = false) :
    ls = [] ∧ ls' = [] ∨
      ∃ l l' ms ms', ls = l :: ms ∧ ls' = l' :: ms' ∧
        l.Same l' ∧
        (l.kind = .endOfLine ∨ l.spaced = l'.spaced) ∧
        Matches (b.step l.kind) ms ms' := by
  cases hMatches with
  | nil => exact .inl ⟨rfl, rfl⟩
  | next hSame hSpaced hMore =>
      exact .inr ⟨_, _, _, _, rfl, rfl, hSame, hSpaced, hMore⟩
  | ends hLast _ _ =>
      rw [hAdmits] at hLast
      cases hLast
  | goesOn hNext _ _ _ _ _ _ _ =>
      rw [hAdmits] at hNext
      cases hNext

/- What admits no newlines may be taken for an operand. -/
theorem tight
    (hMatches : Matches b ls ls')
    (hAdmits : ∀ next, b.admitsBreak next = false) :
    Tight ls ls' := by
  rcases hMatches.cases_of_not_admitsBreak hAdmits with
    ⟨rfl, rfl⟩ |
    ⟨l, l', ms, ms', rfl, rfl, hSame, hSpaced, hMore⟩
  · exact .nil _
  · refine .next hSame hSpaced ?_
    cases hEnds : b.kind.endsOperand with
    | true =>
        rw [Before.step, hEnds] at hMore
        exact hMore
    | false =>
        rw [Before.step, hEnds] at hMore
        exact hMore.joins true

theorem tight_of_endsOperand
    {joins : Bool}
    (hMatches : Matches ⟨k, joins⟩ ls ls')
    (hEnds : k.endsOperand = true) :
    Tight ls ls' :=
  hMatches.tight fun next =>
    Before.admitsBreak_of_endsOperand joins next hEnds

end Matches

theorem Lexeme.Same.symm
    (hSame : l.Same l') :
    l'.Same l :=
  ⟨hSame.kind.symm, fun hKind =>
    (hSame.text (hSame.kind ▸ hKind)).symm⟩

/- A lexeme of any other kind has the same text. -/
theorem Lexeme.Same.text_of
    (hSame : l.Same l')
    (hKind : l.kind = k)
    (hLine : k ≠ .endOfLine) :
    l.text = l'.text :=
  hSame.text (hKind ▸ hLine)

theorem Matches.symm
    (hMatches : Matches b ls ls') :
    Matches b ls' ls := by
  induction hMatches with
  | nil => exact .nil _
  | next hSame hSpaced hMore ih =>
      refine .next hSame.symm ?_ (hSame.kind ▸ ih)
      exact hSpaced.imp (hSame.kind.symm.trans ·) Eq.symm
  | ends hAdmits hBreaks hBreaks' =>
      exact .ends hAdmits hBreaks' hBreaks
  | goesOn hAdmits hBreaks hBreaks' hSpaced hSpaced' hSame hKind
      hMore ih =>
      exact .goesOn (hSame.kind ▸ hAdmits) hBreaks' hBreaks hSpaced'
        hSpaced hSame.symm (hSame.kind ▸ hKind) (hSame.kind ▸ ih)

/- A lexeme that nothing can come before stands in both lists. -/
theorem Matches.exists_next
    (hMatches : Matches b (l :: ls) ls')
    (hKind : l.kind ≠ .endOfLine)
    (hNext : b.admitsBreak l.kind = false ∨ l.spaced = false) :
    ∃ m ms, ls' = m :: ms ∧ l.Same m ∧ l.spaced = m.spaced ∧
      Matches (b.step l.kind) ls ms := by
  generalize hList : l :: ls = ks at hMatches
  cases hMatches with
  | nil => cases hList
  | next hSame hSpaced hMore =>
      cases hList
      exact ⟨_, _, rfl, hSame, hSpaced.resolve_left hKind, hMore⟩
  | ends _ hBreaks _ =>
      rw [← hList] at hBreaks
      exact absurd (hBreaks l List.mem_cons_self) hKind
  | @goesOn _ breaks _ m _ ms _ hAdmits hBreaks _ hSpaced _ _ _ _ =>
      cases breaks with
      | nil =>
          cases hList
          rcases hNext with hNot | hTouches
          · rw [hNot] at hAdmits
            cases hAdmits
          · rw [hSpaced rfl] at hTouches
            cases hTouches
      | cons m breaks =>
          cases hList
          exact absurd (hBreaks l List.mem_cons_self) hKind

theorem Tight.cases
    (hTight : Tight ls ls') :
    ls = [] ∧ ls' = [] ∨
      ∃ l l' ms ms', ls = l :: ms ∧ ls' = l' :: ms' ∧
        l.Same l' ∧
        (l.kind = .endOfLine ∨ l.spaced = l'.spaced) ∧
        Matches ⟨l.kind, true⟩ ms ms' :=
  hTight.cases_of_not_admitsBreak fun _ => rfl

namespace Heads

theorem of_tight
    (hTight : Tight ls ls') :
    Heads ls ls' := by
  rcases hTight.cases with
    ⟨rfl, rfl⟩ | ⟨l, l', ms, ms', rfl, rfl, hSame, _, hMore⟩
  · exact .nil
  · exact .cons hSame hMore

theorem of_begins
    (hBegins : Begins ls ls') :
    Heads ls ls' := by
  cases hBegins with
  | nil => exact .nil
  | cons hSame hMore => exact .cons hSame (hMore.joins true)

/- An operand may begin anywhere but with a range. -/
theorem begins
    (hHeads : Heads ls ls')
    (hRange : ∀ l ms, ls = l :: ms →
      l.kind ≠ .operator .range) :
    Begins ls ls' := by
  cases hHeads with
  | nil => exact .nil
  | cons hSame hMore =>
      exact .cons hSame (hMore.of_ne_range (hRange _ _ rfl))

theorem isSome_head?_eq
    (hHeads : Heads ls ls')
    (p : Kind → Bool) :
    ls'.head?.any (fun l => p l.kind) =
      ls.head?.any (fun l => p l.kind) := by
  cases hHeads with
  | nil => rfl
  | cons hSame _ => simp [hSame.kind]

theorem endsAt_eq
    (hHeads : Heads ls ls')
    (stop : Kind → Bool) :
    endsAt stop ls'.head? = endsAt stop ls.head? := by
  cases hHeads with
  | nil => rfl
  | cons hSame _ => simp [endsAt, hSame.kind]

end Heads

------------------------------------------------------------
-- Newlines and separators
------------------------------------------------------------

/- The kinds of which a run stands between operands. -/
structure IsGap
    (p : Kind → Bool) : Prop where
  newline : p .endOfLine = true
  apart : ∀ k, p k = true → k.endsOperand = false

theorem isGap_isLineEnd :
    IsGap isLineEnd := by
  refine ⟨rfl, ?_⟩
  intro k hLine
  rw [show k = .endOfLine by simpa [isLineEnd] using hLine]
  rfl

theorem isGap_isSeparator :
    IsGap isSeparator := by
  refine ⟨rfl, ?_⟩
  intro k hSeparator
  cases k <;> first | rfl | cases hSeparator

section Runs

variable {p : Kind → Bool}

theorem dropRun_append
    (hGap : IsGap p)
    (hBreaks : AreLineEnds ls)
    (ms : List Lexeme) :
    dropRun p (ls ++ ms) = dropRun p ms := by
  induction ls with
  | nil => rfl
  | cons l ls ih =>
      have hLine : p l.kind = true := by
        rw [hBreaks l List.mem_cons_self]
        exact hGap.newline
      rw [List.cons_append, dropRun, List.dropWhile_cons,
        if_pos hLine]
      exact ih fun m hMem => hBreaks m (List.mem_cons_of_mem l hMem)

theorem dropRun_cons_of_not
    (hNot : ¬ p l.kind = true)
    (ms : List Lexeme) :
    dropRun p (l :: ms) = l :: ms := by
  rw [dropRun, List.dropWhile_cons, if_neg hNot]

theorem dropRun_cons
    (hKind : p l.kind = true)
    (ms : List Lexeme) :
    dropRun p (l :: ms) = dropRun p ms := by
  rw [dropRun, List.dropWhile_cons, if_pos hKind]
  rfl

theorem dropRun_eq_nil
    (hGap : IsGap p)
    (hBreaks : AreLineEnds ls) :
    dropRun p ls = [] := by
  rw [← List.append_nil ls, dropRun_append hGap hBreaks]
  rfl

/- Behind a run what is to be continued begins alike. -/
theorem Matches.begins_dropRun
    (hGap : IsGap p)
    (hMatches : Matches b ls ls')
    (hEnds : b.kind.endsOperand = false) :
    Begins (dropRun p ls) (dropRun p ls') := by
  induction hMatches with
  | nil => exact .nil
  | @next b l l' ls ls' hSame hSpaced hMore ih =>
      by_cases hKind : p l.kind = true
      · rw [dropRun_cons hKind, dropRun_cons (hSame.kind ▸ hKind)]
        exact ih (hGap.apart _ hKind)
      · rw [dropRun_cons_of_not hKind,
          dropRun_cons_of_not (hSame.kind ▸ hKind)]
        rw [Before.step, hEnds] at hMore
        exact .cons hSame hMore
  | ends hAdmits hBreaks hBreaks' =>
      rw [dropRun_eq_nil hGap hBreaks, dropRun_eq_nil hGap hBreaks']
      exact .nil
  | @goesOn b bs bs' l l' ls ls' hAdmits hBreaks hBreaks' hSpaced
      hSpaced' hSame hLine hMore ih =>
      rw [dropRun_append hGap hBreaks, dropRun_append hGap hBreaks']
      by_cases hKind : p l.kind = true
      · rw [dropRun_cons hKind, dropRun_cons (hSame.kind ▸ hKind)]
        exact ih (hGap.apart _ hKind)
      · rw [dropRun_cons_of_not hKind,
          dropRun_cons_of_not (hSame.kind ▸ hKind)]
        exact .cons hSame hMore

theorem Heads.dropRun
    (hGap : IsGap p)
    (hHeads : Heads ls ls') :
    Heads (dropRun p ls) (dropRun p ls') := by
  cases hHeads with
  | nil => exact .nil
  | @cons l l' ls ls' hSame hMore =>
      by_cases hKind : p l.kind = true
      · rw [dropRun_cons hKind, dropRun_cons (hSame.kind ▸ hKind)]
        apply Heads.of_begins
        exact hMore.begins_dropRun hGap (hGap.apart _ hKind)
      · rw [dropRun_cons_of_not hKind,
          dropRun_cons_of_not (hSame.kind ▸ hKind)]
        exact .cons hSame hMore

theorem Matches.heads_dropRun
    (hGap : IsGap p)
    (hMatches : Matches b ls ls') :
    Heads (ElixirReader.dropRun p ls)
      (ElixirReader.dropRun p ls') := by
  cases hEnds : b.kind.endsOperand with
  | false => exact .of_begins (hMatches.begins_dropRun hGap hEnds)
  | true =>
      have hTight : Tight ls ls' :=
        hMatches.tight_of_endsOperand hEnds
      exact (Heads.of_tight hTight).dropRun hGap

end Runs

theorem Matches.loose
    (hMatches : Matches b ls ls') :
    Loose ls ls' :=
  hMatches.heads_dropRun isGap_isLineEnd

theorem Heads.loose
    (hHeads : Heads ls ls') :
    Loose ls ls' :=
  hHeads.dropRun isGap_isLineEnd

theorem Awaits.begins_dropRun
    {p : Kind → Bool}
    (hGap : IsGap p)
    (hAwaits : Awaits ls ls') :
    Begins (dropRun p ls) (dropRun p ls') := by
  rcases hAwaits with ⟨b, hEnds, hMatches⟩
  exact hMatches.begins_dropRun hGap hEnds

theorem Awaits.afresh
    (hAwaits : Awaits ls ls') :
    Afresh ls ls' :=
  hAwaits.begins_dropRun isGap_isLineEnd

theorem Begins.afresh
    (hBegins : Begins ls ls') :
    Afresh ls ls' := by
  cases hBegins with
  | nil => exact .nil
  | @cons l l' ls ls' hSame hMore =>
      unfold Afresh
      by_cases hKind : isLineEnd l.kind = true
      · rw [dropRun_cons hKind, dropRun_cons (hSame.kind ▸ hKind)]
        exact hMore.begins_dropRun isGap_isLineEnd
          (isGap_isLineEnd.apart _ hKind)
      · rw [dropRun_cons_of_not hKind,
          dropRun_cons_of_not (hSame.kind ▸ hKind)]
        exact .cons hSame hMore

/-
  Where a statement starts, once the separators are skipped:
  where something is to be continued, or where the statement
  before has ended.
-/
def Resumes
    (stop : Kind → Bool)
    (ls ls' : List Lexeme) : Prop :=
  Awaits ls ls' ∨
    Tight ls ls' ∧
      ∀ l ms, ls = l :: ms →
        isSeparator l.kind = true ∨ stop l.kind = true

theorem Resumes.heads_dropRun
    {stop : Kind → Bool}
    (hResumes : Resumes stop ls ls') :
    Heads (dropRun isSeparator ls) (dropRun isSeparator ls') := by
  rcases hResumes with ⟨b, _, hMatches⟩ | ⟨hTight, _⟩
  · exact hMatches.heads_dropRun isGap_isSeparator
  · exact hTight.heads_dropRun isGap_isSeparator

/- Unless the statements stop an operand begins there. -/
theorem Resumes.begins_dropRun
    {stop : Kind → Bool}
    (hResumes : Resumes stop ls ls')
    (hEnds : endsAt stop (dropRun isSeparator ls).head? = false) :
    Begins (dropRun isSeparator ls) (dropRun isSeparator ls') := by
  rcases hResumes with hAwaits | ⟨hTight, hLast⟩
  · exact hAwaits.begins_dropRun isGap_isSeparator
  · rcases hTight.cases with
      ⟨rfl, rfl⟩ | ⟨l, l', ms, ms', rfl, rfl, hSame, _, hMore⟩
    · exact .nil
    · by_cases hKind : isSeparator l.kind = true
      · rw [dropRun_cons hKind, dropRun_cons (hSame.kind ▸ hKind)]
        exact hMore.begins_dropRun isGap_isSeparator
          (isGap_isSeparator.apart _ hKind)
      · rw [dropRun_cons_of_not hKind] at hEnds
        have hStop : stop l.kind = false := hEnds
        rcases hLast l ms rfl with hSeparator | hStops
        · exact absurd hSeparator hKind
        · rw [hStop] at hStops
          cases hStops

end ElixirReader
