import ElixirReader.Parser.Recovery

/-
  This file defines what is open behind some lexemes: the
  brackets, blocks and interpolations that have to be closed,
  and the literals that have to be ended. In a literal only
  its own parts may stand.

  Key definitions include:
    * `Delimiter`
    * `Kind.opener?`
    * `Kind.closer?`
    * `Nest.next?`
    * `Nest.behind?`
    * `Nest.parentheses`
    * `Nest.isCode`

  Main declarations:
    * `Nest.length_of_next?`
    * `Nest.next?_append`
    * `Nest.exists_closer`
-/

namespace ElixirReader

------------------------------------------------------------
-- Delimiters
------------------------------------------------------------

/-
  What stays open until it is closed. A heredoc starts with
  the rest of its promoter's line, which is no part of the
  text.
-/
inductive Delimiter where
| bracket (bracket : Bracket)
| block
| interpolation
| promoterLine (family : Family)
| literal (family : Family) (layout : Layout)
deriving DecidableEq, Repr, Inhabited

/- Whether what stands inside is the text of a literal. -/
def Delimiter.isText : Delimiter → Bool
| promoterLine _ => true
| literal _ _ => true
| _ => false

namespace Kind

/- What a kind opens. -/
def opener? : Kind → Option Delimiter
| opening b => some (.bracket b)
| word .do => some .block
| word .fn => some .block
| interpolationStart => some .interpolation
| promoter f .quoted => some (.literal f .quoted)
| promoter f .heredoc => some (.promoterLine f)
| _ => none

/- What a kind closes. -/
def closer? : Kind → Option Delimiter
| closing b => some (.bracket b)
| word .end => some .block
| interpolationEnd => some .interpolation
| terminator f l => some (.literal f l)
| _ => none

/- The kinds that may stand in code. -/
def isOfCode : Kind → Bool
| interpolationStart => false
| terminator _ _ => false
| _ => true

/- The kinds that neither open nor close anything. -/
def isFlat
    (k : Kind) : Bool :=
  k.opener?.isNone && k.closer?.isNone

theorem opens_eq
    (k : Kind) :
    k.opens = k.opener?.isSome := by
  cases k with
  | word w => cases w <;> rfl
  | promoter f l => cases l <;> rfl
  | _ => rfl

theorem closes_eq
    (k : Kind) :
    k.closes = k.closer?.isSome := by
  cases k with
  | word w => cases w <;> rfl
  | _ => rfl

/- No kind both opens and closes. -/
theorem closer?_of_opener?
    {k : Kind}
    {d : Delimiter}
    (hOpener : k.opener? = some d) :
    k.closer? = none := by
  cases k with
  | word w => cases w <;> first | rfl | cases hOpener
  | promoter f l => rfl
  | _ => first | rfl | cases hOpener

end Kind

------------------------------------------------------------
-- Nests
------------------------------------------------------------

/- The delimiters that are open, the innermost first. -/
abbrev Nest :=
  List Delimiter

namespace Nest

/- Close the innermost delimiter, if it is a given one. -/
def close?
    (d : Delimiter) : Nest → Option Nest
| [] => none
| e :: ds => if e = d then some ds else none

/- The nest behind a kind that opens or closes what it does. -/
def turn?
    (opener closer : Option Delimiter)
    (ds : Nest) : Option Nest :=
  match opener, closer with
  | some d, _ => some (d :: ds)
  | none, some d => close? d ds
  | none, none => some ds

/- The nest behind a kind that stands in code. -/
def inCode?
    (ds : Nest)
    (k : Kind) : Option Nest :=
  if k.isOfCode then turn? k.opener? k.closer? ds else none

/- The nest behind a kind that stands in a literal. -/
def inLiteral?
    (f : Family)
    (l : Layout)
    (ds : Nest)
    (k : Kind) : Option Nest :=
  match k with
  | .fragment _ => some (.literal f l :: ds)
  | .escapeSequence => some (.literal f l :: ds)
  | .heredocIndent => some (.literal f l :: ds)
  | .interpolationStart =>
      some (.interpolation :: .literal f l :: ds)
  | .terminator f' l' =>
      if f' = f ∧ l' = l then some ds else none
  | _ => none

/- The nest behind a kind that stands on a promoter's line. -/
def onPromoterLine?
    (f : Family)
    (ds : Nest)
    (k : Kind) : Option Nest :=
  match k with
  | .badCharacter => some (.promoterLine f :: ds)
  | .endOfLine => some (.literal f .heredoc :: ds)
  | _ => none

/-
  The nest behind a kind. There is none if the kind closes
  something else than what is innermost, or cannot stand in
  the literal that is.
-/
def next?
    (ds : Nest)
    (k : Kind) : Option Nest :=
  match ds with
  | .literal f l :: ds => inLiteral? f l ds k
  | .promoterLine f :: ds => onPromoterLine? f ds k
  | ds => inCode? ds k

/- The nest behind some lexemes. -/
def behind?
    (ds : Nest)
    (ls : List Lexeme) : Option Nest :=
  ls.foldlM (fun ds l => next? ds l.kind) ds

/- The number of parentheses that are open. -/
def parentheses
    (ds : Nest) : Nat :=
  ds.count (.bracket .parenthesis)

/- Whether code is read, and not the text of a literal. -/
def isCode
    (ds : Nest) : Bool :=
  !ds.head?.any Delimiter.isText

@[simp] theorem behind?_nil
    (ds : Nest) :
    ds.behind? [] = some ds :=
  rfl

@[simp] theorem behind?_cons
    (ds : Nest)
    (l : Lexeme)
    (ls : List Lexeme) :
    ds.behind? (l :: ls) =
      (ds.next? l.kind).bind (·.behind? ls) :=
  rfl

theorem behind?_append
    (ds : Nest)
    (ls ms : List Lexeme) :
    ds.behind? (ls ++ ms) =
      (ds.behind? ls).bind (·.behind? ms) := by
  simp [behind?, List.foldlM_append]

/- The first of some lexemes, and those behind it. -/
theorem exists_of_behind?_cons
    {ds es : Nest}
    {l : Lexeme}
    {ls : List Lexeme}
    (hBehind : ds.behind? (l :: ls) = some es) :
    ∃ ds', ds.next? l.kind = some ds' ∧
      ds'.behind? ls = some es := by
  rw [behind?_cons] at hBehind
  exact Option.bind_eq_some_iff.mp hBehind

theorem exists_of_behind?_append
    {ds es : Nest}
    {ls ms : List Lexeme}
    (hBehind : ds.behind? (ls ++ ms) = some es) :
    ∃ ds', ds.behind? ls = some ds' ∧
      ds'.behind? ms = some es := by
  rw [behind?_append] at hBehind
  exact Option.bind_eq_some_iff.mp hBehind

------------------------------------------------------------
-- One lexeme
------------------------------------------------------------

theorem next?_of_isCode
    {ds : Nest}
    (k : Kind)
    (hCode : ds.isCode = true) :
    ds.next? k = ds.inCode? k := by
  cases ds with
  | nil => rfl
  | cons d ds => cases d <;> first | rfl | cases hCode

/- All that a kind may do to a nest. -/
inductive Step
    (k : Kind) : Nest → Nest → Prop where
| opens
    (d : Delimiter)
    (ds : Nest)
    (hOpener : k.opener? = some d) :
    Step k ds (d :: ds)
| closes
    (d : Delimiter)
    (ds : Nest)
    (hCloser : k.closer? = some d) :
    Step k (d :: ds) ds
| keeps
    (ds : Nest)
    (hFlat : k.isFlat = true) :
    Step k ds ds
| startsText
    (f : Family)
    (ds : Nest)
    (hKind : k = .endOfLine) :
    Step k (.promoterLine f :: ds) (.literal f .heredoc :: ds)

theorem step_of_inCode?
    {ds es : Nest}
    {k : Kind}
    (hNext : ds.inCode? k = some es) :
    Step k ds es := by
  have hStep : turn? k.opener? k.closer? ds = some es := by
    unfold inCode? at hNext
    split at hNext
    · exact hNext
    · cases hNext
  cases hOpener : k.opener? with
  | some d =>
      rw [hOpener] at hStep
      cases hStep
      exact .opens d ds hOpener
  | none =>
      cases hCloser : k.closer? with
      | some d =>
          rw [hOpener, hCloser] at hStep
          cases ds with
          | nil => cases hStep
          | cons e ds =>
              by_cases hEq : e = d
              · subst hEq
                simp [turn?, close?] at hStep
                subst hStep
                exact .closes e ds hCloser
              · simp [turn?, close?, hEq] at hStep
      | none =>
          rw [hOpener, hCloser] at hStep
          cases hStep
          exact .keeps ds (by simp [Kind.isFlat, hOpener, hCloser])

theorem step_of_inLiteral?
    {f : Family}
    {layout : Layout}
    {ds es : Nest}
    {k : Kind}
    (hNext : inLiteral? f layout ds k = some es) :
    Step k (.literal f layout :: ds) es := by
  cases k with
  | fragment g => cases hNext; exact .keeps _ rfl
  | escapeSequence => cases hNext; exact .keeps _ rfl
  | heredocIndent => cases hNext; exact .keeps _ rfl
  | interpolationStart => cases hNext; exact .opens _ _ rfl
  | terminator f' l' =>
      by_cases hSame : f' = f ∧ l' = layout
      · rcases hSame with ⟨rfl, rfl⟩
        simp [inLiteral?] at hNext
        subst hNext
        exact .closes _ _ rfl
      · simp [inLiteral?, hSame] at hNext
  | _ => cases hNext

theorem step_of_onPromoterLine?
    {f : Family}
    {ds es : Nest}
    {k : Kind}
    (hNext : onPromoterLine? f ds k = some es) :
    Step k (.promoterLine f :: ds) es := by
  cases k with
  | badCharacter => cases hNext; exact .keeps _ rfl
  | endOfLine => cases hNext; exact .startsText f ds rfl
  | _ => cases hNext

theorem step_of_next?
    {ds es : Nest}
    {k : Kind}
    (hNext : ds.next? k = some es) :
    Step k ds es := by
  cases ds with
  | nil => exact step_of_inCode? hNext
  | cons d ds =>
      cases d with
      | literal f l => exact step_of_inLiteral? hNext
      | promoterLine f => exact step_of_onPromoterLine? hNext
      | _ => exact step_of_inCode? hNext

/- What a kind opens becomes the innermost delimiter. -/
theorem next?_of_opener?
    {ds es : Nest}
    {k : Kind}
    {d : Delimiter}
    (hOpener : k.opener? = some d)
    (hNext : ds.next? k = some es) :
    es = d :: ds := by
  cases step_of_next? hNext with
  | opens e _ hOpener' =>
      rw [hOpener] at hOpener'
      cases hOpener'
      rfl
  | closes e _ hCloser =>
      rw [Kind.closer?_of_opener? hOpener] at hCloser
      cases hCloser
  | keeps _ hFlat => simp [Kind.isFlat, hOpener] at hFlat
  | startsText f _ hKind => rw [hKind] at hOpener; cases hOpener

/- What a kind closes was the innermost delimiter. -/
theorem next?_of_closer?
    {ds es : Nest}
    {k : Kind}
    {d : Delimiter}
    (hCloser : k.closer? = some d)
    (hNext : ds.next? k = some es) :
    ds = d :: es := by
  cases step_of_next? hNext with
  | opens e _ hOpener =>
      rw [Kind.closer?_of_opener? hOpener] at hCloser
      cases hCloser
  | closes e _ hCloser' =>
      rw [hCloser] at hCloser'
      cases hCloser'
      rfl
  | keeps _ hFlat => simp [Kind.isFlat, hCloser] at hFlat
  | startsText f _ hKind => rw [hKind] at hCloser; cases hCloser

/- A flat kind in code leaves everything open as it is. -/
theorem next?_of_isFlat
    {ds es : Nest}
    {k : Kind}
    (hFlat : k.isFlat = true)
    (hCode : ds.isCode = true)
    (hNext : ds.next? k = some es) :
    es = ds := by
  cases step_of_next? hNext with
  | opens e _ hOpener => simp [Kind.isFlat, hOpener] at hFlat
  | closes e _ hCloser => simp [Kind.isFlat, hCloser] at hFlat
  | keeps _ _ => rfl
  | startsText f _ _ => cases hCode

/- A nest is as long as recovery takes it to be. -/
theorem length_of_next?
    {ds es : Nest}
    {k : Kind}
    (hNext : ds.next? k = some es) :
    es.length = k.nesting ds.length := by
  cases step_of_next? hNext with
  | opens d _ hOpener =>
      simp [Kind.nesting, Kind.opens_eq, hOpener]
  | closes d _ hCloser =>
      have hOpener : k.opener? = none := by
        cases hOpener : k.opener? with
        | none => rfl
        | some e =>
            rw [Kind.closer?_of_opener? hOpener] at hCloser
            cases hCloser
      simp [Kind.nesting, Kind.opens_eq, Kind.closes_eq,
        hOpener, hCloser]
  | keeps _ hFlat =>
      simp [Kind.isFlat] at hFlat
      simp [Kind.nesting, Kind.opens_eq, Kind.closes_eq, hFlat]
  | startsText f _ hKind =>
      subst hKind
      rfl

/- A kind makes every nest longer, or shorter, by the same. -/
theorem length_add_of_next?
    {ds ds' es es' : Nest}
    {k : Kind}
    (hNext : ds.next? k = some es)
    (hNext' : ds'.next? k = some es') :
    ds.length + es'.length = ds'.length + es.length := by
  rw [length_of_next? hNext, length_of_next? hNext',
    Kind.nesting, Kind.nesting, Kind.opens_eq, Kind.closes_eq]
  cases hCloser : k.closer? with
  | some d =>
      rw [next?_of_closer? hCloser hNext,
        next?_of_closer? hCloser hNext', List.length_cons,
        List.length_cons, Option.isSome_some, if_pos rfl,
        if_pos rfl]
      split <;> omega
  | none =>
      rw [Option.isSome_none, if_neg Bool.false_ne_true,
        if_neg Bool.false_ne_true]
      split <;> omega

/- Only a closing parenthesis closes a parenthesis. -/
theorem parentheses_le_of_next?
    {ds es : Nest}
    {k : Kind}
    (hKind : k ≠ .closing .parenthesis)
    (hNext : ds.next? k = some es) :
    ds.parentheses ≤ es.parentheses := by
  cases step_of_next? hNext with
  | opens d _ hOpener => simp [parentheses, List.count_cons]
  | closes d _ hCloser =>
      have hOther : d ≠ .bracket .parenthesis := by
        rintro rfl
        apply hKind
        cases k with
        | closing b => cases hCloser; rfl
        | word w => cases w <;> cases hCloser
        | _ => cases hCloser
      simp [parentheses, hOther]
  | keeps _ _ => exact Nat.le_refl _
  | startsText f _ _ => simp [parentheses]

------------------------------------------------------------
-- Delimiters underneath
------------------------------------------------------------

theorem inCode?_append
    {ds : Nest}
    (es : Nest)
    (k : Kind)
    (hOpen : ds ≠ []) :
    inCode? (ds ++ es) k = (ds.inCode? k).map (· ++ es) := by
  unfold inCode?
  split
  · cases k.opener? with
    | some d => rfl
    | none =>
        cases k.closer? with
        | none => rfl
        | some d =>
            cases ds with
            | nil => exact absurd rfl hOpen
            | cons e ds =>
                by_cases hEq : e = d <;>
                  simp [turn?, close?, hEq]
  · rfl

/- What is underneath the innermost delimiter is not read. -/
theorem next?_append
    {ds : Nest}
    (es : Nest)
    (k : Kind)
    (hOpen : ds ≠ []) :
    next? (ds ++ es) k = (ds.next? k).map (· ++ es) := by
  cases ds with
  | nil => exact absurd rfl hOpen
  | cons d ds =>
      cases d with
      | literal f l =>
          change inLiteral? f l (ds ++ es) k =
            (inLiteral? f l ds k).map (· ++ es)
          unfold inLiteral?
          split <;> first | rfl | (split <;> rfl)
      | promoterLine f =>
          change onPromoterLine? f (ds ++ es) k =
            (onPromoterLine? f ds k).map (· ++ es)
          unfold onPromoterLine?
          split <;> rfl
      | _ => exact inCode?_append es k hOpen

/-
  In code, a kind closes the innermost delimiter, or does
  what it does with nothing open.
-/
theorem next?_cons
    {d : Delimiter}
    {ds es : Nest}
    {k : Kind}
    (hCode : d.isText = false)
    (hNext : next? (d :: ds) k = some es) :
    (k.closer? = some d ∧ es = ds) ∨
      ∃ fs, next? [] k = some fs ∧ es = fs ++ d :: ds := by
  have hInCode : inCode? (d :: ds) k = some es := by
    rw [← hNext]
    exact (next?_of_isCode k (by simp [isCode, hCode])).symm
  have hOfCode : k.isOfCode = true := by
    unfold inCode? at hInCode
    split at hInCode
    · rename_i hOfCode
      exact hOfCode
    · cases hInCode
  cases step_of_next? hNext with
  | opens e _ hOpener =>
      right
      refine ⟨[e], ?_, rfl⟩
      change inCode? [] k = some [e]
      rw [inCode?, if_pos hOfCode, hOpener]
      rfl
  | closes e _ hCloser => exact .inl ⟨hCloser, rfl⟩
  | keeps _ hFlat =>
      right
      refine ⟨[], ?_, rfl⟩
      simp [Kind.isFlat] at hFlat
      change inCode? [] k = some []
      rw [inCode?, if_pos hOfCode, hFlat.1, hFlat.2]
      rfl
  | startsText f _ _ => cases hCode

/-
  What closes a delimiter in code comes behind lexemes that
  leave nothing open, and what was open underneath is open
  then.
-/
theorem exists_closer_of_append
    {d : Delimiter}
    {ds es : Nest}
    {ls : List Lexeme}
    (hCode : d.isText = false)
    (hBehind : behind? (es ++ d :: ds) ls = some []) :
    ∃ inner closer outer,
      ls = inner ++ closer :: outer ∧
        es.behind? inner = some [] ∧
        closer.kind.closer? = some d ∧
        ds.behind? outer = some [] := by
  induction ls generalizing es with
  | nil => simp at hBehind
  | cons l ls ih =>
      rcases exists_of_behind?_cons hBehind with
        ⟨fs, hNext, hRest⟩
      -- A lexeme that leaves the delimiter open.
      have hInner :
          ∀ gs, es.next? l.kind = some gs →
            fs = gs ++ d :: ds →
            ∃ inner closer outer,
              l :: ls = inner ++ closer :: outer ∧
                es.behind? inner = some [] ∧
                closer.kind.closer? = some d ∧
                ds.behind? outer = some [] := by
        intro gs hNext' hEq
        subst hEq
        rcases ih hRest with
          ⟨inner, closer, outer, rfl, hIn, hCloser, hOut⟩
        refine ⟨l :: inner, closer, outer, rfl, ?_, hCloser,
          hOut⟩
        rw [behind?_cons, hNext']
        exact hIn
      cases es with
      | nil =>
          rcases next?_cons hCode hNext with
            ⟨hCloser, rfl⟩ | ⟨gs, hNext', hEq⟩
          · exact ⟨[], l, ls, rfl, rfl, hCloser, hRest⟩
          · exact hInner gs hNext' hEq
      | cons e es =>
          rw [next?_append _ _ (List.cons_ne_nil e es)] at hNext
          rcases Option.map_eq_some_iff.mp hNext with
            ⟨gs, hNext', hEq⟩
          exact hInner gs hNext' hEq.symm

theorem exists_closer
    {d : Delimiter}
    {ds : Nest}
    {ls : List Lexeme}
    (hCode : d.isText = false)
    (hBehind : behind? (d :: ds) ls = some []) :
    ∃ inner closer outer,
      ls = inner ++ closer :: outer ∧
        behind? [] inner = some [] ∧
        closer.kind.closer? = some d ∧
        ds.behind? outer = some [] :=
  exists_closer_of_append hCode hBehind

/- Flat lexemes in code leave everything open as it is. -/
theorem behind?_of_isFlat
    {ds es : Nest}
    {ls : List Lexeme}
    (hFlat : ∀ l ∈ ls, l.kind.isFlat = true)
    (hCode : ds.isCode = true)
    (hBehind : ds.behind? ls = some es) :
    es = ds := by
  induction ls with
  | nil =>
      cases hBehind
      rfl
  | cons l ls ih =>
      rcases exists_of_behind?_cons hBehind with
        ⟨fs, hNext, hRest⟩
      have hSame :=
        next?_of_isFlat (hFlat l List.mem_cons_self) hCode
          hNext
      subst hSame
      apply ih _ hRest
      intro m hMem
      exact hFlat m (List.mem_cons_of_mem l hMem)

/- Lexemes make every nest longer, or shorter, by the same. -/
theorem length_add_of_behind?
    {ds ds' es es' : Nest}
    {ls : List Lexeme}
    (hBehind : ds.behind? ls = some es)
    (hBehind' : ds'.behind? ls = some es') :
    ds.length + es'.length = ds'.length + es.length := by
  induction ls generalizing ds ds' with
  | nil =>
      cases hBehind
      cases hBehind'
      omega
  | cons l ls ih =>
      rcases exists_of_behind?_cons hBehind with
        ⟨fs, hNext, hRest⟩
      rcases exists_of_behind?_cons hBehind' with
        ⟨fs', hNext', hRest'⟩
      have hStep := length_add_of_next? hNext hNext'
      have hLater := ih hRest hRest'
      omega

theorem parentheses_le_of_behind?
    {ds es : Nest}
    {ls : List Lexeme}
    (hKinds : ∀ l ∈ ls, l.kind ≠ .closing .parenthesis)
    (hBehind : ds.behind? ls = some es) :
    ds.parentheses ≤ es.parentheses := by
  induction ls generalizing ds with
  | nil =>
      cases hBehind
      exact Nat.le_refl _
  | cons l ls ih =>
      rcases exists_of_behind?_cons hBehind with
        ⟨fs, hNext, hRest⟩
      calc
        ds.parentheses ≤ fs.parentheses :=
          parentheses_le_of_next?
            (hKinds l List.mem_cons_self) hNext
        _ ≤ es.parentheses := by
          apply ih _ hRest
          intro m hMem
          exact hKinds m (List.mem_cons_of_mem l hMem)

end Nest

end ElixirReader
