import ElixirReader.Proofs.Lexer.Framing
import ElixirReader.Proofs.Parser.Texts
import ElixirReader.Tree.Traversal

/-
  This file relates the errors that a part of the parser notes
  to the errors in the trees that it gives. Where one is noted,
  one shows; where none is noted, none shows, and what was
  taken closes all that it opens.

  The first holds wherever quoted keys come to their colon.
  The second holds where literals and interpolations are ended
  in turn, as they are in a source that the lexer finds in
  order.

  Key definitions include:
    * `HasError`
    * `Balances`
    * `Calm`
    * `keysClose`
    * `Reads`

  Main declarations:
    * `Calm.advance`
    * `Reads.bind`
    * `Reads.inside`
    * `Reads.failure`
    * `Reads.expectClosing`
-/

namespace ElixirReader

open Parse

variable {α β : Type}
variable {l : Lexeme}
variable {ls : List Lexeme}
variable {s s' : ParseState}

------------------------------------------------------------
-- Trees with errors
------------------------------------------------------------

/- Some of the trees holds an error. -/
def HasError
    (ns : List Node) : Prop :=
  ∃ n ∈ ns, n.containsError = true

@[simp] theorem hasError_nil :
    ¬ HasError [] := by
  simp [HasError]

@[simp] theorem hasError_cons
    (n : Node)
    (ns : List Node) :
    HasError (n :: ns) ↔
      n.containsError = true ∨ HasError ns := by
  simp [HasError]

@[simp] theorem hasError_append
    (ns ms : List Node) :
    HasError (ns ++ ms) ↔ HasError ns ∨ HasError ms := by
  simp [HasError, or_and_right, exists_or]

/- A tree holds an error if one of those right below it does. -/
theorem containsError_mk
    {f : Form Node}
    (span : Span)
    (hForm : Node.isError ⟨f, span⟩ = false) :
    Node.containsError ⟨f, span⟩ = true ↔
      HasError f.nodes := by
  rw [Node.containsError_eq, hForm, Bool.false_or,
    List.any_eq_true]
  rfl

@[simp] theorem containsError_failure
    (message : String)
    (span : Span) :
    (Node.failure message span).containsError = true := by
  rw [Node.containsError_eq]
  rfl

------------------------------------------------------------
-- Balanced stretches
------------------------------------------------------------

/-
  What some lexemes open they close, but for the delimiters
  that are open before them and those open behind.
-/
def Balances
    (ds es : Nest)
    (ls : List Lexeme) : Prop :=
  ∀ fs : Nest, fs.isCode = true →
    Nest.behind? (ds ++ fs) ls = some (es ++ fs)

theorem Balances.nil
    (ds : Nest) :
    Balances ds ds [] :=
  fun _ _ => rfl

theorem Balances.append
    {ds es gs : Nest}
    {ms : List Lexeme}
    (hFirst : Balances ds es ls)
    (hSecond : Balances es gs ms) :
    Balances ds gs (ls ++ ms) := by
  intro fs hCode
  rw [Nest.behind?_append, hFirst fs hCode]
  exact hSecond fs hCode

/- A lexeme of code does what its kind does. -/
theorem Balances.singleton
    {ds es : Nest}
    (hNext : ∀ fs : Nest, fs.isCode = true →
      Nest.next? (ds ++ fs) l.kind = some (es ++ fs)) :
    Balances ds es [l] := by
  intro fs hCode
  rw [Nest.behind?_cons, hNext fs hCode]
  rfl

/- A flat kind in code leaves everything open as it is. -/
theorem Nest.next?_eq_of_isFlat
    {ds : Nest}
    {k : Kind}
    (hFlat : k.isFlat = true)
    (hCode : ds.isCode = true) :
    ds.next? k = some ds := by
  have hFramed := framed?_of_isCode hCode (.inl hFlat)
  unfold framed? at hFramed
  split at hFramed
  · rename_i hUnframed
    simp only [Kind.isFlat, Bool.and_eq_true,
      Option.isNone_iff_eq_none] at hFlat
    simp [Kind.isUnframed, hFlat.1, hFlat.2] at hUnframed
  · exact hFramed

theorem Balances.of_isFlat
    (hFlat : ∀ l ∈ ls, l.kind.isFlat = true) :
    Balances [] [] ls := by
  induction ls with
  | nil => exact Balances.nil []
  | cons l ls ih =>
      have hHead : Balances [] [] [l] :=
        Balances.singleton fun fs hCode =>
          Nest.next?_eq_of_isFlat (hFlat l List.mem_cons_self)
            hCode
      exact hHead.append
        (ih fun m hMem => hFlat m (List.mem_cons_of_mem l hMem))

------------------------------------------------------------
-- Calm states
------------------------------------------------------------

/- The kinds that may be the last of a text that is in order. -/
def Kind.isComplete : Kind → Bool
| colon => false
| characterMark => false
| character => false
| _ => true

/-
  A lexeme that something has to follow, or that stands for no
  character.
-/
def Lexeme.isUnfinished
    (l : Lexeme) : Bool :=
  l.kind == .colon || l.kind == .characterMark ||
    (l.kind == .character &&
      (Escape.characterCode? l.text.toList).isNone)

theorem Lexeme.isUnfinished_of_isComplete
    (hComplete : l.kind.isComplete = true) :
    l.isUnfinished = false := by
  unfold Lexeme.isUnfinished
  cases hKind : l.kind <;> rw [hKind] at hComplete <;>
    first | rfl | cases hComplete

/-
  Nothing has been found faulty, by the lexer or the parser,
  and the literals and interpolations that are open are closed
  by what is left. If the text is `trailing`, its last lexeme is
  unfinished, and still left.
-/
structure Calm
    (trailing : Bool)
    (ds : Nest)
    (s : ParseState) : Prop where
  poisoned : s.poisoned = false
  faultless : Faultless s.rest
  framed : ds.framedBehind? s.rest = some []
  unfinished : trailing = true →
    ∃ l, s.rest.getLast? = some l ∧ l.isUnfinished = true

namespace Calm

variable {trailing : Bool}
variable {ds es : Nest}

/- Only what is left, and whether there is poison, matters. -/
theorem congr
    (hCalm : Calm trailing ds s)
    (hRest : s'.rest = s.rest)
    (hPoisoned : s'.poisoned = false) :
    Calm trailing ds s' := by
  refine ⟨hPoisoned, ?_, ?_, ?_⟩
  · rw [hRest]
    exact hCalm.faultless
  · rw [hRest]
    exact hCalm.framed
  · rw [hRest]
    exact hCalm.unfinished

theorem faultless_head
    (hCalm : Calm trailing ds s)
    (hRest : s.rest = l :: ls) :
    l.kind.isFaulty = false := by
  apply hCalm.faultless
  rw [hRest]
  exact List.mem_cons_self

/- A finished lexeme may be taken, and one that is not the last. -/
theorem advance
    (hCalm : Calm trailing ds s)
    (hRest : s.rest = l :: ls)
    (hFramed : ds.framed? l.kind = some es)
    (hFinished : l.isUnfinished = false ∨ ls ≠ []) :
    Calm trailing es (s.advance 1) := by
  have hTail := (ParseState.take_one hRest).2
  refine ⟨hCalm.poisoned, ?_, ?_, ?_⟩
  · intro m hMem
    rw [hTail] at hMem
    apply hCalm.faultless
    rw [hRest]
    exact List.mem_cons_of_mem l hMem
  · have hBehind := hCalm.framed
    rw [hRest, Nest.framedBehind?_cons, hFramed] at hBehind
    rw [hTail]
    exact hBehind
  · intro hTrailing
    rcases hCalm.unfinished hTrailing with ⟨m, hLast, hM⟩
    rw [hRest] at hLast
    rw [hTail]
    cases ls with
    | nil =>
        have hSame : l = m := Option.some.inj hLast
        rcases hFinished with hFinished | hNe
        · rw [hSame, hM] at hFinished
          cases hFinished
        · exact absurd rfl hNe
    | cons k ks => exact ⟨m, hLast, hM⟩

/- So may lexemes of kinds that open and close nothing. -/
theorem advance_of_isFlat
    {k : Nat}
    (hCalm : Calm trailing ds s)
    (hCode : ds.isCode = true)
    (hFlat : ∀ l ∈ s.rest.take k, l.kind.isFlat = true)
    (hEnd : (s.advance k).rest = [] →
      ∀ l ∈ s.rest.take k, l.isUnfinished = false) :
    Calm trailing ds (s.advance k) := by
  have hSplit := (List.take_append_drop k s.rest).symm
  have hFaultless := hCalm.faultless
  have hFramed := hCalm.framed
  rw [hSplit, Faultless.append_iff] at hFaultless
  rw [hSplit, Nest.framedBehind?_append,
    Nest.framedBehind?_of_isFlat hFlat hCode] at hFramed
  refine ⟨hCalm.poisoned, hFaultless.2, hFramed, ?_⟩
  intro hTrailing
  rcases hCalm.unfinished hTrailing with ⟨l, hLast, hL⟩
  rw [hSplit, List.getLast?_append] at hLast
  cases hRest : (s.advance k).rest.getLast? with
  | some m =>
      change (s.rest.drop k).getLast? = some m at hRest
      rw [hRest] at hLast
      cases hLast
      exact ⟨l, rfl, hL⟩
  | none =>
      have hNil := List.getLast?_eq_none_iff.mp hRest
      change (s.rest.drop k).getLast? = none at hRest
      rw [hRest, Option.none_or] at hLast
      rw [hEnd hNil l (List.mem_of_getLast? hLast)] at hL
      cases hL

/- With a literal or interpolation open, something is left. -/
theorem rest_ne_nil
    {d : Delimiter}
    (hCalm : Calm trailing (d :: ds) s) :
    s.rest ≠ [] := by
  intro hNil
  have hFramed := hCalm.framed
  rw [hNil] at hFramed
  cases hFramed

end Calm

------------------------------------------------------------
-- Quoted keys
------------------------------------------------------------

/- What is behind the place where all that is open is closed. -/
def Nest.closed? : Nest → List Lexeme → Option (List Lexeme)
| _, [] => none
| ds, l :: ls =>
    match ds.next? l.kind with
    | none => none
    | some [] => some ls
    | some (e :: es) => closed? (e :: es) ls

/-
  Whether a quoted text that is taken for a key ends right
  before the colon of the key.
-/
def keyCloses
    (l : Lexeme)
    (ls : List Lexeme) : Bool :=
  match l.kind with
  | .promoter f .quoted =>
      !keywordAhead (l :: ls) ||
        (Nest.closed? [.literal f .quoted] ls).any keyColonAhead
  | _ => true

/- Whether all quoted keys end right before their colons. -/
def keysClose : List Lexeme → Bool
| [] => true
| l :: ls => keyCloses l ls && keysClose ls

theorem keysClose_of_isSuffix
    {ms : List Lexeme}
    (hSuffix : ms <:+ ls)
    (hKeys : keysClose ls = true) :
    keysClose ms = true := by
  induction ls with
  | nil =>
      rw [List.suffix_nil.mp hSuffix]
      rfl
  | cons l ls ih =>
      rcases List.suffix_cons_iff.mp hSuffix with rfl | hTail
      · exact hKeys
      · simp only [keysClose, Bool.and_eq_true] at hKeys
        exact ih hTail hKeys.2

------------------------------------------------------------
-- Readings
------------------------------------------------------------

/-
  A part of the parser that hides no error and makes none up.
  `seen` are the trees given by the parts before it, and `view`
  those that its own result holds; `ds` are open before it and
  `es` behind.
-/
structure Reads
    (ds es : Nest)
    (seen : List Node)
    (view : α → List Node)
    (p : Parse α)
    (s : ParseState) : Prop where
  rest : (p s).2.rest <:+ s.rest
  errors : s.errors <+: (p s).2.errors
  shows :
    keysClose s.rest = true →
      HasError seen ∨ (p s).2.errors ≠ s.errors →
        HasError (view (p s).1)
  calm :
    ∀ {trailing : Bool} {fs : Nest},
      fs.isCode = true →
        Calm trailing (ds.framed ++ fs) s →
          (p s).2.errors = s.errors →
            Calm trailing (es.framed ++ fs) (p s).2 ∧
              (∃ taken, s.rest = taken ++ (p s).2.rest ∧
                Balances ds es taken) ∧
              (HasError (view (p s).1) → HasError seen)

/- The trees of a node, and of what comes with other things. -/
def nodeOf
    (n : Node) : List Node :=
  [n]

def nodesOf
    (ns : List Node) : List Node :=
  ns

def noNodes
    (_ : α) : List Node :=
  []

@[simp] theorem hasError_nodeOf
    (n : Node) :
    HasError (nodeOf n) ↔ n.containsError = true := by
  simp [nodeOf]

@[simp] theorem nodesOf_eq
    (ns : List Node) :
    nodesOf ns = ns :=
  rfl

@[simp] theorem noNodes_eq
    (a : α) :
    noNodes a = [] :=
  rfl

namespace Reads

variable {ds es gs : Nest}
variable {seen : List Node}
variable {view : α → List Node}
variable {view' : β → List Node}
variable {p q : Parse α}
variable {f : α → Parse β}

theorem of_eq
    (hReads : Reads ds es seen view q s)
    (hEq : p s = q s) :
    Reads ds es seen view p s := by
  refine ⟨?_, ?_, ?_, ?_⟩
  · rw [hEq]
    exact hReads.rest
  · rw [hEq]
    exact hReads.errors
  · rw [hEq]
    exact hReads.shows
  · rw [hEq]
    exact hReads.calm

/- What has been seen may be told in another way. -/
theorem congr_seen
    {seen' : List Node}
    (hReads : Reads ds es seen' view p s)
    (hSeen : HasError seen ↔ HasError seen') :
    Reads ds es seen view p s := by
  refine ⟨hReads.rest, hReads.errors, ?_, ?_⟩
  · rw [hSeen]
    exact hReads.shows
  · rw [hSeen]
    exact hReads.calm

theorem pure
    {a : α}
    (hView : HasError (view a) ↔ HasError seen) :
    Reads ds ds seen view (pure a) s := by
  refine ⟨List.suffix_refl _, List.prefix_refl _, ?_, ?_⟩
  · rintro _ (hSeen | hErrors)
    · exact hView.mpr hSeen
    · exact absurd rfl hErrors
  · intro trailing fs _ hCalm _
    exact ⟨hCalm, ⟨[], rfl, Balances.nil ds⟩, hView.mp⟩

/- One part behind another that tells all that has been seen. -/
theorem bind_seen
    (hFirst : Reads ds es seen view p s)
    (hSecond : ∀ a s', p s = (a, s') →
      Reads es gs (view a) view' (f a) s') :
    Reads ds gs seen view' (p >>= f) s := by
  have hNext := hSecond (p s).1 (p s).2 rfl
  refine ⟨hNext.rest.trans hFirst.rest,
    hFirst.errors.trans hNext.errors, ?_, ?_⟩
  · intro hKeys hSome
    rw [Parse.bind_apply] at hSome ⊢
    apply hNext.shows
      (keysClose_of_isSuffix hFirst.rest hKeys)
    by_cases hSame : (p s).2.errors = s.errors
    · rw [← hSame] at hSome
      rcases hSome with hSeen | hErrors
      · exact .inl (hFirst.shows hKeys (.inl hSeen))
      · exact .inr hErrors
    · exact .inl (hFirst.shows hKeys (.inr hSame))
  · intro trailing fs hCode hCalm hErrors
    rw [Parse.bind_apply] at hErrors ⊢
    have hBack : (p s).2.errors <+: s.errors := by
      rw [← hErrors]
      exact hNext.errors
    have hSame : (p s).2.errors = s.errors :=
      hBack.eq_of_length_le hFirst.errors.length_le
    rcases hFirst.calm hCode hCalm hSame with
      ⟨hCalm', ⟨taken, hTaken, hBalances⟩, hNone⟩
    rcases hNext.calm hCode hCalm' (hErrors.trans hSame.symm)
      with ⟨hCalm'', ⟨taken', hTaken', hBalances'⟩, hNone'⟩
    refine ⟨hCalm'', ⟨taken ++ taken', ?_,
      hBalances.append hBalances'⟩, fun h => hNone (hNone' h)⟩
    rw [hTaken, hTaken', List.append_assoc]

/- What has been seen before a part is still seen behind it. -/
theorem carry
    (more : List Node)
    (hReads : Reads ds es seen view p s) :
    Reads ds es (more ++ seen) (fun a => more ++ view a) p s := by
  refine ⟨hReads.rest, hReads.errors, ?_, ?_⟩
  · intro hKeys hSome
    rw [hasError_append] at hSome ⊢
    rcases hSome with (hMore | hSeen) | hErrors
    · exact .inl hMore
    · exact .inr (hReads.shows hKeys (.inl hSeen))
    · exact .inr (hReads.shows hKeys (.inr hErrors))
  · intro trailing fs hCode hCalm hErrors
    rcases hReads.calm hCode hCalm hErrors with
      ⟨hCalm', hTaken, hNone⟩
    refine ⟨hCalm', hTaken, ?_⟩
    rw [hasError_append, hasError_append]
    exact Or.imp_right hNone

/- One part behind another: what the first gives has been seen. -/
theorem bind
    (hFirst : Reads ds es [] view p s)
    (hSecond : ∀ a s', p s = (a, s') →
      Reads es gs (seen ++ view a) view' (f a) s') :
    Reads ds gs seen view' (p >>= f) s := by
  apply ((hFirst.carry seen).congr_seen _).bind_seen hSecond
  rw [List.append_nil]

/- A part that gives no trees leaves what has been seen. -/
theorem bind_silent
    (hFirst : Reads ds es [] noNodes p s)
    (hSecond : ∀ a s', p s = (a, s') →
      Reads es gs seen view' (f a) s') :
    Reads ds gs seen view' (p >>= f) s := by
  apply hFirst.bind
  intro a s' hEq
  exact (hSecond a s' hEq).congr_seen (by simp)

/- Parts that only look at the state. -/
theorem bind_rest
    {f : List Lexeme → Parse β}
    (hReads : Reads ds es seen view' (f s.rest) s) :
    Reads ds es seen view' (Parse.rest >>= f) s :=
  hReads.of_eq rfl

theorem bind_peek
    {f : Option Lexeme → Parse β}
    (hReads : Reads ds es seen view' (f s.rest.head?) s) :
    Reads ds es seen view' (peek >>= f) s :=
  hReads.of_eq rfl

theorem bind_isAt
    {f : Bool → Parse β}
    {kind : Kind}
    (hReads : Reads ds es seen view'
      (f (s.rest.head?.any (·.kind == kind))) s) :
    Reads ds es seen view' (isAt kind >>= f) s :=
  hReads.of_eq rfl

theorem bind_currentSpan
    {f : Span → Parse β}
    (hReads : ∀ span, Reads ds es seen view' (f span) s) :
    Reads ds es seen view' (currentSpan >>= f) s :=
  (hReads s.currentSpan).of_eq rfl

theorem bind_previousSpan
    {f : Span → Parse β}
    (hReads : ∀ span, Reads ds es seen view' (f span) s) :
    Reads ds es seen view' (previousSpan >>= f) s :=
  (hReads s.previousSpan).of_eq rfl

theorem bind_found
    {f : Option String → Parse β}
    (hReads : ∀ found, Reads ds es seen view' (f found) s) :
    Reads ds es seen view' (found >>= f) s :=
  (hReads _).of_eq rfl

/- What is read in code is read so inside of a bracket or block. -/
theorem inside
    {d : Delimiter}
    (hReads : Reads [] [] seen view p s)
    (hUnframed : d.isUnframed = true) :
    Reads [d] [d] seen view p s := by
  have hText : d.isText = false := by
    cases d <;> first | rfl | cases hUnframed
  have hFramed : Nest.framed [d] = [] := by
    simp [Nest.framed, hUnframed]
  refine ⟨hReads.rest, hReads.errors, hReads.shows, ?_⟩
  rw [hFramed]
  intro trailing fs hCode hCalm hErrors
  rcases hReads.calm hCode hCalm hErrors with
    ⟨hCalm', ⟨taken, hTaken, hBalances⟩, hNone⟩
  refine ⟨hCalm', ⟨taken, hTaken, ?_⟩, hNone⟩
  intro gs _
  exact hBalances (d :: gs) (by simp [Nest.isCode, hText])

/- So it is inside of an interpolation, whatever that is in. -/
theorem interpolated
    (ds : Nest)
    (hReads : Reads [] [] seen view p s) :
    Reads (.interpolation :: ds) (.interpolation :: ds) seen view
      p s := by
  refine ⟨hReads.rest, hReads.errors, hReads.shows, ?_⟩
  intro trailing fs _ hCalm hErrors
  rcases hReads.calm (show Nest.isCode
      (Nest.framed (.interpolation :: ds) ++ fs) = true from rfl)
      hCalm hErrors with
    ⟨hCalm', ⟨taken, hTaken, hBalances⟩, hNone⟩
  refine ⟨hCalm', ⟨taken, hTaken, ?_⟩, hNone⟩
  intro gs _
  exact hBalances (.interpolation :: ds ++ gs) rfl

/- Giving up a loop changes nothing that matters. -/
theorem cutOff
    {a : α}
    (hReads : Reads ds es seen view (Pure.pure a) s) :
    Reads ds es seen view
      (do
        Parse.cutOff
        return a) s := by
  refine ⟨hReads.rest, hReads.errors, hReads.shows, ?_⟩
  intro trailing fs hCode hCalm hErrors
  rcases hReads.calm hCode hCalm hErrors with
    ⟨hCalm', hTaken, hNone⟩
  exact ⟨hCalm'.congr rfl hCalm'.poisoned, hTaken, hNone⟩

/- A part that notes an error and gives one. -/
theorem of_fails
    (hRest : (p s).2.rest <:+ s.rest)
    (hErrors : s.errors <+: (p s).2.errors)
    (hView : HasError (view (p s).1))
    (hFails : s.poisoned = false →
      (p s).2.errors ≠ s.errors) :
    Reads ds es seen view p s := by
  refine ⟨hRest, hErrors, fun _ _ => hView, ?_⟩
  intro trailing fs _ hCalm hSame
  exact absurd hSame (hFails hCalm.poisoned)

end Reads

/-
  A parser for expressions that keeps to its own side of
  delimiters, hides no error and makes none up.
-/
structure Candid
    (n : Nat)
    (expr : ExpressionParser) : Prop extends
    Sound n expr where
  reads :
    ∀ (precedence : Nat) (context : Context) (s : ParseState),
      Reads [] [] [] nodeOf (expr precedence context) s

------------------------------------------------------------
-- Taking lexemes
------------------------------------------------------------

namespace Reads

variable {ds es : Nest}
variable {seen : List Node}
variable {view : α → List Node}

theorem suffix_advance
    (k : Nat)
    (s : ParseState) :
    (s.advance k).rest <:+ s.rest :=
  List.drop_suffix k s.rest

/- Take one lexeme. -/
theorem skip_one
    (hRest : s.rest = l :: ls)
    (hNext : ∀ fs : Nest, fs.isCode = true →
      Nest.next? (ds ++ fs) l.kind = some (es ++ fs))
    (hFramed : ∀ fs : Nest, fs.isCode = true →
      Nest.framed? (ds.framed ++ fs) l.kind =
        some (es.framed ++ fs))
    (hFinished : l.isUnfinished = false ∨ ls ≠ []) :
    Reads ds es [] noNodes (skip 1) s := by
  refine ⟨suffix_advance 1 s, List.prefix_refl _, ?_, ?_⟩
  · rintro _ (hSeen | hErrors)
    · exact absurd hSeen hasError_nil
    · exact absurd rfl hErrors
  · intro trailing fs hCode hCalm _
    refine ⟨hCalm.advance hRest (hFramed fs hCode) hFinished,
      ⟨[l], ?_, Balances.singleton hNext⟩, fun h => h⟩
    change s.rest = [l] ++ (s.advance 1).rest
    rw [(ParseState.take_one hRest).2, hRest]
    rfl

/- Take one lexeme that opens and closes nothing. -/
theorem bind_skip_flat
    {f : Unit → Parse α}
    (hRest : s.rest = l :: ls)
    (hFlat : l.kind.isFlat = true)
    (hFinished : l.isUnfinished = false ∨ ls ≠ [])
    (hReads : ∀ s', s'.rest = ls →
      Reads [] es seen view (f ()) s') :
    Reads [] es seen view (skip 1 >>= f) s := by
  have hSkip : Reads [] [] [] noNodes (Parse.skip 1) s :=
    skip_one hRest
      (fun fs hCode => Nest.next?_eq_of_isFlat hFlat hCode)
      (fun fs hCode => Nest.framed?_of_isCode hCode (.inl hFlat))
      hFinished
  apply hSkip.bind_silent
  intro _ s' hEq
  apply hReads
  cases hEq
  exact (ParseState.take_one hRest).2

/- Take what opens a bracket or a block. -/
theorem bind_skip_opening
    {f : Unit → Parse α}
    {d : Delimiter}
    (hRest : s.rest = l :: ls)
    (hOpener : l.kind.opener? = some d)
    (hUnframed : d.isUnframed = true)
    (hReads : ∀ s', s'.rest = ls →
      Reads [d] es seen view (f ()) s') :
    Reads [] es seen view (skip 1 >>= f) s := by
  have hOfCode : l.kind.isOfCode = true := by
    cases hKind : l.kind with
    | interpolationStart =>
        rw [hKind] at hOpener
        cases hOpener
        cases hUnframed
    | terminator g layout =>
        rw [hKind] at hOpener
        cases hOpener
    | _ => rfl
  have hComplete : l.kind.isComplete = true := by
    cases hKind : l.kind <;> rw [hKind] at hOpener <;>
      first | rfl | cases hOpener
  have hSkip : Reads [] [d] [] noNodes (Parse.skip 1) s := by
    apply skip_one hRest _ _
      (.inl (Lexeme.isUnfinished_of_isComplete hComplete))
    · intro fs hCode
      rw [List.nil_append, Nest.next?_of_isCode _ hCode,
        Nest.inCode?, if_pos hOfCode, hOpener]
      rfl
    · intro fs hCode
      have hFramed : Nest.framed [d] = [] := by
        simp [Nest.framed, hUnframed]
      rw [hFramed]
      apply Nest.framed?_of_isCode hCode
      right
      simp [Kind.isUnframed, hOpener, hUnframed]
  apply hSkip.bind_silent
  intro _ s' hEq
  apply hReads
  cases hEq
  exact (ParseState.take_one hRest).2

/- Take what closes a bracket or a block. -/
theorem skip_closing
    {d : Delimiter}
    (hRest : s.rest = l :: ls)
    (hCloser : l.kind.closer? = some d)
    (hUnframed : d.isUnframed = true) :
    Reads [d] [] [] noNodes (Parse.skip 1) s := by
  have hOther :
      l.kind.isOfCode = true ∧ l.kind.opener? = none ∧
        l.kind.isComplete = true := by
    cases hKind : l.kind with
    | closing b => exact ⟨rfl, rfl, rfl⟩
    | word w =>
        rw [hKind] at hCloser
        cases w <;> first | exact ⟨rfl, rfl, rfl⟩ | cases hCloser
    | terminator f layout =>
        rw [hKind] at hCloser
        cases hCloser
        cases hUnframed
    | interpolationEnd => exact ⟨rfl, rfl, rfl⟩
    | _ =>
        rw [hKind] at hCloser
        cases hCloser
  apply skip_one hRest
  · intro fs hCode
    have hInside : Nest.isCode ([d] ++ fs) = true := by
      cases d <;> first | rfl | cases hUnframed
    rw [Nest.next?_of_isCode _ hInside, Nest.inCode?,
      if_pos hOther.1, hOther.2.1, hCloser]
    simp [Nest.turn?, Nest.close?]
  · intro fs hCode
    have hFramed : Nest.framed [d] = [] := by
      simp [Nest.framed, hUnframed]
    rw [hFramed]
    apply Nest.framed?_of_isCode hCode
    right
    simp [Kind.isUnframed, hOther.2.1, hCloser, hUnframed]
  · exact .inl (Lexeme.isUnfinished_of_isComplete hOther.2.2)

/-
  Take some lexemes that open and close nothing. Behind an
  unfinished one at the end of the text an error has to follow.
-/
theorem bind_skip
    {k : Nat}
    {f : Unit → Parse α}
    (hFlat : ∀ l ∈ s.rest.take k, l.kind.isFlat = true)
    (hEnd : (s.advance k).rest = [] →
      (∀ l ∈ s.rest.take k, l.isUnfinished = false) ∨
        Fails (f ()) (s.advance k))
    (hReads : Reads [] es seen view (f ()) (s.advance k)) :
    Reads [] es seen view (Parse.skip k >>= f) s := by
  have hSplit := (List.take_append_drop k s.rest).symm
  refine ⟨hReads.rest.trans (suffix_advance k s),
    hReads.errors, ?_, ?_⟩
  · intro hKeys hSome
    exact hReads.shows
      (keysClose_of_isSuffix (suffix_advance k s) hKeys) hSome
  · intro trailing fs hCode hCalm hErrors
    have hFinished : (s.advance k).rest = [] →
        ∀ l ∈ s.rest.take k, l.isUnfinished = false := by
      intro hNil
      rcases hEnd hNil with hFinished | hFails
      · exact hFinished
      · exact absurd hErrors (hFails hCalm.poisoned)
    rcases hReads.calm hCode
        (hCalm.advance_of_isFlat hCode hFlat hFinished) hErrors
      with ⟨hCalm', ⟨taken, hTaken, hBalances⟩, hNone⟩
    refine ⟨hCalm', ⟨s.rest.take k ++ taken, ?_,
      (Balances.of_isFlat hFlat).append hBalances⟩, hNone⟩
    rw [List.append_assoc]
    change s.rest = _ ++ (taken ++ (f () (s.advance k)).2.rest)
    rw [← hTaken]
    exact hSplit

/- Take some lexemes that may end a text. -/
theorem skip
    {k : Nat}
    (hFlat : ∀ l ∈ s.rest.take k,
      l.kind.isFlat = true ∧ l.kind.isComplete = true) :
    Reads [] [] [] noNodes (Parse.skip k) s := by
  have hPure : Reads [] [] [] noNodes
      (Pure.pure () : Parse Unit) (s.advance k) :=
    pure (by simp)
  have hSkip : Reads [] [] [] noNodes
      (Parse.skip k >>= fun _ => Pure.pure ()) s := by
    apply bind_skip (fun l hMem => (hFlat l hMem).1) _ hPure
    intro _
    left
    intro l hMem
    exact Lexeme.isUnfinished_of_isComplete (hFlat l hMem).2
  exact hSkip.of_eq rfl

theorem skipLineEnds :
    Reads [] [] [] noNodes Parse.skipLineEnds s := by
  apply bind_rest
  apply skip
  intro l hMem
  have hLineEnd := of_mem_take_runLength hMem
  have hKind : l.kind = .endOfLine := by
    simpa [isLineEnd] using hLineEnd
  rw [hKind]
  exact ⟨rfl, rfl⟩

theorem skipSeparators :
    Reads [] [] [] noNodes Parse.skipSeparators s := by
  apply bind_rest
  apply skip
  intro l hMem
  have hSeparator := of_mem_take_runLength hMem
  refine ⟨isFlat_of_isSeparator hSeparator, ?_⟩
  cases hKind : l.kind <;> rw [hKind] at hSeparator <;>
    first | rfl | cases hSeparator

/- Take a lexeme of a flat kind if it comes next. -/
theorem eat
    {kind : Kind}
    (hFlat : kind.isFlat = true)
    (hComplete : kind.isComplete = true) :
    Reads [] [] [] noNodes (Parse.eat kind) s := by
  rcases head?_cases kind s with
    ⟨l, ls, hRest, rfl⟩ | hNone
  · have hSkip : Reads [] [] [] noNodes
        (do Parse.skip 1; return some l) s := by
      apply bind_skip_flat hRest hFlat
        (.inl (Lexeme.isUnfinished_of_isComplete hComplete))
      intro s' _
      exact pure (by simp)
    apply hSkip.of_eq
    rw [eat_of_cons hRest rfl]
    rfl
  · have hPure : Reads [] [] [] noNodes
        (Pure.pure (none : Option Lexeme) : Parse _) s :=
      pure (by simp)
    apply hPure.of_eq
    rw [eat_of_ne hNone]
    rfl

------------------------------------------------------------
-- Noting errors
------------------------------------------------------------

theorem failure
    (fault : ParseFault)
    (errorSpan nodeSpan : Span) :
    Reads ds es seen nodeOf
      (Parse.failure fault errorSpan nodeSpan) s := by
  have hTakes := Takes.report 0 fault errorSpan s
  apply of_fails
  · change (s.report fault errorSpan).rest <:+ s.rest
    rw [hTakes.rest]
    exact List.suffix_refl _
  · exact hTakes.errors
  · exact (hasError_nodeOf _).mpr (containsError_failure _ _)
  · exact errors_report_ne fault errorSpan

theorem errorNode
    (fault : ParseFault) :
    Reads ds es seen nodeOf (Parse.errorNode fault) s :=
  bind_currentSpan fun _ => failure fault _ _

theorem wantedNode
    (wanted : Wanted) :
    Reads ds es seen nodeOf (Parse.wantedNode wanted) s :=
  bind_found fun _ => errorNode _

end Reads

/- The tree that stands in for what is missing. -/
def exceptOf : Except Node α → List Node
| .error e => [e]
| .ok _ => []

@[simp] theorem exceptOf_error
    (e : Node) :
    exceptOf (.error e : Except Node α) = [e] :=
  rfl

@[simp] theorem exceptOf_ok
    (a : α) :
    exceptOf (.ok a) = [] :=
  rfl

namespace Reads

variable {ds es : Nest}
variable {seen : List Node}
variable {view : α → List Node}

/- Stand in for what is missing, whatever is open then. -/
theorem wanted
    (wanted : Wanted) :
    Reads ds es [] exceptOf
      (do return (.error (← Parse.wantedNode wanted) :
        Except Node α)) s := by
  have hNode : Reads ds es [] nodeOf
    (Parse.wantedNode wanted) s := wantedNode wanted
  apply hNode.bind
  intro e s' _
  exact pure (by simp)

theorem expect
    {kind : Kind}
    (wanted : Wanted)
    (hFlat : kind.isFlat = true)
    (hComplete : kind.isComplete = true) :
    Reads [] [] [] exceptOf (Parse.expect kind wanted) s := by
  apply (eat hFlat hComplete).bind_silent
  intro l s' _
  cases l with
  | some l => exact pure (by simp)
  | none => exact Reads.wanted wanted

/- What closes a bracket or block, or stands in for it. -/
theorem closeHere
    {closer : Closer}
    {d : Delimiter}
    (opened : Span)
    (hCloser : closer.kind.closer? = some d)
    (hUnframed : d.isUnframed = true) :
    Reads [d] [] [] exceptOf (closeHere closer opened) s := by
  cases hRest : s.rest with
  | nil =>
      have hFailure : Reads [d] [] [] nodeOf
          (Parse.failure (.missingTerminator closer.text
            opened.line) opened opened) s := failure _ _ _
      apply bind_peek
      rw [hRest]
      apply hFailure.bind
      intro e s' _
      exact pure (by simp)
  | cons l ls =>
      apply bind_peek
      rw [hRest]
      by_cases hKind : l.kind = closer.kind
      · have hOne : Reads [d] [] [] noNodes (Parse.skip 1) s := by
          apply skip_closing hRest _ hUnframed
          rw [hKind]
          exact hCloser
        have hSkip : Reads [d] [] [] exceptOf
            (do Parse.skip 1; return (.ok l :
              Except Node Lexeme)) s := by
          apply hOne.bind_silent
          intro _ s' _
          exact pure (by simp)
        apply hSkip.of_eq
        change Parse.expect closer.kind _ s = _
        rw [expect_of_cons _ hRest hKind]
        rfl
      · have hWanted : Reads [d] [] [] exceptOf
            (do return (.error (← Parse.wantedNode
              (.closer closer)) : Except Node Lexeme)) s :=
          Reads.wanted _
        apply hWanted.of_eq
        change Parse.expect closer.kind _ s = _
        rw [expect_of_ne]
        · rfl
        · intro m hHead
          rw [hRest] at hHead
          cases hHead
          exact hKind

theorem expectClosing
    {closer : Closer}
    {d : Delimiter}
    (opened : Span)
    (hCloser : closer.kind.closer? = some d)
    (hUnframed : d.isUnframed = true) :
    Reads [d] [] [] exceptOf
      (Parse.expectClosing closer opened) s := by
  have hSkip : Reads [] [] [] noNodes Parse.skipLineEnds s :=
    skipLineEnds
  rw [expectClosing_eq]
  apply (hSkip.inside hUnframed).bind_silent
  intro _ s' _
  exact closeHere opened hCloser hUnframed

end Reads

end ElixirReader
