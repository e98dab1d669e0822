import ElixirReader.Proofs.Lexer.Literals
import ElixirReader.Proofs.Lexer.Pieces

/-
  This file shows what the lexer makes of a sigil: a tilde, a
  name and a delimiter, then the body up to the delimiter that
  ends it, and the letters and digits behind that. A sigil with
  a small name reads escapes, so its body is cut into pieces,
  each of which may take more characters than a backslash and
  the one behind it. A sigil with a large name takes its body
  as it is, up to the first terminator without a backslash.

  Key definitions include:
    * `IsEscaped`
    * `IsProtected`
    * `IsSigilText`
    * `IsSigil`

  Main declarations:
    * `IsEscaped.exists_pieces`
    * `fragmentLength_of_isProtected`
    * `lexes_sigilBody`
    * `lexes_sigil`
-/

namespace ElixirReader

open Transition Unicode

variable {close : Char}
variable {body rest : List Char}

------------------------------------------------------------
-- Bodies that are read
------------------------------------------------------------

/-
  A text of plain characters, and of backslashes with one
  character behind each.
-/
inductive IsEscaped
    (close : Char) : List Char → Prop where
| nil :
    IsEscaped close []
| plain
    (c : Char)
    (cs : List Char)
    (hClose : c ≠ close)
    (hBackslash : c ≠ '\\')
    (hHash : c = '#' → cs.head? ≠ some '{')
    (hRest : IsEscaped close cs) :
    IsEscaped close (c :: cs)
| pair
    (c : Char)
    (cs : List Char)
    (hRest : IsEscaped close cs) :
    IsEscaped close ('\\' :: c :: cs)

/- The characters that an escape may take behind its letter. -/
def extendsEscape
    (c : Char) : Bool :=
  isHexDigit c || c == '{' || c == '}' || c == '\n'

theorem forall_take_hexTail
    (most : Nat)
    (cs : List Char) :
    ∀ c ∈ cs.take (hexTail most cs), extendsEscape c = true := by
  have hDigits : ∀ ds : List Char,
      ∀ c ∈ ds.take (countWhile isHexDigit ds),
        extendsEscape c = true := by
    intro ds c hMember
    rw [take_countWhile] at hMember
    have hDigit := List.all_eq_true.mp List.all_takeWhile c hMember
    rw [extendsEscape, hDigit]
    rfl
  intro c hMember
  unfold hexTail at hMember
  split at hMember
  · rename_i ds
    dsimp only at hMember
    split at hMember
    · rename_i hCurly
      rw [List.take_succ_cons, List.mem_cons, List.take_add_one,
        List.mem_append] at hMember
      rcases hMember with rfl | hMember | hMember
      · decide
      · exact hDigits ds c hMember
      · rw [List.head?_drop] at hCurly
        rw [hCurly] at hMember
        obtain rfl := List.mem_singleton.mp hMember
        decide
    · rw [List.take_succ_cons, List.mem_cons] at hMember
      rcases hMember with rfl | hMember
      · decide
      · exact hDigits ds c hMember
  · rw [← List.take_take] at hMember
    exact hDigits _ c (List.mem_of_mem_take hMember)

theorem forall_take_escapeTail
    (letter : Char)
    (cs : List Char) :
    ∀ c ∈ cs.take (escapeTail letter cs), extendsEscape c = true := by
  unfold escapeTail
  split
  · exact forall_take_hexTail 2 cs
  · split
    · exact forall_take_hexTail 4 cs
    · unfold lineBreakTail
      split
      · rename_i hBreak
        cases cs with
        | nil => simp
        | cons d ds =>
            obtain rfl : d = '\n' := Option.some.inj hBreak.2
            simp [extendsEscape]
      · simp

/- Behind characters that an escape takes the text goes on. -/
theorem IsEscaped.drop
    (n : Nat)
    (hBody : IsEscaped close body)
    (hTaken : ∀ c ∈ body.take n, extendsEscape c = true) :
    IsEscaped close (body.drop n) := by
  induction n generalizing body with
  | zero => exact hBody
  | succ n ih =>
      cases hBody with
      | nil => exact .nil
      | plain c cs _ _ _ hRest =>
          exact ih hRest fun d hMember =>
            hTaken d (List.mem_cons_of_mem c hMember)
      | pair c cs hRest =>
          have hBackslash := hTaken '\\' List.mem_cons_self
          exact absurd hBackslash (by decide)

/- An escape does not take the character that ends the text. -/
theorem escapeTail_le
    (letter : Char)
    (cs : List Char)
    (hEnds : extendsEscape close = false) :
    escapeTail letter (cs ++ close :: rest) ≤ cs.length := by
  by_contra hMore
  have hTaken :=
    forall_take_escapeTail letter (cs ++ close :: rest) close
  obtain ⟨k, hK⟩ := Nat.exists_eq_add_of_lt (Nat.lt_of_not_le hMore)
  have hMember :
      close ∈ (cs ++ close :: rest).take
        (escapeTail letter (cs ++ close :: rest)) := by
    rw [hK, List.take_append]
    apply List.mem_append_right
    have hSome : cs.length + k + 1 - cs.length = k + 1 := by omega
    rw [hSome, List.take_succ_cons]
    exact List.mem_cons_self
  rw [hTaken hMember] at hEnds
  cases hEnds

/-
  A text that is read is a row of pieces. The induction is on
  the length of the text, since an escape takes as much of it
  as belongs to it.
-/
theorem IsEscaped.exists_pieces
    {g : Group}
    (rest : List Char)
    (hBody : IsEscaped g.terminator body)
    (hFamily : g.family = .sigil)
    (hEnds : extendsEscape g.terminator = false) :
    ∃ pieces,
      pieces.flatMap Piece.written = body ∧
        Piece.FitAll g (g.terminator :: rest) pieces := by
  generalize hLength : body.length = n
  induction n using Nat.strongRecOn generalizing body with
  | ind n ih =>
      subst hLength
      cases hBody with
      | nil => exact ⟨[], rfl, trivial⟩
      | plain c cs hClose hBackslash hHash hRest =>
          obtain ⟨pieces, rfl, hFit⟩ :=
            ih cs.length (Nat.lt_succ_self _) hRest rfl
          refine ⟨.plain c :: pieces, rfl, ⟨hClose, hBackslash, ?_⟩,
            hFit⟩
          intro hEq hHead
          cases hText : pieces.flatMap Piece.written with
          | nil =>
              rw [hText] at hHead
              obtain hCurly := Option.some.inj hHead
              rw [hCurly] at hEnds
              exact absurd hEnds (by decide)
          | cons d ds =>
              rw [hText] at hHead hHash
              exact hHash hEq hHead
      | pair c cs hRest =>
          let tail := escapeTail c (cs ++ g.terminator :: rest)
          have hLe : tail ≤ cs.length := escapeTail_le c cs hEnds
          have hTaken : ∀ d ∈ cs.take tail, extendsEscape d = true := by
            intro d hMember
            apply forall_take_escapeTail c (cs ++ g.terminator :: rest)
            rw [List.take_append]
            exact List.mem_append_left _ hMember
          obtain ⟨pieces, hText, hFit⟩ := ih (cs.drop tail).length
            (by simp only [List.length_drop, List.length_cons]; omega)
            (hRest.drop tail hTaken) rfl
          refine ⟨.escape (c :: cs.take tail) :: pieces, ?_, ⟨?_, ?_⟩,
            hFit⟩
          · rw [List.flatMap_cons, hText, Piece.written,
              List.cons_append, List.cons_append,
              List.take_append_drop]
          · rw [hText, List.cons_append, backslashTail,
              ← List.append_assoc, List.take_append_drop,
              List.length_cons, List.length_take,
              Nat.min_eq_left hLe, Nat.add_comm]
          · unfold escapeFault
            rw [if_neg]
            exact fun hString => hString.1 hFamily

------------------------------------------------------------
-- Bodies that are taken as they are
------------------------------------------------------------

/-
  Each terminator in a text has a backslash right in front of
  it, and there is none behind the text that could protect the
  terminator there.
-/
structure IsProtected
    (close : Char)
    (body : List Char) : Prop where
  before : ∀ pre post,
    body = pre ++ close :: post → pre.getLast? = some '\\'
  last : body.getLast? ≠ some '\\'

/- What is behind a character that protects nothing there. -/
theorem IsProtected.of_append
    (front : List Char)
    (hBody : IsProtected close (front ++ body))
    (hFront : front.getLast? ≠ some '\\' ∨ body.head? ≠ some close) :
    IsProtected close body := by
  constructor
  · rintro pre post rfl
    have hBefore := hBody.before (front ++ pre) post (by simp)
    rw [List.getLast?_append] at hBefore
    cases hPre : pre.getLast? with
    | none =>
        rw [List.getLast?_eq_none_iff] at hPre
        subst hPre
        rcases hFront with hNone | hOther
        · exact absurd hBefore hNone
        · exact absurd rfl hOther
    | some c =>
        rw [hPre] at hBefore
        exact hBefore
  · intro hLast
    apply hBody.last
    rw [List.getLast?_append, hLast]
    rfl

/-
  Plain text reaches up to the terminator behind such a text:
  a backslash in front of another one takes it along.
-/
theorem fragmentLength_of_isProtected
    {g : Group}
    (rest : List Char)
    (hLayout : g.layout = .quoted)
    (hReads : g.reads = false)
    (hEnds : g.terminator ≠ '\\')
    (hBody : IsProtected g.terminator body) :
    fragmentLength g (body ++ g.terminator :: rest) =
      body.length := by
  generalize hLength : body.length = n
  induction n using Nat.strongRecOn generalizing body with
  | ind n ih =>
      subst hLength
      cases body with
      | nil =>
          rw [List.nil_append, fragmentLength.eq_def]
          simp [hLayout]
      | cons c cs =>
          have hClose : c ≠ g.terminator := by
            rintro rfl
            cases hBody.before [] cs rfl
          by_cases hBackslash : c = '\\'
          · subst hBackslash
            cases cs with
            | nil => exact absurd rfl hBody.last
            | cons d ds =>
                by_cases hGuarded : d = g.terminator
                · subst hGuarded
                  have hRest : IsProtected g.terminator ds :=
                    IsProtected.of_append ['\\', g.terminator] hBody
                      (.inl (by simpa using hEnds))
                  have hMore := ih ds.length
                    (by simp only [List.length_cons]; omega) hRest rfl
                  rw [List.cons_append, List.cons_append,
                    fragmentLength.eq_def]
                  simp [hLayout, hReads, hClose, hMore]
                  omega
                · have hRest : IsProtected g.terminator (d :: ds) :=
                    IsProtected.of_append ['\\'] hBody
                      (.inr (by simpa using hGuarded))
                  have hMore := ih (d :: ds).length
                    (Nat.lt_succ_self _) hRest rfl
                  rw [List.cons_append] at hMore
                  rw [List.cons_append, List.cons_append,
                    fragmentLength.eq_def]
                  simp [hLayout, hReads, hClose, hGuarded, hMore]
                  omega
          · have hRest : IsProtected g.terminator cs :=
              IsProtected.of_append [c] hBody
                (.inl (by simpa using hBackslash))
            have hMore := ih cs.length (Nat.lt_succ_self _) hRest rfl
            rw [List.cons_append, fragmentLength.eq_def]
            simp [hLayout, hReads, hClose, hBackslash, hMore]
            omega

------------------------------------------------------------
-- Bodies
------------------------------------------------------------

/-
  A name with the body that it asks for. A small letter reads
  escapes; capitals and digits take the body as it is.
-/
inductive IsSigilText
    (close : Char) : Bool → List Char → List Char → Prop where
| reads
    (c : Char)
    (body : List Char)
    (hName : c.isLower = true)
    (hBody : IsEscaped close body) :
    IsSigilText close true [c] body
| takes
    (c : Char)
    (cs body : List Char)
    (hName : c.isUpper = true)
    (hRest : ∀ d ∈ cs, (d.isUpper || d.isDigit) = true)
    (hBody : IsProtected close body) :
    IsSigilText close false (c :: cs) body

/- The delimiters of sigils, except for curlies. -/
def sigilDelimiters : List (Char × Char) :=
  [('(', ')'), ('[', ']'), ('<', '>'), ('/', '/'), ('|', '|'),
    ('"', '"'), ('\'', '\'')]

theorem sigilDelimiters_ends
    {opener : Char}
    (hDelimiters : (opener, close) ∈ sigilDelimiters) :
    extendsEscape close = false ∧ close ≠ '\\' := by
  have hAll : ∀ d ∈ sigilDelimiters,
      extendsEscape d.2 = false ∧ d.2 ≠ '\\' := by
    decide
  exact hAll _ hDelimiters

variable {reads : Bool}
variable {name : List Char}
variable {opener : Char}

/- The lexemes of a body say it again, escapes and all. -/
theorem lexes_sigilBody
    (frames : List Frame)
    (rest : List Char)
    (span : Span)
    (hText : IsSigilText close reads name body)
    (hDelimiters : (opener, close) ∈ sigilDelimiters) :
    Lexes (.group ⟨.sigil, .quoted, close, reads⟩ span :: frames)
      .group body (close :: rest)
      (fun m ls =>
        m = .group ∧
          ∃ said, Cuts said ls ∧ said false 0 = body) := by
  obtain ⟨hEnds, hBackslash⟩ := sigilDelimiters_ends hDelimiters
  cases hText with
  | reads c body _ hBody =>
      let g : Group := ⟨.sigil, .quoted, close, true⟩
      obtain ⟨pieces, rfl, hFit⟩ :=
        hBody.exists_pieces (g := g) rest rfl hEnds
      apply (lexes_pieces span [] pieces rfl rfl hBackslash hFit
        (by simp)).mono
      rintro m ls ⟨hMode, hCuts⟩
      refine ⟨hMode, _, hCuts, ?_⟩
      have hKept : Piece.said false = Piece.written := by
        funext p
        cases p <;> rfl
      rw [List.nil_append, hKept]
  | takes c cs body _ _ hBody =>
      let g : Group := ⟨.sigil, .quoted, close, false⟩
      have hLength := fragmentLength_of_isProtected (g := g) rest rfl
        rfl hBackslash hBody
      apply (lexes_run (g := g) span rfl hLength).mono
      rintro m ls ⟨hMode, hCuts⟩
      exact ⟨hMode, _, hCuts, rfl⟩

/- No body starts with the delimiter that ends it. -/
theorem IsSigilText.head?_ne
    (hText : IsSigilText close reads name body)
    (hBackslash : close ≠ '\\') :
    body.head? ≠ some close := by
  cases hText with
  | reads c body _ hBody =>
      cases hBody with
      | nil => exact nofun
      | plain c cs hClose => simpa using hClose
      | pair c cs => simpa using hBackslash.symm
  | takes c cs body _ _ hBody =>
      cases body with
      | nil => exact nofun
      | cons d ds =>
          intro hHead
          obtain rfl := Option.some.inj hHead
          cases hBody.before [] ds rfl

------------------------------------------------------------
-- Names and delimiters
------------------------------------------------------------

/-
  The token behind a tilde or the name of a sigil; `pending`
  is what the name said.
-/
theorem Lexer.StandsAt.next_of_pending
    {frames : List Frame}
    {mode : Mode}
    {l : Lexer}
    {c : Char}
    {cs : List Char}
    {t : Transition}
    (pending : Option Bool)
    (hStands : StandsAt frames mode (c :: cs ++ rest) l)
    (hOf : Transition.of mode pending frames.head? c (cs ++ rest) = t)
    (hLength : t.more = cs.length)
    (hFault : t.fault = none)
    (hKind : t.kind.fault? (c :: cs) = none) :
    ∃ token last span,
      ({ l with sigil := pending } : Lexer).next =
          (some token, { last with sigil := t.sigil }) ∧
        token.kind = t.kind ∧ token.text = String.ofList (c :: cs) ∧
        StandsAt (t.change.apply span frames) t.mode rest last := by
  let l' : Lexer := { l with sigil := pending }
  have hTransition : l'.transition c (cs ++ rest) = t := by
    unfold transition
    rw [← hOf, ← hStands.mode_eq, ← hStands.frames_eq]
  have hNext :
      l'.next =
        (some (l'.tokenOf t (c :: cs)), l'.past t (c :: cs) rest) := by
    unfold Lexer.next
    rw [show l'.stopped = false from hStands.stopped,
      show l'.raised = false from hStands.raised,
      show l'.rest = c :: cs ++ rest from hStands.rest_eq]
    simp only [List.cons_append, hTransition, hLength,
      List.take_left, List.drop_left]
    rfl
  have hNoError : l'.errorOf? t (c :: cs) = none := by
    unfold errorOf?
    rw [hFault, hKind]
    rfl
  refine ⟨_, { l'.past t (c :: cs) rest with sigil := none },
    l'.here.spanOf (c :: cs), hNext, rfl, rfl, ?_⟩
  refine ⟨rfl, rfl, ?_, rfl, ?_, hStands.raised, hStands.stopped⟩
  · rw [← hStands.frames_eq]
    rfl
  · change l.errors ++ (l'.errorOf? t (c :: cs)).toList = []
    rw [hNoError, hStands.errors]
    rfl

/- What the name of a sigil is taken for. -/
theorem IsSigilText.sigilName_eq
    {c : Char}
    {cs : List Char}
    (top : Option Frame)
    (rest : List Char)
    (hText : IsSigilText close reads (c :: cs) body)
    (hDelimiters : (opener, close) ∈ sigilDelimiters) :
    ∃ kind,
      Parse.isSigilName kind = true ∧
        sigilName top c (cs ++ opener :: rest) =
          { Transition.plain kind cs.length .sigil with
            sigil := some reads } := by
  cases hText with
  | reads _ _ hName _ =>
      refine ⟨.readSigilName, rfl, ?_⟩
      rw [sigilName, if_pos hName]
      rfl
  | takes _ _ _ hName hRest _ =>
      have hLower : c.isLower = false := by
        have hAscii :=
          of_ascii (fun c => !(c.isUpper && c.isLower))
            (ascii_of_isUpper hName) (by decide)
        simpa [hName] using hAscii
      have hOpener : (opener.isUpper || opener.isDigit) = false := by
        have hAll : ∀ d ∈ sigilDelimiters,
            (d.1.isUpper || d.1.isDigit) = false := by
          decide
        exact hAll _ hDelimiters
      have hCount :
          countWhile (fun d => d.isUpper || d.isDigit)
            (cs ++ opener :: rest) = cs.length := by
        apply countWhile_append_of_forall hRest
        intro d hHead
        obtain rfl := Option.some.inj hHead
        exact hOpener
      refine ⟨.literalSigilName, rfl, ?_⟩
      rw [sigilName, hLower, if_neg Bool.false_ne_true,
        if_pos hName, hCount]

/- No body is taken for the start of a heredoc. -/
theorem IsSigilText.isTriple_eq
    {modifiers : List Char}
    (hText : IsSigilText close reads name body)
    (hDelimiters : (opener, close) ∈ sigilDelimiters)
    (hModifiers : ∀ c ∈ modifiers, c.isAlphanum = true) :
    isTriple close (body ++ close :: modifiers) = false := by
  have hStart := hText.head?_ne (sigilDelimiters_ends hDelimiters).2
  cases body with
  | cons c cs =>
      apply isTriple_cons
      rintro rfl
      exact hStart rfl
  | nil =>
      cases modifiers with
      | nil => rfl
      | cons c cs =>
          have hNone : ∀ d ∈ sigilDelimiters,
              d.2.isAlphanum = false := by
            decide
          have hOther : c ≠ close := by
            rintro rfl
            have hBoth := hModifiers c List.mem_cons_self
            rw [hNone _ hDelimiters] at hBoth
            cases hBoth
          simp [isTriple, hOther]

/- What the delimiter behind the name is taken for. -/
theorem sigilPromoter_eq
    {modifiers : List Char}
    (top : Option Frame)
    (hText : IsSigilText close reads name body)
    (hDelimiters : (opener, close) ∈ sigilDelimiters)
    (hModifiers : ∀ c ∈ modifiers, c.isAlphanum = true) :
    sigilPromoter reads top opener (body ++ close :: modifiers) =
      promoter ⟨.sigil, .quoted, close, reads⟩ := by
  have hTerminator : sigilTerminator? opener = some close := by
    have hAll : ∀ d ∈ sigilDelimiters,
        sigilTerminator? d.1 = some d.2 := by
      decide
    exact hAll _ hDelimiters
  have hQuote : opener = '"' ∨ opener = '\'' → opener = close := by
    rintro (rfl | rfl) <;> exact Option.some.inj hTerminator
  unfold sigilPromoter
  rw [if_neg, hTerminator]
  rintro ⟨hOpener, hTriple⟩
  obtain rfl := hQuote hOpener
  rw [hText.isTriple_eq hDelimiters hModifiers] at hTriple
  cases hTriple

------------------------------------------------------------
-- Sigils
------------------------------------------------------------

/- The lexemes of the modifiers touch what is in front of them. -/
def AreModifiers
    (modifiers : List Char)
    (ls : List Lexeme) : Prop :=
  modifiers = [] ∧ ls = [] ∨
    ∃ l,
      ls = [l] ∧ l.kind = .sigilModifiers ∧ l.spaced = false ∧
        l.text = String.ofList modifiers

/- The lexemes are a sigil with a body. -/
def IsSigil
    (name body modifiers : List Char)
    (ls : List Lexeme) : Prop :=
  ∃ tilde n opened inside closed last said,
    ls = tilde :: n :: opened :: (inside ++ closed :: last) ∧
      tilde.kind = .tilde ∧ Parse.isSigilName n.kind = true ∧
      n.text = String.ofList name ∧
      opened.kind = .promoter .sigil .quoted ∧
      closed.kind = .terminator .sigil .quoted ∧
      AreModifiers modifiers last ∧ Cuts said inside ∧
      said false 0 = body

/- The modifiers up to the end of a source. -/
theorem takes_modifiers
    {l : Lexer}
    {frames : List Frame}
    {modifiers : List Char}
    (hStands : Lexer.StandsAt frames .sigilModifiers modifiers l)
    (hModifiers : ∀ c ∈ modifiers, c.isAlphanum = true) :
    ∃ tokens mode last,
      Lexer.Takes l tokens last ∧ Lexer.StandsAt frames mode [] last ∧
        AreModifiers modifiers
          (Lexeme.ofTokensAfter false tokens) := by
  cases modifiers with
  | nil => exact ⟨[], _, l, .none l, hStands, .inl ⟨rfl, rfl⟩⟩
  | cons c cs =>
      have hCount : countWhile Char.isAlphanum (cs ++ []) = cs.length :=
        countWhile_append_of_forall
          (fun d hMember =>
            hModifiers d (List.mem_cons_of_mem c hMember))
          (by simp)
      have hOf :
          Transition.of .sigilModifiers none frames.head? c
              (cs ++ []) =
            .plain .sigilModifiers cs.length .afterOperand := by
        change sigilModifiers frames.head? c (cs ++ []) = _
        rw [sigilModifiers, if_pos (hModifiers c List.mem_cons_self),
          hCount]
      rw [← List.append_nil (c :: cs)] at hStands
      obtain ⟨token, hNext, hKind, hText, span, hLast⟩ :=
        hStands.next hOf ⟨rfl, rfl, rfl, rfl⟩
      refine ⟨[token], .afterOperand, l.next.2,
        .token l token [] _ hNext (.none _), hLast, .inr ?_⟩
      have hTrivia : token.kind.isTrivia = false := by
        rw [hKind]
        rfl
      simp only [Lexeme.ofTokensAfter, hTrivia]
      exact ⟨_, rfl, hKind, rfl, hText⟩

/- A name makes no operator of the tilde in front of it. -/
theorem IsSigilText.tilde_eq
    {c : Char}
    {cs : List Char}
    (rest : List Char)
    (hText : IsSigilText close reads (c :: cs) body) :
    tilde (c :: rest) = .plain .tilde 0 .sigil := by
  have hOther : c ≠ '~' ∧ c ≠ '>' := by
    cases hText with
    | reads _ _ hName _ => constructor <;> rintro rfl <;> cases hName
    | takes _ _ _ hName _ _ =>
        constructor <;> rintro rfl <;> cases hName
  have hNone :
      OperatorEntry.find? tildeTable ('~' :: c :: rest) = none := by
    simp [OperatorEntry.find?, tildeTable, List.isPrefixOf,
      hOther.1.symm, hOther.2.symm]
  rw [tilde, hNone]

/- The tilde, the name, and the delimiter that opens the body. -/
theorem takes_sigilHead
    {l : Lexer}
    {modifiers : List Char}
    (hStands : Lexer.StandsAt [] .initial
      ('~' :: (name ++ opener :: (body ++ close :: modifiers))) l)
    (hText : IsSigilText close reads name body)
    (hDelimiters : (opener, close) ∈ sigilDelimiters)
    (hModifiers : ∀ c ∈ modifiers, c.isAlphanum = true) :
    ∃ tilde n opened last span,
      Lexer.Takes l [tilde, n, opened] last ∧
        Lexer.StandsAt [.group ⟨.sigil, .quoted, close, reads⟩ span]
          .group (body ++ close :: modifiers) last ∧
        tilde.kind = .tilde ∧ Parse.isSigilName n.kind = true ∧
        n.text = String.ofList name ∧
        opened.kind = .promoter .sigil .quoted := by
  obtain ⟨c, cs, rfl⟩ : ∃ c cs, name = c :: cs := by
    cases hText <;> exact ⟨_, _, rfl⟩
  have hTilde :
      Transition.of .initial none none '~'
          ([] ++ (c :: cs ++ opener :: (body ++ close :: modifiers))) =
        .plain .tilde 0 .sigil :=
    hText.tilde_eq _
  have hStart :
      Lexer.StandsAt [] .initial
        (['~'] ++
          (c :: cs ++ opener :: (body ++ close :: modifiers))) l :=
    hStands
  obtain ⟨tilde, hNext, hKind, _, _, hNamed⟩ :=
    hStart.next hTilde ⟨rfl, rfl, rfl, rfl⟩
  -- The name says how the body is taken.
  obtain ⟨kind, hIsName, hName⟩ :=
    hText.sigilName_eq none (body ++ close :: modifiers) hDelimiters
  obtain ⟨n, last, _, hNextName, hNameKind, hNameText, hPromoted⟩ :=
    hNamed.next_of_pending none hName rfl rfl
      (by cases kind <;> first | rfl | cases hIsName)
  have hPromoter := sigilPromoter_eq none hText hDelimiters hModifiers
  have hDelimiter :
      Lexer.StandsAt [] .sigil
        ([opener] ++ (body ++ close :: modifiers)) last :=
    hPromoted
  obtain ⟨opened, last', span, hNextOpened, hOpenedKind, _,
      hOpened⟩ :=
    hDelimiter.next_of_pending (some reads) hPromoter rfl rfl rfl
  have hSecond :
      l.next.2.next = (some n, { last with sigil := some reads }) := by
    rw [← hNextName, ← hNamed.sigil]
  have hThird :
      ({ last with sigil := some reads } : Lexer).next =
        (some opened, last') := by
    rw [hNextOpened]
    change (_, { last' with sigil := none }) = _
    rw [← hOpened.sigil]
  refine ⟨tilde, n, opened, last', span, ?_, hOpened, hKind, ?_,
    hNameText, hOpenedKind⟩
  · refine .token _ _ _ _ hNext (.token _ _ _ _ (by rw [hSecond]) ?_)
    rw [hSecond]
    refine .token _ _ _ _ (by rw [hThird]) ?_
    rw [hThird]
    exact .none _
  · rw [hNameKind]
    exact hIsName

/- A sigil with its modifiers, up to the end of a source. -/
theorem lexes_sigil
    {modifiers : List Char}
    (hText : IsSigilText close reads name body)
    (hDelimiters : (opener, close) ∈ sigilDelimiters)
    (hModifiers : ∀ c ∈ modifiers, c.isAlphanum = true) :
    Lexes [] .initial
      ('~' :: (name ++ opener :: (body ++ close :: modifiers))) []
      (fun _ ls => IsSigil name body modifiers ls) := by
  intro l spaced hStands
  rw [List.append_nil] at hStands
  obtain ⟨tilde, n, opened, start, span, hHead, hOpened, hTilde,
      hName, hNameText, hOpenedKind⟩ :=
    takes_sigilHead hStands hText hDelimiters hModifiers
  obtain ⟨tokens, _, mid, hBody, hInside, rfl, said, hCuts, hSaid⟩ :=
    lexes_sigilBody [] modifiers span hText hDelimiters start false
      hOpened
  have hTerminator :
      Transition.of .group none
          [Frame.group ⟨.sigil, .quoted, close, reads⟩ span].head?
          close ([] ++ modifiers) =
        terminator ⟨.sigil, .quoted, close, reads⟩ :=
    if_pos rfl
  have hEnd :
      Lexer.StandsAt [.group ⟨.sigil, .quoted, close, reads⟩ span]
        .group ([close] ++ modifiers) mid :=
    hInside
  obtain ⟨closed, hNext, hClosedKind, _, _, hClosed⟩ :=
    hEnd.next hTerminator ⟨rfl, rfl, rfl, rfl⟩
  obtain ⟨after, mode, last, hAfter, hLast, hAreModifiers⟩ :=
    takes_modifiers hClosed hModifiers
  have hTakes :=
    hHead.trans (hBody.trans (.token _ closed _ _ hNext hAfter))
  refine ⟨_, mode, last, hTakes, hLast, ?_⟩
  have hPlain : tilde.kind.isTrivia = false := by
    rw [hTilde]
    rfl
  have hPlainName : n.kind.isTrivia = false := by
    cases hKind : n.kind <;> rw [hKind] at hName <;>
      first | rfl | cases hName
  have hPlainOpened : opened.kind.isTrivia = false := by
    rw [hOpenedKind]
    rfl
  have hPlainClosed : closed.kind.isTrivia = false := by
    rw [hClosedKind]
    rfl
  obtain ⟨spaced', hAppend⟩ :=
    Lexeme.exists_ofTokensAfter_append false tokens
  simp only [List.cons_append, List.nil_append,
    Lexeme.ofTokensAfter, hPlain, hPlainName, hPlainOpened, hAppend,
    hPlainClosed, Bool.false_eq_true, if_false]
  exact ⟨_, _, _, _, _, _, said, rfl, hTilde, hName, hNameText,
    hOpenedKind, hClosedKind, hAreModifiers, hCuts, hSaid⟩

end ElixirReader
