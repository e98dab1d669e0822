import ElixirReader.Proofs.Likeness.Matching
import ElixirReader.Proofs.Likeness.Fronts

/-
  This file makes matching lists of lexemes of the tokens of
  two lexers. Tokens of the same shapes give the same lexemes
  but for their places. White space in front of them is of no
  matter behind a lexeme that admits newlines.

  Key definitions include:
    * `Token.spacedBehind`
    * `Before.through`
    * `Lexeme.AreSame`
    * `nextKind`

  Main declarations:
    * `Lexeme.areSame_ofTokensAfter`
    * `Matches.append`
    * `Matches.of_shapes_behind_breaks`
-/

namespace ElixirReader

open Parse

variable {b : Before}
variable {l l' : Lexeme}
variable {ls ls' ms ms' : List Lexeme}
variable {spaced spaced' : Bool}
variable {tokens tokens' more more' : List Token}

------------------------------------------------------------
-- Lexemes of tokens
------------------------------------------------------------

/- Whether white space or a comment stands behind some tokens. -/
def Token.spacedBehind
    (spaced : Bool)
    (tokens : List Token) : Bool :=
  tokens.foldl (fun _ t => t.kind.isTrivia) spaced

namespace Lexeme

theorem ofTokensAfter_append
    (spaced : Bool)
    (tokens more : List Token) :
    ofTokensAfter spaced (tokens ++ more) =
      ofTokensAfter spaced tokens ++
        ofTokensAfter (Token.spacedBehind spaced tokens) more := by
  induction tokens generalizing spaced with
  | nil => rfl
  | cons t tokens ih =>
      rw [List.cons_append, ofTokensAfter, ofTokensAfter]
      cases hTrivia : t.kind.isTrivia with
      | true =>
          rw [if_pos rfl, if_pos rfl, ih, Token.spacedBehind,
            Token.spacedBehind, List.foldl_cons, hTrivia]
      | false =>
          rw [if_neg Bool.false_ne_true, if_neg Bool.false_ne_true,
            ih, Token.spacedBehind, Token.spacedBehind,
            List.foldl_cons, hTrivia, List.cons_append]

/- Lexemes that are the same but for their places. -/
def AreSame : List Lexeme → List Lexeme → Prop :=
  List.Forall₂ fun l l' => l.Same l' ∧ l.spaced = l'.spaced

/- Tokens of the same shapes give such lexemes. -/
theorem areSame_ofTokensAfter
    (spaced : Bool)
    (hShapes : tokens.map Token.shape = tokens'.map Token.shape) :
    AreSame (ofTokensAfter spaced tokens)
      (ofTokensAfter spaced tokens') := by
  induction tokens generalizing tokens' spaced with
  | nil =>
      rw [List.map_eq_nil_iff.mp hShapes.symm]
      exact .nil
  | cons t tokens ih =>
      cases tokens' with
      | nil => cases hShapes
      | cons t' tokens' =>
          rw [List.map_cons, List.map_cons] at hShapes
          rcases List.cons.inj hShapes with ⟨hShape, hMore⟩
          rcases Prod.mk.inj hShape with ⟨hKind, hText⟩
          rw [ofTokensAfter, ofTokensAfter, ← hKind]
          split
          · exact ih true hMore
          · exact .cons ⟨⟨rfl, fun _ => hText⟩, rfl⟩
              (ih false hMore)

end Lexeme

theorem Token.spacedBehind_of_shapes
    (spaced : Bool)
    (hShapes : tokens.map Token.shape = tokens'.map Token.shape) :
    spacedBehind spaced tokens = spacedBehind spaced tokens' := by
  have hFold : ∀ ts : List Token,
      spacedBehind spaced ts =
        (ts.map shape).foldl (fun _ s => s.1.isTrivia) spaced := by
    intro ts
    rw [List.foldl_map]
    rfl
  rw [hFold, hFold, hShapes]

------------------------------------------------------------
-- Lexemes of trivia and newlines
------------------------------------------------------------

theorem Lexeme.ofTokensAfter_of_isTrivia
    {gap : List Token}
    (spaced : Bool)
    (hTrivia : ∀ t ∈ gap, t.kind.isTrivia = true) :
    ofTokensAfter spaced gap = [] := by
  induction gap generalizing spaced with
  | nil => rfl
  | cons t gap ih =>
      rw [ofTokensAfter, if_pos (hTrivia t List.mem_cons_self)]
      exact ih true fun t hMem =>
        hTrivia t (List.mem_cons_of_mem _ hMem)

theorem Token.spacedBehind_append
    (spaced : Bool)
    (tokens more : List Token) :
    spacedBehind spaced (tokens ++ more) =
      spacedBehind (spacedBehind spaced tokens) more :=
  List.foldl_append

/- White space and newlines are nothing but newlines to the parser. -/
theorem areLineEnds_ofTokensAfter
    {gaps : List Token}
    (spaced : Bool)
    (hGaps : gaps.all Token.isPause = true) :
    AreLineEnds (Lexeme.ofTokensAfter spaced gaps) := by
  induction gaps generalizing spaced with
  | nil => exact fun _ hMem => by cases hMem
  | cons t gaps ih =>
      rw [List.all_cons, Bool.and_eq_true] at hGaps
      rw [Lexeme.ofTokensAfter]
      split
      · exact ih true hGaps.2
      · rename_i hPlain
        rintro l (_ | ⟨_, hMem⟩)
        · have hPause := hGaps.1
          rw [Token.isPause, Bool.or_eq_true, beq_iff_eq,
            beq_iff_eq] at hPause
          rcases hPause with hWhite | hLine
          · rw [hWhite] at hPlain
            exact absurd rfl hPlain
          · exact hLine
        · exact ih false hGaps.2 l hMem

/- Where tokens leave no lexeme, all of them are trivia. -/
theorem Token.spacedBehind_of_ofTokensAfter
    {tokens : List Token}
    (hNone : Lexeme.ofTokensAfter true tokens = []) :
    spacedBehind true tokens = true := by
  induction tokens with
  | nil => rfl
  | cons t tokens ih =>
      rw [Lexeme.ofTokensAfter] at hNone
      split at hNone
      · rename_i hTrivia
        rw [spacedBehind, List.foldl_cons, hTrivia]
        exact ih hNone
      · cases hNone

------------------------------------------------------------
-- Matching behind the same lexemes
------------------------------------------------------------

/- Behind some more lexemes. -/
def Before.through
    (b : Before)
    (ls : List Lexeme) : Before :=
  ls.foldl (fun b l => b.step l.kind) b

theorem Matches.append
    (hSame : Lexeme.AreSame ls ls')
    (hMore : Matches (b.through ls) ms ms') :
    Matches b (ls ++ ms) (ls' ++ ms') := by
  induction hSame generalizing b with
  | nil => exact hMore
  | cons hHead _ ih =>
      exact .next hHead.1 (.inr hHead.2) (ih hMore)

theorem Matches.of_areSame
    (hSame : Lexeme.AreSame ls ls') :
    Matches b ls ls' := by
  have hMatches := append hSame (.nil (b.through ls))
  rwa [List.append_nil, List.append_nil] at hMatches

/- The kind behind newlines, or that of a newline at the end. -/
def nextKind
    (ls : List Lexeme) : Kind :=
  ((dropRun isLineEnd ls).head?.map (·.kind)).getD .endOfLine

/- Spaces in front of the first lexeme are not a part of its kind. -/
theorem nextKind_ofTokensAfter
    (spaced spaced' : Bool)
    (tokens : List Token) :
    nextKind (Lexeme.ofTokensAfter spaced tokens) =
      nextKind (Lexeme.ofTokensAfter spaced' tokens) := by
  cases tokens with
  | nil => rfl
  | cons t tokens =>
      rw [Lexeme.ofTokensAfter, Lexeme.ofTokensAfter]
      split
      · rfl
      · unfold nextKind dropRun
        rw [List.dropWhile_cons, List.dropWhile_cons]
        change (((if isLineEnd t.kind = true then _ else _) :
          List Lexeme).head?.map _).getD _ =
          (((if isLineEnd t.kind = true then _ else _) :
            List Lexeme).head?.map _).getD _
        split <;> rfl

/-
  Newlines do not matter in front of tokens of the same shapes,
  where a lexeme that admits them stands before.
-/
theorem Matches.of_shapes_behind_breaks
    {breaks breaks' : List Lexeme}
    (hShapes : more.map Token.shape = more'.map Token.shape)
    (hBreaks : AreLineEnds breaks)
    (hBreaks' : AreLineEnds breaks')
    (hSpaced : breaks = [] → spaced = true)
    (hSpaced' : breaks' = [] → spaced' = true)
    (hAdmits :
      b.admitsBreak (nextKind (Lexeme.ofTokensAfter spaced more)) =
        true) :
    Matches b (breaks ++ Lexeme.ofTokensAfter spaced more)
      (breaks' ++ Lexeme.ofTokensAfter spaced' more') := by
  induction more generalizing more' spaced spaced' breaks breaks' with
  | nil =>
      rw [List.map_eq_nil_iff.mp hShapes.symm]
      rw [Lexeme.ofTokensAfter, Lexeme.ofTokensAfter,
        List.append_nil, List.append_nil]
      exact .ends hAdmits hBreaks hBreaks'
  | cons t more ih =>
      cases more' with
      | nil => cases hShapes
      | cons t' more' =>
          rw [List.map_cons, List.map_cons] at hShapes
          rcases List.cons.inj hShapes with ⟨hShape, hMore⟩
          rcases Prod.mk.inj hShape with ⟨hKind, hText⟩
          rw [Lexeme.ofTokensAfter] at hAdmits ⊢
          rw [Lexeme.ofTokensAfter, ← hKind]
          cases hTrivia : t.kind.isTrivia with
          | true =>
              rw [hTrivia, if_pos rfl] at hAdmits
              rw [if_pos rfl, if_pos rfl]
              exact ih hMore hBreaks hBreaks' (fun _ => rfl)
                (fun _ => rfl) hAdmits
          | false =>
              rw [hTrivia, if_neg Bool.false_ne_true] at hAdmits
              rw [if_neg Bool.false_ne_true,
                if_neg Bool.false_ne_true]
              by_cases hLine : t.kind = .endOfLine
              · have hBehind : ∀ {bs : List Lexeme} {l : Lexeme},
                    AreLineEnds bs → l.kind = .endOfLine →
                      AreLineEnds (bs ++ [l]) := by
                  intro bs l hEnds hKind m hMem
                  rcases List.mem_append.mp hMem with hOld | hNew
                  · exact hEnds m hOld
                  · rw [List.mem_singleton.mp hNew, hKind]
                rw [List.append_cons, List.append_cons breaks']
                apply ih hMore (hBehind hBreaks hLine)
                  (hBehind hBreaks' hLine) (by simp) (by simp)
                rw [nextKind, dropRun_cons (by simp [hLine, isLineEnd])]
                  at hAdmits
                exact hAdmits
              · rw [nextKind, dropRun_cons_of_not
                  (by simpa [isLineEnd] using hLine)] at hAdmits
                exact .goesOn hAdmits hBreaks hBreaks' hSpaced hSpaced'
                  ⟨rfl, fun _ => hText⟩ hLine
                  (.of_areSame (Lexeme.areSame_ofTokensAfter false hMore))

end ElixirReader
