import ElixirReader.Proofs.Lexer.Enclosures
import ElixirReader.Proofs.Lexer.Nesting
import ElixirReader.Proofs.Lexer.Positions

/-
  This file proves that a lexer may be driven in any order: by
  single requests, by requests for all that is left, and by
  requests to stop. What it has handed out and noted is always
  a beginning of what it would hand out and note undisturbed,
  and once it was stopped, or has found nothing, it is at rest.

  Key definitions include:
    * `Lexer.Demand`
    * `Lexer.serve`
    * `Lexer.serveAll`
    * `Lexer.freed`
    * `Lexer.prospect`
    * `Lexer.AtRest`

  Main declarations:
    * `Lexer.prospect_serveAll`
    * `Lexer.AtRest.serveAll`
    * `Lexer.atRest_of_serve`
    * `serveAll_ofSource`
-/

namespace ElixirReader

namespace Lexer

------------------------------------------------------------
-- Demands
------------------------------------------------------------

/- What may be asked of a lexer. -/
inductive Demand where
| next
| drain
| raise
deriving DecidableEq, Repr

/- The tokens that a demand is answered with. -/
def serve
    (d : Demand)
    (l : Lexer) : List Token × Lexer :=
  match d with
  | .next => (l.next.1.toList, l.next.2)
  | .drain => (l.drain.1.map (·.1), l.drain.2)
  | .raise => ([], l.raise)

/- Demands that are made one after the other. -/
def serveAll : List Demand → Lexer → List Token × Lexer
| [], l => ([], l)
| d :: ds, l =>
    let (tokens, l') := serve d l
    let (later, last) := serveAll ds l'
    (tokens ++ later, last)

theorem serveAll_cons
    (d : Demand)
    (ds : List Demand)
    (l : Lexer) :
    serveAll (d :: ds) l =
      ((serve d l).1 ++ (serveAll ds (serve d l).2).1,
        (serveAll ds (serve d l).2).2) :=
  rfl

------------------------------------------------------------
-- What is still to come
------------------------------------------------------------

/- A lexer as if nobody had asked it to stop. -/
def freed
    (l : Lexer) : Lexer :=
  { l with raised := false, stopped := false }

/-
  The tokens that are still to come if nobody interferes, and
  all errors that are noted in the end.
-/
def prospect
    (l : Lexer) : List Token × List LexError :=
  let (tokens, last) := l.freed.drain
  (tokens.map (·.1), last.errors)

variable {l : Lexer}

theorem finish_finish
    (l : Lexer) :
    l.finish.finish = l.finish := by
  unfold finish
  split <;> rfl

/- At the end of the source no token is to come. -/
theorem prospect_of_rest_nil
    (hRest : l.rest = []) :
    l.prospect = ([], l.finish.errors) := by
  have hNext : l.freed.next = (none, l.freed.finish) :=
    next_of_rest_nil rfl rfl hRest
  have hErrors : l.freed.finish.errors = l.finish.errors := by
    unfold finish freed
    split <;> rfl
  unfold prospect drain
  rw [take_of_none _ (by rw [hNext]), hNext]
  exact congrArg (Prod.mk []) hErrors

/- A lexer that runs gives away the token in front. -/
theorem prospect_of_rest_cons
    {c : Char}
    {cs : List Char}
    (hRaised : l.raised = false)
    (hStopped : l.stopped = false)
    (hRest : l.rest = c :: cs) :
    l.prospect =
      (l.next.1.toList ++ l.next.2.prospect.1,
        l.next.2.prospect.2) := by
  have hNext := next_of_rest_cons hRaised hStopped hRest
  have hFreed : l.freed = l := by
    cases l
    cases hRaised
    cases hStopped
    rfl
  have hFreed' : l.next.2.freed = l.next.2 := by
    rw [hNext]
    unfold freed past
    rw [hRaised, hStopped]
  have hFewer : l.next.2.rest.length < l.rest.length :=
    length_rest_next (by rw [hNext])
  have hSame :
      l.next.2.take l.rest.length = l.next.2.drain :=
    take_eq_take hFewer (Nat.lt_succ_self _)
  unfold prospect
  rw [hFreed, hFreed', drain, take_of_some _ (by rw [hNext]), hSame,
    hNext]
  rfl

/- A request takes the first of the tokens that are to come. -/
theorem prospect_next
    (l : Lexer) :
    l.prospect =
      (l.next.1.toList ++ l.next.2.prospect.1,
        l.next.2.prospect.2) := by
  cases hStopped : l.stopped with
  | true =>
      have hNext : l.next = (none, l) := by
        unfold next
        rw [if_pos hStopped]
      rw [hNext]
      rfl
  | false =>
      cases hRaised : l.raised with
      | true =>
          have hNext :
              l.next = (none, { l with stopped := true }) := by
            unfold next
            rw [if_neg (by rw [hStopped]; decide), if_pos hRaised]
          rw [hNext]
          rfl
      | false =>
          cases hRest : l.rest with
          | nil =>
              have hEnd : l.finish.rest = [] := by
                unfold finish
                split <;> exact hRest
              rw [next_of_rest_nil hRaised hStopped hRest,
                prospect_of_rest_nil hRest,
                prospect_of_rest_nil hEnd, finish_finish]
              rfl
          | cons c cs =>
              exact prospect_of_rest_cons hRaised hStopped hRest

/- The same for a run of requests. -/
theorem prospect_take
    (n : Nat)
    (l : Lexer) :
    l.prospect =
      ((l.take n).1.map (·.1) ++ (l.take n).2.prospect.1,
        (l.take n).2.prospect.2) := by
  induction n generalizing l with
  | zero => rfl
  | succ n ih =>
      have hFirst := l.prospect_next
      cases hToken : l.next.1 with
      | none =>
          rw [hToken] at hFirst
          rw [take_of_none n hToken]
          exact hFirst
      | some token =>
          rw [hToken, ih l.next.2] at hFirst
          rw [take_of_some n hToken]
          exact hFirst

/- A demand is answered out of what is to come. -/
theorem prospect_serve
    (d : Demand)
    (l : Lexer) :
    l.prospect =
      ((serve d l).1 ++ (serve d l).2.prospect.1,
        (serve d l).2.prospect.2) := by
  cases d with
  | next => exact l.prospect_next
  | drain => exact prospect_take _ l
  | raise => rfl

theorem prospect_serveAll
    (ds : List Demand)
    (l : Lexer) :
    l.prospect =
      ((serveAll ds l).1 ++ (serveAll ds l).2.prospect.1,
        (serveAll ds l).2.prospect.2) := by
  induction ds generalizing l with
  | nil => rfl
  | cons d ds ih =>
      rw [prospect_serve d l, ih (serve d l).2, serveAll_cons,
        List.append_assoc]

/- Errors are only ever added. -/
theorem errors_take_prefix
    (n : Nat)
    (l : Lexer) :
    l.errors <+: (l.take n).2.errors := by
  induction n generalizing l with
  | zero => exact List.prefix_refl _
  | succ n ih =>
      cases hToken : l.next.1 with
      | none =>
          rw [take_of_none n hToken]
          exact l.errors_next
      | some token =>
          rw [take_of_some n hToken]
          exact l.errors_next.trans (ih l.next.2)

theorem errors_prefix_prospect
    (l : Lexer) :
    l.errors <+: l.prospect.2 :=
  errors_take_prefix (l.rest.length + 1) l.freed

------------------------------------------------------------
-- Rest
------------------------------------------------------------

/-
  A lexer is at rest once it was asked to stop, or has noted
  the end of its source.
-/
def AtRest
    (l : Lexer) : Prop :=
  l.raised = true ∨ l.stopped = true ∨
    l.rest = [] ∧ l.ended = true

/- A request that finds nothing leaves a lexer at rest. -/
theorem atRest_of_next
    (hNone : l.next.1 = none) :
    l.next.2.AtRest := by
  cases hStopped : l.stopped with
  | true =>
      unfold next
      rw [if_pos hStopped]
      exact .inr (.inl hStopped)
  | false =>
      cases hRaised : l.raised with
      | true =>
          unfold next
          rw [if_neg (by rw [hStopped]; decide), if_pos hRaised]
          exact .inl hRaised
      | false =>
          cases hRest : l.rest with
          | nil =>
              rw [next_of_rest_nil hRaised hStopped hRest]
              refine .inr (.inr ?_)
              unfold finish
              split
              · rename_i hEnded
                exact ⟨hRest, hEnded⟩
              · exact ⟨hRest, rfl⟩
          | cons c cs =>
              rw [next_of_rest_cons hRaised hStopped hRest]
                at hNone
              cases hNone

/- A run that is long enough ends with such a request. -/
theorem atRest_of_take
    {n : Nat}
    (hEnough : l.rest.length < n) :
    (l.take n).2.AtRest := by
  induction n generalizing l with
  | zero => omega
  | succ n ih =>
      cases hToken : l.next.1 with
      | none =>
          rw [take_of_none n hToken]
          exact atRest_of_next hToken
      | some token =>
          have hFewer := length_rest_next hToken
          rw [take_of_some n hToken]
          exact ih (by omega)

/- A request to a lexer at rest changes nothing but its flags. -/
theorem AtRest.next
    (hRest : l.AtRest) :
    l.next.1 = none ∧ l.next.2.freed = l.freed := by
  unfold Lexer.next
  split
  · exact ⟨rfl, rfl⟩
  · split
    · exact ⟨rfl, rfl⟩
    · rename_i hStopped hRaised
      rcases hRest with hRaised' | hStopped' | ⟨hNil, hEnded⟩
      · exact absurd hRaised' hRaised
      · exact absurd hStopped' hStopped
      · rw [hNil]
        refine ⟨rfl, ?_⟩
        change l.finish.freed = l.freed
        unfold finish
        rw [if_pos hEnded]

theorem AtRest.take
    (hRest : l.AtRest)
    (n : Nat) :
    (l.take n).1 = [] ∧ (l.take n).2.freed = l.freed ∧
      (l.take n).2.AtRest := by
  cases n with
  | zero => exact ⟨rfl, rfl, hRest⟩
  | succ n =>
      rcases hRest.next with ⟨hNone, hFreed⟩
      rw [take_of_none n hNone]
      exact ⟨rfl, hFreed, atRest_of_next hNone⟩

/- No demand gets a token out of a lexer at rest, or moves it. -/
theorem AtRest.serve
    (hRest : l.AtRest)
    (d : Demand) :
    (serve d l).1 = [] ∧ (serve d l).2.freed = l.freed ∧
      (serve d l).2.AtRest := by
  cases d with
  | next =>
      rcases hRest.next with ⟨hNone, hFreed⟩
      refine ⟨?_, hFreed, atRest_of_next hNone⟩
      change l.next.1.toList = []
      rw [hNone]
      rfl
  | drain =>
      rcases hRest.take (l.rest.length + 1) with
        ⟨hNone, hFreed, hStays⟩
      refine ⟨?_, hFreed, hStays⟩
      change (l.take (l.rest.length + 1)).1.map _ = []
      rw [hNone]
      rfl
  | raise => exact ⟨rfl, rfl, .inl rfl⟩

theorem AtRest.serveAll
    (hRest : l.AtRest)
    (ds : List Demand) :
    (serveAll ds l).1 = [] ∧
      (serveAll ds l).2.freed = l.freed := by
  induction ds generalizing l with
  | nil => exact ⟨rfl, rfl⟩
  | cons d ds ih =>
      rcases hRest.serve d with ⟨hNone, hFreed, hStays⟩
      rcases ih hStays with ⟨hLater, hSame⟩
      rw [serveAll_cons, hNone, hLater]
      exact ⟨rfl, hSame.trans hFreed⟩

/-
  A demand to stop, or for all that is left, and one that gets
  no token, leave a lexer at rest.
-/
theorem atRest_of_serve
    {d : Demand}
    (hSettled : d = .raise ∨ d = .drain ∨ l.next.1 = none) :
    (serve d l).2.AtRest := by
  rcases hSettled with rfl | rfl | hNone
  · exact .inl rfl
  · exact atRest_of_take (Nat.lt_succ_self _)
  · cases d with
    | next => exact atRest_of_next hNone
    | drain => exact atRest_of_take (Nat.lt_succ_self _)
    | raise => exact .inl rfl

------------------------------------------------------------
-- Errors of open literals
------------------------------------------------------------

/- A source has at most one literal that is never closed. -/
theorem length_unterminatedErrors_tokenize
    (source : String) :
    (unterminatedErrors (tokenize source).2).length ≤ 1 := by
  have hMirrored : Mirrored [] (ofSource source) :=
    .nil
  rcases hMirrored.take (coherent_startingIn _ _)
      ⟨rfl, rfl, rfl⟩ (Nat.lt_succ_self _) with
    ⟨es, _, hErrors⟩
  change (unterminatedErrors (ofSource source).drain.2.errors).length
    ≤ 1
  rw [drain, hErrors]
  exact Option.length_toList_le

end Lexer

------------------------------------------------------------
-- Sources
------------------------------------------------------------

/-
  However a lexer is driven, what it hands out and what it
  notes are beginnings of the tokens and the errors of its
  source, with at most one literal that is never closed. Once
  it was asked to stop, or for all that is left, or had no
  token to give, no demand gets a token or an error out of it,
  or moves it at all.
-/
theorem serveAll_ofSource
    (source : String)
    (earlier : List Lexer.Demand) :
    let there := Lexer.serveAll earlier (Lexer.ofSource source)
    there.1 <+: (tokenize source).1 ∧
      there.2.errors <+: (tokenize source).2 ∧
      (unterminatedErrors there.2.errors).length ≤ 1 ∧
      ∀ d,
        (d = .raise ∨ d = .drain ∨ there.2.next.1 = none) →
          let behind := Lexer.serve d there.2
          ∀ later,
            (Lexer.serveAll later behind.2).1 = [] ∧
              (Lexer.serveAll later behind.2).2.freed =
                behind.2.freed := by
  intro there
  have hProspect :
      tokenize source =
        (there.1 ++ there.2.prospect.1, there.2.prospect.2) :=
    Lexer.prospect_serveAll earlier (Lexer.ofSource source)
  have hErrors : there.2.errors <+: (tokenize source).2 := by
    rw [hProspect]
    exact there.2.errors_prefix_prospect
  refine ⟨?_, hErrors, ?_, ?_⟩
  · rw [hProspect]
    exact List.prefix_append _ _
  · exact ((hErrors.sublist.filter _).length_le).trans
      (Lexer.length_unterminatedErrors_tokenize source)
  · intro d hSettled behind later
    exact (Lexer.atRest_of_serve hSettled).serveAll later

/-
  A string that is never closed: the second request finds the
  end, and the next ones nothing more.
-/
theorem serveAll_ofSource_string :
    let l := Lexer.ofSource "\""
    let there := Lexer.serveAll [.next] l
    there.2.next.1 = none ∧
      (Lexer.serve .next there.2).2.errors.length = 1 ∧
      ∀ later,
        (Lexer.serveAll later (Lexer.serve .next there.2).2).1 =
            [] ∧
          (Lexer.serveAll later
                (Lexer.serve .next there.2).2).2.freed =
            (Lexer.serve .next there.2).2.freed := by
  have hNone :
      (Lexer.serveAll [.next] (Lexer.ofSource "\"")).2.next.1 =
        none := by
    decide
  refine ⟨hNone, by decide, ?_⟩
  exact (serveAll_ofSource "\"" [.next]).2.2.2 .next
    (.inr (.inr hNone))

end ElixirReader
