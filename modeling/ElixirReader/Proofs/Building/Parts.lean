import ElixirReader.Proofs.Errors.Expressions
import ElixirReader.Proofs.Parser.Retaining
import ElixirReader.Tree.Traversal

/-
  This file sets up how what holds of trees is followed through
  the parser. There is a property of each node of a tree, and
  one of the tree as a whole, which may depend on the context
  that the tree is read in. Both hold of what is closed by
  itself, such as a text or a list, if they hold inside of it.

  Key definitions include:
    * `Node.Throughout`
    * `Form.isClosed`
    * `Node.IsAnew`
    * `Opens`
    * `Sustains`
    * `Builds`

  Main declarations:
    * `Node.throughout_iff`
    * `Sustains.isAnew`
    * `Builds.bind`
    * `Builds.statementList`
-/

namespace ElixirReader

open Parse

variable {α β : Type}
variable {m n : Nat}
variable {L : Node → Prop}
variable {V : Context → Node → Prop}

------------------------------------------------------------
-- Properties of nodes
------------------------------------------------------------

/- A property holds of all nodes of a tree. -/
def Node.Throughout
    (L : Node → Prop)
    (n : Node) : Prop :=
  ∀ m ∈ n.preorder, L m

/- A property holds of all nodes of some trees. -/
def AllThroughout
    (L : Node → Prop)
    (ns : List Node) : Prop :=
  ∀ n ∈ ns, n.Throughout L

@[simp] theorem allThroughout_nil :
    AllThroughout L [] := by
  simp [AllThroughout]

@[simp] theorem allThroughout_cons
    (n : Node)
    (ns : List Node) :
    AllThroughout L (n :: ns) ↔
      n.Throughout L ∧ AllThroughout L ns := by
  simp [AllThroughout]

@[simp] theorem allThroughout_append
    (ns ms : List Node) :
    AllThroughout L (ns ++ ms) ↔
      AllThroughout L ns ∧ AllThroughout L ms := by
  simp [AllThroughout, or_imp, forall_and]

@[simp] theorem allThroughout_flatMap
    {α : Type}
    (f : α → List Node)
    (as : List α) :
    AllThroughout L (as.flatMap f) ↔
      ∀ a ∈ as, AllThroughout L (f a) := by
  simp only [AllThroughout, List.mem_flatMap, forall_exists_index,
    and_imp]
  exact ⟨fun h a hA n hN => h n a hA hN,
    fun h n a hA hN => h a hA n hN⟩

namespace Node

/- It holds of the root, and of the trees right below it. -/
theorem throughout_iff
    {n : Node} :
    n.Throughout L ↔ L n ∧ AllThroughout L n.children := by
  unfold AllThroughout Throughout
  rw [preorder_eq]
  simp only [List.mem_cons, List.mem_flatMap, forall_eq_or_imp,
    forall_exists_index, and_imp]
  exact and_congr_right fun _ =>
    ⟨fun h m hM l hL => h l m hM hL, fun h l m hM hL => h m hM l hL⟩

theorem mem_preorder
    (n : Node) :
    n ∈ n.preorder := by
  rw [preorder_eq]
  exact List.mem_cons_self

end Node

------------------------------------------------------------
-- Closed forms
------------------------------------------------------------

/- No call, and nothing that extends a tree to the right. -/
def Form.isPlain : Form ν → Bool
| .call _ _ _ _ => false
| .binary _ _ _ _ => false
| .access _ _ => false
| _ => true

/-
  What shows nothing of what is inside: it is read between
  brackets or quotes, or nothing is.
-/
def Form.isClosed : Form ν → Bool
| .alias base _ => base.isNone
| .unary _ _ => false
| .keywords _ => false
| f => f.isPlain

theorem Form.isPlain_of_isClosed
    {f : Form Node}
    (hClosed : f.isClosed = true) :
    f.isPlain = true := by
  cases f <;> first | rfl | cases hClosed

/- A closed node, with a property that holds inside of it, too. -/
structure Node.IsAnew
    (L : Node → Prop)
    (n : Node) : Prop where
  closed : n.form.isClosed = true
  all : n.Throughout L

------------------------------------------------------------
-- Opens of expressions
------------------------------------------------------------

/- What the parts of a suffix have to be like in a context. -/
structure Suffix.Fits
    (L : Node → Prop)
    (V : Context → Node → Prop)
    (context : Context)
    (s : Suffix) : Prop where
  all : AllThroughout L s.nodes
  arguments :
    s.parentheses = false → ∀ n ∈ s.arguments, V .argument n
  doBlock : context.doBlocks = false → s.doBlock = none

/- What expressions start with, unless that is in parentheses. -/
inductive Opens
    (L : Node → Prop)
    (V : Context → Node → Prop)
    (context : Context) : Node → Prop where
| anew
    {n : Node}
    (hAnew : n.IsAnew L) :
    Opens L V context n
| keywords
    {pairs : List (Node × Node)}
    (span : Span)
    (hPairs :
      ∀ p ∈ pairs, p.1.Throughout L ∧ V context p.2) :
    Opens L V context ⟨.keywords pairs, span⟩
| call
    {suffix : Suffix}
    (name : String)
    (start : Span)
    (hSuffix : suffix.Fits L V context) :
    Opens L V context (suffix.call (.bare name) start)
| unary
    {operand : Node}
    (operator : String)
    (span : Span)
    (hOperand : V context operand) :
    Opens L V context ⟨.unary operator operand, span⟩

/- The trees right below the start of an expression. -/
theorem Opens.allThroughout_children
    {context : Context}
    {n : Node}
    (hOpens : Opens L V context n)
    (hAll : ∀ context n, V context n → n.Throughout L) :
    AllThroughout L n.children := by
  cases hOpens with
  | anew hAnew => exact (Node.throughout_iff.mp hAnew.all).2
  | @keywords pairs span hPairs =>
      simp only [Node.children, Node.form, Form.nodes,
        allThroughout_flatMap]
      intro p hMember
      have hPair := hPairs p hMember
      simp [hPair.1, hAll _ _ hPair.2]
  | call name start hSuffix => exact hSuffix.all
  | unary operator span hOperand =>
      exact (allThroughout_cons _ _).mpr
        ⟨hAll _ _ hOperand, allThroughout_nil⟩

/-
  A property of nodes, and one of trees that is stronger, hold of
  all that extends no other tree.
-/
structure Sustains
    (L : Node → Prop)
    (V : Context → Node → Prop) : Prop where
  here : ∀ {f : Form Node} (span : Span),
    f.isPlain = true → L ⟨f, span⟩
  all : ∀ {context : Context} {n : Node},
    V context n → n.Throughout L
  opens : ∀ {context : Context} {n : Node},
    Opens L V context n → V context n

namespace Sustains

variable {f : Form Node}

theorem throughout
    (hV : Sustains L V)
    (span : Span)
    (hPlain : f.isPlain = true)
    (hNodes : AllThroughout L f.nodes) :
    Node.Throughout L ⟨f, span⟩ :=
  Node.throughout_iff.mpr ⟨hV.here span hPlain, hNodes⟩

theorem isAnew
    (hV : Sustains L V)
    (span : Span)
    (hClosed : f.isClosed = true)
    (hNodes : AllThroughout L f.nodes) :
    Node.IsAnew L ⟨f, span⟩ :=
  ⟨hClosed,
    hV.throughout span (Form.isPlain_of_isClosed hClosed) hNodes⟩

theorem isAnew_failure
    (hV : Sustains L V)
    (message : String)
    (span : Span) :
    Node.IsAnew L (Node.failure message span) :=
  hV.isAnew span rfl allThroughout_nil

end Sustains

------------------------------------------------------------
-- Parts of the parser
------------------------------------------------------------

/- The opening parentheses among some lexemes. -/
def countParentheses
    (ls : List Lexeme) : Nat :=
  ls.countP (·.kind == .opening .parenthesis)

theorem countParentheses_ofTokensAfter
    (spaced : Bool)
    (tokens : List Token) :
    countParentheses (Lexeme.ofTokensAfter spaced tokens) =
      tokens.countP (·.kind == .opening .parenthesis) := by
  induction tokens generalizing spaced with
  | nil => rfl
  | cons t ts ih =>
      unfold Lexeme.ofTokensAfter
      split
      · rename_i hTrivia
        have hKind : (t.kind == .opening .parenthesis) = false := by
          rw [beq_eq_false_iff_ne]
          intro hKind
          rw [hKind] at hTrivia
          exact Bool.noConfusion hTrivia
        rw [ih, List.countP_cons_of_neg (by simp [hKind])]
      · have hTail := ih false
        simp only [countParentheses] at hTail ⊢
        rw [List.countP_cons, List.countP_cons, hTail]

/-
  What a part of the parser gives has a property, as long as at
  most `m` opening parentheses are left.
-/
structure Builds
    (m : Nat)
    (Q : α → Prop)
    (p : Parse α) : Prop where
  result : ∀ s, countParentheses s.rest ≤ m → Q (p s).1

namespace Builds

variable {Q Q' : α → Prop}
variable {R : β → Prop}
variable {p : Parse α}
variable {f : α → Parse β}

theorem pure
    {a : α}
    (hA : Q a) :
    Builds m Q (Pure.pure a) :=
  ⟨fun _ _ => hA⟩

theorem mono
    (hBuilds : Builds m Q p)
    (hMono : ∀ a, Q a → Q' a) :
    Builds m Q' p :=
  ⟨fun s hCount => hMono _ (hBuilds.result s hCount)⟩

/- Parts behind one that takes nothing back. -/
theorem bind
    [Retains p]
    (hFirst : Builds m Q p)
    (hSecond : ∀ a, Q a → Builds m R (f a)) :
    Builds m R (p >>= f) := by
  constructor
  intro s hCount
  have hSuffix := (Retains.later (p := p) s).rest
  exact (hSecond _ (hFirst.result s hCount)).result _
    (Nat.le_trans hSuffix.sublist.countP_le hCount)

/- What the first part gives may not matter. -/
theorem bind_any
    [Retains p]
    (hSecond : ∀ a, Builds m R (f a)) :
    Builds m R (p >>= f) :=
  bind (Q := fun _ => True) ⟨fun _ _ => trivial⟩
    fun a _ => hSecond a

------------------------------------------------------------
-- Errors
------------------------------------------------------------

variable (hV : Sustains L V)

include hV

theorem failure
    (fault : ParseFault)
    (errorSpan nodeSpan : Span) :
    Builds m (Node.IsAnew L)
      (Parse.failure fault errorSpan nodeSpan) :=
  bind_any fun _ => pure (hV.isAnew_failure _ _)

theorem errorNode
    (fault : ParseFault) :
    Builds m (Node.IsAnew L) (Parse.errorNode fault) :=
  bind_any fun _ => failure hV _ _ _

theorem wantedNode
    (wanted : Wanted) :
    Builds m (Node.IsAnew L) (Parse.wantedNode wanted) :=
  bind_any fun _ => errorNode hV _

theorem expect
    (kind : Kind)
    (wanted : Wanted) :
    Builds m (fun r => ∀ e, r = .error e → e.Throughout L)
      (Parse.expect kind wanted) := by
  apply bind_any
  intro found
  cases found with
  | some l => exact pure fun e hError => by cases hError
  | none =>
      apply (wantedNode hV wanted).bind
      rintro e hE
      exact pure fun e' hError => by cases hError; exact hE.all

theorem expectClosing
    (closer : Closer)
    (opened : Span) :
    Builds m (fun r => ∀ e, r = .error e → e.Throughout L)
      (Parse.expectClosing closer opened) := by
  apply bind_any
  intro _
  apply bind_any
  intro next
  cases next with
  | some l => exact expect hV _ _
  | none =>
      apply (failure hV _ _ _).bind
      rintro e hE
      exact pure fun e' hError => by cases hError; exact hE.all

/- The property holds of what stands in for a missing closer. -/
theorem close
    {items : List Node}
    (closer : Closer)
    (opened : Span)
    (hItems : AllThroughout L items) :
    Builds m (fun r => AllThroughout L r.1)
      (Parse.close closer opened items) := by
  apply (expectClosing hV closer opened).bind
  intro r hR
  cases r with
  | ok l => exact pure hItems
  | error e =>
      apply bind_any
      intro _
      exact pure (by simp [hItems, hR e rfl])

------------------------------------------------------------
-- Statements
------------------------------------------------------------

variable {expr : ExpressionParser}
variable {context : Context}
variable {stop : Kind → Bool}
variable [∀ precedence context, Retains (expr precedence context)]
variable (hExpr : ∀ precedence context,
  Builds m (V context) (expr precedence context))

theorem finishStatement
    (start : List Lexeme) :
    Builds m (fun e => AllThroughout L e.toList)
      (Parse.finishStatement stop start) := by
  have hBoundary :
      Builds m (fun e : Option Node => AllThroughout L e.toList)
        (boundaryError? stop) := by
    apply bind_any
    intro next
    cases next with
    | none => exact pure allThroughout_nil
    | some l =>
        apply bind_any
        intro _
        split
        · exact pure allThroughout_nil
        · apply (failure hV _ _ _).bind
          intro e hE
          exact pure (by simp [hE.all])
  apply hBoundary.bind
  intro e hE
  apply bind_any
  intro _
  apply bind_any
  intro _
  exact pure hE

theorem withTrailing
    {statement : Node}
    {e : Option Node}
    (hStatement : statement.Throughout L)
    (hE : AllThroughout L e.toList) :
    (Parse.withTrailing statement e).Throughout L := by
  cases e with
  | none => exact hStatement
  | some e =>
      have hNodes : AllThroughout L [statement, e] := by
        simpa [hStatement] using hE
      exact hV.throughout (f := .block [statement, e]) _ rfl hNodes

include hExpr

theorem statement :
    Builds m (Node.Throughout L) (Parse.statement expr stop) := by
  apply bind_any
  intro start
  apply (hExpr _ _).bind
  intro node hNode
  apply (finishStatement hV start).bind
  intro e hE
  exact pure (withTrailing hV (hV.all hNode) hE)

theorem statementsFor :
    Builds m (AllThroughout L) (Parse.statementsFor expr stop n) := by
  induction n with
  | zero => exact bind_any fun _ => pure allThroughout_nil
  | succ n ih =>
      apply bind_any
      intro _
      apply bind_any
      intro next
      split
      · exact pure allThroughout_nil
      · apply (statement hV hExpr).bind
        intro node hNode
        apply ih.bind
        intro nodes hNodes
        exact pure ((allThroughout_cons _ _).mpr ⟨hNode, hNodes⟩)

omit hV hExpr in
theorem isolated
    [Retains p]
    (hBuilds : Builds m Q p) :
    Builds m Q (Parse.isolated p) := by
  apply bind_any
  intro _
  apply bind_any
  intro _
  apply hBuilds.bind
  intro a hA
  apply bind_any
  intro _
  exact pure hA

theorem statementList :
    Builds m (AllThroughout L) (Parse.statements expr stop) := by
  apply bind_any
  intro ls
  exact (statementsFor hV hExpr).isolated

end Builds

end ElixirReader
