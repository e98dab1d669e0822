import ElixirReader.Proofs.Building.Constructs

/-
  This file follows what holds of trees through calls, through
  all that expressions start with, and through the suffixes that
  make larger trees of them.

  Key definitions include:
    * `Extends`

  Main declarations:
    * `Builds.callSuffix`
    * `Builds.primaryAt`
    * `Builds.unary`
    * `Builds.withSuffix`
-/

namespace ElixirReader

open Parse

variable {m n : Nat}
variable {L : Node → Prop}
variable {V : Context → Node → Prop}
variable {expr : ExpressionParser}
variable {context : Context}

/- What a suffix makes of a tree. -/
inductive Extends
    (L : Node → Prop)
    (V : Context → Node → Prop)
    (context : Context)
    (node : Node) : Node → Prop where
| anew
    {larger : Node}
    (hAnew : larger.IsAnew L) :
    Extends L V context node larger
| segment
    (segment : Lexeme) :
    Extends L V context node (extendAlias node segment)
| call
    {target : Target Node}
    {suffix : Suffix}
    (start : Span)
    (hTarget : target.nodes = [node])
    (hSuffix : suffix.Fits L V context) :
    Extends L V context node (suffix.call target start)
| access
    {key : Node}
    (span : Span)
    (hKey : key.Throughout L) :
    Extends L V context node ⟨.access node key, span⟩

/- The trees right below what a suffix makes of a tree. -/
theorem Extends.allThroughout_children
    {node larger : Node}
    (hExtends : Extends L V context node larger)
    (hNode : node.Throughout L) :
    AllThroughout L larger.children := by
  cases hExtends with
  | anew hAnew => exact (Node.throughout_iff.mp hAnew.all).2
  | segment segment => exact allThroughout_extendAlias segment hNode
  | @call target suffix start hTarget hSuffix =>
      change AllThroughout L (target.nodes ++ suffix.arguments ++ _)
      rw [hTarget, List.append_assoc]
      exact (allThroughout_cons _ _).mpr ⟨hNode, hSuffix.all⟩
  | access span hKey =>
      exact (allThroughout_cons _ _).mpr
        ⟨hNode, (allThroughout_cons _ _).mpr ⟨hKey, allThroughout_nil⟩⟩

theorem Suffix.fits_bare
    (last : Span) :
    (Suffix.bare last).Fits L V context :=
  ⟨allThroughout_nil, fun _ => List.forall_mem_nil _, fun _ => rfl⟩

/- Arguments in brackets have no do block. -/
theorem Suffix.fits_enclosed
    {arguments : List Node}
    (last : Span)
    (hArguments : AllThroughout L arguments) :
    Suffix.Fits L V context ⟨arguments, true, none, last⟩ :=
  ⟨by simpa [Suffix.nodes] using hArguments, Bool.noConfusion,
    fun _ => rfl⟩

namespace Builds

variable [∀ precedence context, Retains (expr precedence context)]
variable (hV : Sustains L V)
variable (hExpr : ∀ precedence context,
  Builds m (V context) (expr precedence context))

include hV hExpr

------------------------------------------------------------
-- Arguments
------------------------------------------------------------

/- Arguments without parentheses have a context of their own. -/
theorem argumentsFor :
    Builds m (fun ns => ∀ n ∈ ns, V .argument n)
      (Parse.argumentsFor expr context n) := by
  induction n with
  | zero => exact bind_any fun _ => pure (List.forall_mem_nil _)
  | succ n ih =>
      apply bind_any
      intro ls
      split
      · apply (keywords hV hExpr).bind
        intro pairs hPairs
        exact pure (List.forall_mem_singleton.mpr (hV.opens hPairs))
      · apply (hExpr 0 .argument).bind
        intro argument hArgument
        apply bind_any
        intro isComma
        split
        · apply bind_any
          intro _
          apply bind_any
          intro _
          apply ih.bind
          intro more hMore
          exact pure (List.forall_mem_cons.mpr ⟨hArgument, hMore⟩)
        · exact pure (List.forall_mem_singleton.mpr hArgument)

theorem parenthesizedSuffix :
    Builds m (Suffix.Fits L V context)
      (Parse.parenthesizedSuffix expr) := by
  apply (enclosed hV hExpr .parenthesis).bind
  rintro ⟨arguments, span⟩ hArguments
  exact pure (Suffix.fits_enclosed span hArguments)

theorem openSuffix :
    Builds m (Suffix.Fits L V context)
      (Parse.openSuffix expr context) := by
  apply bind_any
  intro ls
  apply (argumentsFor hV hExpr).bind
  intro arguments hArguments
  apply bind_any
  intro previous
  have hAll : AllThroughout L arguments :=
    fun n hMember => hV.all (hArguments n hMember)
  exact pure ⟨by simpa [Suffix.nodes] using hAll,
    fun _ => hArguments, fun _ => rfl⟩

theorem callArguments :
    Builds m (fun r => ∀ s ∈ r, Suffix.Fits L V context s)
      (Parse.callArguments expr context) := by
  apply bind_any
  intro ls
  split
  · apply (parenthesizedSuffix hV hExpr).bind
    rintro s hS
    exact pure fun _ hSome => Option.some.inj hSome ▸ hS
  · split
    · apply (openSuffix hV hExpr).bind
      rintro s hS
      exact pure fun _ hSome => Option.some.inj hSome ▸ hS
    · split
      · apply bind_any
        intro span
        exact pure fun _ hSome => Option.some.inj hSome ▸
          Suffix.fits_bare span
      · exact pure fun _ hNone => nomatch hNone

/- A do block is only read where the context lets it. -/
theorem attachDo
    {suffix : Suffix}
    (hSuffix : suffix.Fits L V context) :
    Builds m (Suffix.Fits L V context)
      (Parse.attachDo expr context suffix) := by
  cases hContext : context.doBlocks with
  | false =>
      apply bind_any
      intro isDo
      rw [hContext, Bool.false_and]
      exact pure hSuffix
  | true =>
      apply bind_any
      intro isDo
      split
      · apply (doBlock hV hExpr).bind
        intro b hB
        have hArguments :=
          ((allThroughout_append _ _).mp hSuffix.all).1
        refine pure ⟨by simp [Suffix.nodes, hArguments, hB],
          hSuffix.arguments, fun hNone => ?_⟩
        rw [hContext] at hNone
        cases hNone
      · exact pure hSuffix

theorem callSuffix :
    Builds m (fun r => ∀ s ∈ r, Suffix.Fits L V context s)
      (Parse.callSuffix expr context) := by
  apply (callArguments hV hExpr).bind
  intro r hR
  cases r with
  | none => exact pure fun _ hNone => nomatch hNone
  | some s =>
      apply (attachDo hV hExpr (hR s rfl)).bind
      intro s hS
      exact pure fun _ hSome => Option.some.inj hSome ▸ hS

theorem identifier
    (name : Lexeme) :
    Builds m (Opens L V context)
      (Parse.identifier expr context name) := by
  apply (callSuffix hV hExpr).bind
  intro r hR
  cases r with
  | none =>
      exact pure (.anew (hV.isAnew (f := .identifier name.text) _ rfl
        allThroughout_nil))
  | some s => exact pure (.call _ _ (hR s rfl))

------------------------------------------------------------
-- Primary expressions
------------------------------------------------------------

omit hExpr [∀ precedence context,
  Retains (expr precedence context)] in
theorem single
    {f : Form Node}
    (l : Lexeme)
    (hClosed : f.isClosed = true)
    (hNodes : f.nodes = []) :
    Builds m (Node.IsAnew L) (Parse.single f l) :=
  bind_any fun _ => pure (hV.isAnew l.span hClosed
    (by rw [hNodes]; exact allThroughout_nil))

omit hExpr [∀ precedence context,
  Retains (expr precedence context)] in
theorem number :
    Builds m (Node.IsAnew L) Parse.number := by
  apply bind_any
  intro ls
  split
  · exact errorNode hV _
  · apply bind_any
    intro _
    dsimp only
    split
    · exact bind_any fun _ => pure (hV.isAnew_failure _ _)
    · split
      · rename_i f hForm
        apply pure
        rcases numberForm?_cases hForm with ⟨_, rfl⟩ | ⟨_, rfl⟩
        · exact hV.isAnew _ rfl allThroughout_nil
        · exact hV.isAnew _ rfl allThroughout_nil
      · exact failure hV _ _ _

omit hExpr [∀ precedence context,
  Retains (expr precedence context)] in
theorem character :
    Builds m (Node.IsAnew L) Parse.character := by
  apply bind_any
  intro mark
  apply bind_any
  intro _
  apply bind_any
  intro next
  cases next with
  | none => exact wantedNode hV _
  | some l =>
      dsimp only
      split
      · apply bind_any
        intro _
        unfold characterValue
        split
        · exact pure (hV.isAnew _ rfl allThroughout_nil)
        · exact failure hV _ _ _
      · exact wantedNode hV _

theorem wordOperand
    (w : Word)
    (l : Lexeme) :
    Builds m (Node.IsAnew L) (Parse.wordOperand expr w l) := by
  unfold Parse.wordOperand
  split
  · exact single hV l rfl rfl
  · exact single hV l rfl rfl
  · exact single hV l rfl rfl
  · exact fn hV hExpr
  · exact bind_any fun _ => errorNode hV _

theorem promoterOperand :
    Builds m (Opens L V context)
      (Parse.promoterOperand expr context) := by
  apply bind_any
  intro ls
  split
  · exact keywords hV hExpr
  · exact (textNode hV hExpr).mono fun _ => .anew

omit hExpr [∀ precedence context,
  Retains (expr precedence context)] in
theorem strayOperand
    (l : Lexeme) :
    Builds m (Node.IsAnew L) (Parse.strayOperand l) := by
  apply bind_any
  intro fault
  apply (errorNode hV fault).bind
  intro node hNode
  split
  · exact bind_any fun _ => pure hNode
  · exact pure hNode

/- What an expression starts with that is not in parentheses. -/
theorem primaryAt
    {l : Lexeme}
    (hKind : l.kind ≠ .opening .parenthesis) :
    Builds m (Opens L V context)
      (Parse.primaryAt expr context l) := by
  unfold Parse.primaryAt
  split
  · exact bind_any fun _ => bind_any fun _ =>
      pure (.anew (hV.isAnew_failure _ _))
  · exact (wordOperand hV hExpr _ l).mono fun _ => .anew
  · exact (single hV l rfl rfl).mono fun _ => .anew
  · exact bind_any fun _ => identifier hV hExpr l
  · exact (character hV).mono fun _ => .anew
  · exact (atom hV hExpr).mono fun _ => .anew
  · exact keywords hV hExpr
  · exact promoterOperand hV hExpr
  · exact promoterOperand hV hExpr
  · exact (sigil hV hExpr).mono fun _ => .anew
  · rename_i b hBracket
    cases b with
    | parenthesis => exact absurd hBracket hKind
    | square =>
        exact (container hV hExpr .square (fun _ => rfl)
          fun _ => rfl).mono fun _ => .anew
    | curly =>
        exact (container hV hExpr .curly (fun _ => rfl)
          fun _ => rfl).mono fun _ => .anew
    | bits =>
        exact (container hV hExpr .bits (fun _ => rfl)
          fun _ => rfl).mono fun _ => .anew
  · exact (structOrMap hV hExpr).mono fun _ => .anew
  · split
    · exact (number hV).mono fun _ => .anew
    · exact (strayOperand hV l).mono fun _ => .anew

------------------------------------------------------------
-- Operators before an operand
------------------------------------------------------------

omit hV in
theorem unary
    (precedence : Nat)
    (operator : Lexeme) :
    Builds m (Opens L V context)
      (Parse.unary expr precedence context operator) := by
  apply bind_any
  intro _
  apply bind_any
  intro _
  apply (hExpr precedence context).bind
  intro operand hOperand
  exact pure (.unary _ _ hOperand)

theorem capture
    (operator : Lexeme) :
    Builds m (Opens L V context)
      (Parse.capture expr context operator) := by
  apply bind_any
  intro ls
  split
  · apply bind_any
    intro _
    apply (number hV).bind
    intro index hIndex
    exact pure (.unary _ _ (hV.opens (.anew hIndex)))
  · exact unary hExpr _ operator

omit hV hExpr [∀ precedence context,
  Retains (expr precedence context)] in
theorem fullRange
    (l : Lexeme) :
    Builds m (Opens L V context) (Parse.fullRange l) :=
  bind_any fun _ => pure (.call _ _ (Suffix.fits_bare _))

omit hExpr [∀ precedence context,
  Retains (expr precedence context)] in
/- An operand, if what suffixes make of one is known. -/
theorem operandAt
    {levels : Levels}
    {h : Nat}
    {Q : Node → Prop}
    [∀ precedence context, Retains (levels h precedence context)]
    (hLevel : ∀ precedence context,
      Builds m (V context) (levels h precedence context))
    (hOpens : ∀ n, Opens L V context n → Q n)
    (l : Lexeme)
    (hAttribute : Builds m Q
      (Parse.moduleAttribute levels h context l))
    (hSuffixed : Builds m Q (Parse.suffixed levels h context)) :
    Builds m Q (Parse.operandAt levels h context l) := by
  unfold Parse.operandAt
  split
  · exact (unary hLevel _ l).mono hOpens
  · exact (unary hLevel _ l).mono hOpens
  · exact (unary hLevel _ l).mono hOpens
  · exact (unary hLevel _ l).mono hOpens
  · exact (capture hV hLevel l).mono hOpens
  · exact (fullRange l).mono hOpens
  · exact hAttribute
  · exact hSuffixed

------------------------------------------------------------
-- Suffixes
------------------------------------------------------------

theorem remoteCall
    (receiver : Node)
    (name : String)
    (dot nameSpan : Span) :
    Builds m (Extends L V context receiver)
      (Parse.remoteCall expr context receiver name dot
        nameSpan) := by
  apply (callSuffix hV hExpr).bind
  intro r hR
  cases r with
  | none => exact pure (.call _ rfl (Suffix.fits_bare _))
  | some s => exact pure (.call _ rfl (hR s rfl))

theorem enclosedCall
    {receiver : Node}
    {target : Target Node}
    (bracket : Bracket)
    (start : Span)
    (hTarget : target.nodes = [receiver]) :
    Builds m (Extends L V context receiver)
      (Parse.enclosedCall expr bracket target start) := by
  apply (enclosed hV hExpr bracket).bind
  rintro ⟨arguments, last⟩ hArguments
  exact pure (.call _ hTarget (Suffix.fits_enclosed _ hArguments))

theorem quotedRemote
    (receiver : Node)
    (dot : Span) :
    Builds m (Extends L V context receiver)
      (Parse.quotedRemote expr context receiver dot) := by
  apply (text hV hExpr).bind
  rintro ⟨t, nameSpan⟩ _
  dsimp only
  split
  · exact remoteCall hV hExpr ..
  · exact (failure hV _ _ _).mono fun _ => .anew

theorem dotted
    (receiver : Node) :
    Builds m (Extends L V context receiver)
      (Parse.dotted expr context receiver) := by
  apply bind_any
  intro dot
  apply bind_any
  intro _
  apply bind_any
  intro next
  cases next with
  | none => exact (errorNode hV _).mono fun _ => .anew
  | some l =>
      dsimp only
      unfold Parse.afterDot
      split
      · exact bind_any fun _ => remoteCall hV hExpr ..
      · exact bind_any fun _ => pure (.segment l)
      · exact enclosedCall hV hExpr _ _ rfl
      · exact enclosedCall hV hExpr _ _ rfl
      · split
        · exact quotedRemote hV hExpr ..
        · exact (wantedNode hV _).mono fun _ => .anew

theorem accessKey :
    Builds m (Node.Throughout L) (Parse.accessKey expr) := by
  apply bind_any
  intro _
  apply bind_any
  intro ls
  split
  · exact throughout_keywords hV hExpr
  · exact throughout hV hExpr 0 .container

theorem access
    (subject : Node) :
    Builds m (Extends L V context subject)
      (Parse.access expr subject) := by
  apply bind_any
  intro opened
  apply bind_any
  intro _
  apply (accessKey hV hExpr).bind
  intro key hKey
  have hClosed : Builds m (fun r => r.1.Throughout L)
      (Parse.closeAccess opened key) := by
    apply (expectClosing hV _ opened).bind
    intro r hR
    cases r with
    | ok l => exact pure hKey
    | error e => exact bind_any fun _ => pure (hR e rfl)
  apply hClosed.bind
  rintro ⟨key, last⟩ hKey
  exact pure (.access _ hKey)

theorem withSuffix
    (node : Node)
    (kind : SuffixKind) :
    Builds m (Extends L V context node)
      (Parse.withSuffix expr context node kind) := by
  cases kind with
  | dot => exact dotted hV hExpr node
  | key => exact access hV hExpr node

------------------------------------------------------------
-- Operators between operands
------------------------------------------------------------

omit hExpr [∀ precedence context,
  Retains (expr precedence context)] in
/- An error may take the place of the operand on the right. -/
theorem joined
    {right : Node}
    (context : Context)
    (operator : InfixOperator)
    (left : Node)
    (hRight : V context right) :
    Builds m
      (fun n => ∃ right' span,
        V context right' ∧
          n = ⟨.binary operator.name left right' operator.span, span⟩)
      (Parse.joined operator left right) := by
  have hStep : Builds m (V context)
      (Parse.checkStep operator left right) := by
    unfold Parse.checkStep
    split
    · exact (failure hV _ _ _).mono fun _ hE => hV.opens (.anew hE)
    · exact pure hRight
  apply hStep.bind
  intro right' hRight'
  exact pure ⟨right', _, hRight', rfl⟩

end Builds

end ElixirReader
