import ElixirReader.Parser.Expression
import ElixirReader.Proofs.Quote.Equations

/-
  This file takes the places out of trees. Two trees are alike
  if nothing but their places sets them apart.

  Key definitions include:
    * `Placed`
    * `Alike`
    * `Node.stripped`
    * `Form.unplacedParts`

  Main declarations:
    * `Alike.append`
    * `unplaced_form`
-/

namespace ElixirReader

------------------------------------------------------------
-- Things with places
------------------------------------------------------------

/- Things that hold places, and what is left without those. -/
class Placed (α : Type) where
  unplaced : α → α

open Placed (unplaced)

/- Things that differ in nothing but the places they hold. -/
abbrev Alike
    {α : Type}
    [Placed α]
    (a b : α) : Prop :=
  unplaced a = unplaced b

variable {α β : Type}

section Containers

variable [Placed α] [Placed β]

instance : Placed (Option α) :=
  ⟨Option.map unplaced⟩

instance : Placed (List α) :=
  ⟨List.map unplaced⟩

instance : Placed (α × β) :=
  ⟨fun p => (unplaced p.1, unplaced p.2)⟩

instance : Placed (Except α β) :=
  ⟨fun r =>
    match r with
    | .error a => .error (unplaced a)
    | .ok b => .ok (unplaced b)⟩

end Containers

section Plain

instance : Placed Unit :=
  ⟨id⟩

instance : Placed Bool :=
  ⟨id⟩

instance : Placed Nat :=
  ⟨id⟩

instance : Placed String :=
  ⟨id⟩

end Plain

namespace Alike

section Containers

variable [Placed α] [Placed β]
variable {a b c : α}
variable {as bs cs ds : List α}

@[refl] theorem refl
    (a : α) :
    Alike a a :=
  rfl

@[simp] theorem cons_iff :
    Alike (a :: as) (b :: bs) ↔ Alike a b ∧ Alike as bs :=
  List.cons_eq_cons

@[simp] theorem some_iff :
    Alike (some a) (some b) ↔ Alike a b :=
  Option.some_inj

theorem mk
    {c d : β}
    (hFirst : Alike a b)
    (hSecond : Alike c d) :
    Alike (a, c) (b, d) :=
  Prod.ext hFirst hSecond

theorem fst
    {p q : α × β}
    (h : Alike p q) :
    Alike p.1 q.1 :=
  congrArg Prod.fst h

theorem snd
    {p q : α × β}
    (h : Alike p q) :
    Alike p.2 q.2 :=
  congrArg Prod.snd h

/- Things that may be missing are alike if both are or none is. -/
theorem option_cases
    {x y : Option α}
    (h : Alike x y) :
    x = none ∧ y = none ∨
      ∃ a b, x = some a ∧ y = some b ∧ Alike a b := by
  cases x with
  | none =>
      cases y with
      | none => exact .inl ⟨rfl, rfl⟩
      | some b => cases h
  | some a =>
      cases y with
      | none => cases h
      | some b => exact .inr ⟨a, b, rfl, rfl, some_iff.mp h⟩

theorem list_cases
    (h : Alike as bs) :
    as = [] ∧ bs = [] ∨
      ∃ a as' b bs', as = a :: as' ∧ bs = b :: bs' ∧
        Alike a b ∧ Alike as' bs' := by
  cases as with
  | nil =>
      cases bs with
      | nil => exact .inl ⟨rfl, rfl⟩
      | cons b bs => cases h
  | cons a as =>
      cases bs with
      | nil => cases h
      | cons b bs =>
          exact .inr ⟨a, as, b, bs, rfl, rfl, cons_iff.mp h⟩

theorem append
    (h : Alike as bs)
    (h' : Alike cs ds) :
    Alike (as ++ cs) (bs ++ ds) := by
  change List.map unplaced _ = List.map unplaced _
  rw [List.map_append, List.map_append]
  rw [show as.map unplaced = bs.map unplaced from h,
    show cs.map unplaced = ds.map unplaced from h']

theorem isEmpty_eq
    (h : Alike as bs) :
    as.isEmpty = bs.isEmpty := by
  rcases h.list_cases with ⟨rfl, rfl⟩ | ⟨_, _, _, _, rfl, rfl, _⟩
  · rfl
  · rfl

theorem getLast?
    (h : Alike as bs) :
    Alike as.getLast? bs.getLast? := by
  change Option.map unplaced _ = Option.map unplaced _
  rw [← List.getLast?_map, ← List.getLast?_map]
  exact congrArg List.getLast? h

theorem dropLast
    (h : Alike as bs) :
    Alike as.dropLast bs.dropLast := by
  change List.map unplaced _ = List.map unplaced _
  rw [List.map_dropLast, List.map_dropLast]
  exact congrArg List.dropLast h

end Containers

end Alike

------------------------------------------------------------
-- Trees
------------------------------------------------------------

namespace Node

/- A tree without its places. -/
mutual
def stripped : Node → Node
| ⟨form, _⟩ => ⟨strippedForm form, Span.none⟩
termination_by structural n => n

def strippedForm : Form Node → Form Node
| .integer value => .integer value
| .float value => .float value
| .char code => .char code
| .boolean value => .boolean value
| .nil => .nil
| .atom name => .atom name
| .quotedAtom t => .quotedAtom (strippedText t)
| .text t => .text (strippedText t)
| .sigil name t modifiers => .sigil name (strippedText t) modifiers
| .identifier name => .identifier name
| .alias base segments => .alias (strippedOption base) segments
| .call target args parentheses none =>
    .call (strippedTarget target) (strippedAll args) parentheses none
| .call target args parentheses (some ⟨sections, _⟩) =>
    .call (strippedTarget target) (strippedAll args) parentheses
      (some ⟨strippedSections sections, Span.none⟩)
| .unary operator operand => .unary operator operand.stripped
| .binary operator left right _ =>
    .binary operator left.stripped right.stripped Span.none
| .access subject key => .access subject.stripped key.stripped
| .list items => .list (strippedAll items)
| .keywords pairs => .keywords (strippedPairs pairs)
| .tuple items => .tuple (strippedAll items)
| .map entries => .map (strippedEntries entries)
| .struct name entries =>
    .struct name.stripped (strippedEntries entries)
| .bitstring items => .bitstring (strippedAll items)
| .block nodes => .block (strippedAll nodes)
| .fn clauses => .fn (strippedClauses clauses)
| .error message => .error message
termination_by structural f => f

def strippedOption : Option Node → Option Node
| none => none
| some n => some n.stripped
termination_by structural n => n

def strippedAll : List Node → List Node
| [] => []
| n :: ns => n.stripped :: strippedAll ns
termination_by structural ns => ns

def strippedPairs : List (Node × Node) → List (Node × Node)
| [] => []
| (key, value) :: ps =>
    (key.stripped, value.stripped) :: strippedPairs ps
termination_by structural ps => ps

def strippedText : Text Node → Text Node
| ⟨kind, heredoc, indent, segments⟩ =>
    ⟨kind, heredoc, indent, strippedSegments segments⟩
termination_by structural t => t

def strippedSegments : List (Segment Node) → List (Segment Node)
| [] => []
| .fragment text :: ss => .fragment text :: strippedSegments ss
| .escape text :: ss => .escape text :: strippedSegments ss
| .indent blanks :: ss => .indent blanks :: strippedSegments ss
| .interpolation n :: ss =>
    .interpolation n.stripped :: strippedSegments ss
termination_by structural ss => ss

def strippedTarget : Target Node → Target Node
| .bare name => .bare name
| .remote receiver name _ _ =>
    .remote receiver.stripped name Span.none Span.none
| .anonymous function _ => .anonymous function.stripped Span.none
termination_by structural t => t

def strippedEntries : Entries Node → Entries Node
| ⟨update, entries⟩ => ⟨strippedOption update, strippedAll entries⟩
termination_by structural e => e

def strippedClauses : List (Clause Node) → List (Clause Node)
| [] => []
| ⟨head, guard, body, _⟩ :: cs =>
    ⟨strippedAll head, strippedOption guard, strippedAll body,
      Span.none⟩ :: strippedClauses cs
termination_by structural cs => cs

def strippedSections : List (Section Node) → List (Section Node)
| [] => []
| ⟨name, .expressions nodes⟩ :: ss =>
    ⟨name, .expressions (strippedAll nodes)⟩ :: strippedSections ss
| ⟨name, .clauses clauses⟩ :: ss =>
    ⟨name, .clauses (strippedClauses clauses)⟩ :: strippedSections ss
termination_by structural ss => ss
end

end Node

instance : Placed Span :=
  ⟨fun _ => Span.none⟩

instance : Placed Node :=
  ⟨Node.stripped⟩

instance : Placed (Form Node) :=
  ⟨Node.strippedForm⟩

instance : Placed (Segment Node) :=
  ⟨Segment.map unplaced⟩

instance : Placed (Text Node) :=
  ⟨Text.map unplaced⟩

instance : Placed (Clause Node) :=
  ⟨fun c =>
    ⟨unplaced c.head, unplaced c.guard, unplaced c.body, Span.none⟩⟩

instance : Placed (Body Node) :=
  ⟨fun b =>
    match b with
    | .expressions ns => .expressions (unplaced ns)
    | .clauses cs => .clauses (unplaced cs)⟩

instance : Placed (Section Node) :=
  ⟨fun s => ⟨s.name, unplaced s.body⟩⟩

instance : Placed (DoBlock Node) :=
  ⟨fun b => ⟨unplaced b.sections, Span.none⟩⟩

instance : Placed (Target Node) :=
  ⟨Node.strippedTarget⟩

instance : Placed (Entries Node) :=
  ⟨fun e => ⟨unplaced e.update, unplaced e.entries⟩⟩

------------------------------------------------------------
-- Parts of trees
------------------------------------------------------------

namespace Node

theorem strippedAll_eq
    (ns : List Node) :
    strippedAll ns = unplaced ns := by
  induction ns with
  | nil => rfl
  | cons n ns ih =>
      rw [strippedAll, ih]
      rfl

theorem strippedOption_eq
    (n : Option Node) :
    strippedOption n = unplaced n := by
  cases n with
  | none => rfl
  | some n => rfl

theorem strippedPairs_eq
    (ps : List (Node × Node)) :
    strippedPairs ps = unplaced ps := by
  induction ps with
  | nil => rfl
  | cons p ps ih =>
      rw [strippedPairs, ih]
      rfl

theorem strippedSegments_eq
    (ss : List (Segment Node)) :
    strippedSegments ss = unplaced ss := by
  induction ss with
  | nil => rfl
  | cons s ss ih =>
      cases s with
      | _ =>
          rw [strippedSegments, ih]
          rfl

theorem strippedText_eq
    (t : Text Node) :
    strippedText t = unplaced t := by
  rcases t with ⟨kind, heredoc, indent, segments⟩
  rw [strippedText, strippedSegments_eq]
  rfl

theorem strippedEntries_eq
    (e : Entries Node) :
    strippedEntries e = unplaced e := by
  rcases e with ⟨update, entries⟩
  rw [strippedEntries, strippedOption_eq, strippedAll_eq]
  rfl

theorem strippedClauses_eq
    (cs : List (Clause Node)) :
    strippedClauses cs = unplaced cs := by
  induction cs with
  | nil => rfl
  | cons c cs ih =>
      rcases c with ⟨head, guard, body, arrow⟩
      rw [strippedClauses, strippedAll_eq, strippedOption_eq,
        strippedAll_eq, ih]
      rfl

theorem strippedSections_eq
    (ss : List (Section Node)) :
    strippedSections ss = unplaced ss := by
  induction ss with
  | nil => rfl
  | cons s ss ih =>
      rcases s with ⟨name, nodes | clauses⟩
      · rw [strippedSections, strippedAll_eq, ih]
        rfl
      · rw [strippedSections, strippedClauses_eq, ih]
        rfl

end Node

/- A form whose parts are without their places. -/
def Form.unplacedParts : Form Node → Form Node
| .integer value => .integer value
| .float value => .float value
| .char code => .char code
| .boolean value => .boolean value
| .nil => .nil
| .atom name => .atom name
| .quotedAtom t => .quotedAtom (unplaced t)
| .text t => .text (unplaced t)
| .sigil name t modifiers => .sigil name (unplaced t) modifiers
| .identifier name => .identifier name
| .alias base segments => .alias (unplaced base) segments
| .call target args parentheses doBlock =>
    .call (unplaced target) (unplaced args) parentheses
      (unplaced doBlock)
| .unary operator operand => .unary operator (unplaced operand)
| .binary operator left right _ =>
    .binary operator (unplaced left) (unplaced right) Span.none
| .access subject key => .access (unplaced subject) (unplaced key)
| .list items => .list (unplaced items)
| .keywords pairs => .keywords (unplaced pairs)
| .tuple items => .tuple (unplaced items)
| .map entries => .map (unplaced entries)
| .struct name entries => .struct (unplaced name) (unplaced entries)
| .bitstring items => .bitstring (unplaced items)
| .block nodes => .block (unplaced nodes)
| .fn clauses => .fn (unplaced clauses)
| .error message => .error message

@[simp] theorem unplaced_form
    (f : Form Node) :
    unplaced f = f.unplacedParts := by
  change Node.strippedForm f = _
  cases f with
  | call target args parentheses block =>
      rcases block with _ | ⟨sections, span⟩ <;>
        rw [Node.strippedForm, Node.strippedAll_eq]
      · rfl
      · rw [Node.strippedSections_eq]
        rfl
  | _ =>
      simp only [Node.strippedForm, Node.strippedAll_eq,
        Node.strippedOption_eq, Node.strippedPairs_eq,
        Node.strippedText_eq, Node.strippedEntries_eq,
        Node.strippedClauses_eq]
      rfl

------------------------------------------------------------
-- Equations
------------------------------------------------------------

section Equations

variable [Placed α] [Placed β]

@[simp] theorem unplaced_nil :
    unplaced ([] : List α) = [] :=
  rfl

@[simp] theorem unplaced_cons
    (a : α)
    (as : List α) :
    unplaced (a :: as) = unplaced a :: unplaced as :=
  rfl

@[simp] theorem unplaced_append
    (as bs : List α) :
    unplaced (as ++ bs) = unplaced as ++ unplaced bs :=
  List.map_append

@[simp] theorem unplaced_none :
    unplaced (none : Option α) = none :=
  rfl

@[simp] theorem unplaced_some
    (a : α) :
    unplaced (some a) = some (unplaced a) :=
  rfl

@[simp] theorem unplaced_pair
    (a : α)
    (b : β) :
    unplaced (a, b) = (unplaced a, unplaced b) :=
  rfl

@[simp] theorem unplaced_ok
    (b : β) :
    unplaced (.ok b : Except α β) = .ok (unplaced b) :=
  rfl

@[simp] theorem unplaced_error
    (a : α) :
    unplaced (.error a : Except α β) = .error (unplaced a) :=
  rfl

end Equations

@[simp] theorem unplaced_span
    (s : Span) :
    unplaced s = Span.none :=
  rfl

@[simp] theorem unplaced_clause
    (head : List Node)
    (guard : Option Node)
    (body : List Node)
    (arrow : Span) :
    unplaced (⟨head, guard, body, arrow⟩ : Clause Node) =
      ⟨unplaced head, unplaced guard, unplaced body, Span.none⟩ :=
  rfl

@[simp] theorem unplaced_expressions
    (ns : List Node) :
    unplaced (Body.expressions ns) = .expressions (unplaced ns) :=
  rfl

@[simp] theorem unplaced_clauses
    (cs : List (Clause Node)) :
    unplaced (Body.clauses cs) = .clauses (unplaced cs) :=
  rfl

@[simp] theorem unplaced_section
    (name : String)
    (body : Body Node) :
    unplaced (⟨name, body⟩ : Section Node) = ⟨name, unplaced body⟩ :=
  rfl

@[simp] theorem unplaced_doBlock
    (sections : List (Section Node))
    (span : Span) :
    unplaced (⟨sections, span⟩ : DoBlock Node) =
      ⟨unplaced sections, Span.none⟩ :=
  rfl

@[simp] theorem unplaced_bare
    (name : String) :
    unplaced (Target.bare name : Target Node) = .bare name :=
  rfl

@[simp] theorem unplaced_remote
    (receiver : Node)
    (name : String)
    (dot nameSpan : Span) :
    unplaced (Target.remote receiver name dot nameSpan) =
      .remote (unplaced receiver) name Span.none Span.none :=
  rfl

@[simp] theorem unplaced_anonymous
    (function : Node)
    (dot : Span) :
    unplaced (Target.anonymous function dot) =
      .anonymous (unplaced function) Span.none :=
  rfl

@[simp] theorem unplaced_entries
    (update : Option Node)
    (entries : List Node) :
    unplaced (⟨update, entries⟩ : Entries Node) =
      ⟨unplaced update, unplaced entries⟩ :=
  rfl

@[simp] theorem unplaced_textMk
    (kind : TextKind)
    (heredoc : Bool)
    (indent : Nat)
    (segments : List (Segment Node)) :
    unplaced (⟨kind, heredoc, indent, segments⟩ : Text Node) =
      ⟨kind, heredoc, indent, unplaced segments⟩ :=
  rfl

@[simp] theorem unplaced_mk
    (f : Form Node)
    (span : Span) :
    unplaced (⟨f, span⟩ : Node) = ⟨f.unplacedParts, Span.none⟩ := by
  rw [← unplaced_form]
  rfl

attribute [simp] Form.unplacedParts

end ElixirReader
