import ElixirReader.Lexer.Mode
import ElixirReader.Token.Basic

/-
  This file defines what the lexer remembers of the constructs
  that are open: quoted literals, and the interpolations
  inside them.

  Key definitions include:
    * `Group`
    * `Group.terminatorText`
    * `Group.bodyMode`
    * `Frame`
    * `Change`
    * `Change.apply`
-/

namespace ElixirReader

------------------------------------------------------------
-- Groups
------------------------------------------------------------

/-
  A quoted literal that is open: its family and layout, the
  character that ends it, and whether escapes and
  interpolations are read in it.
-/
structure Group where
  family : Family
  layout : Layout
  terminator : Char
  reads : Bool
deriving DecidableEq, Repr, Inhabited

namespace Group

/- The double quoted literal of a layout. -/
def string
    (layout : Layout) : Group :=
  ⟨.string, layout, '"', true⟩

/- The text that ends a group. -/
def terminatorText
    (g : Group) : String :=
  match g.layout with
  | .quoted => String.ofList [g.terminator]
  | .heredoc => String.ofList [g.terminator, g.terminator, g.terminator]

/- The mode right behind the promoter of a group. -/
def startMode
    (g : Group) : Mode :=
  match g.layout with
  | .quoted => .group
  | .heredoc => .heredocStart

/- The mode in which the body goes on behind an interpolation. -/
def bodyMode
    (g : Group) : Mode :=
  match g.layout with
  | .quoted => .group
  | .heredoc => .heredocLineBody

/- The mode right behind the terminator of a group. -/
def endMode
    (g : Group) : Mode :=
  match g.family, g.layout with
  | .sigil, _ => .sigilModifiers
  | _, .heredoc => .afterOperand
  | _, .quoted => .afterLiteral

def promoterKind
    (g : Group) : Kind :=
  .promoter g.family g.layout

def fragmentKind
    (g : Group) : Kind :=
  .fragment g.family

def terminatorKind
    (g : Group) : Kind :=
  .terminator g.family g.layout

end Group

------------------------------------------------------------
-- Frames
------------------------------------------------------------

/-
  The open constructs, innermost first. A group keeps the span
  of its promoter. An interpolation counts the curlies that
  are open in it, and keeps the mode that goes on behind it.
-/
inductive Frame where
| group (group : Group) (opened : Span)
| interpolation (curlies : Nat) (resume : Mode)
deriving DecidableEq, Repr

namespace Frame

def isGroup : Frame → Bool
| group _ _ => true
| interpolation _ _ => false

/- The group of a frame that is one. -/
def group? : Frame → Option Group
| group g _ => some g
| interpolation _ _ => none

end Frame

------------------------------------------------------------
-- Changes
------------------------------------------------------------

/- What a token does to the open constructs. -/
inductive Change where
| keep
| openGroup (group : Group)
| openInterpolation (resume : Mode)
| openCurly
| closeCurly
| close
deriving DecidableEq, Repr, Inhabited

namespace Change

/- Carry out a change that a token of the given span makes. -/
def apply
    (change : Change)
    (span : Span)
    (frames : List Frame) : List Frame :=
  match change, frames with
  | .keep, fs => fs
  | .openGroup g, fs => .group g span :: fs
  | .openInterpolation m, fs => .interpolation 0 m :: fs
  | .openCurly, .interpolation n m :: fs => .interpolation (n + 1) m :: fs
  | .openCurly, fs => fs
  | .closeCurly, .interpolation n m :: fs => .interpolation (n - 1) m :: fs
  | .closeCurly, fs => fs
  | .close, fs => fs.tail

end Change

end ElixirReader
