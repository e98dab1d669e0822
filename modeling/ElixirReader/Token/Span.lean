/-
  This file defines positions in a source text and the spans
  of tokens and nodes.

  Key definitions include:
    * `Position`
    * `Position.after`
    * `Position.spanOf`
    * `Span`
    * `Span.merge`
-/

namespace ElixirReader

------------------------------------------------------------
-- Spans
------------------------------------------------------------

/-
  A stretch of the source: the byte offsets of its two ends,
  and the line and column, counted from one, of its start.
-/
structure Span where
  start : Nat
  stop : Nat
  line : Nat
  column : Nat
deriving DecidableEq, Repr, Inhabited

namespace Span

/- The span of nothing, before every source. -/
def none : Span :=
  ⟨0, 0, 0, 0⟩

/- The number of bytes covered. -/
def length
    (s : Span) : Nat :=
  s.stop - s.start

def isEmpty
    (s : Span) : Bool :=
  s.start == s.stop

/-
  The smallest span that covers both. Line and column are
  those of the one that starts first.
-/
def merge
    (s t : Span) : Span :=
  if s.start ≤ t.start then
    ⟨s.start, max s.stop t.stop, s.line, s.column⟩
  else
    ⟨t.start, max t.stop s.stop, t.line, t.column⟩

theorem start_merge
    (s t : Span) :
    (s.merge t).start = min s.start t.start := by
  by_cases hLe : s.start ≤ t.start
  · simp [merge, hLe]
  · simp [merge, hLe]
    omega

theorem stop_merge
    (s t : Span) :
    (s.merge t).stop = max s.stop t.stop := by
  by_cases hLe : s.start ≤ t.start
  · simp [merge, hLe]
  · simp [merge, hLe, Nat.max_comm]

end Span

------------------------------------------------------------
-- Positions
------------------------------------------------------------

/-
  A place between two characters: its byte offset, and its
  line and column counted from one.
-/
structure Position where
  offset : Nat
  line : Nat
  column : Nat
deriving DecidableEq, Repr, Inhabited

namespace Position

/- The place right behind a character. -/
def next
    (p : Position)
    (c : Char) : Position :=
  if c = '\n' then
    ⟨p.offset + c.utf8Size, p.line + 1, 1⟩
  else
    ⟨p.offset + c.utf8Size, p.line, p.column + 1⟩

/- The place right behind a text that starts here. -/
def after
    (p : Position)
    (text : List Char) : Position :=
  text.foldl next p

/- The span of a text that starts here. -/
def spanOf
    (p : Position)
    (text : List Char) : Span :=
  ⟨p.offset, (p.after text).offset, p.line, p.column⟩

@[simp] theorem after_nil
    (p : Position) :
    p.after [] = p :=
  rfl

@[simp] theorem after_cons
    (p : Position)
    (c : Char)
    (text : List Char) :
    p.after (c :: text) = (p.next c).after text :=
  rfl

end Position

end ElixirReader
