import ElixirReader.Render.Written

/-
  This file writes what takes up several lines: clauses, do
  blocks and functions. What is inside is indented.

  Key definitions include:
    * `Written.splitLines`
    * `Written.indent`
    * `Written.bodyText`
    * `Written.clause`
    * `Written.sections?`
    * `Written.doBlock`
    * `Written.function`
-/

namespace ElixirReader.Written

------------------------------------------------------------
-- Indentation
------------------------------------------------------------

/-
  The lines of a text. A line break ends a line, together with
  a return right before it. What is behind the last line break
  is a line if there is anything.
-/
def splitLines : List Char → List (List Char)
| [] => []
| c :: cs =>
    if c = '\n' then [] :: splitLines cs
    else if c = '\r' ∧ cs.head? = some '\n' then splitLines cs
    else
      match splitLines cs with
      | [] => [[c]]
      | line :: rest => (c :: line) :: rest

/- Empty lines stay empty. -/
def indentLine : List Char → List Char
| [] => []
| cs => "  ".toList ++ cs

def indent
    (text : List Char) : List Char :=
  lines ((splitLines text).map indentLine)

------------------------------------------------------------
-- Bodies
------------------------------------------------------------

/- Whether a term is a clause, whatever it consists of. -/
def isClause
    (w : Written) : Bool :=
  w.call?.any fun (name, _, _) => name.isAtom "->"

/- A body: clauses on a line each, or an expression. -/
def bodyText : Written → List Char
| .list content items =>
    if !items.isEmpty && items.all isClause then lines (items.map text)
    else content
| w => w.text

------------------------------------------------------------
-- Clauses
------------------------------------------------------------

/- The head of a clause; a guard is the last part of `when`. -/
def head
    (patterns : List Written) : List Char :=
  match patterns with
  | [guarded] =>
      match guarded.argsOf? "when" with
      | some (first :: second :: rest) =>
          arguments (first :: second :: rest).dropLast ++ " when ".toList
            ++ ((second :: rest).getLast (by simp)).text
      | _ => arguments patterns
  | _ => arguments patterns

/- The arrow behind the head of a clause. -/
def arrow
    (patterns : List Written) : List Char :=
  if patterns.isEmpty then "->".toList else " ->".toList

/- A body of one line stays on the line of its arrow. -/
def behindArrow
    (body : List Char) : List Char :=
  if body.contains '\n' then "\n".toList ++ indent body
  else " ".toList ++ body

def clause
    (patterns : List Written)
    (body : Written) : List Char :=
  head patterns ++ arrow patterns ++ behindArrow (bodyText body)

/- The patterns and the body of what may be a clause. -/
def clauseParts?
    (w : Written) : Option (List Written × Written) :=
  match w.args? with
  | some [.list _ patterns, body] => some (patterns, body)
  | _ => none

------------------------------------------------------------
-- Do blocks
------------------------------------------------------------

/- The sections of a do block: keyed pairs, the first by `do`. -/
def sections? : Written → Option (List (String × Written))
| .list _ items =>
    (items.mapM keyed?).filter fun sections =>
      sections.head?.any (·.1 == "do")
| _ => none

/- What is below the word that opens a section. -/
def sectionBody
    (body : Written) : List Char :=
  if (bodyText body).isEmpty then []
  else "\n".toList ++ indent (bodyText body)

/- A section that is not the first one, with its word. -/
def laterSection
    (section' : String × Written) : List Char :=
  "\n".toList ++ section'.1.toList ++ sectionBody section'.2

def doBlock : List (String × Written) → List Char
| [] => []
| first :: rest =>
    " do".toList ++ sectionBody first.2 ++ rest.flatMap laterSection
      ++ "\nend".toList

------------------------------------------------------------
-- Functions
------------------------------------------------------------

/- The text of a single clause of a function. -/
def onlyClause
    (w : Written) : List Char :=
  match w.clauseParts? with
  | some (patterns, body) => clause patterns body
  | none => w.text

/- A function with its clauses on lines of their own. -/
def tallFunction
    (clauses : List Written) : List Char :=
  "fn\n".toList ++ indent (lines (clauses.map text)) ++ "\nend".toList

/- A function, in one line if it has a single clause of one line. -/
def function : List Written → List Char
| [w] =>
    if (onlyClause w).contains '\n' then tallFunction [w]
    else "fn ".toList ++ onlyClause w ++ " end".toList
| clauses => tallFunction clauses

end ElixirReader.Written
