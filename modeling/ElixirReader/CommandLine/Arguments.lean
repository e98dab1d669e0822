import ElixirReader.CommandLine.Command

/-
  This file reads the arguments of the program: a command, its
  options, and the files that it works on.

  Key definitions include:
    * `Arguments`
    * `Arguments.ofList?`
    * `Arguments.run`
-/

namespace ElixirReader

------------------------------------------------------------
-- Options
------------------------------------------------------------

/- A command by its word, before any option. -/
def Command.ofWord? : String → Option Command
| "tokens" => some .tokens
| "quote" => some (.quote .line)
| "check" => some .check
| "to-string" => some .render
| "highlight" => some .highlight
| _ => none

/- Whether an argument only asks for more messages. -/
def isVerbosity
    (argument : String) : Bool :=
  argument == "--verbose"
    || (argument.toList.take 2 == ['-', 'v']
      && (argument.toList.drop 1).all (· == 'v'))

/- The command that an option makes of a command. -/
def Command.withOption? : Command → String → Option Command
| .quote .line, "--columns" => some (.quote .lineColumn)
| .quote .line, "--no-metadata" => some (.quote .none)
| _, _ => none

/- Whether an argument is an option by its form. -/
def isOption
    (argument : String) : Bool :=
  argument.toList.head? == some '-' && argument != "-"

------------------------------------------------------------
-- Arguments
------------------------------------------------------------

/- A command and the files that it works on. -/
structure Arguments where
  command : Command
  files : List String
deriving DecidableEq, Repr, Inhabited

namespace Arguments

/- A file in front of the files. -/
def addFile
    (file : String)
    (a : Arguments) : Arguments :=
  { a with files := file :: a.files }

/- Options and files behind a command; `--` ends the options. -/
def behind?
    (command : Command) : List String → Option Arguments
| [] => some ⟨command, []⟩
| argument :: rest =>
    if argument = "--" then some ⟨command, rest⟩
    else if isVerbosity argument then behind? command rest
    else if isOption argument then
      (command.withOption? argument).bind (behind? · rest)
    else (behind? command rest).map (addFile argument)

/- The arguments of the program, if they make sense. -/
def ofList? : List String → Option Arguments
| [] => none
| argument :: rest =>
    if isVerbosity argument then ofList? rest
    else (Command.ofWord? argument).bind (behind? · rest)

------------------------------------------------------------
-- Running
------------------------------------------------------------

/- What the program leaves behind. -/
structure Outcome where
  output : List String
  diagnostics : List String
  code : Nat
deriving DecidableEq, Repr, Inhabited

/- The outcome of a report: one in place of zero if it failed. -/
def Outcome.ofReport
    (r : Report) : Outcome :=
  ⟨r.output, r.diagnostics, if r.failed then 1 else 0⟩

/- The outcome if there is nothing to work on. -/
def noFiles : Outcome :=
  ⟨[], ["Error: no files specified"], 2⟩

/- Run a command on files with their contents. -/
def run
    (a : Arguments)
    (content : String → Except Command.ReadFault String) : Outcome :=
  if a.files.isEmpty then noFiles
  else
    Outcome.ofReport
      (a.command.onFiles (a.files.map fun file => (file, content file)))

end Arguments

end ElixirReader
