import ElixirReader.Analysis.Basic
import ElixirReader.Render.Basic
import ElixirReader.Term.Inspect

/-
  This file defines what the program does with files: its
  commands, and what each prints about a source. What is found
  is output, and errors are diagnostics.

  Key definitions include:
    * `Command`
    * `Report`
    * `Command.onSource`
    * `Command.onFile`
    * `Command.onFiles`
-/

namespace ElixirReader

------------------------------------------------------------
-- Reports
------------------------------------------------------------

/- What was printed, and whether anything was wrong. -/
structure Report where
  output : List String
  diagnostics : List String
  failed : Bool
deriving DecidableEq, Repr, Inhabited

namespace Report

def empty : Report :=
  ⟨[], [], false⟩

/- One report after another. -/
def append
    (r s : Report) : Report :=
  ⟨r.output ++ s.output, r.diagnostics ++ s.diagnostics,
    r.failed || s.failed⟩

/- A line about a file. -/
def about
    (file message : String) : String :=
  file ++ ": " ++ message

/- Lines of output, and a diagnostic for each error message. -/
def ofErrors
    (file : String)
    (output : List String)
    (messages : List String) : Report :=
  ⟨output, messages.map (about file), !messages.isEmpty⟩

end Report

------------------------------------------------------------
-- Commands
------------------------------------------------------------

inductive Command where
/- Print every token with its place and kind. -/
| tokens
/- Print the term of a source. -/
| quote (metadata : Metadata)
/- Report errors alone. -/
| check
/- Print the source that the term of a source stands for. -/
| render
/- Print the categories of every token. -/
| highlight
deriving DecidableEq, Repr, Inhabited

namespace Command

/- A token, its place and kind, and the mode behind it. -/
def tokenLine
    (token : Token)
    (mode : Mode) : String :=
  toString token.span.start ++ ".." ++ toString token.span.stop
    ++ "\t" ++ token.kind.name ++ "\t" ++ mode.name
    ++ "\t" ++ Visible.text token.text

/- The text of a token and the keys of its categories. -/
def highlightLine
    (text : String)
    (categories : List Category) : String :=
  Visible.text text ++ "\t"
    ++ ",".intercalate (categories.map Category.key)

/- What is said about a source without errors. -/
def verdict
    (a : Analysis) : String :=
  "valid (" ++ toString a.document.expressions.length
    ++ " expression(s))"

/- Print something about a source, and then its errors. -/
def afterAnalysis
    (file source : String)
    (m : Metadata)
    (output : Analysis → List String) : Report :=
  match analyze m false source with
  | .ok a => Report.ofErrors file (output a) (a.errors.map SourceError.message)
  | .error c => Report.ofErrors file [] [c.message]

/- The verdict about a source, or its errors. -/
def checked
    (file source : String) : Report :=
  match analyze .line false source with
  | .ok a =>
      if a.errors.isEmpty then
        ⟨[], [Report.about file (verdict a)], false⟩
      else
        Report.ofErrors file [] (a.errors.map SourceError.message)
  | .error c => Report.ofErrors file [] [c.message]

/- What a command prints about a source. -/
def onSource
    (file source : String) : Command → Report
| .tokens =>
    let (lexed, l) := (Lexer.ofSource source).drain
    Report.ofErrors file (lexed.map fun (t, m) => tokenLine t m)
      (l.errors.map LexError.message)
| .quote m =>
    afterAnalysis file source m fun a => [a.term.inspect]
| .check => checked file source
| .render =>
    afterAnalysis file source .none fun a => [a.term.render]
| .highlight =>
    ⟨(ElixirReader.highlight source).map fun (t, cs) => highlightLine t cs,
      [], false⟩

------------------------------------------------------------
-- Files
------------------------------------------------------------

/- Why a file cannot be read. -/
inductive ReadFault where
| missing
| notUnicode
| other (reason : String)
deriving DecidableEq, Repr, Inhabited

def ReadFault.message : ReadFault → String
| .missing => "No such file or directory (os error 2)"
| .notUnicode => "stream did not contain valid UTF-8"
| .other reason => reason

/- The source that bytes are in UTF-8. -/
def sourceOf
    (bytes : ByteArray) : Except ReadFault String :=
  match String.fromUTF8? bytes with
  | some source => .ok source
  | none => .error .notUnicode

/- What a command prints about a file, by its content. -/
def onFile
    (c : Command)
    (file : String) : Except ReadFault String → Report
| .ok source => c.onSource file source
| .error fault => Report.ofErrors file [] [fault.message]

/- What a command prints about all files. -/
def onFiles
    (c : Command)
    (files : List (String × Except ReadFault String)) : Report :=
  files.foldl (fun r (file, content) => r.append (c.onFile file content))
    Report.empty

end Command

end ElixirReader
