import ElixirReader.CommandLine.Arguments

/-
  This file is the program: it reads the files that are named
  on the command line, and prints what is found out about them.
-/

open ElixirReader

/- The content of a file, or why there is none. -/
def readSource
    (file : String) : IO (Except Command.ReadFault String) := do
  try
    return Command.sourceOf (← IO.FS.readBinFile file)
  catch
  | .noFileOrDirectory _ _ _ => return .error .missing
  | e => return .error (.other (toString e))

/- Run a command on the contents of its files. -/
def runOnFiles
    (a : Arguments) : IO Arguments.Outcome := do
  let contents ← a.files.mapM fun file => return (file, ← readSource file)
  return a.run fun file =>
    ((contents.lookup file).getD (.error .missing))

def usage : String :=
  "usage: elixir-reader tokens|quote|check|to-string|highlight FILE..."

def main
    (arguments : List String) : IO UInt32 := do
  match Arguments.ofList? arguments with
  | none =>
      IO.eprintln usage
      return 2
  | some a =>
      let outcome ← runOnFiles a
      outcome.output.forM IO.println
      outcome.diagnostics.forM IO.eprintln
      return UInt32.ofNat outcome.code
