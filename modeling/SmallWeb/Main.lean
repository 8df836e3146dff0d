/-
SmallWeb/Main.lean

The program.

This is the only module that touches files and standard streams.  What a run reads,
prints and writes is decided in `SmallWeb.CommandLine`.
-/
import SmallWeb.CommandLine

namespace SmallWeb.CommandLine

/-- A summary of the command line. -/
def usage : String :=
  "usage: smallweb [-h] [-o OUTPUT] [-t gopher|gemini|finger] [--width N] [--parser markdown]\n"
    ++ "                [--option KEY=VALUE] [--crlf] [-v] INPUT\n"

/-- The text of a path, where the empty path is the working directory. -/
def fileName (p : Path) : String := if p.isEmpty then "." else String.ofList p.text

/-- Carries out a run. -/
def carryOut (a : Arguments) : IO UInt32 := do
  let content ← IO.FS.readBinFile (fileName (Path.ofText a.input))
  match a.report readers content with
  | .error fault =>
    (← IO.getStderr).putStrLn (String.ofList fault.message)
    return 1
  | .ok report =>
    (← IO.getStdout).putStr (String.ofList report.output)
    (← IO.getStderr).putStr (String.ofList report.errors)
    match report.file with
    | none => pure ()
    | some (name, text) =>
      let path := Path.ofText name
      IO.FS.createDirAll (fileName path.dropLast)
      IO.FS.writeBinFile (fileName path) (String.ofList text).toUTF8
    return report.status.toUInt32

end SmallWeb.CommandLine

open SmallWeb.CommandLine in
/-- Runs the program. -/
def main (arguments : List String) : IO UInt32 := do
  match Arguments.read (arguments.map String.toList) with
  | .ok a => carryOut a
  | .error .help =>
    (← IO.getStdout).putStr usage
    return 0
  | .error .misuse =>
    (← IO.getStderr).putStr usage
    return 2
