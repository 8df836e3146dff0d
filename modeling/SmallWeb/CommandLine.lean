/-
SmallWeb/CommandLine.lean

One run of the program, as a function on files.

The input is read as UTF-8 with any line ends.  Its frontmatter may set options,
which the width and then the overrides of the command line replace, each at the
place of the entry that it replaces.  Entries of the frontmatter that name no
option are ignored; an override that names none is a fault.

Faults of options and of document structure end the run with a message and the
status 2.  In these cases nothing is written.
-/
import SmallWeb.CommandLine.Arguments
import SmallWeb.FileTree
import SmallWeb.Frontmatter
import SmallWeb.Options.Override
import SmallWeb.Reader

namespace SmallWeb.CommandLine

/-! ### The parts of a run -/

/-- The options that the frontmatter and the arguments set, in order. -/
def Arguments.optionEntries (a : Arguments) (front : Dictionary (List Char)) : Dictionary Value :=
  let isOption (key : List Char) := (OptionName.ofKey? key).isSome
  let width := a.width.toList.map fun n => ("width".toList, Text.ofInt n)
  let entries := (front.filterKeys isOption).entries ++ width ++ a.overrides
  Dictionary.ofList (entries.map fun e => (e.1, .string e.2))

/-- The rendered text of an input, which one of the readers reads. -/
def Arguments.render (a : Arguments) (readers : Plugins Reader) (content : ByteArray) :
    Except Fault (List Char) := do
  let text ← (Source.octets content).decode
  let (front, lines) := Frontmatter.split (Text.linesWithEnds (Text.unifyLineEnds text))
  let options ← (a.target.defaults.record.override (a.optionEntries front)).mapError .config
  convertWith readers (.text lines.flatten) (.string a.target.name) (.record options.record)
    a.reader

/-- The lines of a rendered text with the line ends that are asked for. -/
def Arguments.outputText (a : Arguments) (rendered : List Char) : List Char :=
  let lineEnd := if a.crlf then ['\r', '\n'] else ['\n']
  Text.joinWith lineEnd (Text.lines rendered) ++ lineEnd

/-- The message for a fault that a run reports and ends with. -/
def reported? : Fault → Option (List Char)
  | .config cause => some (cause.message ++ ['\n'])
  | .tree cause => some (cause.message ++ ['\n'])
  | _ => none

/-- What a run prints and the file that it writes. -/
structure Report where
  status : Nat
  output : List Char := []
  errors : List Char := []
  file : Option (List Char × List Char) := none

/-- What a run does once its input has been read. -/
def Arguments.report (a : Arguments) (readers : Plugins Reader) (content : ByteArray) :
    Except Fault Report :=
  match a.render readers content with
  | .ok rendered =>
    let text := a.outputText rendered
    match a.output with
    | none => .ok { status := 0, output := text }
    | some path => .ok { status := 0, file := some (path, text) }
  | .error fault =>
    match reported? fault with
    | some message => .ok { status := 2, errors := message }
    | none => .error fault

/-! ### Runs -/

/-- How a run ends. -/
inductive Outcome
  /-- Without a run, because of the arguments. -/
  | refused (cause : Refusal)
  | finished (report : Report) (files : FileTree)
  | failed (fault : Fault)

/-- The files after a run. -/
def Report.deliver (r : Report) (files : FileTree) : Except Fault FileTree :=
  match r.file with
  | none => .ok files
  | some (path, text) => files.write (.ofText path) (String.ofList text).toUTF8

/-- What a run reports, and the files after it. -/
def Arguments.runOn (a : Arguments) (readers : Plugins Reader) (files : FileTree) :
    Except Fault (Report × FileTree) := do
  let report ← a.report readers (← files.read (.ofText a.input))
  return (report, ← report.deliver files)

/-- A run on files with the readers of the library. -/
def run (files : FileTree) (arguments : List (List Char)) : Outcome :=
  match Arguments.read arguments with
  | .error cause => .refused cause
  | .ok a =>
    match a.runOn readers files with
    | .ok (report, files) => .finished report files
    | .error fault => .failed fault

end SmallWeb.CommandLine
