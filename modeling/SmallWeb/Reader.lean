/-
SmallWeb/Reader.lean

Readers, and the way from a source to rendered text.

A source is a text or the octets of one in UTF-8.  It is decoded first.  Then the
target and the options are settled, then the reader is looked up, and only then is
anything read.  Readers and renderers are registered by name.  `convertWith` takes the
readers as an argument; the library comes with one of its own, for Markdown.
-/
import SmallWeb.Markdown
import SmallWeb.Plugins
import SmallWeb.Render

namespace SmallWeb

/-! ### Sources -/

/-- What a reader is given. -/
inductive Source
  | text (s : List Char)
  | octets (b : ByteArray)

/-- The text of a source. -/
def Source.decode : Source → Except Fault (List Char)
  | .text s => .ok s
  | .octets b =>
    match String.fromUTF8? b with
    | some s => .ok s.toList
    | none => .error .malformedText

/-! ### Readers -/

/-- A reader of marked-up text. -/
structure Reader where
  name : List Char
  read : List Char → Except Fault Document

/-- The reader of Markdown. -/
def Reader.markdown (strikethrough : Bool) : Reader :=
  ⟨"markdown".toList, Markdown.document strikethrough⟩

/-- The registered readers. -/
def readers : Plugins Reader := ⟨[Reader.markdown true].map fun r => (r.name, r)⟩

/-- The registered renderers, each under the name of its target. -/
def renderers : Plugins Target := ⟨Target.all.map fun t => (t.name, t)⟩

/-- The document that a Markdown source denotes. -/
def readMarkdown (strikethrough : Bool) (source : Source) : Except Fault Document := do
  (Reader.markdown strikethrough).read (← source.decode)

/-- A look-up whose failure is a fault of configuration. -/
def Reader.find (readers : Plugins Reader) (name : List Char) : Except Fault Reader :=
  match readers.get name with
  | .ok reader => .ok reader
  | .error (.unknownPlugin name available) => .error (.config (.unknownPlugin name available))
  | .error fault => .error fault

/-- Reads a source with the reader that is registered under a name and renders it for a
target. -/
def convertWith (readers : Plugins Reader) (source : Source) (target : Value)
    (options : OptionsInput) (reader : List Char) : Except Fault (List Char) := do
  let text ← source.decode
  let target ← (Target.ofValue target).mapError .config
  let o ← (options.resolve target).mapError .config
  let reader ← Reader.find readers reader
  renderChecked target o (← reader.read text).value

/-- Reads a source with one of the readers of the library and renders it for a target. -/
def convert (source : Source) (target : Value) (options : OptionsInput) (reader : List Char) :
    Except Fault (List Char) :=
  convertWith readers source target options reader

end SmallWeb
