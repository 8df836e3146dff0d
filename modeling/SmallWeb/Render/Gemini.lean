/-
SmallWeb/Render/Gemini.lean

Gemtext for Gemini.

A gemtext link has a line of its own.  So the text of a link stays in its place,
and every link of a top-level block is repeated on a line after that block,
whatever the link options say.  Gemtext lists do not nest: further lines of an
item are not indented, and a fence at the start of an item moves to a line of
its own.
-/
import SmallWeb.Render.Tree

namespace SmallWeb.Gemini

/-- The fence around preformatted lines. -/
def fence : List Char := "```".toList

/-- The bullet of an unordered list. -/
def bullet : List Char := ['*', ' ']

/-- The marker of a heading: its level in number signs. -/
def headingMarker (level : Value) : Except Fault (List Char) :=
  match level.asInt? with
  | none => .error .wrongType
  | some n =>
    match Text.repeated? n '#' with
    | some s => .ok (s ++ [' '])
    | none => .error .tooLong

/-- The opening fence with the language, if there is one. -/
def header (language : Value) : List Char :=
  if language.truthy then fence ++ language.plain else fence

/-- A text without one line feed at its end. -/
def dropFinalNewline (s : List Char) : List Char :=
  if s.getLast? = some '\n' then s.dropLast else s

/-- The lines of a literal between fences.  An empty literal has no lines. -/
def codeLines (literal language : Value) : Except Fault (List Line) :=
  match literal with
  | .string s =>
    let body := dropFinalNewline s
    let lines := if body.isEmpty then [] else Text.lines body
    .ok ((header language :: (lines ++ [fence])).map .verbatim)
  | _ => .error .noField

/-- The lines of an item.  Where the first one is preformatted the marker stands
alone on a line before it. -/
def itemLines (first rest : List Char) (lines : List Line) : List Line :=
  match lines with
  | .verbatim s :: ls => hangingLines first rest (.prose [] :: .verbatim s :: ls)
  | ls => hangingLines first rest ls

/-- A link: its text, with its target noted for the end of the block. -/
def link (href : Value) (text : List Char) : Walk Value := do
  if href.truthy then
    Walk.noteLink href.plain (Text.trim (Text.replaceChar '\n' ' ' text))
  return .string text

/-- The line of a link. -/
def linkLine (href text : List Char) : List Char :=
  ['=', '>', ' '] ++ href ++ (if text.isEmpty then [] else ' ' :: text)

/-- The lines of the links that a top-level block has noted. -/
def afterBlock (log : LinkLog) : List Line × LinkLog :=
  (log.pending.map fun (href, text) => .verbatim (linkLine href text),
    { log with pending := [], written := log.written + log.pending.length })

/-- The format of gemtext. -/
def format : Format where
  heading level text width := do
    let marker ← Walk.ofExcept (headingMarker level)
    let t ← text
    Walk.ofExcept ((proseLines (Text.replaceChar '\n' ' ' t) width marker).mapError .config)
  codeBlock literal language := Walk.ofExcept (codeLines literal language)
  thematicBreak _ := return [.prose ['-', '-', '-']]
  marker := itemMarker bullet
  continuation _ := []
  itemLines := itemLines
  quoteVerbatim text := text
  codeSpan literal := literal
  link := link
  afterBlock := afterBlock
  finish _ output := output
  linkCount log := log.written
  restart _ := {}

end SmallWeb.Gemini
