/-
SmallWeb/Render/Gopher.lean

Plain text for Gopher.

Gopher text has no links.  The text of a link stays in its place; the target is
dropped, shown in parentheses after the text, or moved to the numbered list of
links at the end, as the options say.  The entries of that list are never
wrapped.
-/
import SmallWeb.Render.Tree

namespace SmallWeb.Gopher

/-- The bullet of an unordered list. -/
def bullet : List Char := ['•', ' ']

/-- Code between backquotes, or bare. -/
def codeSpan (o : RenderOptions) (literal : Value) : Value :=
  if o.stripFormatting then literal else .string (['\x60'] ++ literal.plain ++ ['\x60'])

/-- The lines of a literal without the line feeds at its end. -/
def codeLines : Value → Except Fault (List Line)
  | .string s => .ok ((Text.lines (Text.dropEndWhile (· == '\n') s)).map .verbatim)
  | _ => .error .noField

/-- A rule over the whole width, or a short one where there is no limit. -/
def rule (width : Int) : Except Fault (List Char) :=
  match Text.repeated? (if width > 0 then width else 3) '-' with
  | some s => .ok s
  | none => .error .tooLong

/-- A link by the options: its text, its text and target, or its text and the
number of its target. -/
def link (o : RenderOptions) (href : Value) (text : List Char) : Walk Value :=
  if !o.preserveLinks || !href.truthy then return .string text
  else if o.linkStyle = .inline then return withTarget text href
  else do
    let n ← Walk.registerLink href.plain
    let shown := if text.isEmpty then href.plain else text
    return .string (shown ++ [' ', '['] ++ Text.ofNat n ++ [']'])

/-- The output and, behind an empty line, the list of links if there are
any. -/
def finish (log : LinkLog) (output : List Line) : List Line :=
  if log.registry.entries.isEmpty then output
  else appendBlock output ((Text.lines log.registry.footnotes).map .prose)

/-- The format of Gopher text. -/
def format (o : RenderOptions) : Format where
  heading _ text width := do
    let t ← text
    Walk.ofExcept ((proseLines t width []).mapError .config)
  codeBlock literal _ := Walk.ofExcept (codeLines literal)
  thematicBreak width := do return [.prose (← Walk.ofExcept (rule width))]
  marker := itemMarker bullet
  continuation := hangingIndent
  itemLines := hangingLines
  quoteVerbatim := quotedVerbatim
  codeSpan := codeSpan o
  link := link o
  afterBlock log := ([], log)
  finish := finish
  linkCount log := log.registry.size
  restart log := { log with registry := {} }

end SmallWeb.Gopher
