import SmallWeb.CommandLine
import SmallWeb.CommandLine.Arguments
import SmallWeb.Dictionary
import SmallWeb.Document
import SmallWeb.Extract
import SmallWeb.Fault
import SmallWeb.FileTree
import SmallWeb.Frontmatter
import SmallWeb.LinkRegistry
import SmallWeb.LinkStyle
import SmallWeb.Main
import SmallWeb.Markdown
import SmallWeb.Markdown.Cursor
import SmallWeb.Markdown.Emphasis
import SmallWeb.Markdown.Html
import SmallWeb.Markdown.Inline
import SmallWeb.Markdown.Line
import SmallWeb.Markdown.Link
import SmallWeb.Markdown.Part
import SmallWeb.Markdown.Span
import SmallWeb.Markdown.Spine
import SmallWeb.Number.Shortest
import SmallWeb.Options
import SmallWeb.Options.Name
import SmallWeb.Options.Override
import SmallWeb.Plugins
import SmallWeb.Proofs.CommandLine.Precedence
import SmallWeb.Proofs.Dictionary
import SmallWeb.Proofs.Distinct
import SmallWeb.Proofs.Document.Erasure
import SmallWeb.Proofs.Document.Everywhere
import SmallWeb.Proofs.Document.Links
import SmallWeb.Proofs.Document.Numbering
import SmallWeb.Proofs.Document.Reading
import SmallWeb.Proofs.Document.Retargeting
import SmallWeb.Proofs.Document.Slots
import SmallWeb.Proofs.Extract
import SmallWeb.Proofs.Extract.Code
import SmallWeb.Proofs.Extract.Depth
import SmallWeb.Proofs.Extract.Prose
import SmallWeb.Proofs.Extract.Targets
import SmallWeb.Proofs.Frontmatter
import SmallWeb.Proofs.Groups
import SmallWeb.Proofs.LinkRegistry
import SmallWeb.Proofs.LinkRegistry.Run
import SmallWeb.Proofs.Options.Check
import SmallWeb.Proofs.Options.LastWriter
import SmallWeb.Proofs.Options.Override
import SmallWeb.Proofs.Options.Reading
import SmallWeb.Proofs.Plugins
import SmallWeb.Proofs.Render.BlankLines
import SmallWeb.Proofs.Render.Characters
import SmallWeb.Proofs.Render.CodeBlocks
import SmallWeb.Proofs.Render.Composition
import SmallWeb.Proofs.Render.Emphasis
import SmallWeb.Proofs.Render.Failure
import SmallWeb.Proofs.Render.Fences
import SmallWeb.Proofs.Render.Finger
import SmallWeb.Proofs.Render.FingerCode
import SmallWeb.Proofs.Render.Following
import SmallWeb.Proofs.Render.Footnotes
import SmallWeb.Proofs.Render.Gemini
import SmallWeb.Proofs.Render.Gopher
import SmallWeb.Proofs.Render.InStep
import SmallWeb.Proofs.Render.Layout
import SmallWeb.Proofs.Render.Leaves
import SmallWeb.Proofs.Render.Line
import SmallWeb.Proofs.Render.LineWords
import SmallWeb.Proofs.Render.LinkLines
import SmallWeb.Proofs.Render.LinkPolicy
import SmallWeb.Proofs.Render.Outcome
import SmallWeb.Proofs.Render.PlainText
import SmallWeb.Proofs.Render.Provenance
import SmallWeb.Proofs.Render.Reflow
import SmallWeb.Proofs.Render.Request
import SmallWeb.Proofs.Render.Reuse
import SmallWeb.Proofs.Render.Run
import SmallWeb.Proofs.Render.RunningText
import SmallWeb.Proofs.Render.Tidy
import SmallWeb.Proofs.Render.WideEnough
import SmallWeb.Proofs.Render.WidthBudget
import SmallWeb.Proofs.Render.Words
import SmallWeb.Proofs.Result
import SmallWeb.Proofs.Structure
import SmallWeb.Proofs.Text.Flush
import SmallWeb.Proofs.Text.Lines
import SmallWeb.Proofs.Text.Number
import SmallWeb.Proofs.Text.Spacing
import SmallWeb.Proofs.Text.Trim
import SmallWeb.Proofs.Text.Words
import SmallWeb.Proofs.Token.Containers
import SmallWeb.Proofs.Token.Document
import SmallWeb.Proofs.Token.Encoding
import SmallWeb.Proofs.Token.Normal
import SmallWeb.Proofs.Token.Render
import SmallWeb.Proofs.Token.Texts
import SmallWeb.Proofs.Wrap.Bound
import SmallWeb.Proofs.Wrap.Content
import SmallWeb.Proofs.Wrap.Fitting
import SmallWeb.Proofs.Wrap.FixedPoint
import SmallWeb.Proofs.Wrap.Hollow
import SmallWeb.Proofs.Wrap.Optimal
import SmallWeb.Proofs.Wrap.Pieces
import SmallWeb.Proofs.Wrap.Truncation
import SmallWeb.Proofs.Wrap.Words
import SmallWeb.Reader
import SmallWeb.Render
import SmallWeb.Render.Finger
import SmallWeb.Render.Gemini
import SmallWeb.Render.Gopher
import SmallWeb.Render.Line
import SmallWeb.Render.Tree
import SmallWeb.Render.Walk
import SmallWeb.Structure
import SmallWeb.Text.Blank
import SmallWeb.Text.Casing
import SmallWeb.Text.Digit
import SmallWeb.Text.Printable
import SmallWeb.Text.Punctuation
import SmallWeb.Text.Quoted
import SmallWeb.Text.Split
import SmallWeb.Token
import SmallWeb.Token.Document
import SmallWeb.Value
import SmallWeb.Value.Pieces
import SmallWeb.Value.Print
import SmallWeb.Wrap
