/-
SmallWeb/Options/Name.lean

The names of the render options and the spellings that are accepted for them.

A key is read without blanks around it, in lower case and with hyphens as
underscores.  Except for `width`, every option may also be written without its
underscores, and `compact` stands for the compact mode.
-/
import SmallWeb.Text.Casing
import SmallWeb.Text.Split

namespace SmallWeb

/-- The render options. -/
inductive OptionName
  | width
  | preserveLinks
  | linkStyle
  | compactMode
  | stripFormatting
  deriving DecidableEq, Repr

namespace OptionName

/-- All render options. -/
def all : List OptionName := [.width, .preserveLinks, .linkStyle, .compactMode, .stripFormatting]

/-- The full name of an option. -/
def name : OptionName → String
  | .width => "width"
  | .preserveLinks => "preserve_links"
  | .linkStyle => "link_style"
  | .compactMode => "compact_mode"
  | .stripFormatting => "strip_formatting"

/-- Spellings without underscores, and the short name of the compact mode. -/
def aliases : List (String × OptionName) :=
  [("preservelinks", .preserveLinks), ("linkstyle", .linkStyle), ("compact", .compactMode),
   ("compactmode", .compactMode), ("stripformatting", .stripFormatting)]

/-- A key without blanks around it, in lower case, with underscores for
hyphens. -/
def normalize (key : List Char) : List Char :=
  Text.replaceChar '-' '_' (Text.lower (Text.trim key))

/-- The option that a key names. -/
def ofKey? (key : List Char) : Option OptionName :=
  let normal := normalize key
  let bare := normal.filter (· != '_')
  match aliases.find? fun a => a.1.toList == bare with
  | some a => some a.2
  | none => all.find? fun o => o.name.toList == normal

end OptionName

end SmallWeb
