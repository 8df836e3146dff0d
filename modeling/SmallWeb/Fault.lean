/-
SmallWeb/Fault.lean

What can go wrong, by cause, and how a message puts it.

`ConfigFault` is about targets and options, `TreeFault` about the shape of a
document tree.  They are the two documented causes for a render to fail.  The
other faults belong to readers, registries and files, or arise where a tree that
was never checked has a value of the wrong type in one of its fields.
-/
import SmallWeb.Options.Name
import SmallWeb.Value.Print

namespace SmallWeb

/-! ### Options and targets -/

/-- A target or an option that cannot be used. -/
inductive ConfigFault
  | unknownTarget (given : List Char)
  | unknownLinkStyle (given : List Char)
  | unknownOption (key : List Char)
  /-- A text that is not an integer, for an option that needs one. -/
  | notIntegerText (option : OptionName) (given : List Char)
  /-- A text that is not a truth value, for an option that needs one. -/
  | notBooleanText (option : OptionName) (given : List Char)
  | widthNotInteger (given : Value)
  | negativeWidth (width : Int)
  | notLinkStyle (given : Value)
  | notBoolean (option : OptionName) (given : Value)
  /-- Something else in the place of an options record. -/
  | notOptions (kind : String)
  /-- A reader or renderer by a name that is not registered. -/
  | unknownPlugin (name : List Char) (available : List (List Char))

/-! ### Document trees -/

/-- A field of a node that must hold a sequence of nodes. -/
inductive SequenceSlot
  | documentBlocks
  | headingInline
  | paragraphInline
  | listItems
  | listItem
  | blockquoteChildren
  | emphasisChildren
  | strongChildren
  | linkChildren
  deriving DecidableEq, Repr

/-- A field of a node that must hold a text. -/
inductive TextSlot
  | codeBlockLiteral
  | textText
  | codeLiteral
  | linkHref
  deriving DecidableEq, Repr

/-- A document tree that is not a proper tree. -/
inductive TreeFault
  | notDocument (kind : String)
  | notSequence (slot : SequenceSlot)
  | notBlock (kind : String)
  | notInline (kind : String)
  | tooDeep (limit : Int)
  /-- One node at two places of the tree. -/
  | repeated (kind : String)
  | badLevel (given : Value)
  | notText (slot : TextSlot)
  | cannotRenderBlock (kind : String)
  | cannotRenderInline (kind : String)

/-! ### All faults -/

/-- Everything that can go wrong. -/
inductive Fault
  | config (cause : ConfigFault)
  | tree (cause : TreeFault)
  /-- A look-up of a name that is not registered. -/
  | unknownPlugin (name : List Char) (available : List (List Char))
  /-- A second registration under one name. -/
  | duplicatePlugin (key : List Char)
  /-- A text in the place of a number that does not denote one. -/
  | notANumber (given : List Char)
  /-- A number without integral part in the place of an integer. -/
  | notFinite
  /-- A value of a type that the operation is not defined on. -/
  | wrongType
  /-- A field that the value does not have. -/
  | noField
  /-- A text that would be longer than texts can be. -/
  | tooLong
  /-- A part of a format that the format leaves open. -/
  | unsupported
  /-- Bytes that are not UTF-8. -/
  | malformedText
  | fileNotFound
  | isDirectory
  | notDirectory
  | fileExists

/-! ### Messages -/

/-- The field of a node, as messages name it. -/
def SequenceSlot.name : SequenceSlot → String
  | .documentBlocks => "Document.blocks"
  | .headingInline => "Heading.inline"
  | .paragraphInline => "Paragraph.inline"
  | .listItems => "List.items"
  | .listItem => "List item"
  | .blockquoteChildren => "Blockquote.children"
  | .emphasisChildren => "Emphasis.children"
  | .strongChildren => "Strong.children"
  | .linkChildren => "Link.children"

/-- The field of a node, as messages name it. -/
def TextSlot.name : TextSlot → String
  | .codeBlockLiteral => "CodeBlock.literal"
  | .textText => "Text.text"
  | .codeLiteral => "Code.literal"
  | .linkHref => "Link.href"

/-- The message for a name that is not registered. -/
def unknownPluginMessage (name : List Char) (available : List (List Char)) : List Char :=
  let names := Text.joinWith [',', ' '] available
  "Plugin '".toList ++ name ++ "' is not registered (available: ".toList
    ++ (if names.isEmpty then "none".toList else names) ++ ").".toList

/-- The message of a fault in targets or options. -/
def ConfigFault.message : ConfigFault → List Char
  | .unknownTarget given => "Unknown render target '".toList ++ given ++ "'.".toList
  | .unknownLinkStyle given => "Unknown link style '".toList ++ given ++ "'.".toList
  | .unknownOption key => "Unknown render option '".toList ++ key ++ "'.".toList
  | .notIntegerText option given =>
    "Option '".toList ++ option.name.toList ++ "' expects an integer, got '".toList ++ given
      ++ "'.".toList
  | .notBooleanText option given =>
    "Option '".toList ++ option.name.toList ++ "' expects a boolean, got '".toList ++ given
      ++ "'.".toList
  | .widthNotInteger given => "Width must be an integer, got ".toList ++ given.written ++ ['.']
  | .negativeWidth width =>
    "Width must be zero or positive, got ".toList ++ Text.ofInt width ++ ['.']
  | .notLinkStyle given => "link_style must be a LinkStyle, got ".toList ++ given.written ++ ['.']
  | .notBoolean option given =>
    option.name.toList ++ " must be a boolean, got ".toList ++ given.written ++ ['.']
  | .notOptions kind => "Expected RenderOptions, got ".toList ++ kind.toList ++ ['.']
  | .unknownPlugin name available => Text.quoted (unknownPluginMessage name available)

/-- The message of a fault in a document tree. -/
def TreeFault.message : TreeFault → List Char
  | .notDocument kind => "Expected a Document, got ".toList ++ kind.toList ++ ['.']
  | .notSequence slot => slot.name.toList ++ " must be a sequence of nodes.".toList
  | .notBlock kind => "Expected a block node, got ".toList ++ kind.toList ++ ['.']
  | .notInline kind => "Expected an inline node, got ".toList ++ kind.toList ++ ['.']
  | .tooDeep limit =>
    "Document nesting exceeds the maximum depth of ".toList ++ Text.ofInt limit ++ ['.']
  | .repeated kind => kind.toList ++ " node appears more than once in the tree.".toList
  | .badLevel given =>
    "Heading level must be between 1 and 6, got ".toList ++ given.written ++ ['.']
  | .notText slot => slot.name.toList ++ " must be a string.".toList
  | .cannotRenderBlock kind => "Cannot render ".toList ++ kind.toList ++ " as a block.".toList
  | .cannotRenderInline kind => "Cannot render ".toList ++ kind.toList ++ " inline.".toList

/-- The message of a fault.  The faults of a tree that was never checked, and
those of files, have none. -/
def Fault.message : Fault → List Char
  | .config cause => cause.message
  | .tree cause => cause.message
  | .unknownPlugin name available => Text.quoted (unknownPluginMessage name available)
  | .duplicatePlugin key => "Plugin '".toList ++ key ++ "' is already registered.".toList
  | .notANumber given => "invalid literal for int() with base 10: ".toList ++ Text.quoted given
  | _ => []

end SmallWeb
