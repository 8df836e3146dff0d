/-
SmallWeb/Value/Print.lean

The text of a value, as messages and the fields that hold text show it.

Two forms exist and differ at the top only.  The written form puts a text in
quotes; the plain form of a text is the text itself.  Inside a sequence, a
record or a node everything is written.

Every value has both forms, however deep it is and however many digits its numbers have:
what a machine sets as limits on recursion, memory or the length of numbers is left out,
as it is where numbers are read and written.
-/
import SmallWeb.Number.Shortest
import SmallWeb.Text.Quoted
import SmallWeb.Value

namespace SmallWeb.Value

/-- The name of a link style as a member of its type. -/
def styleName : LinkStyle → List Char
  | .inline => "INLINE".toList
  | .footnote => "FOOTNOTE".toList
  | .line => "LINE".toList

/-- A node by its kind and the written forms of its fields. -/
def nodeText (kind : String) (fields : List (String × List Char)) : List Char :=
  kind.toList ++ ['('] ++
    Text.joinWith [',', ' '] (fields.map fun f => f.1.toList ++ ['='] ++ f.2) ++ [')']

mutual

/-- The written form of a value. -/
def written : Value → List Char
  | null => "None".toList
  | bool b => (if b then "True" else "False").toList
  | int n => Text.ofInt n
  | float x => Number.text x
  | string s => Text.quoted s
  | tuple xs =>
    match writtenAll xs with
    | [one] => ['('] ++ one ++ [',', ')']
    | parts => ['('] ++ Text.joinWith [',', ' '] parts ++ [')']
  | array xs => ['['] ++ Text.joinWith [',', ' '] (writtenAll xs) ++ [']']
  | record fs => ['\x7b'] ++ Text.joinWith [',', ' '] (writtenFields fs) ++ ['\x7d']
  | style s => "<LinkStyle.".toList ++ styleName s ++ [':', ' '] ++ Text.quoted s.name ++ ['>']
  | document _ blocks => nodeText "Document" [("blocks", written blocks)]
  | heading _ level inline =>
    nodeText "Heading" [("level", written level), ("inline", written inline)]
  | paragraph _ inline => nodeText "Paragraph" [("inline", written inline)]
  | list _ ordered items start =>
    nodeText "List"
      [("ordered", written ordered), ("items", written items), ("start", written start)]
  | codeBlock _ literal language =>
    nodeText "CodeBlock" [("literal", written literal), ("language", written language)]
  | blockquote _ children => nodeText "Blockquote" [("children", written children)]
  | thematicBreak _ => nodeText "ThematicBreak" []
  | text _ t => nodeText "Text" [("text", written t)]
  | code _ literal => nodeText "Code" [("literal", written literal)]
  | lineBreak _ => nodeText "LineBreak" []
  | emphasis _ children => nodeText "Emphasis" [("children", written children)]
  | strong _ children => nodeText "Strong" [("children", written children)]
  | link _ href children =>
    nodeText "Link" [("href", written href), ("children", written children)]

/-- The written forms of the items of a sequence. -/
def writtenAll : List Value → List (List Char)
  | [] => []
  | v :: vs => written v :: writtenAll vs

/-- The written forms of the fields of a record. -/
def writtenFields : List (List Char × Value) → List (List Char)
  | [] => []
  | (key, v) :: fs => (Text.quoted key ++ [':', ' '] ++ written v) :: writtenFields fs

end

/-- The plain form of a value. -/
def plain : Value → List Char
  | string s => s
  | style s => "LinkStyle.".toList ++ styleName s
  | v => written v

end SmallWeb.Value
