/-
SmallWeb/Value.lean

Loosely typed values: what a caller hands over before anything has been checked.

A document tree is a value.  Its nodes carry an identity, so that one node that
occurs at two places can be told from two equal nodes, and each field of a node
is a value again: the children of a paragraph may be a number.  The structure
check separates the proper trees from the rest, and the walks over a tree say
what happens at each improper place.

The elements of a value are what a loop over it meets: the items of a sequence,
the characters of a text, the keys of a record.
-/
import SmallWeb.LinkStyle
import SmallWeb.Text.Split

namespace SmallWeb

/-- The depth of nesting up to which documents are read and rendered. -/
def maxDepth : Nat := 64

/-- A loosely typed value.  The constructors from `document` on are the nodes of
a document tree. -/
inductive Value where
  | null
  | bool (b : Bool)
  | int (n : Int)
  | float (x : Float)
  | string (s : List Char)
  /-- A fixed sequence. -/
  | tuple (items : List Value)
  /-- A sequence that can grow. -/
  | array (items : List Value)
  | record (fields : List (List Char × Value))
  | style (s : LinkStyle)
  | document (id : Nat) (blocks : Value)
  | heading (id : Nat) (level inline : Value)
  | paragraph (id : Nat) (inline : Value)
  | list (id : Nat) (ordered items start : Value)
  | codeBlock (id : Nat) (literal language : Value)
  | blockquote (id : Nat) (children : Value)
  | thematicBreak (id : Nat)
  | text (id : Nat) (text : Value)
  | code (id : Nat) (literal : Value)
  | lineBreak (id : Nat)
  | emphasis (id : Nat) (children : Value)
  | strong (id : Nat) (children : Value)
  | link (id : Nat) (href children : Value)

namespace Value

/-- The name of a value's type. -/
def kind : Value → String
  | null => "NoneType"
  | bool _ => "bool"
  | int _ => "int"
  | float _ => "float"
  | string _ => "str"
  | tuple _ => "tuple"
  | array _ => "list"
  | record _ => "dict"
  | style _ => "LinkStyle"
  | document .. => "Document"
  | heading .. => "Heading"
  | paragraph .. => "Paragraph"
  | list .. => "List"
  | codeBlock .. => "CodeBlock"
  | blockquote .. => "Blockquote"
  | thematicBreak .. => "ThematicBreak"
  | text .. => "Text"
  | code .. => "Code"
  | lineBreak .. => "LineBreak"
  | emphasis .. => "Emphasis"
  | strong .. => "Strong"
  | link .. => "Link"

/-- Whether a value counts as true: nothing, zero and what is empty do not. -/
def truthy : Value → Bool
  | null => false
  | bool b => b
  | int n => n != 0
  | float x => x != 0
  | string s => !s.isEmpty
  | tuple xs | array xs => !xs.isEmpty
  | record fs => !fs.isEmpty
  | _ => true

/-- A whole number; the truth values are the numbers one and zero. -/
def asInt? : Value → Option Int
  | int n => some n
  | bool b => some (if b then 1 else 0)
  | _ => none

/-- The elements of a value that is neither a sequence of values nor a node:
the characters of a text, or the keys of a record. -/
def plainElements? : Value → Option (List (List Char))
  | string s => some (s.map fun c => [c])
  | record fs => some (fs.map Prod.fst)
  | _ => none

end Value

end SmallWeb
