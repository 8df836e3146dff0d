/-
SmallWeb/Document.lean

The document tree proper.

Here every field has the type that the model gives it, so a tree of these types
can be walked without any check.  `Document.value` turns a document into a
loosely typed value, numbering the nodes in reading order, a node before its
children: no two nodes of the result have the same identity.
-/
import SmallWeb.Value

namespace SmallWeb

/-- A part of a line of running text. -/
inductive Inline where
  | text (text : List Char)
  | code (literal : List Char)
  | lineBreak
  | emphasis (children : List Inline)
  | strong (children : List Inline)
  | link (href : List Char) (children : List Inline)
  deriving Repr

/-- A part of a document. -/
inductive Block where
  | heading (level : Int) (inline : List Inline)
  | paragraph (inline : List Inline)
  | list (ordered : Bool) (items : List (List Block)) (start : Int)
  | codeBlock (literal : List Char) (language : Option (List Char))
  | blockquote (children : List Block)
  | thematicBreak
  deriving Repr

/-- A document is a sequence of blocks. -/
structure Document where
  blocks : List Block
  deriving Repr

/-! ### Documents as values -/

mutual

/-- An inline node as a value, numbered from `next` on, and the next number. -/
def Inline.number (next : Nat) : Inline → Value × Nat
  | .text t => (.text next (.string t), next + 1)
  | .code l => (.code next (.string l), next + 1)
  | .lineBreak => (.lineBreak next, next + 1)
  | .emphasis cs =>
    let (vs, n) := Inline.numberAll (next + 1) cs
    (.emphasis next (.tuple vs), n)
  | .strong cs =>
    let (vs, n) := Inline.numberAll (next + 1) cs
    (.strong next (.tuple vs), n)
  | .link href cs =>
    let (vs, n) := Inline.numberAll (next + 1) cs
    (.link next (.string href) (.tuple vs), n)

/-- A run of inline nodes as values. -/
def Inline.numberAll (next : Nat) : List Inline → List Value × Nat
  | [] => ([], next)
  | i :: is =>
    let (v, n) := Inline.number next i
    let (vs, n) := Inline.numberAll n is
    (v :: vs, n)

end

mutual

/-- A block as a value, numbered from `next` on, and the next number. -/
def Block.number (next : Nat) : Block → Value × Nat
  | .heading level is =>
    let (vs, n) := Inline.numberAll (next + 1) is
    (.heading next (.int level) (.tuple vs), n)
  | .paragraph is =>
    let (vs, n) := Inline.numberAll (next + 1) is
    (.paragraph next (.tuple vs), n)
  | .list ordered items start =>
    let (vs, n) := Block.numberItems (next + 1) items
    (.list next (.bool ordered) (.tuple vs) (.int start), n)
  | .codeBlock literal language =>
    (.codeBlock next (.string literal) ((language.map Value.string).getD .null), next + 1)
  | .blockquote cs =>
    let (vs, n) := Block.numberAll (next + 1) cs
    (.blockquote next (.tuple vs), n)
  | .thematicBreak => (.thematicBreak next, next + 1)

/-- A sequence of blocks as values. -/
def Block.numberAll (next : Nat) : List Block → List Value × Nat
  | [] => ([], next)
  | b :: bs =>
    let (v, n) := Block.number next b
    let (vs, n) := Block.numberAll n bs
    (v :: vs, n)

/-- The items of a list as values. -/
def Block.numberItems (next : Nat) : List (List Block) → List Value × Nat
  | [] => ([], next)
  | item :: items =>
    let (vs, n) := Block.numberAll next item
    let (rest, n) := Block.numberItems n items
    (.tuple vs :: rest, n)

end

/-- A document as a value, with distinct nodes. -/
def Document.value (d : Document) : Value :=
  .document 0 (.tuple (Block.numberAll 1 d.blocks).1)

end SmallWeb
