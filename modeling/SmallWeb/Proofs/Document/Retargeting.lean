/-
SmallWeb/Proofs/Document/Retargeting.lean

Trees that differ in the targets of their links.

`v.Retargeted S v'` says that the two trees are the same, node by node and field by
field, except for two things: the identities of the nodes, and the targets of links.
Which targets two links may have is up to `S`, which also sees the children of the
link in the first tree.  With `S` always true the targets are arbitrary; with an
equation the one target is a function of the other.

The relation does not ask for proper trees.  A value at a place where it does not
belong is related to itself, and so are the fields of nodes that are no children.
-/
import Mathlib.Data.List.Forall2
import SmallWeb.Value

namespace SmallWeb.Value

/-- The same tree but for the identities of nodes and the targets of links: where the
one link has the target `href` and certain children, the other has a target that `S`
allows for them. -/
inductive Retargeted (S : Value → Value → Value → Prop) : Value → Value → Prop
  | null : Retargeted S .null .null
  | bool {b : Bool} : Retargeted S (.bool b) (.bool b)
  | int {n : Int} : Retargeted S (.int n) (.int n)
  | float {x : Float} : Retargeted S (.float x) (.float x)
  | string {s : List Char} : Retargeted S (.string s) (.string s)
  | record {fields : List (List Char × Value)} : Retargeted S (.record fields) (.record fields)
  | style {s : LinkStyle} : Retargeted S (.style s) (.style s)
  | tuple {vs vs' : List Value} : List.Forall₂ (Retargeted S) vs vs' →
    Retargeted S (.tuple vs) (.tuple vs')
  | array {vs vs' : List Value} : List.Forall₂ (Retargeted S) vs vs' →
    Retargeted S (.array vs) (.array vs')
  | document {id id' : Nat} {blocks blocks' : Value} : Retargeted S blocks blocks' →
    Retargeted S (.document id blocks) (.document id' blocks')
  | heading {id id' : Nat} {level inline inline' : Value} : Retargeted S inline inline' →
    Retargeted S (.heading id level inline) (.heading id' level inline')
  | paragraph {id id' : Nat} {inline inline' : Value} : Retargeted S inline inline' →
    Retargeted S (.paragraph id inline) (.paragraph id' inline')
  | list {id id' : Nat} {ordered items items' start : Value} : Retargeted S items items' →
    Retargeted S (.list id ordered items start) (.list id' ordered items' start)
  | codeBlock {id id' : Nat} {literal language : Value} :
    Retargeted S (.codeBlock id literal language) (.codeBlock id' literal language)
  | blockquote {id id' : Nat} {children children' : Value} : Retargeted S children children' →
    Retargeted S (.blockquote id children) (.blockquote id' children')
  | thematicBreak {id id' : Nat} : Retargeted S (.thematicBreak id) (.thematicBreak id')
  | text {id id' : Nat} {text : Value} : Retargeted S (.text id text) (.text id' text)
  | code {id id' : Nat} {literal : Value} : Retargeted S (.code id literal) (.code id' literal)
  | lineBreak {id id' : Nat} : Retargeted S (.lineBreak id) (.lineBreak id')
  | emphasis {id id' : Nat} {children children' : Value} : Retargeted S children children' →
    Retargeted S (.emphasis id children) (.emphasis id' children')
  | strong {id id' : Nat} {children children' : Value} : Retargeted S children children' →
    Retargeted S (.strong id children) (.strong id' children')
  | link {id id' : Nat} {href href' children children' : Value} : S href href' children →
    Retargeted S children children' →
    Retargeted S (.link id href children) (.link id' href' children')

/-- Two links with the same target. -/
def SameTarget (href href' _children : Value) : Prop := href = href'

namespace Retargeted

variable {S : Value → Value → Value → Prop}

mutual

/-- **A tree differs in nothing from itself**, whatever stands in it. -/
theorem refl (hS : ∀ href children, S href href children) (v : Value) : v.Retargeted S v := by
  cases v with
  | null => exact .null
  | bool b => exact .bool
  | int n => exact .int
  | float x => exact .float
  | string s => exact .string
  | record fields => exact .record
  | style s => exact .style
  | tuple vs => exact .tuple (refl_all hS vs)
  | array vs => exact .array (refl_all hS vs)
  | document id blocks => exact .document (refl hS blocks)
  | heading id level inline => exact .heading (refl hS inline)
  | paragraph id inline => exact .paragraph (refl hS inline)
  | list id ordered items start => exact .list (refl hS items)
  | codeBlock id literal language => exact .codeBlock
  | blockquote id children => exact .blockquote (refl hS children)
  | thematicBreak id => exact .thematicBreak
  | text id t => exact .text
  | code id literal => exact .code
  | lineBreak id => exact .lineBreak
  | emphasis id children => exact .emphasis (refl hS children)
  | strong id children => exact .strong (refl hS children)
  | link id href children => exact .link (hS href children) (refl hS children)

theorem refl_all (hS : ∀ href children, S href href children) (vs : List Value) :
    List.Forall₂ (Retargeted S) vs vs := by
  cases vs with
  | nil => exact .nil
  | cons v vs => exact .cons (refl hS v) (refl_all hS vs)

end

theorem same (v : Value) : v.Retargeted SameTarget v := refl (fun _ _ => rfl) v

theorem same_all (vs : List Value) : List.Forall₂ (Retargeted SameTarget) vs vs :=
  refl_all (fun _ _ => rfl) vs

end Retargeted

end SmallWeb.Value
