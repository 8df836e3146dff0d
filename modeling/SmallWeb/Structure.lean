/-
SmallWeb/Structure.lean

The structure check: which values are proper document trees.

A proper tree is a document in which blocks stand in the places of blocks and
inline nodes in theirs, every collection of children is a sequence, no node
occurs twice, no node lies deeper than a limit, heading levels run from 1 to 6,
and texts are texts.  Top-level blocks have depth 1, and children lie one deeper
than their parent.

The check walks the tree in reading order, a node before its children.  It
carries the identities of the nodes that it has entered and stops at the first
fault.  At each node it looks at the type of the node first, then at its depth,
its identity and its fields.
-/
import SmallWeb.Fault

namespace SmallWeb.Structure

/-- The nodes entered so far, after one more; or the fault of a node that lies
too deep or has been entered before. -/
def enter (limit : Int) (depth : Nat) (seen : List Nat) (id : Nat) (kind : String) :
    Except TreeFault (List Nat) :=
  if limit < depth then .error (.tooDeep limit)
  else if seen.contains id then .error (.repeated kind)
  else .ok (id :: seen)

/-- Whether a value is a heading level. -/
def isLevel (level : Value) : Bool :=
  match level.asInt? with
  | some n => 1 ≤ n && n ≤ 6
  | none => false

/-- Whether a value is a text. -/
def isText : Value → Bool
  | .string _ => true
  | _ => false

mutual

/-- Checks a value in the place of an inline node. -/
def checkInline (limit : Int) (depth : Nat) (seen : List Nat) :
    Value → Except TreeFault (List Nat)
  | .text id t => do
    let seen ← enter limit depth seen id "Text"
    if isText t then return seen else throw (.notText .textText)
  | .code id literal => do
    let seen ← enter limit depth seen id "Code"
    if isText literal then return seen else throw (.notText .codeLiteral)
  | .lineBreak id => enter limit depth seen id "LineBreak"
  | .emphasis id children => do
    let seen ← enter limit depth seen id "Emphasis"
    checkRun limit .emphasisChildren (depth + 1) seen children
  | .strong id children => do
    let seen ← enter limit depth seen id "Strong"
    checkRun limit .strongChildren (depth + 1) seen children
  | .link id href children => do
    let seen ← enter limit depth seen id "Link"
    if isText href then checkRun limit .linkChildren (depth + 1) seen children
    else throw (.notText .linkHref)
  | v => .error (.notInline v.kind)

/-- Checks a value in the place of a sequence of inline nodes. -/
def checkRun (limit : Int) (slot : SequenceSlot) (depth : Nat) (seen : List Nat) :
    Value → Except TreeFault (List Nat)
  | .tuple vs => checkInlines limit depth seen vs
  | .array vs => checkInlines limit depth seen vs
  | _ => .error (.notSequence slot)

/-- Checks values in the places of inline nodes, in order. -/
def checkInlines (limit : Int) (depth : Nat) (seen : List Nat) :
    List Value → Except TreeFault (List Nat)
  | [] => .ok seen
  | v :: vs => do
    let seen ← checkInline limit depth seen v
    checkInlines limit depth seen vs

end

mutual

/-- Checks a value in the place of a block. -/
def checkBlock (limit : Int) (depth : Nat) (seen : List Nat) :
    Value → Except TreeFault (List Nat)
  | .heading id level inline => do
    let seen ← enter limit depth seen id "Heading"
    if isLevel level then checkRun limit .headingInline (depth + 1) seen inline
    else throw (.badLevel level)
  | .paragraph id inline => do
    let seen ← enter limit depth seen id "Paragraph"
    checkRun limit .paragraphInline (depth + 1) seen inline
  | .list id _ items _ => do
    let seen ← enter limit depth seen id "List"
    checkItems limit (depth + 1) seen items
  | .codeBlock id literal _ => do
    let seen ← enter limit depth seen id "CodeBlock"
    if isText literal then return seen else throw (.notText .codeBlockLiteral)
  | .blockquote id children => do
    let seen ← enter limit depth seen id "Blockquote"
    checkBlockRun limit .blockquoteChildren (depth + 1) seen children
  | .thematicBreak id => enter limit depth seen id "ThematicBreak"
  | v => .error (.notBlock v.kind)

/-- Checks a value in the place of a sequence of blocks. -/
def checkBlockRun (limit : Int) (slot : SequenceSlot) (depth : Nat) (seen : List Nat) :
    Value → Except TreeFault (List Nat)
  | .tuple vs => checkBlocks limit depth seen vs
  | .array vs => checkBlocks limit depth seen vs
  | _ => .error (.notSequence slot)

/-- Checks values in the places of blocks, in order. -/
def checkBlocks (limit : Int) (depth : Nat) (seen : List Nat) :
    List Value → Except TreeFault (List Nat)
  | [] => .ok seen
  | v :: vs => do
    let seen ← checkBlock limit depth seen v
    checkBlocks limit depth seen vs

/-- Checks a value in the place of the items of a list. -/
def checkItems (limit : Int) (depth : Nat) (seen : List Nat) :
    Value → Except TreeFault (List Nat)
  | .tuple items => checkEachItem limit depth seen items
  | .array items => checkEachItem limit depth seen items
  | _ => .error (.notSequence .listItems)

/-- Checks values in the places of list items, in order. -/
def checkEachItem (limit : Int) (depth : Nat) (seen : List Nat) :
    List Value → Except TreeFault (List Nat)
  | [] => .ok seen
  | item :: items => do
    let seen ← checkBlockRun limit .listItem depth seen item
    checkEachItem limit depth seen items

end

/-- Checks that a value is a proper document tree of limited depth. -/
def check (limit : Int) : Value → Except TreeFault Unit
  | .document _ blocks => do
    let _ ← checkBlockRun limit .documentBlocks 1 [] blocks
  | v => .error (.notDocument v.kind)

end SmallWeb.Structure
