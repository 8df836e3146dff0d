/-
SmallWeb/LinkRegistry.lean

Link targets, numbered from 1 in the order of their first appearance.

A registry keeps its numbers twice: the index has the number of each target, and the
entries are the numbered targets in order.  Registering a target looks it up in the
index.  A new target goes into both under the next number; a target that is there
changes nothing and gets the number that it has.
-/
import SmallWeb.Dictionary
import SmallWeb.Text.Digit

namespace SmallWeb

/-- The numbers of the targets registered so far, by target and in order. -/
structure LinkRegistry where
  index : Dictionary Nat := {}
  entries : List (Nat × List Char) := []
  deriving DecidableEq, Repr

namespace LinkRegistry

/-- The number of targets. -/
def size (r : LinkRegistry) : Nat := r.entries.length

/-- Whether a target has been registered. -/
def contains (r : LinkRegistry) (href : List Char) : Bool := (r.index.get? href).isSome

/-- The number of a target, and the registry with that target in it. -/
def register (r : LinkRegistry) (href : List Char) : Nat × LinkRegistry :=
  match r.index.get? href with
  | some n => (n, r)
  | none =>
    let n := r.size + 1
    (n, ⟨r.index.write href n, r.entries ++ [(n, href)]⟩)

/-- The line of one entry. -/
def entryLine (n : Nat) (href : List Char) : List Char :=
  ['['] ++ Text.ofNat n ++ [']', ' '] ++ href

/-- The lines of the list of links, or no lines if there are none. -/
def footnoteLines (r : LinkRegistry) : List (List Char) :=
  if r.entries.isEmpty then []
  else "Links:".toList :: r.entries.map fun (n, href) => entryLine n href

/-- The list of links as one text. -/
def footnotes (r : LinkRegistry) : List Char := Text.unlines r.footnoteLines

end LinkRegistry

end SmallWeb
