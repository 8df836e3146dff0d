/-
SmallWeb/LinkStyle.lean

The three ways to show the target of a link, and the three kinds of output.
-/
namespace SmallWeb

/-- Where a link's target goes: in parentheses after its text, into a numbered
list at the end, or onto a line of its own after the block. -/
inductive LinkStyle
  | inline
  | footnote
  | line
  deriving DecidableEq, Repr

/-- The name of a link style in options. -/
def LinkStyle.name : LinkStyle → List Char
  | .inline => "inline".toList
  | .footnote => "footnote".toList
  | .line => "line".toList

/-- All link styles. -/
def LinkStyle.all : List LinkStyle := [.inline, .footnote, .line]

/-- The protocol that a document is rendered for. -/
inductive Target
  | gopher
  | gemini
  | finger
  deriving DecidableEq, Repr

/-- The name of a target in options. -/
def Target.name : Target → List Char
  | .gopher => "gopher".toList
  | .gemini => "gemini".toList
  | .finger => "finger".toList

/-- All targets. -/
def Target.all : List Target := [.gopher, .gemini, .finger]

end SmallWeb
