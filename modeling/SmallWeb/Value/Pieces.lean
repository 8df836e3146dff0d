/-
SmallWeb/Value/Pieces.lean

Text that is put together from the pieces of a run of inline nodes.

A piece comes from a field of a node and may be no text at all.  The pieces of a
run are collected first and joined at the end, so a piece that is no text is
found after every node of the run has been visited.
-/
import SmallWeb.Fault

namespace SmallWeb

/-- The pieces as one text, if all of them are texts. -/
def joinPieces : List Value → Except Fault (List Char)
  | [] => .ok []
  | .string s :: ps => do return s ++ (← joinPieces ps)
  | _ :: _ => .error .wrongType

/-- The text of a link with its target in parentheses, or the target alone
where there is no text. -/
def withTarget (text : List Char) (href : Value) : Value :=
  if text.isEmpty then href else .string (text ++ [' ', '('] ++ href.plain ++ [')'])

/-- Refuses to go deeper than documents may be nested. -/
def checkDepth (depth : Nat) : Except Fault Unit :=
  if maxDepth < depth then .error (.tree (.tooDeep maxDepth)) else .ok ()

end SmallWeb
