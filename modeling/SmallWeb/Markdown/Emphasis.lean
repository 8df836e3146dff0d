/-
SmallWeb/Markdown/Emphasis.lean

Pairing the runs of emphasis marks.

Running text is a list of pieces: characters, finished tokens, and runs of marks
that may open or close emphasis, depending on what stands beside them.  The pieces
are read from the left.  A run that closes is paired with the nearest open run of
its mark; open runs in between turn into text.  A pair of two marks on each side
is strong, of one mark plain emphasis, and what is left of either run may be
paired again.

Where one of two runs could both open and close, they are a pair only if their
sizes do not add up to a multiple of three, or both are multiples of three.
-/
import SmallWeb.Token

namespace SmallWeb.Markdown

/-! ### Pieces -/

/-- A run of one mark, with its size as written. -/
structure Run where
  mark : Char
  size : Nat
  opens : Bool
  closes : Bool
  deriving DecidableEq, Repr

/-- A piece of running text. -/
inductive Piece
  | char (c : Char)
  | token (t : Token)
  | run (r : Run)

/-- Text as pieces. -/
def Piece.ofText (s : List Char) : List Piece := s.map .char

/-- Adds a character in front of tokens. -/
def addChar (c : Char) : List Token → List Token
  | .mk .text (some s) a children :: ts => .mk .text (some (c :: s)) a children :: ts
  | ts => .leaf .text [c] :: ts

/-- The tokens for pieces, with each run that is left as text. -/
def tokensOf : List Piece → List Token
  | [] => []
  | .char c :: ps => addChar c (tokensOf ps)
  | .token t :: ps => t :: tokensOf ps
  | .run r :: ps => (List.replicate r.size r.mark).foldr addChar (tokensOf ps)

/-! ### Pairs -/

/-- A run that is open: the marks that are left of it, and the pieces before it in
reverse. -/
structure Opener where
  run : Run
  left : Nat
  before : List Piece

/-- The pieces in reverse where an open run is text. -/
def Opener.asText (o : Opener) (after : List Piece) : List Piece :=
  after ++ List.replicate o.left (.char o.run.mark) ++ o.before

/-- Whether two runs are a pair. -/
def Run.pairs (first last : Run) : Bool :=
  first.mark == last.mark
    && !((first.closes || last.opens) && (first.size + last.size) % 3 == 0
      && !(first.size % 3 == 0 && last.size % 3 == 0))

/-- The nearest open run that a run is paired with, the open runs around the pair,
and the pieces inside it in reverse. -/
def opener? (r : Run) : List Opener → List Piece → Option (Opener × List Opener × List Piece)
  | [], _ => none
  | o :: os, after =>
    if o.run.pairs r then some (o, os, after) else opener? r os (o.asText after)

/-- The number of marks that a pair takes from each side. -/
def pairSize (mark : Char) (first last : Nat) : Nat :=
  if mark = '~' || (2 ≤ first && 2 ≤ last) then 2 else 1

/-- The kind of a pair. -/
def pairKind (mark : Char) (size : Nat) : TokenKind :=
  if mark = '~' then .other "strikethrough".toList else if size = 2 then .strong else .emphasis

/-- The open runs, and the pieces after the last of them in reverse. -/
structure Pairing where
  openers : List Opener := []
  after : List Piece := []

namespace Pairing

/-- Adds what is left of a run that closes nothing more. -/
def leave (p : Pairing) (r : Run) (left : Nat) : Pairing :=
  if r.opens && left != 0 then ⟨⟨r, left, p.after⟩ :: p.openers, []⟩
  else ⟨p.openers, List.replicate left (.char r.mark) ++ p.after⟩

/-- Pairs what is left of a run as often as it can be.  The fuel bounds the
pairs. -/
def close (r : Run) (fuel left : Nat) (p : Pairing) : Pairing :=
  match fuel with
  | 0 => p.leave r left
  | fuel + 1 =>
    if left = 0 then p
    else match opener? r p.openers p.after with
      | none => p.leave r left
      | some (o, around, inside) =>
        let size := pairSize r.mark o.left left
        let pair := Piece.token (.node (pairKind r.mark size) (tokensOf inside.reverse))
        close r fuel (left - size) <|
          if o.left ≤ size then ⟨around, pair :: o.before⟩
          else ⟨{ o with left := o.left - size } :: around, [pair]⟩

/-- Adds a piece. -/
def add (p : Pairing) : Piece → Pairing
  | .run r => if r.closes then p.close r r.size r.size else p.leave r r.size
  | piece => { p with after := piece :: p.after }

/-- The pieces in reverse with the runs that are still open as text. -/
def finish (p : Pairing) : List Piece :=
  p.openers.foldl (fun after o => o.asText after) p.after

end Pairing

/-- The tokens for pieces, with runs paired. -/
def pairUp (pieces : List Piece) : List Token :=
  tokensOf (pieces.foldl Pairing.add {}).finish.reverse

end SmallWeb.Markdown
