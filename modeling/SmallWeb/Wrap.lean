/-
SmallWeb/Wrap.lean

Breaking text into lines of a limited width, and cutting text to a budget.

A line of text is a sequence of chunks: words, and the runs of spaces between
them.  Filling is greedy.  A line takes chunks while they fit; a chunk that does
not fit even into an empty line gets a line of its own and is never broken.  At
the start of every line but the first one blank chunk is dropped, and at the end
of every line another one.

Chunks are cut at the ASCII white space only, whereas a chunk is blank in the
Unicode sense: a chunk of no-break spaces is not broken, but it is dropped at the
ends of a line.

Widths count code points.  A width of zero means no limit.
-/
import SmallWeb.Fault

namespace SmallWeb

/-! ### Chunks -/

/-- Every character at which a line may be broken, written as a space. -/
def softenBreaks (s : List Char) : List Char :=
  s.map fun c => if Text.isBreak c then ' ' else c

/-- The chunks of a text: its maximal runs of spaces and of other characters. -/
def chunks (s : List Char) : List (List Char) :=
  (softenBreaks s).splitBy fun a b => (a == ' ') == (b == ' ')

/-! ### Filling -/

/-- The longest initial run of chunks that fits into `room`, and the rest. -/
def takeFitting (room : Nat) : List (List Char) → List (List Char) × List (List Char)
  | [] => ([], [])
  | c :: cs =>
    if c.length ≤ room then
      let (line, rest) := takeFitting (room - c.length) cs
      (c :: line, rest)
    else ([], c :: cs)

/-- The chunks of the next line, and the rest: those that fit, or else one that
is too long for any line. -/
def nextLine (room : Nat) (cs : List (List Char)) : List (List Char) × List (List Char) :=
  match takeFitting room cs with
  | ([], c :: rest) => ([c], rest)
  | split => split

/-- Drops a blank chunk at the start. -/
def dropBlankHead : List (List Char) → List (List Char)
  | [] => []
  | c :: cs => if Text.isBlankText c then cs else c :: cs

/-- Drops a blank chunk at the end. -/
def dropBlankLast (cs : List (List Char)) : List (List Char) :=
  match cs.getLast? with
  | some c => if Text.isBlankText c then cs.dropLast else cs
  | none => cs

theorem dropBlankHead_length_le (cs : List (List Char)) :
    (dropBlankHead cs).length ≤ cs.length := by
  cases cs with
  | nil => exact Nat.le_refl _
  | cons c cs => simp only [dropBlankHead]; split <;> simp

theorem takeFitting_length (room : Nat) (cs : List (List Char)) :
    (takeFitting room cs).1.length + (takeFitting room cs).2.length = cs.length := by
  induction cs generalizing room with
  | nil => rfl
  | cons c cs ih =>
    unfold takeFitting
    split
    · have := ih (room - c.length)
      simp only [List.length_cons]
      omega
    · simp

/-- A line takes at least one chunk. -/
theorem nextLine_length_lt (room : Nat) (c : List Char) (cs : List (List Char)) :
    (nextLine room (c :: cs)).2.length < (c :: cs).length := by
  have h := takeFitting_length room (c :: cs)
  unfold nextLine
  split
  · rename_i d rest e
    rw [e] at h
    simp only [List.length_cons, List.length_nil] at h ⊢
    omega
  · rename_i hne
    rcases e : takeFitting room (c :: cs) with ⟨line, rest⟩
    rw [e] at h
    rcases line with - | ⟨d, line⟩
    · rcases rest with - | ⟨d, rest⟩
      · simp at h
      · exact absurd e (hne d rest)
    · simp only [List.length_cons] at h ⊢
      omega

/-- The lines that chunks fill, each given by its chunks.  The first line has
room for `first` characters and the others for `later`; `started` says that a
line has been filled before. -/
def fill (first later : Nat) (started : Bool) (cs : List (List Char)) : List (List (List Char)) :=
  match _h : (bif started then dropBlankHead cs else cs) with
  | [] => []
  | d :: ds =>
    let next := nextLine (bif started then later else first) (d :: ds)
    match dropBlankLast next.1 with
    | [] => fill first later started next.2
    | line => line :: fill first later true next.2
termination_by cs.length
decreasing_by
  all_goals
    have hle : (d :: ds).length ≤ cs.length := by
      rw [← ‹(bif started then dropBlankHead cs else cs) = d :: ds›]
      cases started
      · exact Nat.le_refl _
      · exact dropBlankHead_length_le cs
    exact Nat.lt_of_lt_of_le (nextLine_length_lt _ d ds) hle

/-! ### Lines with prefixes -/

/-- The first line with the one prefix and the others with the other. -/
def prependEach (initial subsequent : List Char) : List (List Char) → List (List Char)
  | [] => []
  | l :: ls => (initial ++ l) :: ls.map (subsequent ++ ·)

/-- The lines of one logical line of text at a positive width, with a prefix on
the first line and one on the others.  A prefix leaves room for at least one
character, and blanks at the end of a line are removed.  Blank text yields the
bare first prefix. -/
def wrapAt (width : Nat) (initial subsequent text : List Char) : List (List Char) :=
  let limit := max width (max (initial.length + 1) (subsequent.length + 1))
  match fill (limit - initial.length) (limit - subsequent.length) false (chunks text) with
  | [] => [Text.trimEnd initial]
  | ls => (prependEach initial subsequent (ls.map List.flatten)).map Text.trimEnd

/-- The lines of one logical line of text, where zero means no limit. -/
def wrapLine (width : Nat) (initial subsequent text : List Char) : List (List Char) :=
  if width = 0 then
    if Text.isBlankText text then [Text.trimEnd initial] else [Text.trimEnd (initial ++ text)]
  else wrapAt width initial subsequent text

/-- The lines of one logical line of text; a negative width is refused. -/
def wrapLines (text : List Char) (width : Int) (initial subsequent : List Char) :
    Except ConfigFault (List (List Char)) :=
  if width < 0 then .error (.negativeWidth width)
  else .ok (wrapLine width.toNat initial subsequent text)

/-- Each line of a text at a positive width; blank lines become empty. -/
def reflow (width : Nat) (text : List Char) : List Char :=
  Text.unlines ((Text.lines text).flatMap fun l =>
    if Text.isBlankText l then [[]] else wrapAt width [] [] l)

/-- A text with each of its lines wrapped. -/
def wrap (text : List Char) (width : Int) : Except ConfigFault (List Char) :=
  if width < 0 then .error (.negativeWidth width)
  else if width = 0 then .ok text
  else .ok (reflow width.toNat text)

/-! ### Truncation -/

/-- Three dots, as the sign of an omission. -/
def ellipsis : List Char := ['.', '.', '.']

/-- A text of at most `width` characters, which ends in as much of the ellipsis
as fits where the text had to be cut. -/
def cutTo (width : Nat) (text : List Char) : List Char :=
  if text.length ≤ width then text
  else if width < ellipsis.length then ellipsis.take width
  else text.take (width - ellipsis.length) ++ ellipsis

/-- Cuts a text to a budget; a negative width is refused. -/
def truncate (text : List Char) (width : Int) : Except ConfigFault (List Char) :=
  if width < 0 then .error (.negativeWidth width) else .ok (cutTo width.toNat text)

end SmallWeb
