/-
SmallWeb/CommandLine/Arguments.lean

The arguments of the command line.

An argument that begins with a hyphen is a switch, unless it is a hyphen alone, a
negative number, or holds a space without naming a switch.  A long switch may be
shortened as far as it stays unique.  The value of a switch follows an equals sign,
or the letter of a short switch at once, or is the next argument.  Short switches
without a value may be joined; what follows them and names no switch is left over.
After two hyphens every argument is an operand.

Arguments are taken in order.  A value that cannot be read ends the reading, and so
does a request for help.  Unknown switches, what joined switches leave over, and
operands beyond the first are only refused at the end.
-/
import SmallWeb.LinkStyle
import SmallWeb.Text.Digit

namespace SmallWeb.CommandLine

/-! ### Switches -/

/-- The switches. -/
inductive Switch
  | output
  | target
  | width
  | reader
  | override
  | crlf
  | verbose
  | help
  deriving DecidableEq, Repr

/-- The spellings of the switches. -/
def Switch.spellings : List (String × Switch) :=
  [("-h", .help), ("--help", .help), ("-o", .output), ("--output", .output), ("-t", .target),
   ("--target", .target), ("--width", .width), ("--parser", .reader), ("--option", .override),
   ("--crlf", .crlf), ("-v", .verbose), ("--verbose", .verbose)]

/-- The switch with a spelling. -/
def Switch.named? (s : List Char) : Option Switch :=
  (spellings.find? fun e => e.1.toList == s).map Prod.snd

/-- The switches whose spelling begins with a text. -/
def Switch.beginningWith (s : List Char) : List Switch :=
  (spellings.filter fun e => s.isPrefixOf e.1.toList).map Prod.snd

/-- Whether a switch has a value. -/
def Switch.hasValue : Switch → Bool
  | .output | .target | .width | .reader | .override => true
  | .crlf | .verbose | .help => false

/-! ### Arguments one by one -/

/-- Why a reading of arguments ends before a run. -/
inductive Refusal
  | help
  | misuse
  deriving DecidableEq, Repr

/-- The status that a refusal ends with. -/
def Refusal.status : Refusal → Nat
  | .help => 0
  | .misuse => 2

/-- What is attached to a switch. -/
structure Attached where
  /-- Whether it stands after an equals sign. -/
  afterEquals : Bool
  text : List Char
  deriving DecidableEq, Repr

/-- An argument by its form. -/
inductive Argument
  | operand (s : List Char)
  | switch (switch : Switch) (short : Bool) (attached : Option Attached)
  | unknown
  deriving DecidableEq, Repr

/-- Whether a text has the form of a negative number.  A line feed at its end does
not count. -/
def isNegativeNumber (s : List Char) : Bool :=
  let digits (s : List Char) : Bool := s.all Text.isDigit
  match if s.getLast? = some '\n' then s.dropLast else s with
  | '-' :: s =>
    match Text.cut? '.' s with
    | none => !s.isEmpty && digits s
    | some (whole, fraction) => digits whole && !fraction.isEmpty && digits fraction
  | _ => false

/-- A name and what follows the first equals sign, if there is one. -/
def splitAttached (s : List Char) : List Char × Option Attached :=
  match Text.cut? '=' s with
  | some (name, value) => (name, some ⟨true, value⟩)
  | none => (s, none)

/-- A long switch that is shortened. -/
def shortened (s : List Char) : Except Refusal (Option Argument) :=
  let (name, attached) := splitAttached s
  match Switch.beginningWith name with
  | [] => .ok none
  | [switch] => .ok (some (.switch switch false attached))
  | _ => .error .misuse

/-- A short switch with a text attached. -/
def joined (s : List Char) : Option Argument :=
  (Switch.named? (s.take 2)).map fun switch => .switch switch true (some ⟨false, s.drop 2⟩)

/-- The form of an argument before any two hyphens. -/
def Argument.ofText (s : List Char) : Except Refusal Argument :=
  if s.head? != some '-' || s.length = 1 then .ok (.operand s)
  else
    let short := s.drop 1 |>.head? |>.map (· != '-') |>.getD false
    match Switch.named? s with
    | some found => .ok (.switch found short none)
    | none =>
      let (name, attached) := splitAttached s
      match if attached.isSome then Switch.named? name else none with
      | some found => .ok (.switch found short attached)
      | none => do
        let found ← if short then .ok (joined s) else shortened s
        match found with
        | some argument => .ok argument
        | none => .ok (if isNegativeNumber s || s.contains ' ' then .operand s else .unknown)

/-! ### Arguments together -/

/-- What the arguments ask for. -/
structure Arguments where
  input : List Char
  output : Option (List Char) := none
  target : Target := .gopher
  width : Option Int := none
  reader : List Char := "markdown".toList
  overrides : List (List Char × List Char) := []
  crlf : Bool := false

/-- What has been read so far.  The input stays open until an operand is read. -/
structure Progress where
  arguments : Arguments := { input := [] }
  hasInput : Bool := false
  /-- Whether the last argument was the input. -/
  atInput : Bool := false
  /-- Whether there was an argument that has no place. -/
  surplus : Bool := false

/-- The key and the value of an override. -/
def override? (s : List Char) : Option (List Char × List Char) :=
  match Text.cut? '=' s with
  | some (key, value) => if Text.isBlankText key then none else some (Text.trim key, value)
  | none => none

/-- The arguments with the value of one switch. -/
def Arguments.set (a : Arguments) (switch : Switch) (value : List Char) :
    Except Refusal Arguments :=
  match switch with
  | .output => .ok { a with output := some value }
  | .target =>
    match Target.all.find? fun t => t.name == value with
    | some t => .ok { a with target := t }
    | none => .error .misuse
  | .width =>
    match Text.readInt? value with
    | some n => .ok { a with width := some n }
    | none => .error .misuse
  | .reader => if value = "markdown".toList then .ok { a with reader := value } else .error .misuse
  | .override =>
    match override? value with
    | some e => .ok { a with overrides := a.overrides ++ [e] }
    | none => .error .misuse
  | .crlf => .ok { a with crlf := true }
  | .verbose => .ok a
  | .help => .error .help

/-- The switches that one argument gives, with their values.  The value of the
last one may have to come from the next argument. -/
structure Joined where
  switches : List (Switch × Option (List Char))
  /-- Whether something is left over. -/
  surplus : Bool := false

/-- A switch with nothing attached. -/
def Joined.alone (switch : Switch) : Joined :=
  ⟨[(switch, if switch.hasValue then none else some [])], false⟩

/-- More switches after one without a value. -/
def Joined.push (switch : Switch) (j : Joined) : Joined :=
  { j with switches := (switch, some []) :: j.switches }

/-- The switches that a short switch with a text attached gives. -/
def unjoin (switch : Switch) (afterEquals : Bool) (text : List Char) : Except Refusal Joined :=
  if switch.hasValue then .ok ⟨[(switch, some text)], false⟩
  else match text with
  | [] => .error .misuse
  | c :: s =>
    if afterEquals || c = '-' then .error .misuse
    else match Switch.named? ['-', c], s with
      | none, _ => .ok ⟨[(switch, some [])], true⟩
      | some next, [] => .ok ((Joined.alone next).push switch)
      | some next, '=' :: s => (unjoin next true s).map (Joined.push switch)
      | some next, s => (unjoin next false s).map (Joined.push switch)
  termination_by text.length
  decreasing_by all_goals (simp only [List.length_cons]; omega)

/-- The switches that an argument gives. -/
def joinedSwitches (switch : Switch) (short : Bool) :
    Option Attached → Except Refusal Joined
  | none => .ok (.alone switch)
  | some a =>
    if short then unjoin switch a.afterEquals a.text
    else if switch.hasValue then .ok ⟨[(switch, some a.text)], false⟩
    else .error .misuse

/-- The value of a switch, and the arguments that are left. -/
def takeValue (value : Option (List Char)) (rest : List Argument) :
    Except Refusal (List Char × List Argument) :=
  match value, rest with
  | some v, rest => .ok (v, rest)
  | none, .operand v :: rest => .ok (v, rest)
  | none, _ => .error .misuse

namespace Progress

/-- Takes an operand. -/
def addOperand (p : Progress) (s : List Char) : Progress :=
  if p.hasInput then { p with surplus := true, atInput := false }
  else
    { p with arguments := { p.arguments with input := s }, hasInput := true, atInput := true }

/-- Takes the switches of one argument.  The value is found before any of them
has an effect. -/
def addSwitches (p : Progress) (j : Joined) (rest : List Argument) :
    Except Refusal (Progress × List Argument) := do
  let (value, rest) ← takeValue (j.switches.getLast?.bind Prod.snd) rest
  let arguments ← j.switches.foldlM (fun a s => a.set s.1 (s.2.getD value)) p.arguments
  return ({ p with arguments, atInput := false, surplus := p.surplus || j.surplus }, rest)

/-- Takes arguments in order.  The fuel bounds them. -/
def addAll (fuel : Nat) (p : Progress) (arguments : List Argument) : Except Refusal Progress :=
  match fuel, arguments with
  | _, [] => .ok p
  | 0, _ => .ok p
  | fuel + 1, .operand s :: rest => addAll fuel (p.addOperand s) rest
  | fuel + 1, .unknown :: rest => addAll fuel { p with surplus := true, atInput := false } rest
  | fuel + 1, .switch switch short attached :: rest => do
    let (p, rest) ← p.addSwitches (← joinedSwitches switch short attached) rest
    addAll fuel p rest

/-- Takes what follows two hyphens, if they are there.  The hyphens belong to the
input, which stands before or after them. -/
def addAfter (p : Progress) : Option (List (List Char)) → Progress
  | none => p
  | some [] => if p.atInput then p else { p with surplus := true }
  | some (s :: rest) =>
    let p := p.addOperand s
    if rest.isEmpty then p else { p with surplus := true }

/-- The arguments, if all of them have a place and the input is there. -/
def finish (p : Progress) : Except Refusal Arguments :=
  if p.hasInput && !p.surplus then .ok p.arguments else .error .misuse

end Progress

/-- The arguments before and after two hyphens. -/
def cutAtHyphens : List (List Char) → List (List Char) × Option (List (List Char))
  | [] => ([], none)
  | s :: rest =>
    if s = ['-', '-'] then ([], some rest)
    else
      let (before, after) := cutAtHyphens rest
      (s :: before, after)

/-- Reads the arguments of a run. -/
def Arguments.read (arguments : List (List Char)) : Except Refusal Arguments := do
  let (before, after) := cutAtHyphens arguments
  let forms ← before.mapM Argument.ofText
  ((← Progress.addAll forms.length {} forms).addAfter after).finish

end SmallWeb.CommandLine
