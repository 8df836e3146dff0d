/-
SmallWeb/Options/Override.lean

Overriding render options by keys and values.

The entries are applied in order, so of two entries for one option the later
wins, however its key is spelled.  Texts are read: a width as a plain integer, a
flag as one of the words for true and false.  Other values are taken as they
are, and the record that results is checked as a whole.  An entry that cannot be
read is a fault even where a later entry would have replaced it, whereas a value
that is merely invalid may still be replaced.
-/
import SmallWeb.Dictionary
import SmallWeb.Options

namespace SmallWeb

/-- The words for true and false. -/
def readFlag? (s : List Char) : Option Bool :=
  let word := Text.lower (Text.trim s)
  if ["true", "yes", "1", "on"].any fun w => w.toList == word then some true
  else if ["false", "no", "0", "off"].any fun w => w.toList == word then some false
  else none

/-- The value of an option as an entry gives it. -/
def OptionName.read (name : OptionName) (v : Value) : Except ConfigFault Value :=
  match name, v with
  | .width, .string s =>
    match Text.readPlainInt? (Text.trim s) with
    | some n => .ok (.int n)
    | none => .error (.notIntegerText name s)
  | .width, v => .ok v
  | .linkStyle, v => (LinkStyle.ofValue v).map .style
  | name, .string s =>
    match readFlag? s with
    | some b => .ok (.bool b)
    | none => .error (.notBooleanText name s)
  | _, v => .ok v

/-- The record with one option replaced. -/
def OptionRecord.set (r : OptionRecord) (name : OptionName) (v : Value) : OptionRecord :=
  match name with
  | .width => { r with width := v }
  | .preserveLinks => { r with preserveLinks := v }
  | .linkStyle => { r with linkStyle := v }
  | .compactMode => { r with compactMode := v }
  | .stripFormatting => { r with stripFormatting := v }

/-- The record after one entry. -/
def OptionRecord.apply (r : OptionRecord) (key : List Char) (v : Value) :
    Except ConfigFault OptionRecord :=
  match OptionName.ofKey? key with
  | none => .error (.unknownOption key)
  | some name => do return r.set name (← name.read v)

/-- The record after entries in order. -/
def OptionRecord.applyAll (r : OptionRecord) :
    List (List Char × Value) → Except ConfigFault OptionRecord
  | [] => .ok r
  | e :: es => do (← r.apply e.1 e.2).applyAll es

/-- The checked options that a base and overriding entries give. -/
def OptionRecord.override (r : OptionRecord) (entries : Dictionary Value) :
    Except ConfigFault RenderOptions := do
  (← r.applyAll entries.entries).validate

end SmallWeb
