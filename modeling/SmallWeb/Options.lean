/-
SmallWeb/Options.lean

Render options: their record, their defaults per target, and their check.

`OptionRecord` is a record as a caller may build it, with any value in any
field.  `validate` looks at the width first, then at the link style, then at the
three flags, and yields the typed record `RenderOptions`.

The width of a typed record is an integer, and a valid one is not negative.  A
renderer may be built without validation, and then a negative width is refused
where text is wrapped.
-/
import SmallWeb.Fault

namespace SmallWeb

/-! ### Records -/

/-- Render options. -/
structure RenderOptions where
  /-- The number of characters that a line may have; zero means no limit. -/
  width : Int := 0
  /-- Whether the targets of links are shown. -/
  preserveLinks : Bool := true
  linkStyle : LinkStyle := .footnote
  /-- Whether blanks are collapsed and the output is cut to the width. -/
  compactMode : Bool := false
  /-- Whether code in running text loses its quotes. -/
  stripFormatting : Bool := false
  deriving DecidableEq, Repr

/-- Render options whose width is not negative. -/
def RenderOptions.Valid (o : RenderOptions) : Prop := 0 ≤ o.width

/-- Render options as a caller may build them. -/
structure OptionRecord where
  width : Value := .int 0
  preserveLinks : Value := .bool true
  linkStyle : Value := .style .footnote
  compactMode : Value := .bool false
  stripFormatting : Value := .bool false

/-- Typed options as a record. -/
def RenderOptions.record (o : RenderOptions) : OptionRecord where
  width := .int o.width
  preserveLinks := .bool o.preserveLinks
  linkStyle := .style o.linkStyle
  compactMode := .bool o.compactMode
  stripFormatting := .bool o.stripFormatting

/-! ### The check -/

/-- A width that is a whole number and not negative. -/
def checkWidth : Value → Except ConfigFault Int
  | .int n => if n < 0 then .error (.negativeWidth n) else .ok n
  | v => .error (.widthNotInteger v)

/-- A link style. -/
def checkStyle : Value → Except ConfigFault LinkStyle
  | .style s => .ok s
  | v => .error (.notLinkStyle v)

/-- A truth value. -/
def checkFlag (name : OptionName) : Value → Except ConfigFault Bool
  | .bool b => .ok b
  | v => .error (.notBoolean name v)

/-- The typed options of a record, or its first fault. -/
def OptionRecord.validate (r : OptionRecord) : Except ConfigFault RenderOptions := do
  let width ← checkWidth r.width
  let linkStyle ← checkStyle r.linkStyle
  let preserveLinks ← checkFlag .preserveLinks r.preserveLinks
  let compactMode ← checkFlag .compactMode r.compactMode
  let stripFormatting ← checkFlag .stripFormatting r.stripFormatting
  return { width, preserveLinks, linkStyle, compactMode, stripFormatting }

/-- The options that a renderer built from an unchecked record works with:
flags count by their truth, and any other style than a style in parentheses is
shown as footnotes.  A width that is no number has no such options. -/
def OptionRecord.unchecked? (r : OptionRecord) : Option RenderOptions :=
  r.width.asInt?.map fun width =>
    { width
      preserveLinks := r.preserveLinks.truthy
      linkStyle := match r.linkStyle with
        | .style s => s
        | _ => .footnote
      compactMode := r.compactMode.truthy
      stripFormatting := r.stripFormatting.truthy }

/-! ### Targets and defaults -/

/-- The target that a value names. -/
def Target.ofValue (v : Value) : Except ConfigFault Target :=
  let name := Text.lower (Text.trim v.plain)
  match Target.all.find? fun t => t.name == name with
  | some t => .ok t
  | none => .error (.unknownTarget v.plain)

/-- The link style that a value is or names.  Footnotes have a second name. -/
def LinkStyle.ofValue : Value → Except ConfigFault LinkStyle
  | .style s => .ok s
  | v =>
    let name := Text.lower (Text.trim v.plain)
    if name == "reference".toList then .ok .footnote
    else match LinkStyle.all.find? fun s => s.name == name with
      | some s => .ok s
      | none => .error (.unknownLinkStyle v.plain)

/-- The options of a target where none are given. -/
def Target.defaults : Target → RenderOptions
  | .gopher => { width := 70 }
  | .gemini => { linkStyle := .line }
  | .finger =>
    { preserveLinks := false, linkStyle := .inline, compactMode := true, stripFormatting := true }

end SmallWeb
