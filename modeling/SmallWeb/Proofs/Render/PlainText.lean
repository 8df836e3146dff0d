/-
SmallWeb/Proofs/Render/PlainText.lean

Running text as the extractor gives it.

A format may show code bare or between quotes, and a link with or without its
target.  A format that adds nothing to either writes running text as the
extractor does, whatever the nesting: both are the same recursion, and they
differ in these two cases only.

Main result: `Layout.run_eq_plain`.
-/
import SmallWeb.Proofs.Extract
import SmallWeb.Proofs.Render.Gemini
import SmallWeb.Proofs.Render.Gopher

namespace SmallWeb

/-- A layout shows code and links as the extractor does, with targets or without
them. -/
structure Layout.ShowsPlain (s : Layout) (hrefs : Bool) : Prop where
  codeSpan (literal : List Char) : s.codeSpan literal = literal
  link {href : List Char} (text : List Char) : href ≠ [] →
    s.link href text =
      if hrefs then (if text.isEmpty then href else text ++ [' ', '('] ++ href ++ [')']) else text

namespace Layout

variable {s : Layout} {hrefs : Bool}

mutual

theorem text_eq_plain (hs : s.ShowsPlain hrefs) (i : Inline) : s.text i = i.plain hrefs := by
  cases i with
  | text t => rfl
  | code literal => exact hs.codeSpan literal
  | lineBreak => rfl
  | emphasis children => exact run_eq_plain hs children
  | strong children => exact run_eq_plain hs children
  | link href children =>
    rw [Layout.text, Inline.plain, run_eq_plain hs children]
    by_cases hhref : href = []
    · simp [hhref]
    · have hnot : href.isEmpty = false := List.isEmpty_eq_false_iff.mpr hhref
      simp [hnot, hs.link _ hhref]

/-- **Running text is the text of the extractor.** -/
theorem run_eq_plain (hs : s.ShowsPlain hrefs) (is : List Inline) :
    s.run is = Inline.runPlain hrefs is := by
  cases is with
  | nil => rfl
  | cons i is => rw [Layout.run, Inline.runPlain, text_eq_plain hs i, run_eq_plain hs is]

end

end Layout

/-- Gemtext shows the text of links in its place. -/
theorem Gemini.showsPlain : Gemini.layout.ShowsPlain false where
  codeSpan _ := rfl
  link _ _ := rfl

/-- Gopher text shows the text of links only, where targets are not preserved. -/
theorem Gopher.showsPlain {o : RenderOptions} (hlinks : o.preserveLinks = false)
    (hstrip : o.stripFormatting = true) (refs : List (List Char)) :
    (Gopher.layout o refs).ShowsPlain false where
  codeSpan _ := if_pos hstrip
  link text _ := by simp [Gopher.layout, Gopher.linkText, Gopher.footnoting, hlinks]

end SmallWeb
