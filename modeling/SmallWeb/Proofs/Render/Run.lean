/-
SmallWeb/Proofs/Render/Run.lean

Runs of a walk.

A walk reads and extends the log and may fail.  The walks over a proper tree fail
in one way only, where a rule would be longer than texts can be, and whether that
happens is known beforehand.  `Gives x log ok a log'` puts both outcomes into one
statement: if `ok`, the run from `log` yields `a` and leaves `log'`, and
otherwise it fails with that fault.

One lemma for each way of composing walks (`Gives.pure`, `Gives.bind`, ...) is
all that later files use; none of them looks at how the log is threaded.
-/
import SmallWeb.Proofs.Result
import SmallWeb.Render.Walk

namespace SmallWeb.Walk

variable {α β : Type}

/-- What a walk yields and the log that it leaves, from a log. -/
def outcome (x : Walk α) (log : LinkLog) : Except Fault α × LinkLog := x.run.run log

/-- The run from `log` yields `a` and leaves `log'`, or, where not `ok`, fails
because a text would be too long. -/
def Gives (x : Walk α) (log : LinkLog) (ok : Bool) (a : α) (log' : LinkLog) : Prop :=
  if ok then x.outcome log = (.ok a, log') else (x.outcome log).1 = .error .tooLong

/-! ### Outcomes of composed walks -/

theorem outcome_pure (a : α) (log : LinkLog) : (pure a : Walk α).outcome log = (.ok a, log) :=
  rfl

theorem outcome_ofExcept (e : Except Fault α) (log : LinkLog) :
    (Walk.ofExcept e).outcome log = (e, log) := rfl

theorem outcome_get (log : LinkLog) : (get : Walk LinkLog).outcome log = (.ok log, log) := rfl

theorem outcome_set (log log' : LinkLog) :
    (set log' : Walk PUnit).outcome log = (.ok ⟨⟩, log') := rfl

/-- **The outcome of a composed walk**: the second part goes on from the log that the
first one leaves, or the first one fails and its log remains. -/
theorem outcome_bind (x : Walk α) (f : α → Walk β) (log : LinkLog) :
    (x >>= f).outcome log =
      match x.outcome log with
      | (.ok a, log') => (f a).outcome log'
      | (.error e, log') => (.error e, log') := by
  show (ExceptT.bind x f) log = match x log with
    | (.ok a, log') => (f a) log'
    | (.error e, log') => (.error e, log')
  simp only [ExceptT.bind, ExceptT.mk, bind, StateT.bind]
  rcases x log with ⟨e | a, log'⟩ <;> rfl

/-- A walk goes on from the log that the first part leaves. -/
theorem outcome_bind_of_ok {x : Walk α} {f : α → Walk β} {log log' : LinkLog} {a : α}
    (h : x.outcome log = (.ok a, log')) : (x >>= f).outcome log = (f a).outcome log' := by
  rw [outcome_bind, h]

/-- A composed walk yields something exactly if both parts do, one after the other. -/
theorem outcome_bind_eq_ok_iff {x : Walk α} {f : α → Walk β} {log log' : LinkLog} {b : β} :
    (x >>= f).outcome log = (.ok b, log') ↔
      ∃ a mid, x.outcome log = (.ok a, mid) ∧ (f a).outcome mid = (.ok b, log') := by
  rw [outcome_bind]
  rcases x.outcome log with ⟨e | a, mid⟩
  · simp
  · constructor
    · intro h
      exact ⟨a, mid, rfl, h⟩
    · rintro ⟨a', mid', hx, h⟩
      cases hx
      exact h

/-- A walk ends where its first part fails. -/
theorem outcome_bind_of_error {x : Walk α} {f : α → Walk β} {log : LinkLog} {e : Fault}
    (h : (x.outcome log).1 = .error e) : ((x >>= f).outcome log).1 = .error e := by
  rw [outcome_bind]
  rcases hx : x.outcome log with ⟨e' | a, log'⟩
  · rw [hx] at h
    obtain rfl : e' = e := Except.error.inj h
    rfl
  · rw [hx] at h
    cases h

/-! ### Composition -/

theorem gives_true_iff {x : Walk α} {log log' : LinkLog} {a : α} :
    Gives x log true a log' ↔ x.outcome log = (.ok a, log') := Iff.rfl

theorem Gives.pure (a : α) (log : LinkLog) : Gives (Pure.pure a) log true a log :=
  outcome_pure a log

theorem Gives.ofExcept {e : Except Fault α} {a : α} (h : e = .ok a) (log : LinkLog) :
    Gives (Walk.ofExcept e) log true a log := by
  rw [gives_true_iff, outcome_ofExcept, h]

/-- **Walks compose**: the second one goes on from the log of the first, and both
have to succeed. -/
theorem Gives.bind {x : Walk α} {f : α → Walk β} {log mid log' : LinkLog} {ok ok' : Bool}
    {a : α} {b : β} (hx : Gives x log ok a mid) (hf : Gives (f a) mid ok' b log') :
    Gives (x >>= f) log (ok && ok') b log' := by
  cases ok with
  | false => exact outcome_bind_of_error hx
  | true =>
    unfold Gives at hf ⊢
    rw [outcome_bind_of_ok (gives_true_iff.mp hx), Bool.true_and]
    exact hf

/-- A first part that does not fail leaves the verdict to the rest. -/
theorem Gives.bind_of_ok {x : Walk α} {f : α → Walk β} {log mid log' : LinkLog} {ok : Bool}
    {a : α} {b : β} (hx : Gives x log true a mid) (hf : Gives (f a) mid ok b log') :
    Gives (x >>= f) log ok b log' := by
  have h := hx.bind hf
  rwa [Bool.true_and] at h

/-- A rest that does not fail leaves the verdict to the first part. -/
theorem Gives.bind_then {x : Walk α} {f : α → Walk β} {log mid log' : LinkLog} {ok : Bool}
    {a : α} {b : β} (hx : Gives x log ok a mid) (hf : Gives (f a) mid true b log') :
    Gives (x >>= f) log ok b log' := by
  have h := hx.bind hf
  rwa [Bool.and_true] at h

theorem Gives.bind_pure {x : Walk α} {log log' : LinkLog} {ok : Bool} {a : α} (f : α → β)
    (hx : Gives x log ok a log') :
    Gives (x >>= fun a => Pure.pure (f a)) log ok (f a) log' :=
  hx.bind_then (Gives.pure (f a) log')

/-! ### The log -/

theorem gives_registerLink (href : List Char) (log : LinkLog) :
    Gives (Walk.registerLink href) log true (log.registry.register href).1
      { log with registry := (log.registry.register href).2 } := rfl

theorem gives_noteLink (href text : List Char) (log : LinkLog) :
    Gives (Walk.noteLink href text) log true ()
      { log with pending := log.pending ++ [(href, text)] } := rfl

/-- Nodes that do not lie too deep may be entered. -/
theorem gives_checkDepth {depth : Nat} (h : depth ≤ maxDepth) (log : LinkLog) :
    Gives (Walk.ofExcept (checkDepth depth)) log true () log :=
  Gives.ofExcept (checkDepth_of_le h) log

end SmallWeb.Walk
