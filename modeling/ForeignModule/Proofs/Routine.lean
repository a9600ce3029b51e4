import ForeignModule.Routine

/-!
# What routines that may fail leave behind

`Leaves before r after failed` says of a routine with errors that from every state in which `before`
holds, a run without anybody coming between ends in a state in which `after` holds for its result, or
fails in one in which `failed` holds.
-/

namespace ForeignModule.Routine

variable {σ ε α β : Type}

/-- What holds behind a run of a routine that may fail. -/
def Leaves (before : σ → Prop) (r : ExceptT ε (Routine σ) α) (after : α → σ → Prop)
    (failed : σ → Prop) : Prop :=
  ∀ s, before s →
    match r.run.run s with
    | (.ok a, t) => after a t
    | (.error _, t) => failed t

section

variable {r : ExceptT ε (Routine σ) α} {k : α → ExceptT ε (Routine σ) β} {s t : σ} {a : α} {e : ε}

theorem run_bind_ok (h : r.run.run s = (.ok a, t)) : (r >>= k).run.run s = (k a).run.run t := by
  rw [ExceptT.run_bind, run_bind, h]

theorem run_bind_error (h : r.run.run s = (.error e, t)) :
    (r >>= k).run.run s = (.error e, t) := by
  rw [ExceptT.run_bind, run_bind, h]
  rfl

/-- A routine of two parts succeeds only if both do. -/
theorem exists_of_run_bind {u : σ} {b : β} (h : (r >>= k).run.run s = (.ok b, u)) :
    ∃ a t, r.run.run s = (.ok a, t) ∧ (k a).run.run t = (.ok b, u) := by
  rw [ExceptT.run_bind, run_bind] at h
  generalize r.run.run s = outcome at h
  obtain ⟨e | a, t⟩ := outcome
  · cases h
  · exact ⟨a, t, rfl, h⟩

theorem run_tryCatch (r : ExceptT ε (Routine σ) α) (k : ε → ExceptT ε (Routine σ) α) (s : σ) :
    (MonadExcept.tryCatch r k).run.run s
      = match r.run.run s with
        | (.ok a, t) => (.ok a, t)
        | (.error e, t) => (k e).run.run t := by
  show (r.run >>= _).run s = _
  rw [run_bind]
  obtain ⟨_ | _, _⟩ := r.run.run s <;> rfl

theorem run_liftM (r : Routine σ α) (s : σ) :
    (liftM r : ExceptT ε (Routine σ) α).run.run s = (.ok (r.run s).1, (r.run s).2) := by
  show (r >>= _).run s = _
  rw [run_bind]
  rfl

/-- One routine after another, on a part of a larger state. -/
theorem within_bind {ρ : Type} {get : ρ → σ} {set : ρ → σ → ρ} (r : Routine σ α)
    (k : α → Routine σ β) :
    (r >>= k).within get set = r.within get set >>= fun a => (k a).within get set := by
  show (r.bind k).within get set = (r.within get set).bind _
  induction r with
  | done a => rfl
  | step update next ih => exact congrArg (Routine.step _) (funext fun w => ih (get w))

theorem within_bind_except {ρ : Type} {get : ρ → σ} {set : ρ → σ → ρ}
    (r : ExceptT ε (Routine σ) α) (k : α → ExceptT ε (Routine σ) β) :
    (r >>= k).run.within get set = (ExceptT.mk (r.run.within get set) >>= fun a =>
      ExceptT.mk ((k a).run.within get set)).run := by
  rw [ExceptT.run_bind, ExceptT.run_bind, ExceptT.run_mk, within_bind]
  refine congrArg (r.run.within get set >>= ·) (funext fun result => ?_)
  cases result <;> rfl

/-! ## Runs that are evaluated -/

theorem eq_ok_of_toOption {x : Except ε α} (h : x.toOption = some a) : x = .ok a := by
  cases x with
  | error e => cases h
  | ok b => exact congrArg Except.ok (Option.some.inj h)

theorem error_of_toOption {x : Except ε α} (h : x.toOption = none) : ∃ e, x = .error e := by
  cases x with
  | error e => exact ⟨e, rfl⟩
  | ok a => cases h

theorem eq_of_error {outcome : Except ε α × σ} {e : ε} (h : outcome.1 = .error e) :
    outcome = (.error e, outcome.2) :=
  Prod.ext h rfl

theorem exists_error_of_toOption {outcome : Except ε α × σ} (h : outcome.1.toOption = none) :
    ∃ e, outcome = (.error e, outcome.2) := by
  rcases error_of_toOption h with ⟨e, he⟩
  exact ⟨e, eq_of_error he⟩

theorem eq_of_toOption {outcome : Except ε α × σ} (h : outcome.1.toOption = some a) :
    outcome = (.ok a, outcome.2) :=
  Prod.ext (eq_ok_of_toOption h) rfl

end

namespace Leaves

variable {before : σ → Prop} {after : α → σ → Prop} {failed : σ → Prop}

theorem bind {r : ExceptT ε (Routine σ) α} {k : α → ExceptT ε (Routine σ) β}
    {final : β → σ → Prop} (h : Leaves before r after failed)
    (hk : ∀ a, Leaves (after a) (k a) final failed) : Leaves before (r >>= k) final failed := by
  intro s hs
  have hfirst := h s hs
  rw [ExceptT.run_bind, run_bind]
  generalize r.run.run s = first at hfirst ⊢
  obtain ⟨result, t⟩ := first
  cases result with
  | ok a => exact hk a t hfirst
  | error e => exact hfirst

theorem of_run {r : ExceptT ε (Routine σ) α} {s t : σ} {a : α} (h : Leaves before r after failed)
    (hs : before s) (hrun : r.run.run s = (.ok a, t)) : after a t := by
  have hend := h s hs
  rw [hrun] at hend
  exact hend

/-- Two things that are said of one routine. -/
theorem both {before' : σ → Prop} {after' : α → σ → Prop} {failed' : σ → Prop}
    {r : ExceptT ε (Routine σ) α} (h : Leaves before r after failed)
    (h' : Leaves before' r after' failed') :
    Leaves (fun s => before s ∧ before' s) r (fun a s => after a s ∧ after' a s)
      fun s => failed s ∧ failed' s := by
  intro s hs
  have hrun := h s hs.1
  have hrun' := h' s hs.2
  generalize r.run.run s = outcome at hrun hrun' ⊢
  obtain ⟨e | a, t⟩ := outcome <;> exact ⟨hrun, hrun'⟩

theorem imp_after {after' : α → σ → Prop} {r : ExceptT ε (Routine σ) α}
    (h : Leaves before r after failed) (himp : ∀ a s, after a s → after' a s) :
    Leaves before r after' failed := by
  intro s hs
  have hrun := h s hs
  generalize r.run.run s = outcome at hrun ⊢
  obtain ⟨e | a, t⟩ := outcome
  · exact hrun
  · exact himp a t hrun

/-- What does not speak of the state is known from then on. -/
theorem of_fact {q : Prop} {r : ExceptT ε (Routine σ) α} (h : q → Leaves before r after failed) :
    Leaves (fun s => before s ∧ q) r after failed := fun s hs => h hs.2 s hs.1

/-- What the routine fails in may be said less precisely. -/
theorem imp_failed {failed' : σ → Prop} {r : ExceptT ε (Routine σ) α}
    (h : Leaves before r after failed) (himp : ∀ s, failed s → failed' s) :
    Leaves before r after failed' := by
  intro s hs
  have hrun := h s hs
  generalize r.run.run s = outcome at hrun ⊢
  obtain ⟨e | a, t⟩ := outcome
  · exact himp t hrun
  · exact hrun

theorem pure {a : α} (h : ∀ s, before s → after a s) :
    Leaves before (Pure.pure a : ExceptT ε (Routine σ) α) after failed := h

theorem throw (e : ε) (h : ∀ s, before s → failed s) :
    Leaves before (MonadExcept.throw e : ExceptT ε (Routine σ) α) after failed := h

/-- An error is met in what the routine fails in. -/
theorem tryCatch {r : ExceptT ε (Routine σ) α} {k : ε → ExceptT ε (Routine σ) α}
    {final : σ → Prop} (h : Leaves before r after failed)
    (hk : ∀ e, Leaves failed (k e) after final) :
    Leaves before (MonadExcept.tryCatch r k) after final := by
  intro s hs
  have hfirst := h s hs
  rw [run_tryCatch]
  generalize r.run.run s = first at hfirst ⊢
  obtain ⟨e | a, t⟩ := first
  · exact hk e t hfirst
  · exact hfirst

theorem lift {r : Routine σ α} (h : ∀ s, before s → after (r.run s).1 (r.run s).2) :
    Leaves before (liftM r : ExceptT ε (Routine σ) α) after failed := by
  intro s hs
  rw [run_liftM]
  exact h s hs

/-- What a step fails in is what it started in. -/
theorem attempt {f : σ → Except ε σ} {after : Unit → σ → Prop} (hfailed : ∀ s, before s → failed s)
    (h : ∀ s t, before s → f s = .ok t → after () t) :
    Leaves before (ExceptT.mk (Routine.attempt f)) after failed := by
  intro s hs
  rw [ExceptT.run_mk, Routine.attempt, run_act]
  cases hf : f s with
  | ok t => exact h s t hs hf
  | error e => exact hfailed s hs

/-- A step that cannot fail. -/
theorem attempt_ok {f : σ → Except ε σ} {after : Unit → σ → Prop}
    (h : ∀ s, before s → ∃ t, f s = .ok t ∧ after () t) :
    Leaves before (ExceptT.mk (Routine.attempt f)) after failed := by
  intro s hs
  obtain ⟨t, hf, ht⟩ := h s hs
  rw [ExceptT.run_mk, Routine.attempt, run_act, hf]
  exact ht

end Leaves

end ForeignModule.Routine
