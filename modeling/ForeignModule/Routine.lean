/-!
# Routines

What is done to a shared state, cut into steps. Each step is atomic; between two steps others may
change the state. `Routine.run` lets nobody come between.

* `run_bind`, `run_ask`, `run_act` say what a whole run does, step by step;
* `run_atomically` says that making a routine one step does not change its run.
-/

namespace ForeignModule

/-- Steps on a state of type `σ` that bring a result of type `α`. What comes after a step depends on
the state before it. -/
inductive Routine (σ α : Type) where
  | done (result : α)
  | step (update : σ → σ) (next : σ → Routine σ α)

namespace Routine

variable {σ ρ α β ε : Type}

/-- One routine after another. -/
def bind : Routine σ α → (α → Routine σ β) → Routine σ β
  | done a, k => k a
  | step update next, k => step update fun s => (next s).bind k

instance : Monad (Routine σ) where
  pure := done
  bind := bind

/-- What a routine brings, and the state behind it, if nobody comes between its steps. -/
def run : Routine σ α → σ → α × σ
  | done a, s => (a, s)
  | step update next, s => (next s).run (update s)

/-- One step that may change the state. -/
def act (f : σ → α × σ) : Routine σ α := step (fun s => (f s).2) fun s => done (f s).1

/-- One step that looks at the state and leaves it. -/
def ask (f : σ → α) : Routine σ α := step id fun s => done (f s)

/-- One step that changes the state. -/
def change (f : σ → σ) : Routine σ Unit := step f fun _ => done ()

/-- A whole routine as one step. -/
def atomically (r : Routine σ α) : Routine σ α := act r.run

/-- A routine on a part of a larger state. -/
def within (get : ρ → σ) (set : ρ → σ → ρ) : Routine σ α → Routine ρ α
  | done a => done a
  | step update next =>
    step (fun r => set r (update (get r))) fun r => (next (get r)).within get set

/-- One step that either changes the state or fails and leaves it. -/
def attempt (f : σ → Except ε σ) : Routine σ (Except ε Unit) :=
  act fun s =>
    match f s with
    | .ok t => (.ok (), t)
    | .error e => (.error e, s)

/-! ## What a run does -/

@[simp] theorem run_pure (a : α) (s : σ) : (pure a : Routine σ α).run s = (a, s) := rfl

@[simp] theorem run_bind (r : Routine σ α) (k : α → Routine σ β) (s : σ) :
    (r >>= k).run s = (k (r.run s).1).run (r.run s).2 := by
  show (r.bind k).run s = _
  induction r generalizing s with
  | done a => rfl
  | step update next ih => exact ih s (update s)

@[simp] theorem run_act (f : σ → α × σ) (s : σ) : (act f).run s = f s := rfl

@[simp] theorem run_ask (f : σ → α) (s : σ) : (ask f).run s = (f s, s) := rfl

@[simp] theorem run_change (f : σ → σ) (s : σ) : (change f).run s = ((), f s) := rfl

@[simp] theorem run_atomically (r : Routine σ α) (s : σ) : (atomically r).run s = r.run s := rfl

theorem bind_assoc {γ : Type} (r : Routine σ α) (k : α → Routine σ β) (l : β → Routine σ γ) :
    (r.bind k).bind l = r.bind fun a => (k a).bind l := by
  induction r with
  | done a => rfl
  | step update next ih => exact congrArg (step update) (funext fun s => ih s)

theorem bind_done (r : Routine σ α) : r.bind done = r := by
  induction r with
  | done a => rfl
  | step update next ih => exact congrArg (step update) (funext fun s => ih s)

instance : LawfulMonad (Routine σ) :=
  LawfulMonad.mk' (Routine σ) bind_done (fun _ _ => rfl) (fun r k l => bind_assoc r k l)

/-- On a part that can be read back after it has been written, a run within a larger state is a run
on that part. -/
theorem run_within {get : ρ → σ} {set : ρ → σ → ρ} (read_back : ∀ r s, get (set r s) = s)
    (overwrite : ∀ r s t, set (set r s) t = set r t) (unchanged : ∀ r, set r (get r) = r)
    (routine : Routine σ α) (r : ρ) :
    (routine.within get set).run r
      = ((routine.run (get r)).1, set r (routine.run (get r)).2) := by
  induction routine generalizing r with
  | done a => simp [within, run, unchanged]
  | step update next ih => simp [within, run, ih, read_back, overwrite]

end Routine

end ForeignModule
