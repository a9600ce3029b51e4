import ForeignModule.Proofs.Routine
import Mathlib.Logic.Relation

/-!
# Routines among the steps of others

`Routine.Among others r s a t` says that a run of the routine from `s`, between whose steps others
may change the state any number of times, can bring `a` and end in `t`. A run that nobody disturbs
is one of these (`among_run`), and a routine made one step is disturbed less (`Among.of_atomically`).

`Secures others before r after` is what is proved of all these runs: a step is looked at by itself
(`Secures.act`), and what holds between two steps has to be `Stable`, that is, the others have to
leave it alone.
-/

namespace ForeignModule.Routine

open Relation

variable {σ ε α β : Type} {others : σ → σ → Prop}

/-- What a routine can bring, and where it can end, if others change the state before, between and
after its steps. -/
def Among (others : σ → σ → Prop) : Routine σ α → σ → α → σ → Prop
  | done a, s, b, t => b = a ∧ ReflTransGen others s t
  | step update next, s, b, t =>
    ∃ s', ReflTransGen others s s' ∧ (next s').Among others (update s') b t

section

variable {r : Routine σ α} {k : α → Routine σ β} {s t u : σ} {a : α} {b : β}

/-- What others do first belongs to the run. -/
theorem Among.head (hothers : ReflTransGen others s t) (h : r.Among others t a u) :
    r.Among others s a u := by
  cases r with
  | done _ => exact ⟨h.1, hothers.trans h.2⟩
  | step update next =>
    obtain ⟨s', hs', hnext⟩ := h
    exact ⟨s', hothers.trans hs', hnext⟩

/-- What others do last belongs to the run. -/
theorem Among.tail (h : r.Among others s a t) (hothers : ReflTransGen others t u) :
    r.Among others s a u := by
  induction r generalizing s with
  | done _ => exact ⟨h.1, h.2.trans hothers⟩
  | step update next ih =>
    obtain ⟨s', hs', hnext⟩ := h
    exact ⟨s', hs', ih s' hnext⟩

/-- One routine after another. -/
theorem among_bind :
    (r >>= k).Among others s b u ↔ ∃ a t, r.Among others s a t ∧ (k a).Among others t b u := by
  show (r.bind k).Among others s b u ↔ _
  -- On the first routine. What others do behind its last step can be said to be done before the
  -- first step of the second one.
  induction r generalizing s with
  | done a =>
    constructor
    · intro h
      exact ⟨a, s, ⟨rfl, .refl⟩, h⟩
    · rintro ⟨a', t, ⟨rfl, hothers⟩, h⟩
      exact h.head hothers
  | step update next ih =>
    constructor
    · rintro ⟨s', hs', h⟩
      obtain ⟨a, t, hnext, hk⟩ := (ih s').1 h
      exact ⟨a, t, ⟨s', hs', hnext⟩, hk⟩
    · rintro ⟨a, t, ⟨s', hs', hnext⟩, hk⟩
      exact ⟨s', hs', (ih s').2 ⟨a, t, hnext, hk⟩⟩

/-- The others may do nothing. -/
theorem among_run (r : Routine σ α) (s : σ) : r.Among others s (r.run s).1 (r.run s).2 := by
  induction r generalizing s with
  | done a => exact ⟨rfl, .refl⟩
  | step update next ih => exact ⟨s, .refl, ih s (update s)⟩

theorem among_of_run (h : r.run s = (a, t)) : r.Among others s a t := by
  have hrun : r.Among others s (r.run s).1 (r.run s).2 := among_run r s
  rw [h] at hrun
  exact hrun

/-- The others come before and after a single step. -/
theorem among_act {f : σ → α × σ} : (act f).Among others s a u ↔
    ∃ t, ReflTransGen others s t ∧ (f t).1 = a ∧ ReflTransGen others (f t).2 u := by
  constructor
  · rintro ⟨t, ht, rfl, hu⟩
    exact ⟨t, ht, rfl, hu⟩
  · rintro ⟨t, ht, rfl, hu⟩
    exact ⟨t, ht, rfl, hu⟩

/-- Where nobody comes between the steps of a routine, nothing happens that could not happen among
its steps. -/
theorem Among.of_atomically (h : (atomically r).Among others s a u) : r.Among others s a u := by
  obtain ⟨t, ht, rfl, hu⟩ := among_act.1 h
  exact ((among_run r t).tail hu).head ht

end

/-! ## With errors -/

section

variable {r r' : ExceptT ε (Routine σ) α} {k : α → ExceptT ε (Routine σ) β} {s u : σ}

/-- A routine goes on behind one that succeeds, and ends behind one that fails. -/
theorem among_bind_except {b : Except ε β} : (r >>= k).run.Among others s b u ↔
    (∃ a t, r.run.Among others s (.ok a) t ∧ (k a).run.Among others t b u) ∨
      ∃ e, r.run.Among others s (.error e) u ∧ b = .error e := by
  rw [ExceptT.run_bind, among_bind]
  constructor
  · rintro ⟨a | a, t, hr, hk⟩
    · exact .inr ⟨a, hr.tail hk.2, hk.1⟩
    · exact .inl ⟨a, t, hr, hk⟩
  · rintro (⟨a, t, hr, hk⟩ | ⟨e, hr, rfl⟩)
    · exact ⟨.ok a, t, hr, hk⟩
    · exact ⟨.error e, u, hr, rfl, .refl⟩

/-- Less happens in a whole if less happens in its first part. -/
theorem among_bind_mono {b : Except ε β}
    (h : ∀ {s a u}, r.run.Among others s a u → r'.run.Among others s a u)
    (hrun : (r >>= k).run.Among others s b u) : (r' >>= k).run.Among others s b u := by
  rw [among_bind_except] at hrun ⊢
  obtain ⟨a, t, hr, hk⟩ | ⟨e, hr, he⟩ := hrun
  · exact .inl ⟨a, t, h hr, hk⟩
  · exact .inr ⟨e, h hr, he⟩

end

/-! ## What all runs do -/

/-- The others do not make it wrong. -/
def Stable (others : σ → σ → Prop) (p : σ → Prop) : Prop := ∀ s t, p s → others s t → p t

/-- Whatever the others do meanwhile, `after` holds in the end if `before` has held. -/
def Secures (others : σ → σ → Prop) (before : σ → Prop) (r : Routine σ α)
    (after : α → σ → Prop) : Prop :=
  ∀ s a t, before s → r.Among others s a t → after a t

theorem Stable.of_others {p : σ → Prop} (h : Stable others p) {s t : σ} (hs : p s)
    (hothers : ReflTransGen others s t) : p t := by
  induction hothers with
  | refl => exact hs
  | tail _ hstep ih => exact h _ _ ih hstep

namespace Secures

variable {before : σ → Prop} {after : α → σ → Prop}

theorem pure {a : α} (hstable : Stable others (after a)) (h : ∀ s, before s → after a s) :
    Secures others before (Pure.pure a) after := by
  rintro s b t hs ⟨rfl, hothers⟩
  exact hstable.of_others (h s hs) hothers

theorem bind {r : Routine σ α} {k : α → Routine σ β} {final : β → σ → Prop}
    (h : Secures others before r after) (hk : ∀ a, Secures others (after a) (k a) final) :
    Secures others before (r >>= k) final := by
  intro s b u hs hrun
  obtain ⟨a, t, hr, hka⟩ := among_bind.1 hrun
  exact hk a t b u (h s a t hs hr) hka

/-- A step needs to be looked at only without the others. -/
theorem act {f : σ → α × σ} (hbefore : Stable others before) (hafter : ∀ a, Stable others (after a))
    (h : ∀ s, before s → after (f s).1 (f s).2) : Secures others before (act f) after := by
  intro s a u hs hrun
  obtain ⟨t, ht, rfl, hu⟩ := among_act.1 hrun
  exact (hafter _).of_others (h t (hbefore.of_others hs ht)) hu

theorem ask {f : σ → α} (hbefore : Stable others before) (hafter : ∀ a, Stable others (after a))
    (h : ∀ s, before s → after (f s) s) : Secures others before (ask f) after := by
  show Secures others before (Routine.act fun s => (f s, s)) after
  exact act hbefore hafter h

theorem atomically {r : Routine σ α} (hbefore : Stable others before)
    (hafter : ∀ a, Stable others (after a)) (h : ∀ s, before s → after (r.run s).1 (r.run s).2) :
    Secures others before (atomically r) after := act hbefore hafter h

end Secures

/-- What holds behind a routine that may fail: one thing of its result, or another where it fails. -/
def Ends (after : α → σ → Prop) (failed : σ → Prop) : Except ε α → σ → Prop
  | .ok a => after a
  | .error _ => failed

section

variable {before failed : σ → Prop} {after : α → σ → Prop} {r : ExceptT ε (Routine σ) α}

theorem Ends.stable (hafter : ∀ a, Stable others (after a)) (hfailed : Stable others failed)
    (outcome : Except ε α) : Stable others (Ends after failed outcome) := by
  cases outcome with
  | ok a => exact hafter a
  | error e => exact hfailed

theorem Leaves.ends (h : Leaves before r after failed) {s : σ} (hs : before s) :
    Ends after failed (r.run.run s).1 (r.run.run s).2 := by
  have hrun := h s hs
  generalize r.run.run s = outcome at hrun ⊢
  obtain ⟨e | a, t⟩ := outcome <;> exact hrun

/-- A routine that may fail, as one step. -/
theorem Leaves.secures (h : Leaves before r after failed) (hbefore : Stable others before)
    (hafter : ∀ a, Stable others (after a)) (hfailed : Stable others failed) :
    Secures others before (atomically r.run) (Ends after failed) :=
  .atomically hbefore (Ends.stable hafter hfailed) fun _ hs => h.ends hs

theorem Secures.bind_except {k : α → ExceptT ε (Routine σ) β} {final : β → σ → Prop}
    (h : Secures others before r.run (Ends after failed))
    (hk : ∀ a, Secures others (after a) (k a).run (Ends final failed)) :
    Secures others before (r >>= k).run (Ends final failed) := by
  intro s b u hs hrun
  obtain ⟨a, t, hr, hka⟩ | ⟨e, hr, rfl⟩ := among_bind_except.1 hrun
  · exact hk a t b u (h s (.ok a) t hs hr) hka
  · exact h s (.error e) u hs hr

theorem Secures.lift {r : Routine σ α} (h : Secures others before r after)
    (hstable : ∀ a, Stable others (after a)) :
    Secures others before (liftM r : ExceptT ε (Routine σ) α).run (Ends after failed) := by
  show Secures others before (r >>= fun a => Pure.pure (Except.ok a)) _
  exact h.bind fun a => .pure (hstable a) fun _ hs => hs

end

end ForeignModule.Routine
