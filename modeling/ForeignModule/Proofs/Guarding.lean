import ForeignModule.Proofs.Threads

/-!
# Routines that keep to their own steps

`Guards others own before r after` says of a routine that from every state in which `before` holds,
whatever the others do meanwhile, each step of the routine is one of its `own` kind, and `after` holds
behind it. Unlike `Undisturbed` it says nothing about a run alone: what the routine brings may depend on
what the others do.
-/

namespace ForeignModule.Routine

open Relation

variable {σ ε α β : Type} {others own : σ → σ → Prop}

/-- Each step of the routine is one of its own kind, and `after` holds in the end. -/
def Guards (others own : σ → σ → Prop) (before : σ → Prop) (r : Routine σ α)
    (after : α → σ → Prop) : Prop :=
  ∀ s, before s → r.Safe others own s ∧ ∀ a t, r.Among others s a t → after a t

namespace Guards

variable {before before' : σ → Prop} {after : α → σ → Prop}

theorem imp {after' : α → σ → Prop} {r : Routine σ α} (h : Guards others own before r after)
    (hbefore : ∀ s, before' s → before s) (hafter : ∀ a s, after a s → after' a s) :
    Guards others own before' r after' := by
  intro s hs
  obtain ⟨hsafe, hrun⟩ := h s (hbefore s hs)
  exact ⟨hsafe, fun a t hamong => hafter a t (hrun a t hamong)⟩

theorem pure {a : α} (hstable : Stable others (after a)) (h : ∀ s, before s → after a s) :
    Guards others own before (Pure.pure a) after := by
  intro s hs
  refine ⟨trivial, ?_⟩
  rintro b t ⟨rfl, hothers⟩
  exact hstable.of_others (h s hs) hothers

theorem bind {r : Routine σ α} {k : α → Routine σ β} {final : β → σ → Prop}
    (h : Guards others own before r after) (hk : ∀ a, Guards others own (after a) (k a) final) :
    Guards others own before (r >>= k) final := by
  intro s hs
  obtain ⟨hsafe, hrun⟩ := h s hs
  constructor
  · exact hsafe.bind fun a t hamong => (hk a t (hrun a t hamong)).1
  · intro b u hamong
    obtain ⟨a, t, hfirst, hrest⟩ := among_bind.1 hamong
    exact (hk a t (hrun a t hfirst)).2 b u hrest

/-- A step needs to be looked at only without the others. -/
theorem act {f : σ → α × σ} (hbefore : Stable others before) (hafter : ∀ a, Stable others (after a))
    (h : ∀ s, before s → own s (f s).2 ∧ after (f s).1 (f s).2) :
    Guards others own before (act f) after := by
  intro s hs
  constructor
  · intro t hothers
    exact ⟨(h t (hbefore.of_others hs hothers)).1, trivial⟩
  · intro a u hamong
    obtain ⟨t, ht, rfl, hu⟩ := among_act.1 hamong
    exact (hafter _).of_others (h t (hbefore.of_others hs ht)).2 hu

theorem ask {f : σ → α} (hbefore : Stable others before) (hafter : ∀ a, Stable others (after a))
    (h : ∀ s, before s → own s s ∧ after (f s) s) : Guards others own before (ask f) after := by
  show Guards others own before (Routine.act fun s => (f s, s)) after
  exact act hbefore hafter h

theorem change {f : σ → σ} {final : σ → Prop} (hbefore : Stable others before)
    (hfinal : Stable others final) (h : ∀ s, before s → own s (f s) ∧ final (f s)) :
    Guards others own before (change f) fun _ => final := by
  show Guards others own before (Routine.act fun s => ((), f s)) fun _ => final
  exact act hbefore (fun _ => hfinal) h

/-- A result that is known from the state before makes no difference. -/
theorem exists_before {ι : Type} {before : ι → σ → Prop} {r : Routine σ α}
    (h : ∀ i, Guards others own (before i) r after) :
    Guards others own (fun s => ∃ i, before i s) r after := fun s ⟨i, hs⟩ => h i s hs

/-- What does not speak of the state is known from then on. -/
theorem of_fact {q : Prop} {r : Routine σ α} (h : q → Guards others own before r after) :
    Guards others own (fun s => before s ∧ q) r after := fun s hs => h hs.2 s hs.1

/-! ### With errors -/

variable {failed : σ → Prop}

theorem bind_except {r : ExceptT ε (Routine σ) α} {k : α → ExceptT ε (Routine σ) β}
    {final : β → σ → Prop} (h : Guards others own before r.run (Ends after failed))
    (hfailed : Stable others failed)
    (hk : ∀ a, Guards others own (after a) (k a).run (Ends final failed)) :
    Guards others own before (r >>= k).run (Ends final failed) := by
  rw [ExceptT.run_bind]
  refine h.bind fun result => ?_
  cases result with
  | ok a => exact hk a
  | error e =>
    have herror : Guards others own failed (Pure.pure (Except.error e : Except ε β))
        (Ends final failed) := .pure hfailed fun _ hs => hs
    exact herror

end Guards

end ForeignModule.Routine
