import ForeignModule.Proofs.Interleaving
import Mathlib.Logic.Hydra

/-!
# Threads on one state

`Turn` is one step of one of several threads, each of which has a routine to do. However they take
turns, they come to an end (`wellFounded_turn`), and until then somebody can go on (`done_or_turn`), so
all of them can be done (`exists_done`).

`Undisturbed others own before r after` compares a run of a routine that nobody disturbs with all runs
among the steps of others: they bring the same result, and `after` holds of the two states in the end
if `before` has held of the two states in which they started. It also says what the routine itself does
to the state while others are there: each of its steps is one of its `own` kind. So what is proved of
each routine by itself can be put together (`among_of_turns`, `owned_of_turns`), as long as what one
thread does to the state is what the others expect of it.
-/

namespace ForeignModule.Routine

open Relation

variable {σ ε α β : Type} {others own : σ → σ → Prop}

/-! ## What a routine does to the state -/

/-- Whatever the others do meanwhile, each step of the routine is one of its own kind. -/
def Safe (others own : σ → σ → Prop) : Routine σ α → σ → Prop
  | done _, _ => True
  | step update next, s =>
    ∀ s', ReflTransGen others s s' → own s' (update s') ∧ (next s').Safe others own (update s')

section

variable {r : Routine σ α} {k : α → Routine σ β} {s t : σ}

theorem Safe.head (hothers : ReflTransGen others s t) (h : r.Safe others own s) :
    r.Safe others own t := by
  cases r with
  | done _ => exact trivial
  | step update next => exact fun s' hs' => h s' (hothers.trans hs')

theorem Safe.bind (h : r.Safe others own s)
    (hk : ∀ a t, r.Among others s a t → (k a).Safe others own t) :
    (r >>= k).Safe others own s := by
  show (r.bind k).Safe others own s
  induction r generalizing s with
  | done a => exact hk a s ⟨rfl, .refl⟩
  | step update next ih =>
    intro s' hs'
    obtain ⟨hown, hnext⟩ := h s' hs'
    exact ⟨hown, ih s' hnext fun a t hrun => hk a t ⟨s', hs', hrun⟩⟩

end

/-! ## A run alone, and runs among others -/

/-- From two states of which `before` holds, a run that nobody disturbs from the first and any run among
others from the second bring the same, and `after` holds of the two states in which they end. -/
def Undisturbed (others own : σ → σ → Prop) (before : σ → σ → Prop) (r : Routine σ α)
    (after : α → σ → σ → Prop) : Prop :=
  ∀ s t, before s t → r.Safe others own t ∧
    ∀ a t', r.Among others t a t' → (r.run s).1 = a ∧ after a (r.run s).2 t'

/-- What holds of two states behind a routine that may fail. -/
def EndBoth (after : α → σ → σ → Prop) (failed : σ → σ → Prop) (result : Except ε α) (s : σ) :
    σ → Prop :=
  Ends (after · s) (failed s) result

theorem EndBoth.stable {after : α → σ → σ → Prop} {failed : σ → σ → Prop}
    (hafter : ∀ a s, Stable others (after a s)) (hfailed : ∀ s, Stable others (failed s))
    (result : Except ε α) (s : σ) : Stable others (EndBoth after failed result s) :=
  Ends.stable (hafter · s) (hfailed s) result

namespace Undisturbed

variable {before before' : σ → σ → Prop} {after after' : α → σ → σ → Prop}

theorem imp {r : Routine σ α} (h : Undisturbed others own before r after)
    (hbefore : ∀ s t, before' s t → before s t) (hafter : ∀ a s t, after a s t → after' a s t) :
    Undisturbed others own before' r after' := by
  intro s t hs
  obtain ⟨hsafe, hrun⟩ := h s t (hbefore s t hs)
  refine ⟨hsafe, fun a t' hamong => ?_⟩
  obtain ⟨hsame, hend⟩ := hrun a t' hamong
  exact ⟨hsame, hafter a _ t' hend⟩

/-- What does not speak of the states is known from then on. -/
theorem of_fact {r : Routine σ α} {q : Prop} (h : q → Undisturbed others own before r after) :
    Undisturbed others own (fun s t => before s t ∧ q) r after := fun s t hs => h hs.2 s t hs.1

theorem pure {a : α} (hstable : ∀ s, Stable others (after a s))
    (h : ∀ s t, before s t → after a s t) :
    Undisturbed others own before (Pure.pure a) after := by
  intro s t hs
  refine ⟨trivial, ?_⟩
  rintro b t' ⟨rfl, hothers⟩
  exact ⟨rfl, (hstable s).of_others (h s t hs) hothers⟩

theorem bind {r : Routine σ α} {k : α → Routine σ β} {final : β → σ → σ → Prop}
    (h : Undisturbed others own before r after)
    (hk : ∀ a, Undisturbed others own (after a) (k a) final) :
    Undisturbed others own before (r >>= k) final := by
  intro s t hs
  obtain ⟨hsafe, hrun⟩ := h s t hs
  constructor
  · refine hsafe.bind fun a t' hamong => ?_
    exact (hk a _ t' (hrun a t' hamong).2).1
  · intro b u hamong
    obtain ⟨a, t', hfirst, hrest⟩ := among_bind.1 hamong
    obtain ⟨hsame, hmiddle⟩ := hrun a t' hfirst
    rw [run_bind, hsame]
    exact (hk a _ t' hmiddle).2 b u hrest

/-- A step needs to be looked at only without the others. -/
theorem act {f : σ → α × σ} (hbefore : ∀ s, Stable others (before s))
    (hafter : ∀ a s, Stable others (after a s))
    (h : ∀ s t, before s t → own t (f t).2 ∧ (f s).1 = (f t).1 ∧ after (f t).1 (f s).2 (f t).2) :
    Undisturbed others own before (act f) after := by
  intro s t hs
  constructor
  · intro t' hothers
    exact ⟨(h s t' ((hbefore s).of_others hs hothers)).1, trivial⟩
  · intro a u hamong
    obtain ⟨t', ht', rfl, hu⟩ := among_act.1 hamong
    obtain ⟨-, hsame, hend⟩ := h s t' ((hbefore s).of_others hs ht')
    exact ⟨hsame, (hafter _ _).of_others hend hu⟩

theorem ask {f : σ → α} (hbefore : ∀ s, Stable others (before s))
    (hafter : ∀ a s, Stable others (after a s))
    (h : ∀ s t, before s t → own t t ∧ f s = f t ∧ after (f t) s t) :
    Undisturbed others own before (ask f) after := by
  show Undisturbed others own before (Routine.act fun s => (f s, s)) after
  exact act hbefore hafter h

/-- What is left of the routine behind its first step. -/
theorem step {update : σ → σ} {next : σ → Routine σ α} (hbefore : ∀ s, Stable others (before s))
    (h : ∀ s t, before s t → own t (update t) ∧ next t = next s ∧
      ∃ middle, middle (update s) (update t) ∧ Undisturbed others own middle (next s) after) :
    Undisturbed others own before (.step update next) after := by
  intro s t hs
  constructor
  · intro t' hothers
    obtain ⟨hown, hnext, middle, hmiddle, hrest⟩ := h s t' ((hbefore s).of_others hs hothers)
    rw [hnext]
    exact ⟨hown, (hrest _ _ hmiddle).1⟩
  · rintro a u ⟨t', hothers, hamong⟩
    obtain ⟨-, hnext, middle, hmiddle, hrest⟩ := h s t' ((hbefore s).of_others hs hothers)
    rw [hnext] at hamong
    exact (hrest _ _ hmiddle).2 a u hamong

/-- A run that nobody disturbs, from one state. -/
theorem alone {r : Routine σ α} {s : σ} (h : Undisturbed others own before r after)
    (hs : before s s) : after (r.run s).1 (r.run s).2 (r.run s).2 :=
  ((h s s hs).2 _ _ (among_run r s)).2

/-! ### With errors -/

variable {failed : σ → σ → Prop}

theorem bind_except {r : ExceptT ε (Routine σ) α} {k : α → ExceptT ε (Routine σ) β}
    {final : β → σ → σ → Prop} (h : Undisturbed others own before r.run (EndBoth after failed))
    (hk : ∀ a, Undisturbed others own (after a) (k a).run (EndBoth final failed)) :
    Undisturbed others own before (r >>= k).run (EndBoth final failed) := by
  intro s t hs
  obtain ⟨hsafe, hrun⟩ := h s t hs
  constructor
  · rw [ExceptT.run_bind]
    refine hsafe.bind fun result t' hamong => ?_
    cases result with
    | error e => exact trivial
    | ok a => exact (hk a _ t' (hrun _ t' hamong).2).1
  · intro b u hamong
    obtain ⟨a, t', hfirst, hrest⟩ | ⟨e, hfirst, rfl⟩ := among_bind_except.1 hamong
    · obtain ⟨hsame, hmiddle⟩ := hrun _ t' hfirst
      rw [run_bind_ok (Prod.ext hsame rfl)]
      exact (hk a _ t' hmiddle).2 b u hrest
    · obtain ⟨hsame, hend⟩ := hrun _ u hfirst
      rw [run_bind_error (Prod.ext hsame rfl)]
      exact ⟨rfl, hend⟩

theorem lift {r : Routine σ α} (h : Undisturbed others own before r after)
    (hstable : ∀ a s, Stable others (after a s)) :
    Undisturbed others own before (liftM r : ExceptT ε (Routine σ) α).run
      (EndBoth after failed) := by
  show Undisturbed others own before (r >>= fun a => Pure.pure (Except.ok a)) _
  exact h.bind fun a => .pure (hstable a) fun _ _ hs => hs

/-- What holds of both states in the end holds of the one in which a run alone ends. -/
theorem leaves {r : ExceptT ε (Routine σ) α}
    (h : Undisturbed others own before r.run (EndBoth after failed)) :
    Leaves (fun s => before s s) r (fun a s => after a s s) fun s => failed s s := by
  intro s hs
  have hend := h.alone hs
  generalize r.run.run s = outcome at hend ⊢
  obtain ⟨e | a, t⟩ := outcome <;> exact hend

/-- A result that may be an error, whatever is done to the state. -/
theorem result {x : Except ε α} (hafter : ∀ a s, Stable others (after a s))
    (hfailed : ∀ s, Stable others (failed s)) (hok : ∀ a s t, x = .ok a → before s t → after a s t)
    (herror : ∀ e s t, x = .error e → before s t → failed s t) :
    Undisturbed others own before (Pure.pure x : Routine σ (Except ε α)) (EndBoth after failed) := by
  refine .pure (EndBoth.stable hafter hfailed x) fun s t hs => ?_
  cases x with
  | ok a => exact hok a s t rfl hs
  | error e => exact herror e s t rfl hs

theorem pure_except {a : α} (hafter : ∀ a s, Stable others (after a s))
    (hfailed : ∀ s, Stable others (failed s)) (h : ∀ s t, before s t → after a s t) :
    Undisturbed others own before (Pure.pure a : ExceptT ε (Routine σ) α).run
      (EndBoth after failed) := by
  show Undisturbed others own before (Pure.pure (Except.ok a) : Routine σ (Except ε α)) _
  refine .result hafter hfailed (fun b s t hb hs => ?_) nofun
  exact Except.ok.inj hb ▸ h s t hs

/-- Nothing is done behind an error. -/
theorem throw_bind {e : ε} {k : β → ExceptT ε (Routine σ) α}
    (hafter : ∀ a s, Stable others (after a s)) (hfailed : ∀ s, Stable others (failed s))
    (h : ∀ s t, before s t → failed s t) :
    Undisturbed others own before (throw e >>= k : ExceptT ε (Routine σ) α).run
      (EndBoth after failed) := by
  show Undisturbed others own before (Pure.pure (Except.error e) : Routine σ (Except ε α)) _
  exact .result hafter hfailed nofun fun _ s t _ hs => h s t hs

end Undisturbed

/-! ## Threads that take turns -/

/-- One of several threads takes a step. -/
inductive Turn : List (Routine σ α) × σ → List (Routine σ α) × σ → Prop where
  | take {rs : List (Routine σ α)} {s : σ} {i : Nat} {update : σ → σ} {next : σ → Routine σ α}
    (h : rs[i]? = some (.step update next)) : Turn (rs, s) (rs.set i (next s), update s)

section

variable {others own : Nat → σ → σ → Prop} {rs rs' : List (Routine σ α)} {s t : σ}

/-- Each thread does what is its own, whatever the others do. -/
def AllSafe (others own : Nat → σ → σ → Prop) (rs : List (Routine σ α)) (s : σ) : Prop :=
  ∀ i (r : Routine σ α), rs[i]? = some r → r.Safe (others i) (own i) s

variable (hothers : ∀ i j s t, i ≠ j → own j s t → others i s t)

include hothers

/-- What one thread does in its turn is what the others expect, and they stay where they are. -/
theorem AllSafe.turn (h : AllSafe others own rs s) (hturn : Turn (rs, s) (rs', t)) :
    AllSafe others own rs' t ∧ ∃ j, own j s t ∧ (∀ i, i ≠ j → rs'[i]? = rs[i]?) ∧
      ∃ update next, rs[j]? = some (.step update next) ∧ rs'[j]? = some (next s) ∧ t = update s := by
  obtain @⟨_, _, j, update, next, hj⟩ := hturn
  obtain ⟨hown, hnext⟩ := h j _ hj s .refl
  have hself : (rs.set j (next s))[j]? = some (next s) :=
    List.getElem?_set_self (List.getElem?_eq_some_iff.1 hj).1
  have hrest : ∀ i, i ≠ j → (rs.set j (next s))[i]? = rs[i]? := fun i hij =>
    List.getElem?_set_ne (Ne.symm hij)
  refine ⟨fun i r hr => ?_, j, hown, hrest, update, next, hj, hself, rfl⟩
  by_cases hij : i = j
  · subst hij
    obtain rfl := Option.some.inj (hself.symm.trans hr)
    exact hnext
  · rw [hrest i hij] at hr
    exact (h i r hr).head (.single (hothers i j _ _ hij hown))

/-- A thread that is done has had one of the runs that its routine can have among the others. -/
theorem among_of_turns (h : AllSafe others own rs s) (hrun : ReflTransGen Turn (rs, s) (rs', t)) {i : Nat}
    {r : Routine σ α} {a : α} (hr : rs[i]? = some r) (ha : rs'[i]? = some (.done a)) :
    r.Among (others i) s a t := by
  generalize hp : (rs, s) = p at hrun
  induction hrun using ReflTransGen.head_induction_on generalizing rs s r with
  | refl =>
    cases hp
    obtain rfl := Option.some.inj (hr.symm.trans ha)
    exact ⟨rfl, .refl⟩
  | @head _ q hturn _ ih =>
    obtain ⟨rs₁, s₁⟩ := q
    cases hp
    obtain ⟨hnext, j, hown, hrest, update, next, hj, hself, rfl⟩ := h.turn hothers hturn
    by_cases hij : i = j
    · subst hij
      obtain rfl := Option.some.inj (hj.symm.trans hr)
      exact ⟨s, .refl, ih hnext hself rfl⟩
    · have hamong := ih hnext ((hrest i hij).trans hr) rfl
      exact hamong.head (.single (hothers i j _ _ hij hown))

/-- All that happens to the state is done by one of the threads. -/
theorem owned_of_turns (h : AllSafe others own rs s) (hrun : ReflTransGen Turn (rs, s) (rs', t)) :
    ReflTransGen (fun s t => ∃ i, own i s t) s t := by
  generalize hp : (rs, s) = p at hrun
  induction hrun using ReflTransGen.head_induction_on generalizing rs s with
  | refl =>
    cases hp
    exact .refl
  | @head _ q hturn _ ih =>
    obtain ⟨rs₁, s₁⟩ := q
    cases hp
    obtain ⟨hnext, j, hown, -⟩ := h.turn hothers hturn
    exact .head ⟨j, hown⟩ (ih hnext rfl)

end

/-- One thread may do the first part of what it has to do before any other one goes on. -/
theorem turns_bind {β : Type} (front back : List (Routine σ α)) (r : Routine σ β)
    (k : β → Routine σ α) (s : σ) :
    ReflTransGen Turn (front ++ (r >>= k) :: back, s)
      (front ++ k (r.run s).1 :: back, (r.run s).2) := by
  show ReflTransGen Turn (front ++ r.bind k :: back, s) _
  induction r generalizing s with
  | done a => exact .refl
  | step update next ih =>
    have hturn : Turn (front ++ .step update (fun s => (next s).bind k) :: back, s)
        (front ++ (next s).bind k :: back, update s) := by
      have hget : (front ++ Routine.step update (fun s => (next s).bind k) :: back)[front.length]?
          = some (.step update fun s => (next s).bind k) := by
        simp
      have htake := Turn.take (s := s) hget
      rwa [List.set_append_right _ _ (Nat.le_refl _), Nat.sub_self] at htake
    exact .head hturn (ih s (update s))

/-- Or all of it. -/
theorem turns_run (front back : List (Routine σ α)) (r : Routine σ α) (s : σ) :
    ReflTransGen Turn (front ++ r :: back, s) (front ++ .done (r.run s).1 :: back, (r.run s).2) := by
  have hturns := turns_bind front back r pure s
  rwa [bind_pure] at hturns

/-- What is left of a routine behind its first step. -/
inductive Rest : Routine σ α → Routine σ α → Prop where
  | next (update : σ → σ) (next : σ → Routine σ α) (s : σ) : Rest (next s) (.step update next)

theorem wellFounded_rest : WellFounded (Rest : Routine σ α → Routine σ α → Prop) := by
  refine ⟨fun r => ?_⟩
  induction r with
  | done a => exact ⟨_, fun r h => nomatch h⟩
  | step update next ih =>
    refine ⟨_, ?_⟩
    rintro _ ⟨_, _, s⟩
    exact ih s

/-- Threads do not take turns for ever: each turn puts the rest of a routine in its place. -/
theorem wellFounded_turn :
    WellFounded fun q p : List (Routine σ α) × σ => Turn p q := by
  refine Subrelation.wf (r := InvImage (CutExpand Rest) fun p => (p.1 : Multiset (Routine σ α))) ?_
    (InvImage.wf _ wellFounded_rest.cutExpand)
  rintro _ _ ⟨hi⟩
  rename_i rs s i update next
  obtain ⟨hlength, hget⟩ := List.getElem?_eq_some_iff.1 hi
  refine ⟨{next s}, .step update next, fun r hr => ?_, ?_⟩
  · obtain rfl := Multiset.mem_singleton.1 hr
    exact .next update next s
  · have hsplit : rs = rs.take i ++ Routine.step update next :: rs.drop (i + 1) := by
      rw [← hget, ← List.drop_eq_getElem_cons hlength, List.take_append_drop]
    have hset : rs.set i (next s) = rs.take i ++ next s :: rs.drop (i + 1) :=
      List.set_eq_take_append_cons_drop.trans (if_pos hlength)
    show (↑(rs.set i (next s)) : Multiset (Routine σ α)) + {Routine.step update next} = ↑rs + {next s}
    rw [hset]
    conv => rhs; rw [hsplit]
    simp only [← Multiset.coe_add, ← Multiset.cons_coe, ← Multiset.singleton_add]
    ac_rfl

/-- As long as not all threads are done, one of them can take a step. -/
theorem done_or_turn (rs : List (Routine σ α)) (s : σ) :
    (∃ results : List α, rs = results.map .done) ∨ ∃ q, Turn (rs, s) q := by
  induction rs with
  | nil => exact .inl ⟨[], rfl⟩
  | cons r rest ih =>
    cases r with
    | step update next => exact .inr ⟨_, .take (i := 0) rfl⟩
    | done a =>
      rcases ih with ⟨results, rfl⟩ | ⟨_, hturn⟩
      · exact .inl ⟨a :: results, rfl⟩
      · obtain @⟨_, _, i, update, next, hi⟩ := hturn
        exact .inr ⟨_, .take (i := i + 1) hi⟩

/-- However far threads have come, they can come to an end. -/
theorem exists_done (p : List (Routine σ α) × σ) :
    ∃ (results : List α) (t : σ), ReflTransGen Turn p (results.map .done, t) := by
  induction p using wellFounded_turn.induction with
  | _ p ih =>
    obtain ⟨rs, s⟩ := p
    rcases done_or_turn rs s with ⟨results, rfl⟩ | ⟨q, hturn⟩
    · exact ⟨results, s, .refl⟩
    · obtain ⟨results, t, hrest⟩ := ih q hturn
      exact ⟨results, t, .head hturn hrest⟩

end ForeignModule.Routine
