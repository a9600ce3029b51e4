import ForeignModule.Proofs.Cache.Consistency
import ForeignModule.Proofs.Routine

/-!
# A cache that threads share

Any number of threads ask one cache, each at most one thing at a time; what a thread does is the routine
of its call, taken step by step, with steps of the others and of the rest of the program in between.

* `Pool.Step` is one step of anybody, `Pool.Reachable` what any run of steps comes to;
* `Thread.step_cases`: a step of a thread changes nothing, or it is the last one, made under the lock, and
  changes the mapping as `Finished.effect` says;
* `Pool.Reachable.consistent`: memory and file hold the first mapping with the changes of the finished
  calls, in the order in which they held the lock.

The file has to stay where it is while its directory is made and while the temporary file is written. Where
it does not, a run may end with a mapping in memory that the file no longer gives (`Pool.not_agrees`).
-/

namespace ForeignModule

namespace Routine

variable {σ α : Type}

/-- What is left of a routine after steps that saw these states. -/
def after : Routine σ α → List σ → Routine σ α
  | r, [] => r
  | done a, _ :: _ => done a
  | step _ next, s :: more => (next s).after more

/-- One step further, less is left. -/
theorem after_concat {r : Routine σ α} {seen : List σ} {update : σ → σ} {next : σ → Routine σ α}
    (h : r.after seen = .step update next) (s : σ) : r.after (seen ++ [s]) = next s := by
  induction seen generalizing r with
  | nil =>
    cases r with
    | done a => cases h
    | step u n =>
      injection h with _ hnext
      subst hnext
      show (n s).after [] = n s
      cases n s <;> rfl
  | cons first more ih =>
    cases r with
    | done a => cases h
    | step u n => exact ih h

end Routine

namespace Cache

open Routine

/-- What a thread asks of the cache, and the trouble that its writing meets. -/
inductive Call where
  | shouldSkip (source : Path) (loading : Trouble)
  | record (source : Path) (loading writing : Trouble)
  | forget (source : Path) (loading writing : Trouble)
  | entries (loading : Trouble)

/-- What a thread is told. -/
inductive Answer where
  | skip (upToDate : Bool)
  | recorded
  | forgotten (removed : Bool)
  | entries (m : Entries)
  | failed (e : CacheError)

namespace Answer

/-- The answer for a result that may be an error. -/
def ofExcept {α : Type} (f : α → Answer) : Except CacheError α → Answer
  | .ok a => f a
  | .error e => failed e

end Answer

/-- The operation that a call stands for. -/
def Call.routine : Call → Routine Workspace Answer
  | shouldSkip source loading => .skip <$> Cache.shouldSkip source loading
  | record source loading writing =>
    Answer.ofExcept (fun _ => .recorded) <$> Cache.record source loading writing
  | forget source loading writing =>
    Answer.ofExcept .forgotten <$> Cache.forget source loading writing
  | entries loading => .entries <$> Cache.entries loading

/-- A thread in the middle of a call, with the states in which it has taken its steps. -/
structure Thread where
  call : Call
  seen : List Workspace

/-- What a thread has still to do. -/
def Thread.left (t : Thread) : Routine Workspace Answer := t.call.routine.after t.seen

/-- A call that has been answered, with the states in which its steps were taken. -/
structure Finished where
  call : Call
  seen : List Workspace
  answer : Answer

/-- What a finished call has done to the mapping. The digest and the key are those of its first steps,
from before it held the lock. -/
def Finished.effect (f : Finished) (m : Entries) : Entries :=
  match f.call, f.seen, f.answer with
  | .record source _ _, first :: second :: _, .recorded =>
    match first.disk.digest source with
    | .ok digest => m.insert (second.disk.key source) digest
    | .error _ => m
  | .forget source _ _, first :: _, .forgotten true => m.erase (first.disk.key source)
  | _, _, _ => m

/-- A mapping after finished calls, in their order. -/
def replay (m : Entries) (log : List Finished) : Entries := log.foldl (fun m f => f.effect m) m

/-! ## Steps of a thread -/

section Thread

variable {source : Path} {loading writing : Trouble}

theorem routine_shouldSkip : (Call.shouldSkip source loading).routine =
    .step id fun first =>
      match first.disk.digest source with
      | .error _ => .done (.skip false)
      | .ok digest => .step id fun second =>
        Answer.skip <$> atomically (holds (second.disk.key source) digest loading) := by
  refine congrArg (Routine.step id) (funext fun first => ?_)
  dsimp only [Routine.bind]
  cases first.disk.digest source <;> rfl

theorem routine_record : (Call.record source loading writing).routine =
    .step id fun first =>
      match first.disk.digest source with
      | .error fault => .done (.failed (.disk source fault))
      | .ok digest => .step id fun second =>
        Answer.ofExcept (fun _ => .recorded) <$>
          atomically (insert (second.disk.key source) digest loading writing) := by
  refine congrArg (Routine.step id) (funext fun first => ?_)
  dsimp only [Routine.bind]
  cases first.disk.digest source <;> rfl

/-- What is left to do when the source has been hashed. -/
theorem left_record {first : Workspace} {digest : String}
    (hdigest : first.disk.digest source = .ok digest) :
    Thread.left ⟨.record source loading writing, [first]⟩ = .step id fun second =>
      Answer.ofExcept (fun _ => .recorded) <$>
        atomically (insert (second.disk.key source) digest loading writing) := by
  rw [Thread.left, routine_record]
  show Routine.after (match first.disk.digest source with | .error _ => _ | .ok _ => _) [] = _
  rw [hdigest]
  rfl

/-- What a look and then the step under the lock come to. -/
theorem run_look_lock {α : Type} (f : α → Answer) (r : Workspace → Routine Workspace α) (w : Workspace) :
    (Routine.step id fun second => f <$> atomically (r second)).run w =
      (f ((r w).run w).1, ((r w).run w).2) :=
  rfl

theorem routine_forget : (Call.forget source loading writing).routine =
    .step id fun first =>
      Answer.ofExcept .forgotten <$> atomically (erase (first.disk.key source) loading writing) :=
  rfl

theorem routine_ne_done (call : Call) (a : Answer) : call.routine ≠ .done a := by
  intro h
  cases call with
  | shouldSkip source loading => rw [routine_shouldSkip] at h; cases h
  | record source loading writing => rw [routine_record] at h; cases h
  | forget source loading writing => rw [routine_forget] at h; cases h
  | entries loading => cases h

/-- Nothing is left behind the end of a routine. -/
theorem after_done {σ α : Type} (a : α) (seen : List σ) : (done a : Routine σ α).after seen = .done a := by
  cases seen <;> rfl

@[simp] theorem effect_failed (call : Call) (seen : List Workspace) (e : CacheError) (m : Entries) :
    Finished.effect ⟨call, seen, .failed e⟩ m = m := by
  unfold Finished.effect
  split <;> simp_all

theorem effect_record {digest : String} {first second : Workspace}
    (hdigest : first.disk.digest source = .ok digest) (more : List Workspace) (m : Entries) :
    Finished.effect ⟨.record source loading writing, first :: second :: more, .recorded⟩ m
      = m.insert (second.disk.key source) digest := by
  simp [Finished.effect, hdigest]

end Thread

/-- What the steps of a thread do. All but the last one only look. -/
inductive Thread.StepsTo (path : Path) (number : Nat) (file : Option (List UInt8)) (m : Entries)
    (t : Thread) (w w' : Workspace) : Routine Workspace Answer → Prop where
  | looks {r : Routine Workspace Answer} (same : w' = w) (more : ∀ a, r ≠ .done a) :
    StepsTo path number file m t w w' r
  | answers {a : Answer} {file' : Option (List UInt8)}
    (consistent : Consistent path number file' (Finished.effect ⟨t.call, t.seen ++ [w], a⟩ m) w')
    (failed : ∀ e, a = .failed e → Unchanged w file file') : StepsTo path number file m t w w' (.done a)

section Steps

variable {path : Path} {number : Nat} {file : Option (List UInt8)} {m : Entries} {w : Workspace}
  {update : Workspace → Workspace} {next : Workspace → Routine Workspace Answer}
  {seen : List Workspace} {source : Path} {loading writing : Trouble}

/-- The step before which nothing was seen, or one that comes after it. -/
theorem after_look {k : Workspace → Routine Workspace Answer}
    (hleft : (Routine.step id k).after seen = .step update next) :
    (seen = [] ∧ update = id ∧ next = k) ∨
      ∃ first more, seen = first :: more ∧ (k first).after more = .step update next := by
  cases seen with
  | nil =>
    injection hleft with hupdate hnext
    exact .inl ⟨rfl, hupdate.symm, hnext.symm⟩
  | cons first more => exact .inr ⟨first, more, rfl, hleft⟩

/-- The step under the lock is the only one of its kind, and the last one. -/
theorem after_lock {α : Type} {f : α → Answer} {r : Routine Workspace α}
    (hleft : (f <$> atomically r).after seen = .step update next) :
    seen = [] ∧ update w = (r.run w).2 ∧ next w = .done (f (r.run w).1) := by
  cases seen with
  | nil =>
    injection hleft with hupdate hnext
    subst hupdate hnext
    exact ⟨rfl, rfl, rfl⟩
  | cons first more =>
    have hdone : (f <$> atomically r).after (first :: more) = .done (f (r.run first).1) :=
      after_done _ more
    rw [hdone] at hleft
    cases hleft

theorem shouldSkip_step (h : Consistent path number file m w)
    (hleft : Thread.left ⟨.shouldSkip source loading, seen⟩ = .step update next) :
    Thread.StepsTo path number file m ⟨.shouldSkip source loading, seen⟩ w (update w) (next w) := by
  rw [Thread.left, routine_shouldSkip] at hleft
  rcases after_look hleft with ⟨rfl, rfl, rfl⟩ | ⟨first, more, rfl, hrest⟩
  · dsimp only
    cases w.disk.digest source with
    | error fault => exact .answers h fun e he => nomatch he
    | ok digest => exact .looks rfl fun a ha => nomatch ha
  cases hdigest : first.disk.digest source with
  | error fault =>
    simp only [hdigest, after_done] at hrest
    cases hrest
  | ok digest =>
    simp only [hdigest] at hrest
    rcases after_look hrest with ⟨rfl, rfl, rfl⟩ | ⟨second, rest, rfl, hlock⟩
    · exact .looks rfl fun a ha => nomatch ha
    · obtain ⟨rfl, hupdate, hnext⟩ := after_lock hlock
      obtain ⟨w', hrun, file', -, hw'⟩ := holds_run h (second.disk.key source) digest loading
      rw [hupdate, hnext, hrun]
      exact .answers hw' fun e he => nomatch he

theorem record_step (h : Consistent path number file m w)
    (hleft : Thread.left ⟨.record source loading writing, seen⟩ = .step update next) :
    Thread.StepsTo path number file m ⟨.record source loading writing, seen⟩ w (update w)
      (next w) := by
  rw [Thread.left, routine_record] at hleft
  rcases after_look hleft with ⟨rfl, rfl, rfl⟩ | ⟨first, more, rfl, hrest⟩
  · dsimp only
    cases w.disk.digest source with
    | error fault => exact .answers h fun e _ => .same
    | ok digest => exact .looks rfl fun a ha => nomatch ha
  cases hdigest : first.disk.digest source with
  | error fault =>
    simp only [hdigest, after_done] at hrest
    cases hrest
  | ok digest =>
    simp only [hdigest] at hrest
    rcases after_look hrest with ⟨rfl, rfl, rfl⟩ | ⟨second, rest, rfl, hlock⟩
    · exact .looks rfl fun a ha => nomatch ha
    · obtain ⟨rfl, hupdate, hnext⟩ := after_lock hlock
      obtain ⟨result, w', hrun, hw'⟩ :=
        insert_run h (second.disk.key source) digest loading writing
      rw [hupdate, hnext, hrun]
      cases result with
      | ok _ =>
        obtain ⟨file', hw'⟩ := hw'
        rw [← effect_record hdigest [w] m] at hw'
        exact .answers hw' fun e he => nomatch he
      | error e =>
        obtain ⟨file', hsame, hw'⟩ := hw'
        rw [← effect_failed (.record source loading writing) [first, second, w] e m] at hw'
        exact .answers hw' fun _ _ => hsame

theorem forget_step (h : Consistent path number file m w)
    (hleft : Thread.left ⟨.forget source loading writing, seen⟩ = .step update next) :
    Thread.StepsTo path number file m ⟨.forget source loading writing, seen⟩ w (update w)
      (next w) := by
  rw [Thread.left, routine_forget] at hleft
  rcases after_look hleft with ⟨rfl, rfl, rfl⟩ | ⟨first, more, rfl, hrest⟩
  · exact .looks rfl fun a ha => nomatch ha
  · obtain ⟨rfl, hupdate, hnext⟩ := after_lock hrest
    obtain ⟨result, w', hrun, hw'⟩ := erase_run h (first.disk.key source) loading writing
    rw [hupdate, hnext, hrun]
    cases result with
    | ok removed =>
      cases removed with
      | true =>
        obtain ⟨file', hw'⟩ := hw'
        exact .answers hw' fun e he => nomatch he
      | false =>
        obtain ⟨file', -, hw'⟩ := hw'
        exact .answers hw' fun e he => nomatch he
    | error e =>
      obtain ⟨file', hsame, hw'⟩ := hw'
      rw [← effect_failed (.forget source loading writing) [first, w] e m] at hw'
      exact .answers hw' fun _ _ => hsame

theorem entries_step (h : Consistent path number file m w)
    (hleft : Thread.left ⟨.entries loading, seen⟩ = .step update next) :
    Thread.StepsTo path number file m ⟨.entries loading, seen⟩ w (update w) (next w) := by
  obtain ⟨rfl, hupdate, hnext⟩ := after_lock (w := w) hleft
  obtain ⟨w', hrun, -, file', -, hw'⟩ := loaded_run h loading
  rw [hupdate, hnext, hrun]
  exact .answers hw' fun e he => nomatch he

theorem Thread.step_cases (h : Consistent path number file m w) {t : Thread}
    (hleft : t.left = .step update next) : t.StepsTo path number file m w (update w) (next w) := by
  obtain ⟨call, seen⟩ := t
  cases call with
  | shouldSkip source loading => exact shouldSkip_step h hleft
  | record source loading writing => exact record_step h hleft
  | forget source loading writing => exact forget_step h hleft
  | entries loading => exact entries_step h hleft

end Steps

/-! ## Threads together -/

/-- A cache, the threads that are in the middle of a call, and the calls that have been answered, in the
order of their last steps. -/
structure Pool (ι : Type) where
  workspace : Workspace
  threads : ι → Option Thread
  log : List Finished

namespace Pool

variable {ι : Type}

/-- Nobody has asked anything yet. -/
def idle (w : Workspace) : Pool ι := ⟨w, fun _ => none, []⟩

variable [DecidableEq ι]

/-- What a thread does from now on. -/
def setThread (p : Pool ι) (i : ι) (t : Option Thread) : Pool ι :=
  { p with threads := fun j => if j = i then t else p.threads j }

/-- One step: a thread makes a call, takes a step of it, or takes the last one and is told the answer. The
rest of the program may do anything to the disk but change the file of the cache, and may note what it
has run. -/
inductive Step (path : Path) (number : Nat) (p : Pool ι) : Pool ι → Prop where
  | call (i : ι) (c : Call) (free : p.threads i = none) : Step path number p (p.setThread i (some ⟨c, []⟩))
  | move (i : ι) {t : Thread} {update : Workspace → Workspace}
    {next : Workspace → Routine Workspace Answer} (busy : p.threads i = some t)
    (left : t.left = .step update next) (more : ∀ a, next p.workspace ≠ .done a) :
    Step path number p
      { p.setThread i (some ⟨t.call, t.seen ++ [p.workspace]⟩) with workspace := update p.workspace }
  | answer (i : ι) {t : Thread} {update : Workspace → Workspace}
    {next : Workspace → Routine Workspace Answer} {a : Answer} (busy : p.threads i = some t)
    (left : t.left = .step update next) (last : next p.workspace = .done a) :
    Step path number p
      { p.setThread i none with
        workspace := update p.workspace
        log := p.log ++ [⟨t.call, t.seen ++ [p.workspace], a⟩] }
  | outside (disk : Disk) (ran : List Invocation)
    (keeps : ∀ file, CacheFile path number file p.workspace.disk → CacheFile path number file disk) :
    Step path number p { p with workspace := { p.workspace with disk, ran } }

/-- What a run of steps comes to, from a pool where nobody has asked anything. -/
inductive Reachable (path : Path) (number : Nat) (w : Workspace) : Pool ι → Prop where
  | start : Reachable path number w (idle w)
  | step {p q : Pool ι} (h : Reachable path number w p) (hstep : Step path number p q) :
    Reachable path number w q

section Runs

variable {path : Path} {number : Nat} {w : Workspace} {file : Option (List UInt8)} {m : Entries}
  {p q : Pool ι}

@[simp] theorem replay_concat (log : List Finished) (f : Finished) :
    replay m (log ++ [f]) = f.effect (replay m log) := by
  simp [replay]

/-- One step keeps memory and file together, with the change of a call that is answered. -/
theorem Step.consistent (h : Step path number p q)
    (hp : Consistent path number file (replay m p.log) p.workspace) :
    ∃ file', Consistent path number file' (replay m q.log) q.workspace := by
  cases h with
  | call i c free => exact ⟨file, hp⟩
  | @move i t update next busy left more =>
    have hstep := Thread.step_cases hp left
    generalize next p.workspace = r at hstep more
    cases hstep with
    | looks same _ =>
      refine ⟨file, ?_⟩
      show Consistent path number file (replay m p.log) (update p.workspace)
      rw [same]
      exact hp
    | answers _ _ => exact absurd rfl (more _)
  | answer i busy left last =>
    have hstep := Thread.step_cases hp left
    rw [last] at hstep
    cases hstep with
    | looks _ more => exact absurd rfl (more _)
    | answers consistent _ =>
      rw [← replay_concat] at consistent
      exact ⟨_, consistent⟩
  | outside disk ran keeps =>
    exact ⟨file, hp.path_eq, hp.number_eq, keeps file hp.held, hp.inFile, hp.memory⟩

theorem Reachable.consistent (hw : Consistent path number file m w)
    (h : Reachable path number w p) :
    ∃ file', Consistent path number file' (replay m p.log) p.workspace := by
  induction h with
  | start => exact ⟨file, hw⟩
  | step _ hstep ih =>
    obtain ⟨file', hp⟩ := ih
    exact hstep.consistent hp

/-- Whatever the threads do, and whatever goes wrong while the file is written: the mapping, in memory as
in the file, is the first one with the changes of the finished calls, in the order in which they held the
lock. Until its last step a call only looks, and if it fails then, mapping and file are what they were; only
the first call of all may have made the file without entries where none was. -/
theorem Reachable.agrees (hw : Consistent path number file m w) (h : Reachable path number w p) :
    ∃ file', p.workspace.disk.read path = reading file' ∧
      Entries.load path p.workspace.disk = .ok (file'.map fun _ => replay m p.log) ∧
      Entries.inFile? file' = some (replay m p.log) ∧
      (∀ m', p.workspace.cache.entries? = some m' → m' = replay m p.log) ∧
      ∀ i t update next, p.threads i = some t → t.left = .step update next →
        (∀ a, next p.workspace ≠ .done a) ∧ update p.workspace = p.workspace ∨
          ∃ a, next p.workspace = .done a ∧ ∀ e, a = .failed e →
            ∃ file'', Unchanged p.workspace file' file'' ∧
              (update p.workspace).disk.read path = reading file'' ∧
              Entries.inFile? file'' = some (replay m p.log) ∧
              (∀ m', (update p.workspace).cache.entries? = some m' → m' = replay m p.log) := by
  obtain ⟨file', hp⟩ := h.consistent hw
  have hload := hp.load_eq
  rw [hp.path_eq] at hload
  refine ⟨file', hp.held.reads, hload, hp.inFile, hp.memory, ?_⟩
  intro i t update next _ hleft
  have hstep := Thread.step_cases hp hleft
  generalize next p.workspace = r at hstep ⊢
  cases hstep with
  | looks same more => exact .inl ⟨more, same⟩
  | @answers a file'' consistent failed =>
    refine .inr ⟨a, rfl, ?_⟩
    rintro e rfl
    rw [effect_failed] at consistent
    exact ⟨file'', failed e rfl, consistent.held.reads, consistent.inFile, consistent.memory⟩

end Runs

/-! ## One thread alone -/

section Alone

variable {ι : Type} [DecidableEq ι] {path : Path} {number : Nat} {w : Workspace}

/-- What a thread has still to do it may do at one go, while the others wait. -/
theorem Reachable.alone {p : Pool ι} {i : ι} {t : Thread} {r : Routine Workspace Answer}
    (h : Reachable path number w p) (hbusy : p.threads i = some t) (hleft : t.left = r)
    (hmore : ∀ a, r ≠ .done a) :
    ∃ q : Pool ι, Reachable path number w q ∧ q.workspace = (r.run p.workspace).2 ∧
      q.log.map (·.answer) = p.log.map (·.answer) ++ [(r.run p.workspace).1] ∧
      ∀ j ≠ i, q.threads j = p.threads j := by
  induction r generalizing p t with
  | done a => exact absurd rfl (hmore a)
  | step update next ih =>
    cases hnext : next p.workspace with
    | done a =>
      exact ⟨_, h.step (.answer i hbusy hleft hnext), by simp [run, hnext], by simp [run, hnext],
        fun j hj => if_neg hj⟩
    | step update' next' =>
      have hmore' : ∀ a, next p.workspace ≠ .done a := by
        intro a ha
        rw [hnext] at ha
        cases ha
      have hmoved := h.step (.move i hbusy hleft hmore')
      obtain ⟨q, hq, hworkspace, hlog, hothers⟩ := ih p.workspace hmoved (if_pos rfl)
        (after_concat hleft p.workspace) hmore'
      exact ⟨q, hq, hworkspace, hlog, fun j hj => (hothers j hj).trans (if_neg hj)⟩

/-- A call of a thread, while the others wait. -/
theorem Reachable.called {p : Pool ι} (h : Reachable path number w p) (call : Call) (i : ι)
    (hfree : p.threads i = none) :
    ∃ q : Pool ι, Reachable path number w q ∧ q.workspace = (call.routine.run p.workspace).2 ∧
      q.log.map (·.answer) = p.log.map (·.answer) ++ [(call.routine.run p.workspace).1] ∧
      ∀ j ≠ i, q.threads j = p.threads j := by
  have hbusy : (p.setThread i (some ⟨call, []⟩)).threads i = some ⟨call, []⟩ := if_pos rfl
  have hleft : Thread.left ⟨call, []⟩ = call.routine := by
    show call.routine.after [] = call.routine
    cases call.routine <;> rfl
  obtain ⟨q, hq, hworkspace, hlog, hothers⟩ :=
    (h.step (.call i call hfree)).alone hbusy hleft (routine_ne_done call)
  exact ⟨q, hq, hworkspace, hlog, fun j hj => (hothers j hj).trans (if_neg hj)⟩

/-- A thread that is to record a source has hashed it, and waits. -/
theorem Reachable.hashed {p : Pool ι} {source : Path} {digest : String}
    (h : Reachable path number w p) (i : ι) (hfree : p.threads i = none) (loading writing : Trouble)
    (hdigest : p.workspace.disk.digest source = .ok digest) :
    ∃ q : Pool ι, Reachable path number w q ∧ q.workspace = p.workspace ∧ q.log = p.log ∧
      q.threads i = some ⟨.record source loading writing, [p.workspace]⟩ ∧
      ∀ j ≠ i, q.threads j = p.threads j := by
  have hfirst : Thread.left ⟨.record source loading writing, []⟩ = _ := routine_record
  have hsecond : Thread.left ⟨.record source loading writing, [p.workspace]⟩ = _ := left_record hdigest
  have hcalled := h.step (.call i (.record source loading writing) hfree)
  have hmoved := hcalled.step (.move i (if_pos rfl) hfirst fun a ha => by
    cases ((after_concat hfirst p.workspace).trans ha).symm.trans hsecond)
  exact ⟨_, hmoved, rfl, rfl, if_pos rfl, fun j hj => (if_neg hj).trans (if_neg hj)⟩

/-- One call that nobody disturbs. -/
theorem exists_reachable (call : Call) (i : ι) :
    ∃ p : Pool ι, Reachable path number w p ∧ p.workspace = (call.routine.run w).2 ∧
      p.log.map (·.answer) = [(call.routine.run w).1] := by
  have hstart : Reachable path number w (idle w : Pool ι) := .start
  obtain ⟨p, hp, hworkspace, hlog, -⟩ := hstart.called call i rfl
  exact ⟨p, hp, hworkspace, hlog⟩

/-- A source is recorded, and nobody disturbs that. -/
theorem exists_recording (w : Workspace) (source : Path) (loading writing : Trouble) :
    ∃ p : Pool Unit, Reachable w.cache.path w.cache.number w p ∧
      p.workspace = ((Cache.record source loading writing).run w).2 ∧
      p.log.map (·.answer)
        = [.ofExcept (fun _ => .recorded) ((Cache.record source loading writing).run w).1] := by
  have hrun : (Call.record source loading writing).routine.run w = _ :=
    run_bind (Cache.record source loading writing) _ w
  obtain ⟨p, hp, hworkspace, hanswer⟩ := exists_reachable (.record source loading writing) ()
  rw [hrun] at hworkspace hanswer
  exact ⟨p, hp, hworkspace, hanswer⟩

/-- The same where recording fails. -/
theorem exists_failed_recording {source : Path} {loading writing : Trouble}
    (hfails : ((Cache.record source loading writing).run w).1.toOption = none) :
    ∃ p : Pool Unit, Reachable w.cache.path w.cache.number w p ∧
      p.workspace = ((Cache.record source loading writing).run w).2 ∧
      ∃ e, p.log.map (·.answer) = [.failed e] := by
  obtain ⟨e, herror⟩ := error_of_toOption hfails
  obtain ⟨p, hp, hworkspace, hanswer⟩ := exists_recording w source loading writing
  rw [herror] at hanswer
  exact ⟨p, hp, hworkspace, e, hanswer⟩

end Alone

end Pool

/-! ## A first run -/

/-- A disk with one source, from which nothing has been built yet. -/
def oneSource : Disk := (Disk.empty ["w"]).put "/w/a.c" (.file [1])

/-- The default place of the cache is free on it, and stays so when its directory is made. -/
theorem cacheFile_oneSource : CacheFile defaultPath 7 none oneSource := by
  have hdirectory : Path.directory? defaultPath = some "./.nativekit" := by decide
  have hends : Path.EndsIn defaultPath [Path.here, ".nativekit"] "hash.json" :=
    ⟨by decide, by decide, by decide, by decide⟩
  have hplace : (oneSource.makeDirectories "./.nativekit").2.NamesPlace defaultPath
      "/w/.nativekit" "hash.json" :=
    ⟨by decide, by decide, _, hends, by rfl⟩
  have hmade : CacheFile defaultPath 7 none (oneSource.makeDirectories "./.nativekit").2 :=
    .of_inert hplace (by decide) (fun target h => nomatch (show none = some _ from h))
  have hcases : ∀ e, Prepared defaultPath oneSource e →
      e = oneSource ∨ e = (oneSource.makeDirectories "./.nativekit").2 := by
    intro e he
    induction he with
    | refl => exact .inl rfl
    | more _ hdirectory' ih =>
      obtain rfl := Option.some.inj (hdirectory.symm.trans hdirectory')
      rcases ih with rfl | rfl
      · exact .inr rfl
      · exact .inr (by rw [hplace.makeDirectories hdirectory])
  refine ⟨⟨_, _, hends⟩, fun e he => ?_⟩
  rcases hcases e he with rfl | rfl
  · have hspot : oneSource.spot (Entries.temporaryPath defaultPath 7) = .error .notFound := by rfl
    have hnowhere : ∀ parent name,
        ¬oneSource.NamesPlace (Entries.temporaryPath defaultPath 7) parent name := fun _ _ h =>
      nomatch hspot.symm.trans h.spot
    exact ⟨by rfl, fun _ _ _ h => absurd h (hnowhere _ _), fun _ _ h => absurd h (hnowhere _ _)⟩
  · exact hmade.held _ .refl

/-- The workspace in which the threads start. -/
def beforeThreads : Workspace := ⟨oneSource, ofPath defaultPath 7, []⟩

/-- The workspace in which the source has been recorded. -/
def afterRecording : Workspace := ((record "a.c").run beforeThreads).2

theorem run_afterRecording : ((record "a.c").run beforeThreads).1.toOption = some () ∧
    (∃ digest, beforeThreads.disk.digest "a.c" = .ok digest ∧
      ((insert (afterRecording.disk.key "a.c") digest {} { write := some (0, .busy) }).run
        afterRecording).1.toOption = none) := by
  have hfacts : ((record "a.c").run beforeThreads).1.toOption = some () ∧
      (beforeThreads.disk.digest "a.c").toOption.any fun digest =>
        ((insert (afterRecording.disk.key "a.c") digest {} { write := some (0, .busy) }).run
          afterRecording).1.toOption.isNone := by
    decide +kernel
  obtain ⟨hrecord, hinsert⟩ := hfacts
  cases hdigest : (beforeThreads.disk.digest "a.c").toOption with
  | none => simp [hdigest] at hinsert
  | some digest =>
    rw [hdigest, Option.any_some, Option.isNone_iff_eq_none] at hinsert
    exact ⟨hrecord, digest, eq_ok_of_toOption hdigest, hinsert⟩

/-- Two threads record one source. The first one hashes it, then the second one does all of its call, and
when the first one comes to write the file, that fails. -/
theorem exists_interleaved : ∃ p : Pool Bool, Pool.Reachable defaultPath 7 beforeThreads p ∧
    ∃ e, p.log.map (·.answer) = [.recorded, .failed e] := by
  obtain ⟨hrecord, digest, hdigest, hfails⟩ := run_afterRecording
  obtain ⟨e, hfails⟩ := error_of_toOption hfails
  have hrecorded : (Call.record "a.c" {} {}).routine.run beforeThreads = (.recorded, afterRecording) := by
    rw [show (Call.record "a.c" {} {}).routine.run beforeThreads = _ from
      run_bind (record "a.c") _ beforeThreads, eq_ok_of_toOption hrecord]
    rfl
  have hstart : Pool.Reachable defaultPath 7 beforeThreads (Pool.idle _ : Pool Bool) := .start
  obtain ⟨p, hp, hworkspace, hlog, hbusy, hothers⟩ :=
    hstart.hashed false rfl {} { write := some (0, .busy) } hdigest
  obtain ⟨q, hq, hworkspace', hlog', hothers'⟩ :=
    hp.called (.record "a.c" {} {}) true (hothers true (by decide))
  obtain ⟨r, hr, -, hlog'', -⟩ := hq.alone ((hothers' false (by decide)).trans hbusy)
    (left_record hdigest) fun _ h => nomatch h
  rw [hworkspace, show (Pool.idle beforeThreads : Pool Bool).workspace = beforeThreads from rfl,
    hrecorded] at hworkspace' hlog'
  refine ⟨r, hr, e, ?_⟩
  rw [hlog'', hlog', hlog, hworkspace', run_look_lock, hfails]
  rfl

/-- In the end memory and file have what the second one has recorded. -/
theorem agrees_oneSource : ∃ p : Pool Bool,
    Pool.Reachable defaultPath 7 beforeThreads p ∧
      (∃ e, p.log.map (·.answer) = [.recorded, .failed e]) ∧
      ∃ file, p.workspace.disk.read defaultPath = reading file ∧
        Entries.inFile? file = some (replay ∅ p.log) ∧
        ∀ m, p.workspace.cache.entries? = some m → m = replay ∅ p.log := by
  have hconsistent : Consistent defaultPath 7 none ∅ beforeThreads :=
    ⟨rfl, rfl, cacheFile_oneSource, rfl, fun _ h => nomatch h⟩
  obtain ⟨p, hp, hlog⟩ := exists_interleaved
  obtain ⟨file, hread, -, hfile, hmemory, -⟩ := hp.agrees hconsistent
  exact ⟨p, hp, hlog, file, hread, hfile, hmemory⟩

/-! ## Where memory and file part -/

/-- The path of the cache goes through the link that lies at its own end, and the directory to which that
leads is yet to be made. -/
def winding : Disk := (oneSource.put "/w/x" .directory).put "/w/x/hash.json" (.link "d")

def windingPath : Path := "x/d/../hash.json/../hash.json"

/-- What is written to the temporary file comes to the file itself. -/
def linkedTemporary : Disk :=
  (oneSource.put "/w/hash.json" (.file [0x7b, 0x7d])).put "/w/hash.json.7.tmp" (.link "hash.json")

/-- Memory and file do not always agree. A call may fail and have made the file by then. Where the path of
the cache leads through its own end, or a link lies at the temporary path, replacing the file cuts it off. -/
theorem Pool.not_agrees :
    (∃ p : Pool Unit, Pool.Reachable defaultPath 7 ⟨oneSource, ofPath defaultPath 7, []⟩ p ∧
      (∃ e, p.log.map (·.answer) = [.failed e]) ∧ oneSource.read defaultPath = .error .notFound ∧
      p.workspace.disk.read defaultPath = .ok (Text.bytes (Entries.text ∅))) ∧
    (∃ p : Pool Unit, Pool.Reachable windingPath 7 ⟨winding, ofPath windingPath 7, []⟩ p ∧
      (∃ e, p.log.map (·.answer) = [.failed e]) ∧ Entries.load windingPath winding = .ok none ∧
      p.workspace.cache.entries? = some ∅ ∧
      ∃ e, Entries.load windingPath p.workspace.disk = .error e) ∧
    ∃ p : Pool Unit, Pool.Reachable "hash.json" 7 ⟨linkedTemporary, ofPath "hash.json" 7, []⟩ p ∧
      p.log.map (·.answer) = [.recorded] ∧
      Entries.load "hash.json" linkedTemporary = .ok (some ∅) ∧
      ∃ e, Entries.load "hash.json" p.workspace.disk = .error e := by
  refine ⟨?_, ?_, ?_⟩
  -- The file is made when the cache is first asked, and what is then to be recorded is not written.
  · have hfacts : ((record "a.c" {} { write := some (0, .busy) }).run
          ⟨oneSource, ofPath defaultPath 7, []⟩).1.toOption = none ∧
        (((record "a.c" {} { write := some (0, .busy) }).run
          ⟨oneSource, ofPath defaultPath 7, []⟩).2.disk.read defaultPath).toOption
            = some (Text.bytes (Entries.text ∅)) := by
      decide +kernel
    obtain ⟨hfails, hread⟩ := hfacts
    obtain ⟨p, hp, hworkspace, hfailed⟩ := exists_failed_recording hfails
    rw [← hworkspace] at hread
    exact ⟨p, hp, hfailed, rfl, eq_ok_of_toOption hread⟩
  -- The file takes the place of the link, and the path ends there.
  · have hfacts : ((record "a.c").run ⟨winding, ofPath windingPath 7, []⟩).1.toOption = none ∧
        ((record "a.c").run ⟨winding, ofPath windingPath 7, []⟩).2.cache.entries? = some ∅ ∧
        (Entries.load windingPath
          ((record "a.c").run ⟨winding, ofPath windingPath 7, []⟩).2.disk).toOption = none := by
      decide +kernel
    obtain ⟨hfails, hmemory, hload⟩ := hfacts
    obtain ⟨p, hp, hworkspace, hfailed⟩ := exists_failed_recording hfails
    rw [← hworkspace] at hmemory hload
    exact ⟨p, hp, hfailed, rfl, hmemory, error_of_toOption hload⟩
  -- The link takes the place of the file, and leads to itself there.
  · have hfacts : ((record "a.c").run ⟨linkedTemporary, ofPath "hash.json" 7, []⟩).1.toOption
          = some () ∧
        (Entries.load "hash.json"
          ((record "a.c").run ⟨linkedTemporary, ofPath "hash.json" 7, []⟩).2.disk).toOption = none := by
      decide +kernel
    obtain ⟨hsucceeds, hload⟩ := hfacts
    obtain ⟨p, hp, hworkspace, hanswer⟩ :=
      exists_recording ⟨linkedTemporary, ofPath "hash.json" 7, []⟩ "a.c" {} {}
    rw [eq_ok_of_toOption hsucceeds] at hanswer
    rw [← hworkspace] at hload
    exact ⟨p, hp, hanswer, rfl, error_of_toOption hload⟩

end Cache

end ForeignModule
