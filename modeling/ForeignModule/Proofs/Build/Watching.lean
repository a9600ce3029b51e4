import ForeignModule.Build.Plan
import ForeignModule.Build.Watch
import Mathlib.Data.Nat.Find
import Mathlib.Order.Defs.LinearOrder

/-!
# How the watch over a tool ends

The first poll that says enough ends the watch: one that finds the tool finished, one that fails, and
one that finds it running when its time is over.

* `Poll.Decides` says which polls these are, and `Poll.ending` what each of them brings;
* `run_of_first`: the watch ends as the first of them says, whatever else would have been asked;
* `Paced`: between two polls there is a pause, so that one of them comes at last (`exists_first`);
* `Plan.watch_ends`: so ends the watch over every step of every plan, as long as the clock can show
  when its time is over. Where it cannot there is no end at all, and `watch_beyondClock` is a step
  with such a timeout.
-/

namespace ForeignModule

/-- Does the poll end a watch up to this deadline? -/
def Poll.Decides (deadline : Nat) : Poll → Prop
  | .running now => deadline ≤ now
  | .finished _ _ => True
  | .lost _ => True

/-- How the watch ends with such a poll. -/
def Poll.ending (timeout : Nat) : Poll → WatchEnd
  | .running _ => .stopped timeout
  | .finished status complaint => .finished (Watch.result status complaint)
  | .lost cause => .finished (.error (.notStarted cause))

namespace Watch

variable {start timeout deadline n : Nat} {polls : Nat → Poll}

/-! ## The first poll that decides -/

/-- Polls that decide nothing are passed. -/
theorem poll_append {before : List Poll} (h : ∀ p ∈ before, ¬p.Decides deadline)
    (more : List Poll) :
    poll deadline timeout (before ++ more) = poll deadline timeout more := by
  induction before with
  | nil => rfl
  | cons p before ih =>
    have hrest : ∀ q ∈ before, ¬q.Decides deadline := fun q hq => h q (List.mem_cons_of_mem _ hq)
    have hp : ¬p.Decides deadline := h p List.mem_cons_self
    cases p with
    | running now =>
      have hearly : ¬deadline ≤ now := hp
      rw [List.cons_append, poll, if_neg hearly]
      exact ih hrest
    | finished status complaint => exact absurd trivial hp
    | lost cause => exact absurd trivial hp

/-- A poll that decides is the last one. -/
theorem poll_cons {p : Poll} (h : p.Decides deadline) (more : List Poll) :
    poll deadline timeout (p :: more) = p.ending timeout := by
  cases p with
  | running now =>
    have hlate : deadline ≤ now := h
    rw [poll, if_pos hlate]
    rfl
  | finished status complaint => rfl
  | lost cause => rfl

/-- The poll is the first one that decides. -/
structure IsFirst (deadline : Nat) (polls : Nat → Poll) (n : Nat) : Prop where
  decides : (polls n).Decides deadline
  before : ∀ m < n, ¬(polls m).Decides deadline

/-- The polls up to this one, and those that come behind it. -/
def upTo (polls : Nat → Poll) (n : Nat) (more : List Poll) : List Poll :=
  (List.range n).map polls ++ polls n :: more

/-- A watch ends as the first poll says that decides, whatever comes behind it. -/
theorem run_of_first (hdeadline : deadline? start timeout = some deadline)
    (h : IsFirst deadline polls n) (more : List Poll) :
    run start timeout (upTo polls n more) = (polls n).ending timeout := by
  have hbefore : ∀ p ∈ (List.range n).map polls, ¬p.Decides deadline := by
    intro p hp
    rcases List.mem_map.1 hp with ⟨m, hm, rfl⟩
    exact h.before m (List.mem_range.1 hm)
  rw [run_eq hdeadline, upTo]
  exact (poll_append hbefore _).trans (poll_cons h.decides more)

/-! ## The pause between two polls -/

/-- Nanoseconds that pass at least between two polls. -/
def pause : Nat := 20 * perMillisecond

/-- The clock does not run backwards, and before a tool is asked again there is a pause. -/
structure Paced (start : Nat) (polls : Nat → Poll) : Prop where
  starts : ∀ now, polls 0 = .running now → start ≤ now
  pauses : ∀ n now later, polls n = .running now → polls (n + 1) = .running later →
    now + pause ≤ later

/-- As long as the tool runs, so much time has passed. -/
theorem Paced.le (h : Paced start polls) (hrunning : ∀ m ≤ n, ∃ now, polls m = .running now) :
    ∀ now, polls n = .running now → start + n * pause ≤ now := by
  induction n with
  | zero =>
    intro now hnow
    simpa using h.starts now hnow
  | succ n ih =>
    intro later hlater
    rcases hrunning n (Nat.le_succ n) with ⟨now, hnow⟩
    have hbefore : start + n * pause ≤ now := ih (fun m hm => hrunning m (by omega)) now hnow
    have hstep : now + pause ≤ later := h.pauses n now later hnow hlater
    rw [Nat.succ_mul]
    omega

/-- What decides nothing finds the tool running. -/
theorem running_of_not_decides {p : Poll} (h : ¬p.Decides deadline) :
    ∃ now, p = .running now ∧ now < deadline := by
  cases p with
  | running now => exact ⟨now, rfl, Nat.lt_of_not_le h⟩
  | finished status complaint => exact absurd trivial h
  | lost cause => exact absurd trivial h

/-- With a pause between the polls one of them decides. -/
theorem Paced.exists_first (h : Paced start polls) (deadline : Nat) :
    ∃ n, IsFirst deadline polls n := by
  classical
  have hsome : ∃ n, (polls n).Decides deadline := by
    apply Classical.byContradiction
    intro hnone
    have hrunning : ∀ m, ∃ now, polls m = .running now ∧ now < deadline := fun m =>
      running_of_not_decides fun hm => hnone ⟨m, hm⟩
    -- After as many polls as there are nanoseconds up to the deadline, it is over.
    rcases hrunning deadline with ⟨now, hnow, hearly⟩
    have hlate : start + deadline * pause ≤ now :=
      h.le (fun m _ => (hrunning m).imp fun _ hm => hm.1) now hnow
    have hpause : deadline ≤ deadline * pause := Nat.le_mul_of_pos_right _ (by decide)
    omega
  exact ⟨Nat.find hsome, Nat.find_spec hsome, fun m hm => Nat.find_min hsome hm⟩

/-! ## The deadline -/

/-- The clock can show when so many seconds are over. -/
def Shows (start seconds : Nat) : Prop := start / (1000 * perMillisecond) + seconds < clockLimit

instance (start seconds : Nat) : Decidable (Shows start seconds) :=
  inferInstanceAs (Decidable (_ < _))

/-- When so many seconds are over. -/
def due (start seconds : Nat) : Nat := start + seconds * (1000 * perMillisecond)

theorem deadline?_eq (start seconds : Nat) :
    deadline? start (seconds * 1000) =
      if Shows start seconds then some (due start seconds) else none := by
  have hdeadline : start + seconds * 1000 * perMillisecond = due start seconds := by
    rw [due, Nat.mul_assoc]
  have hwhole : due start seconds / (1000 * perMillisecond)
      = start / (1000 * perMillisecond) + seconds :=
    Nat.add_mul_div_right _ _ (by decide)
  rw [deadline?, hdeadline, hwhole]
  rfl

end Watch

namespace Plan

open Watch

variable {directory source : Path} {settings : ModuleSettings} {signatures : List Signature}
  {i : Invocation}

/-- Every step of a plan has the time that is set. -/
theorem timeout_of_mem_steps (hi : i ∈ (of directory source settings signatures).steps) :
    i.timeout = settings.timeout * 1000 := by
  cases settings with
  | clang s | rust s =>
    rw [List.mem_singleton.1 hi]
  | konan s =>
    simp only [of, konanSteps, List.mem_cons, List.not_mem_nil, or_false] at hi
    rcases hi with rfl | rfl | rfl <;> rfl

/-- The watch over a step ends as the first poll says that finds the tool finished, fails, or finds it
running when its time is over; and one of them does, since there is a pause between two polls. All this is
so if the clock can show when the time is over. If it cannot, the watch has no end that means anything
for the build. -/
theorem watch_ends (hi : i ∈ (of directory source settings signatures).steps) (start : Nat) :
    (Shows start settings.timeout →
      (∀ polls n, IsFirst (due start settings.timeout) polls n → ∀ more,
        run start i.timeout (upTo polls n more) = (polls n).ending i.timeout) ∧
      ∀ polls, Paced start polls → ∃ n, IsFirst (due start settings.timeout) polls n) ∧
    (¬Shows start settings.timeout → ∀ polls, run start i.timeout polls = .beyondClock) := by
  have hdeadline := deadline?_eq start settings.timeout
  rw [← timeout_of_mem_steps hi] at hdeadline
  constructor
  · intro hshows
    rw [if_pos hshows] at hdeadline
    constructor
    · intro polls n hfirst more
      exact run_of_first hdeadline hfirst more
    · intro polls hpaced
      exact hpaced.exists_first _
  · intro hshows polls
    rw [if_neg hshows] at hdeadline
    rw [run_eq hdeadline]
    rfl

/-- A tool that never ends, asked every twenty milliseconds. -/
def hanging (start n : Nat) : Poll := .running (start + n * pause)

theorem paced_hanging (start : Nat) : Paced start (hanging start) where
  starts now hnow := by
    cases hnow
    omega
  pauses n now later hnow hlater := by
    cases hnow
    cases hlater
    rw [Nat.succ_mul]
    omega

/-- With a second of time, a tool that hangs is stopped at the fifty-first poll. -/
theorem watch_ends_hanging :
    ∃ i ∈ (of "out" "a.c" (.clang { timeoutSeconds := some 1 }) []).steps,
      Shows 7 1 ∧ Paced 7 (hanging 7) ∧ IsFirst (due 7 1) (hanging 7) 50 ∧
        run 7 i.timeout (upTo (hanging 7) 50 []) = .stopped i.timeout := by
  have hseconds : (ModuleSettings.clang { timeoutSeconds := some 1 }).timeout = 1 := rfl
  have hdue : due 7 1 = 1000000007 := rfl
  have hshows : Shows 7 1 := by
    simp [Shows, clockLimit, perMillisecond]
  have hfirst : IsFirst (due 7 1) (hanging 7) 50 := by
    constructor
    · show due 7 1 ≤ 7 + 50 * pause
      simp only [hdue, pause, perMillisecond]
      omega
    · intro m hm hdecides
      have hlate : due 7 1 ≤ 7 + m * pause := hdecides
      simp only [hdue, pause, perMillisecond] at hlate
      omega
  have hsome : ∃ i, i ∈ (of "out" "a.c" (.clang { timeoutSeconds := some 1 }) []).steps :=
    ⟨_, List.mem_singleton.2 rfl⟩
  rcases hsome with ⟨i, hi⟩
  have hends := watch_ends hi 7
  rw [hseconds] at hends
  exact ⟨i, hi, hshows, paced_hanging 7, hfirst, (hends.1 hshows).1 _ _ hfirst []⟩

/-- With the longest timeout that can be set, the watch comes to nothing even over a tool that is
finished at once. -/
theorem watch_beyondClock :
    ¬∀ (directory source : Path) (settings : ModuleSettings) (signatures : List Signature)
      (i : Invocation) (start : Nat) (polls : Nat → Poll),
      i ∈ (of directory source settings signatures).steps → Paced start polls →
        ∃ n result, ∀ more, (run start i.timeout (upTo polls n more)).result? = some result := by
  intro h
  have hseconds :
      (ModuleSettings.clang { timeoutSeconds := some 18446744073709551615 }).timeout
        = 18446744073709551615 := rfl
  have hpaced : Paced 0 fun _ => .finished (some 0) [] :=
    ⟨fun _ hnow => Poll.noConfusion hnow, fun _ _ _ hnow => Poll.noConfusion hnow⟩
  have hsome : ∃ i, i ∈ (of "out" "a.c"
      (.clang { timeoutSeconds := some 18446744073709551615 }) []).steps :=
    ⟨_, List.mem_singleton.2 rfl⟩
  rcases hsome with ⟨i, hi⟩
  rcases h _ _ _ _ i 0 _ hi hpaced with ⟨n, result, hresult⟩
  have hnever : ¬Shows 0 18446744073709551615 := by
    simp [Shows, clockLimit]
  have hdeadline : deadline? 0 i.timeout = none := by
    rw [timeout_of_mem_steps hi, hseconds, deadline?_eq, if_neg hnever]
  have hend := hresult []
  rw [run_eq hdeadline] at hend
  cases hend

end Plan

end ForeignModule
