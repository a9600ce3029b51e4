import ForeignModule.Build.Watch

/-!
# Processes

The tools of a build are processes: each is started, and then watched until it is finished or its time
is over.
-/

namespace ForeignModule

/-- A tool that has been started at some time of the clock, and what it brings to ask for it again and
again. In the end it runs no more. -/
structure Process where
  start : Nat
  polls : List Poll
  ends : polls.any Poll.isLast = true

namespace Process

/-- A process that ends with a status, after these times at which it is found running. -/
def ofExit (start : Nat) (running : List Nat) (status : Option Int) (complaint : List UInt8) :
    Process where
  start
  polls := running.map .running ++ [.finished status complaint]
  ends := by simp [Poll.isLast]

/-- The watch over a process that runs no more in the end comes to an end itself. -/
theorem isSome_poll {polls : List Poll} (h : polls.any Poll.isLast = true) (program : String)
    (deadline timeout : Nat) :
    ((Watch.poll deadline timeout polls).answer? program).isSome = true := by
  induction polls with
  | nil => cases h
  | cons p more ih =>
    cases p with
    | running now =>
      rw [Watch.poll]
      split
      · rfl
      · exact ih h
    | finished status complaint => rfl
    | lost cause => rfl

theorem isSome_answer? (p : Process) (i : Invocation) :
    ((Watch.run p.start i.timeout p.polls).answer? i.program).isSome = true := by
  cases hdeadline : Watch.deadline? p.start i.timeout with
  | some deadline =>
    rw [Watch.run_eq hdeadline]
    exact isSome_poll p.ends _ _ _
  | none =>
    rw [Watch.run_eq hdeadline]
    rfl

/-- What a process brings that is watched as an invocation asks. -/
def answer (p : Process) (i : Invocation) : Except BuildError Unit :=
  ((Watch.run p.start i.timeout p.polls).answer? i.program).get (p.isSome_answer? i)

end Process

/-- How processes are started: what an invocation makes of the disk, after those that came before it. -/
abbrev Starting := List Invocation → Invocation → Routine Disk (Except Fault Process)

/-- The toolchain whose tools are processes. -/
def Toolchain.ofProcesses (start : Starting) : Toolchain := fun before i => do
  match ← start before i with
  | .error cause => return .error (.tool i.program (.notStarted cause))
  | .ok p => return p.answer i

end ForeignModule
