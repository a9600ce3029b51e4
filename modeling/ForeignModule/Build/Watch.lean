import ForeignModule.Build.Builder
import ForeignModule.Text.Blank
import ForeignModule.Text.Utf8

/-!
# Watching a tool

A tool that has been started is asked again and again whether it is finished, until it is or its
time is over. Times are counted in nanoseconds of a clock that never runs backwards.
-/

namespace ForeignModule

/-- What it brings to ask a tool whether it is finished. -/
inductive Poll where
  /-- It is not; the clock shows `now` afterwards. -/
  | running (now : Nat)
  /-- It is. A tool that is ended from outside has no status. -/
  | finished (status : Option Int) (complaint : List UInt8)
  /-- It cannot be asked. -/
  | lost (cause : Fault)
deriving DecidableEq, Repr, Inhabited

/-- Does the poll find the tool running no more? -/
def Poll.isLast : Poll → Bool
  | running _ => false
  | finished _ _ => true
  | lost _ => true

/-- How the watch over a tool ends. -/
inductive WatchEnd where
  | finished (result : Except ToolError Unit)
  /-- The time is over, and the tool is told to stop. -/
  | stopped (timeout : Nat)
  /-- The end of the time lies beyond all that the clock can show. The program cannot go on. -/
  | beyondClock
  /-- The tool is still running. -/
  | unfinished
deriving Repr, Inhabited

namespace Watch

/-- The clock counts less than this many seconds. -/
def clockLimit : Nat := Nat.pow 2 63

/-- Nanoseconds in a millisecond. -/
def perMillisecond : Nat := 1000000

/-- When the time of a tool is over that starts at `start`. -/
def deadline? (start timeout : Nat) : Option Nat :=
  let deadline := start + timeout * perMillisecond
  if deadline / (1000 * perMillisecond) < clockLimit then some deadline else none

/-- What a finished tool means. Its complaint is kept without blanks around it. -/
def result (status : Option Int) (complaint : List UInt8) : Except ToolError Unit :=
  if status = some 0 then .ok ()
  else .error (.failed status (.ofList (Text.trim (Text.decodeLossy complaint).toList)))

/-- Watches a tool up to a deadline. -/
def poll (deadline timeout : Nat) : List Poll → WatchEnd
  | [] => .unfinished
  | .finished status complaint :: _ => .finished (result status complaint)
  | .lost cause :: _ => .finished (.error (.notStarted cause))
  | .running now :: more =>
    if deadline ≤ now then .stopped timeout else poll deadline timeout more

/-- The complaint of a program that asks for a time beyond all that the clock can show. -/
def overflow : String := "overflow when adding duration to instant"

/-- Watches a tool that starts at `start` and may take `timeout` milliseconds. -/
def run (start timeout : Nat) (polls : List Poll) : WatchEnd :=
  match deadline? start timeout with
  | some deadline => poll deadline timeout polls
  | none => .beyondClock

/-- A watch goes by its deadline. -/
theorem run_eq {start timeout : Nat} {d : Option Nat} (hdeadline : deadline? start timeout = d)
    (polls : List Poll) :
    run start timeout polls = (d.map (poll · timeout polls)).getD .beyondClock := by
  -- Opened in place, `run` would have the deadline of an open clock compared in unary.
  have hopen : ∀ f, f = run →
      f start timeout polls = (d.map (poll · timeout polls)).getD .beyondClock := by
    intro f hf
    delta run at hf
    rw [hf]
    dsimp only
    rw [hdeadline]
    cases d <;> rfl
  exact hopen run rfl

end Watch

namespace WatchEnd

/-- What the end of the watch says of the tool, if it has come to one. -/
def result? : WatchEnd → Option (Except ToolError Unit)
  | finished result => some result
  | stopped timeout => some (.error (.timedOut timeout))
  | beyondClock => none
  | unfinished => none

/-- What the end of the watch over a program means for the build. Beyond the clock it is the end of the
whole build. -/
def answer? (program : String) : WatchEnd → Option (Except BuildError Unit)
  | beyondClock => some (.error (.crashed Watch.overflow))
  | ended => ended.result?.map (·.mapError (.tool program))

end WatchEnd

end ForeignModule
