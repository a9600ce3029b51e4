import ForeignModule.Files.Disk
import ForeignModule.Number.Decimal

/-!
# Invocations

One run of a tool, and why it may fail.
-/

namespace ForeignModule

/-- One run of a tool. -/
structure Invocation where
  program : String
  arguments : List RawText
  /-- What the tool can read from its input. -/
  input : Option String := none
  /-- How long it may take, in milliseconds. -/
  timeout : Nat
deriving DecidableEq, Repr, Inhabited

namespace Invocation

/-- The program and its arguments in one line. Nothing is quoted. -/
def text (i : Invocation) : String := " ".intercalate (i.program :: i.arguments.map RawText.shown)

end Invocation

/-- Why a run of a tool fails. -/
inductive ToolError where
  /-- It ends with a status other than zero, or is ended from outside and has none. -/
  | failed (status : Option Int) (complaint : String)
  /-- It is not finished after so many milliseconds. -/
  | timedOut (timeout : Nat)
  /-- It cannot be started or watched. -/
  | notStarted (cause : Fault)
deriving DecidableEq, Repr, Inhabited

namespace ToolError

/-- A duration as a number of seconds: the nearest double to the sum of the whole seconds and of
the double nearest to what is left. -/
def seconds (milliseconds : Nat) : Number.Double :=
  let f := Number.Format.double
  let whole := milliseconds / 1000
  match f.decode (f.nearest (milliseconds % 1000) 1000) with
  | .finite _ significand exponent =>
    .ofDatum (.finite false (whole * Nat.pow 2 (-exponent).toNat + significand) exponent)
  | _ => .ofInt whole

/-- How a run ended. -/
def statusText : Option Int → String
  | some status => "exit status " ++ toString status
  | none => "terminated by signal"

/-- The wording of a failure. -/
def message (program : String) : ToolError → String
  | failed status complaint =>
    "\x60" ++ program ++ "\x60 failed (" ++ statusText status ++ "): " ++ complaint
  | timedOut timeout =>
    "\x60" ++ program ++ "\x60 did not finish within " ++ (seconds timeout).text ++ "s"
  | notStarted _ => "failed to run \x60" ++ program ++ "\x60"

end ToolError

end ForeignModule
