/-!
# Verbosity

How much a run tells about itself.
-/

namespace ForeignModule

/-- The least grave messages that are still told. -/
inductive Verbosity where
  | off
  | error
  | warn
  | info
  | debug
deriving DecidableEq, Repr, Inhabited

namespace Verbosity

/-- The verbosity that is asked for by repeating a flag. From the fourth time on nothing changes. -/
def ofCount : Nat → Verbosity
  | 0 => off
  | 1 => error
  | 2 => warn
  | 3 => info
  | _ => debug

/-- The name of a verbosity. -/
def name : Verbosity → String
  | off => "off"
  | error => "error"
  | warn => "warn"
  | info => "info"
  | debug => "debug"

end Verbosity

end ForeignModule
