import ForeignModule.Configuration.Reading
import ForeignModule.Signature.File

/-!
# The configuration file

A configuration is read from the file that is asked for, or else from a file with a usual name, if
there is one.
-/

namespace ForeignModule

/-- Why there is no configuration. -/
inductive ConfigurationError where
  | unreadable (path : Path) (fault : Fault)
  | invalid (path : Path)
deriving DecidableEq, Repr, Inhabited

namespace ConfigurationError

/-- The wording of the error. -/
def message : ConfigurationError → String
  | unreadable path _ => "failed to read config " ++ path.shown
  | invalid path => "invalid config " ++ path.shown

end ConfigurationError

namespace Configuration

/-- The name of the file that is read if no other one is asked for. -/
def defaultFile : Path := "nativekit.yaml"

/-- Reads the configuration in a file. -/
def ofFile (path : Path) (d : Disk) : Except ConfigurationError Configuration :=
  match d.readText path with
  | .error fault => .error (.unreadable path fault)
  | .ok text =>
    match ofText? text with
    | some c => .ok c
    | none => .error (.invalid path)

/-- Reads the configuration for a run. -/
def discover (asked : Option Path) (d : Disk) : Except ConfigurationError Configuration :=
  match asked with
  | some path => ofFile path d
  | none => if d.isFile defaultFile then ofFile defaultFile d else .ok {}

end Configuration

end ForeignModule
