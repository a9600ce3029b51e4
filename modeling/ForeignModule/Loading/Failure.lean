import ForeignModule.Build.Builder
import ForeignModule.Configuration.File
import ForeignModule.Native.Binding

/-!
# Failures and their causes

A failure is told from the outside in: what could not be done, then why, and so on. Behind the last
message there may be a cause that others have worded.
-/

namespace ForeignModule

/-- One link in the chain of causes of a failure. -/
inductive Cause where
  | message (text : String)
  | fault (f : Fault)
  /-- What the loader of libraries tells. -/
  | loader (text : String)
  /-- What the reader of configurations tells. -/
  | yaml
deriving DecidableEq, Repr, Inhabited

namespace Cause

/-- A message, and the fault behind it. -/
def withFault (text : String) (f? : Option Fault) : List Cause :=
  message text :: f?.toList.map fault

/-- The wording of a cause. -/
def text : Cause → String
  | message text => text
  | fault f => f.message
  | loader text => text
  | yaml => "the text does not describe a configuration"

end Cause

/-- Why a module is not loaded. -/
inductive LoadError where
  | unsupported (source : Path)
  | signatures (path : Path) (error : SourceError)
  | build (source : Path) (error : BuildError)
  | resolve (artifact : Path) (fault : Fault)
  | bind (artifact loadable : Path) (error : Native.BindError)
  | stub (path : Path) (fault : Fault)
deriving DecidableEq, Repr, Inhabited

namespace LoadError

/-- The complaint of a program that cannot go on, if that is the failure. -/
def crash? : LoadError → Option String
  | build _ (.crashed complaint) => some complaint
  | _ => none

/-- All extensions of sources, in order. -/
def extensionList : String :=
  ", ".intercalate ((Backend.all.flatMap Backend.extensions).map ("." ++ ·))

/-- The cause that the loader of libraries tells about a file, if the error comes from it. -/
def loaderCauses (loadable : Path) : Native.BindError → List Cause
  | .notLoaded fault => [.loader (loadable.shown ++ ": " ++ fault.message)]
  | .missingSymbol symbol => [.loader (loadable.shown ++ ": undefined symbol: " ++ symbol)]
  | .unmappedType _ _ _ => []

/-- The failure and its causes. -/
def chain : LoadError → List Cause
  | unsupported source =>
    [.message (source.shown ++ " has no supported extension (expected one of " ++ extensionList ++ ")")]
  | signatures path e =>
    .message ("failed to extract signatures from " ++ path.shown) :: Cause.withFault e.message e.fault?
  | build source e =>
    .message ("failed to build " ++ source.shown) :: Cause.withFault e.message e.fault?
  | resolve artifact f => Cause.withFault ("failed to resolve " ++ artifact.shown) (some f)
  | bind artifact loadable e =>
    .message ("failed to bind " ++ artifact.shown) :: .message (e.message loadable)
      :: loaderCauses loadable e
  | stub path f => Cause.withFault ("failed to write " ++ path.shown) (some f)

end LoadError

namespace CacheError

/-- The error and its cause. -/
def chain : CacheError → List Cause
  | disk path f => Cause.withFault (message (disk path f)) (some f)
  | invalid path => [.message (message (invalid path))]

end CacheError

namespace ConfigurationError

/-- The failure and its causes. -/
def chain : ConfigurationError → List Cause
  | unreadable path f => Cause.withFault (message (unreadable path f)) (some f)
  | invalid path => [.message (message (invalid path)), .message Configuration.failure, .yaml]

end ConfigurationError

end ForeignModule
