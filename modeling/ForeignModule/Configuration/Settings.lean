import ForeignModule.Files.Path

/-!
# Build settings

What can be set for the build of one source file, for each backend. Every setting may be unset.
Settings are laid over others: what they set wins, and what they do not set stays.

Some settings make sense for a single file only. `withoutFileOnly` clears them.
-/

namespace ForeignModule

/-! ## Levels of optimization -/

/-- How much the C compiler optimizes. -/
inductive ClangLevel where
  | level (n : UInt8)
  | fast
  | s
  | z
  | g
deriving DecidableEq, Repr, Inhabited

namespace ClangLevel

/-- The levels with a name of their own. -/
def named : List (String × ClangLevel) := [("fast", fast), ("s", s), ("z", z), ("g", g)]

/-- What stands behind `-O`. -/
def text : ClangLevel → String
  | level n => toString n.toNat
  | fast => "fast"
  | s => "s"
  | z => "z"
  | g => "g"

end ClangLevel

/-- How much the Rust compiler optimizes. -/
inductive RustLevel where
  | level (n : UInt8)
  | s
  | z
deriving DecidableEq, Repr, Inhabited

namespace RustLevel

/-- The levels with a name of their own. -/
def named : List (String × RustLevel) := [("s", s), ("z", z)]

/-- The value of `opt-level`. -/
def text : RustLevel → String
  | level n => toString n.toNat
  | s => "s"
  | z => "z"

end RustLevel

/-! ## Settings of each backend -/

/-- What all kinds of settings have in common. -/
class Settings (α : Type) where
  /-- Nothing is set. -/
  unset : α
  /-- The first settings with the second ones laid over them. -/
  merge : α → α → α
  /-- Clears what makes sense for a single file only. -/
  withoutFileOnly : α → α

/-- Settings for C, C++ and Objective-C. -/
structure ClangSettings where
  out : Option Path := none
  optimize : Option ClangLevel := none
  debug : Option Bool := none
  libraries : Option (List String) := none
  frameworks : Option (List String) := none
  headerSearchPaths : Option (List Path) := none
  librarySearchPaths : Option (List Path) := none
  additionalSources : Option (List Path) := none
  /-- The header that declares the exports, relative to the directory of the source. -/
  useHeader : Option Path := none
  timeoutSeconds : Option UInt64 := none
deriving DecidableEq, Repr, Inhabited

/-- Settings for Kotlin. -/
structure KonanSettings where
  /-- The static library. The module lies beside it. -/
  out : Option Path := none
  optimize : Option Bool := none
  debug : Option Bool := none
  libraries : Option (List String) := none
  additionalSources : Option (List Path) := none
  timeoutSeconds : Option UInt64 := none
deriving DecidableEq, Repr, Inhabited

/-- Settings for Rust. -/
structure RustSettings where
  out : Option Path := none
  optimize : Option RustLevel := none
  debug : Option Bool := none
  libraries : Option (List String) := none
  librarySearchPaths : Option (List Path) := none
  timeoutSeconds : Option UInt64 := none
deriving DecidableEq, Repr, Inhabited

instance : Settings ClangSettings where
  unset := {}
  merge base top :=
    { out := top.out.or base.out
      optimize := top.optimize.or base.optimize
      debug := top.debug.or base.debug
      libraries := top.libraries.or base.libraries
      frameworks := top.frameworks.or base.frameworks
      headerSearchPaths := top.headerSearchPaths.or base.headerSearchPaths
      librarySearchPaths := top.librarySearchPaths.or base.librarySearchPaths
      additionalSources := top.additionalSources.or base.additionalSources
      useHeader := top.useHeader.or base.useHeader
      timeoutSeconds := top.timeoutSeconds.or base.timeoutSeconds }
  withoutFileOnly s := { s with out := none, useHeader := none }

instance : Settings KonanSettings where
  unset := {}
  merge base top :=
    { out := top.out.or base.out
      optimize := top.optimize.or base.optimize
      debug := top.debug.or base.debug
      libraries := top.libraries.or base.libraries
      additionalSources := top.additionalSources.or base.additionalSources
      timeoutSeconds := top.timeoutSeconds.or base.timeoutSeconds }
  withoutFileOnly s := { s with out := none }

instance : Settings RustSettings where
  unset := {}
  merge base top :=
    { out := top.out.or base.out
      optimize := top.optimize.or base.optimize
      debug := top.debug.or base.debug
      libraries := top.libraries.or base.libraries
      librarySearchPaths := top.librarySearchPaths.or base.librarySearchPaths
      timeoutSeconds := top.timeoutSeconds.or base.timeoutSeconds }
  withoutFileOnly s := { s with out := none }

end ForeignModule
