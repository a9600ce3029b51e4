import ForeignModule.Build.Invocation
import ForeignModule.Configuration.Section
import ForeignModule.Native.Declaration
import ForeignModule.Text.Search

/-!
# Build plans

What a build writes, and which tools it runs to this end.

A C or Rust source takes one step. A Kotlin source takes three: the compiler makes a static library
and a header; a source that gives the functions of the library plain names is compiled; then both
are linked to the module.

* `Outputs.of` says where a module goes;
* `Plan.of` lists the steps.
-/

namespace ForeignModule

/-- What a build writes. -/
structure Outputs where
  /-- What the compiler writes. -/
  primary : Path
  /-- What can be loaded. -/
  artifact : Path
deriving DecidableEq, Repr, Inhabited

namespace Outputs

/-- The module that a compiler writes itself. -/
def single (path : Path) : Outputs := ⟨path, path⟩

/-- The library of a Kotlin source, and the module that is linked from it. -/
def linked (library : Path) : Outputs := ⟨library, library ++ (".o" : RawText)⟩

/-- The outputs for a source with this file name, if nothing else is set. -/
def default (b : Backend) (directory : Path) (file : String) : Outputs :=
  match b with
  | .clang | .rust => single (Path.join directory (file ++ ".o"))
  | .konan => linked (Path.join directory ("lib" ++ file ++ ".a"))

/-- The outputs for a source. -/
def of (directory source : Path) : ModuleSettings → Outputs
  | .clang s => (s.out.map single).getD (default .clang directory source.shownName)
  | .konan s => (s.out.map linked).getD (default .konan directory source.shownName)
  | .rust s => (s.out.map single).getD (default .rust directory source.shownName)

end Outputs

/-! ## Arguments of the compilers -/

open RawText (ofTexts)

/-- A flag that is given if something is switched on. -/
def switchFlag (flag : String) (on : Option Bool) : List RawText :=
  if on = some true then [flag] else []

/-- A flag before each of these values. -/
def flagEach (flag : String) (values : Option (List RawText)) : List RawText :=
  (values.getD []).flatMap fun value => [flag, value]

/-- The arguments of the C compiler. -/
def ClangSettings.arguments (s : ClangSettings) (source out : Path) : List RawText :=
  ofTexts ["-shared", "-fPIC"]
    ++ ofTexts (s.optimize.map fun level => "-O" ++ level.text).toList
    ++ switchFlag "-g" s.debug
    ++ flagEach "-framework" (s.frameworks.map ofTexts)
    ++ flagEach "-I" s.headerSearchPaths
    ++ flagEach "-L" s.librarySearchPaths
    ++ flagEach "-l" (s.libraries.map ofTexts)
    ++ source :: s.additionalSources.getD []
    ++ [("-o" : RawText), out]

/-- The arguments of the Kotlin compiler. -/
def KonanSettings.arguments (s : KonanSettings) (source out : Path) : List RawText :=
  ofTexts ["-nomain", "-produce", "static"]
    ++ switchFlag "-opt" s.optimize
    ++ switchFlag "-g" s.debug
    ++ flagEach "-l" (s.libraries.map ofTexts)
    ++ source :: s.additionalSources.getD []
    ++ [("-o" : RawText), out]

/-- The arguments of the Rust compiler. -/
def RustSettings.arguments (s : RustSettings) (source out : Path) : List RawText :=
  ofTexts ["--crate-type", "cdylib"]
    ++ ofTexts ((s.optimize.map fun level => ["-C", "opt-level=" ++ level.text]).getD [])
    ++ switchFlag "-g" s.debug
    ++ flagEach "-L" s.librarySearchPaths
    ++ flagEach "-l" (s.libraries.map ofTexts)
    ++ [source, ("-o" : RawText), out]

/-! ## Linking a Kotlin library -/

namespace Library

/-- A text without `.a` at its end. -/
def withoutSuffix (text : String) : String :=
  match Text.stripEnd? ".a".toList text.toList with
  | some rest => .ofList rest
  | none => text

/-- The header that the compiler writes beside a library, as it is named in a source. -/
def header (library : Path) : String := withoutSuffix library.shown ++ "_api.h"

/-- The name by which a library calls its table of symbols. -/
def symbolName (library : Path) : String :=
  .ofList ((withoutSuffix library.shownName).toList.map fun c =>
    if c.isAlphanum then c else '_')

/-- The object that the forwarding functions are compiled to. -/
def intermediate (library : Path) : Path := library ++ (".intermediate.o" : RawText)

end Library

/-! ## Plans -/

/-- The steps of a build, and what they write. -/
structure Plan where
  outputs : Outputs
  steps : List Invocation
deriving DecidableEq, Repr, Inhabited

namespace Plan

/-- The steps that turn a Kotlin source into a module. -/
def konanSteps (s : KonanSettings) (source : Path) (outputs : Outputs)
    (signatures : List Signature) (timeout : Nat) : List Invocation :=
  let library := outputs.primary
  let object := Library.intermediate library
  let forwarding :=
    Forwarding.source (Library.header library) (Library.symbolName library) signatures
  [{ program := "konanc", arguments := s.arguments source library, timeout },
    { program := "clang++", arguments := ["-c", "-x", "c++", "-o", object, "-"]
      input := some forwarding, timeout },
    { program := "clang++", arguments := ["-shared", object, library, "-o", outputs.artifact]
      timeout }]

/-- The plan for a source. Only the forwarding functions of a Kotlin source need its signatures. -/
def of (directory source : Path) (settings : ModuleSettings) (signatures : List Signature) :
    Plan :=
  let outputs := Outputs.of directory source settings
  let timeout := settings.timeout * 1000
  let steps := match settings with
    | .clang s =>
      [{ program := "clang", arguments := s.arguments source outputs.primary, timeout }]
    | .konan s => konanSteps s source outputs signatures timeout
    | .rust s =>
      [{ program := "rustc", arguments := s.arguments source outputs.primary, timeout }]
  { outputs, steps }

/-- The directory that modules go to. -/
def defaultDirectory : Path := "out"

/-- Where the module of a source goes if its settings say nothing else. -/
def defaultArtifact (b : Backend) (directory source : Path) : Path :=
  (Outputs.default b directory source.shownName).artifact

end Plan

end ForeignModule
