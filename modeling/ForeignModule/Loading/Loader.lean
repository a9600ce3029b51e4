import ForeignModule.Loading.Failure

/-!
# Loading modules

From a source file to functions that can be called: find its settings and signatures, ask the
cache, build, bind, and write the declarations beside the artifact.
-/

namespace ForeignModule

/-- How modules are loaded. -/
structure Loader where
  configuration : Configuration
  builder : Builder
  /-- Are functions refused whose types are in no table? -/
  strict : Bool := false
  /-- The library that a file's content makes, if it makes one. -/
  library? : List UInt8 → Option Native.Library

/-- What a source says without being built. -/
structure Inspection where
  backend : Backend
  module : String
  signatureSource : Path
  signatures : List Signature
deriving DecidableEq, Repr, Inhabited

/-- A module that has been built and bound. -/
structure LoadedModule where
  source : Path
  backend : Backend
  signatures : List Signature
  binding : Native.Binding
  /-- The file with the declarations. -/
  stub : Path

namespace Loader

open Routine

/-- What loading does: steps on a workspace, which may fail. -/
abbrev Load := ExceptT LoadError (Routine Workspace)

/-- One step that looks at the disk, and may fail. -/
def look (f : Disk → Except LoadError α) : Load α := .mk (ask fun w => f w.disk)

/-- The backend, name and settings of a source. -/
def resolve (l : Loader) (source : Path) :
    Except LoadError (Backend × String × ModuleSettings) :=
  match Backend.ofPath? source with
  | none => .error (.unsupported source)
  | some b =>
    let name := source.shownName
    .ok (b, name, l.configuration.resolve b name)

/-- Reads the signatures of a source. -/
def inspect (l : Loader) (source : Path) : Load Inspection := do
  let (backend, module, settings) ← l.resolve source
  let signatureSource := settings.signatureSource source
  let signatures ← look fun d =>
    (Signature.ofFile backend signatureSource d).mapError (.signatures signatureSource)
  return { backend, module, signatureSource, signatures }

/-- The library in a file. -/
def libraryAt (l : Loader) (path : Path) (d : Disk) :
    Except Native.LibraryFault Native.Library :=
  match d.read path with
  | .ok content =>
    match l.library? content with
    | some library => .ok library
    | none => .error (.ofContent content)
  | .error .isDirectory => .error .directory
  | .error _ => .error .missing

/-- Binds the artifact of a build, which is found by its path from the root: by a bare name the
system would look elsewhere. -/
def bind (l : Loader) (b : Backend) (module : String) (artifact : Path)
    (signatures : List Signature) : Load Native.Binding := do
  let loadable ← look fun d => (d.canonicalize artifact).mapError (.resolve artifact)
  look fun d =>
    (Native.bind b module loadable signatures l.strict (l.libraryAt loadable d)).mapError
      (.bind artifact loadable)

/-- Writes the declarations of a module beside its artifact. -/
def writeStub (artifact : Path) (m : Native.Binding) : Load Path := do
  let path := Declaration.path artifact m.module
  let content := Text.bytes m.declarations
  .mk (Workspace.onDisk (attempt fun d => (d.write path content).mapError (LoadError.stub path)))
  return path

/-- Loads the module of a source. The cache is asked even if the signatures cannot be read.

Reading the signatures and asking the cache are not ordered: both may go on at the same time. Here one comes
before the other, and nothing is lost by that. Reading changes nothing that the cache is asked about, and
asking changes no file but that of the cache, in which no signatures are looked for. -/
def load (l : Loader) (source : Path) : Load LoadedModule := do
  let (backend, module, settings) ← l.resolve source
  let signatureSource := settings.signatureSource source
  let read ← (ask fun w => Signature.ofFile backend signatureSource w.disk : Routine Workspace _)
  let upToDate ←
    if l.builder.cached then (Cache.shouldSkip source : Routine Workspace Bool) else pure false
  let signatures ← (read.mapError (.signatures signatureSource) : Except LoadError _)
  let artifact ← .mk do
    let built ← (l.builder.build { source, settings, signatures, upToDate }).run
    return built.mapError (.build source)
  let binding ← l.bind backend module artifact signatures
  let stub ← writeStub artifact binding
  return { source, backend, signatures, binding, stub }

/-- Loads the modules of several sources. Each result stands alone. -/
def loadAll (l : Loader) :
    List Path → Routine Workspace (List (Path × Except LoadError LoadedModule))
  | [] => pure []
  | source :: rest => do
    let result ← (l.load source).run
    return (source, result) :: (← l.loadAll rest)

end Loader

end ForeignModule
