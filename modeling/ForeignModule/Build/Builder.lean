import ForeignModule.Build.Plan
import ForeignModule.Cache

/-!
# Builds

Runs the steps of a plan, unless the artifact that is there can stay, and records the source in the
cache when all has gone well.
-/

namespace ForeignModule

/-- Why there is no artifact. -/
inductive BuildError where
  | missingSource (source : Path)
  | tool (program : String) (error : ToolError)
  | missingArtifact (artifact : Path)
  | disk (path : Path) (fault : Fault)
  /-- The program cannot go on. It ends with this complaint. -/
  | crashed (complaint : String)
deriving DecidableEq, Repr, Inhabited

namespace BuildError

/-- The wording of the error. -/
def message : BuildError → String
  | missingSource source => "source file " ++ source.shown ++ " does not exist"
  | tool program error => error.message program
  | missingArtifact artifact => "toolchain succeeded but " ++ artifact.shown ++ " was not produced"
  | disk path _ => "I/O error on " ++ path.shown
  | crashed complaint => complaint

/-- The fault behind the error. -/
def fault? : BuildError → Option Fault
  | tool _ (.notStarted fault) => some fault
  | disk _ fault => some fault
  | _ => none

end BuildError

/-- How tools run: what an invocation does to the disk, after those that came before it. It may fail with
any error of a build. -/
abbrev Toolchain := List Invocation → Invocation → Routine Disk (Except BuildError Unit)

/-- What is to be built. -/
structure BuildRequest where
  source : Path
  settings : ModuleSettings
  signatures : List Signature
  /-- Has the source not changed since its last build? -/
  upToDate : Bool

/-- How builds are done. -/
structure Builder where
  toolchain : Toolchain
  /-- Where modules go whose settings say nothing else. -/
  directory : Path := Plan.defaultDirectory
  /-- Is the cache used? -/
  cached : Bool := true

namespace Builder

open Routine

/-- What a builder does: steps on a workspace, which may fail. -/
abbrev Build := ExceptT BuildError (Routine Workspace)

/-- Looks at the disk. -/
def look (f : Disk → α) : Build α := (ask fun w => f w.disk : Routine Workspace α)

/-- Makes the directory of a path, if the path names one. -/
def ensureParent (path : Path) : Build Unit := do
  if let some directory := path.directory? then
    .mk (Workspace.onDisk (act fun d =>
      (d.makeDirectories directory).map (·.mapError (BuildError.disk directory)) id))

/-- Runs one tool. -/
def runTool (b : Builder) (i : Invocation) : Build Unit := .mk do
  let before ← ask (·.ran)
  change fun w => { w with ran := w.ran ++ [i] }
  Workspace.onDisk (b.toolchain before i)

/-- Runs tools in order, up to the first that fails. -/
def runTools (b : Builder) : List Invocation → Build Unit
  | [] => pure ()
  | i :: rest => do
    b.runTool i
    b.runTools rest

/-- The plan for a request. -/
def plan (b : Builder) (r : BuildRequest) : Plan :=
  Plan.of b.directory r.source r.settings r.signatures

/-- Runs the steps of a plan, and records the source if its artifact is there then. That recording
fails is no fault of the build. -/
def rebuild (b : Builder) (source : Path) (plan : Plan) : Build Path := do
  b.runTools plan.steps
  unless ← look (·.exists? plan.outputs.artifact) do
    throw (.missingArtifact plan.outputs.artifact)
  if b.cached then
    let _ ← (Cache.record source : Routine Workspace (Except CacheError Unit))
  return plan.outputs.artifact

/-- Builds what is requested, and gives the path of the artifact. -/
def build (b : Builder) (r : BuildRequest) : Build Path := do
  unless ← look (·.isFile r.source) do throw (.missingSource r.source)
  let plan := b.plan r
  ensureParent plan.outputs.primary
  ensureParent plan.outputs.artifact
  if r.upToDate then
    if ← look (·.exists? plan.outputs.artifact) then return plan.outputs.artifact
  b.rebuild r.source plan

end Builder

end ForeignModule
