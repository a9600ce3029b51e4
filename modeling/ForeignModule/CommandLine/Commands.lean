import ForeignModule.Build.Process
import ForeignModule.CommandLine.Help
import ForeignModule.CommandLine.Report
import ForeignModule.CommandLine.Verbosity
import ForeignModule.Loading.Loader

/-!
# Commands

What each command does with a workspace and what it tells about it.
-/

namespace ForeignModule.CommandLine

open Routine

/-- What a run of the program finds. -/
structure Environment where
  /-- How its tools are started. -/
  start : Starting
  library? : List UInt8 → Option Native.Library
  /-- Are words painted? -/
  colored : Bool := false
  /-- Which thread asks for a time of the clock, and where in the program. -/
  site : String := ""

namespace Environment

variable (e : Environment)

/-- Goes on with a loader, or fails for want of a configuration. -/
def withLoader (o : Options) (f : Loader → Routine Workspace Outcome) :
    Routine Workspace Outcome := do
  match ← ask fun w => Configuration.discover o.config w.disk with
  | .error error => return .failed "" error.chain
  | .ok configuration =>
    let builder : Builder :=
      { toolchain := .ofProcesses e.start, directory := o.directory.getD Plan.defaultDirectory
        cached := !o.noCache }
    f { configuration, builder, strict := o.strict, library? := e.library? }

/-! ## Building -/

/-- The line about a module that has been built. -/
def builtLine (source : Path) (m : LoadedModule) : String :=
  Paint.boldGreen.apply e.colored "built" ++ " " ++ source.shown ++ " ("
    ++ toString m.binding.functions.length ++ " exports) -> " ++ m.binding.artifact.shown ++ "\n"

/-- The line about a module that has not. -/
def failedLine (source : Path) (error : LoadError) : String :=
  Paint.boldRed.apply e.colored "failed" ++ " " ++ source.shown ++ ": " ++ Report.line error.chain ++ "\n"

/-- What is told about a failure. -/
def failure (error : LoadError) : Outcome :=
  match error.crash? with
  | some complaint => .crashed e.site complaint
  | none => .failed "" error.chain

/-- The failure of a module, if it is one that ends the program. -/
def crashOf? : Path × Except LoadError LoadedModule → Option String
  | (_, .error error) => error.crash?
  | (_, .ok _) => none

/-- What is told about modules of which none ends the program. -/
def buildReport (results : List (Path × Except LoadError LoadedModule)) : Outcome :=
  let built := results.filterMap fun (source, result) => result.toOption.map (e.builtLine source)
  let failed := results.filterMap fun
    | (source, .error error) => some (e.failedLine source error)
    | _ => none
  let output := String.join built
  if failed.isEmpty then .told output
  else
    let summary := toString failed.length ++ " of " ++ toString results.length
      ++ " module(s) failed to build"
    { code := 1, output, complaint := String.join failed ++ Report.text [.message summary] }

/-- What is told about modules. -/
def buildOutcome (results : List (Path × Except LoadError LoadedModule)) : Outcome :=
  match results.findSome? crashOf? with
  | some complaint => .crashed e.site complaint
  | none => e.buildReport results

/-- Builds and binds sources. -/
def build (o : Options) (sources : List Path) : Routine Workspace Outcome :=
  e.withLoader o fun l => do return e.buildOutcome (← l.loadAll sources)

/-! ## Inspecting -/

/-- A type, with how its values are passed and what a declaration shows of it. -/
def slotText (b : Backend) (raw : String) (shown : Abi.Presentation) : String :=
  let type := Abi.SlotType.ofText b raw
  let paint := if type.isUnmapped then Paint.yellow else .cyan
  raw ++ " [" ++ paint.apply e.colored type.text ++ ", " ++ shown.name ++ "]"

/-- The line about a signature. -/
def signatureLine (b : Backend) (s : Signature) : String :=
  let parameters := s.parameters.map fun p =>
    p.name ++ ": " ++ e.slotText b p.type (.ofParameter b p.type)
  "  " ++ Paint.green.apply e.colored s.name ++ "(" ++ ", ".intercalate parameters ++ ") -> "
    ++ e.slotText b s.result (.ofResult b s.result) ++ "\n"

/-- What is told about a source that has been inspected. -/
def inspectionText (i : Inspection) : String :=
  let head := Paint.bold.apply e.colored "module" ++ " " ++ i.module ++ " (" ++ i.backend.name
    ++ ", read from " ++ i.signatureSource.shown ++ ")\n"
  if i.signatures.isEmpty then head ++ "  no exported functions\n"
  else head ++ String.join (i.signatures.map (e.signatureLine i.backend))

/-- Lists the signatures of a source. -/
def inspect (o : Options) (source : Path) : Routine Workspace Outcome :=
  e.withLoader o fun l => do
    match ← (l.inspect source).run with
    | .error error => return e.failure error
    | .ok i => return .told (e.inspectionText i)

/-! ## Calling -/

/-- Calls a function of a module that has been loaded, with literals. -/
def callOutcome (source : Path) (m : Native.Binding) (function : String)
    (arguments : List String) : Outcome :=
  match m.function? function with
  | none =>
    .failed "" [.message ("\x60" ++ function ++ "\x60 is not exported by " ++ source.shown
      ++ " (available: " ++ ", ".intercalate m.names ++ ")")]
  | some f =>
    match f.call (arguments.map Native.Value.ofLiteral) with
    | .error error =>
      .failed "" [.message ("call to \x60" ++ function ++ "\x60 failed"),
        .message (error.message f.name)]
    | .ok value => .told (value.display ++ "\n")

/-- Builds a source and calls one of its functions. -/
def call (o : Options) (source : Path) (function : String) (arguments : List String) :
    Routine Workspace Outcome :=
  e.withLoader o fun l => do
    match ← (l.load source).run with
    | .error error => return e.failure error
    | .ok m => return callOutcome source m.binding function arguments

/-! ## Cleaning -/

/-- Drops sources from the cache, up to the first that cannot be dropped. -/
def forget (output : String) : List Path → Routine Workspace Outcome
  | [] => return .told output
  | source :: rest => do
    match ← Cache.forget source with
    | .error error =>
      let failure := "failed to update " ++ (← ask (·.cache.path)).shown
      return .failed output (.message failure :: error.chain)
    | .ok true =>
      forget (output ++ Paint.boldGreen.apply e.colored "forgot" ++ " " ++ source.shown ++ "\n") rest
    | .ok false => forget (output ++ source.shown ++ " not cached\n") rest

/-- Removes the file of the cache. -/
def removeCache : Routine Workspace Outcome := do
  let path ← ask (·.cache.path)
  let count := (← Cache.entries).size
  match ← Workspace.onDisk (attempt (·.removeFile path)) with
  | .error fault => return .failed "" (Cause.withFault ("failed to remove " ++ path.shown) (some fault))
  | .ok () =>
    return .told (Paint.boldGreen.apply e.colored "removed" ++ " " ++ path.shown ++ " ("
      ++ toString count ++ " entries)\n")

/-- Drops sources from the cache, or all of it. -/
def clean (sources : List Path) : Routine Workspace Outcome := do
  let path ← ask (·.cache.path)
  if ← ask fun w => !w.disk.exists? path then return .told ("no cache at " ++ path.shown ++ "\n")
  else if sources.isEmpty then e.removeCache
  else e.forget "" sources

/-! ## All commands -/

/-- Carries out a command. -/
def perform (o : Options) : Command → Routine Workspace Outcome
  | .build sources => e.build o sources
  | .inspect source => e.inspect o source
  | .call source function arguments => e.call o source function arguments
  | .clean sources => e.clean sources

/-- What is told about a command line that is not carried out. -/
def stopped : Stop → Outcome
  | .help none => .told Help.general
  | .help (some verb) => .told (Help.about verb)
  | .version => .told (programName ++ " " ++ version ++ "\n")
  | .usage => .misused Help.general

/-- Carries out a command line. -/
def run (arguments : List RawText) : Routine Workspace Outcome :=
  match Command.parse arguments with
  | .error stop => return stopped stop
  | .ok (o, command) => e.perform o command

end Environment

end ForeignModule.CommandLine
