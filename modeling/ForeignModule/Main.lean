import ForeignModule.CommandLine.Commands

/-!
# The program

Reads the files that a command line names into a disk, carries the command out there, and writes
back what has changed. It starts no other program: every tool counts as missing, and no file can be
loaded. What it reads and writes outside has names that are texts.
-/

namespace ForeignModule.Main

open ForeignModule.CommandLine

/-- What this program finds outside. -/
def environment (colored : Bool) : Environment where
  start _ _ := pure (.error .notFound)
  library? _ := none
  colored

/-- The sources that a command is about. -/
def sources : Command → List Path
  | .build sources | .clean sources => sources
  | .inspect source | .call source _ _ => [source]

/-- The files that are read for a command before its configuration is known. -/
def firstFiles (o : Options) (c : Command) : List Path :=
  o.config.getD Configuration.defaultFile :: Cache.defaultPath :: sources c

/-- The files that the configuration adds for a source. -/
def moreFiles (o : Options) (configuration : Configuration) (source : Path) : List Path :=
  match Backend.ofPath? source with
  | none => []
  | some b =>
    let settings := configuration.resolve b source.shownName
    let directory := o.directory.getD Plan.defaultDirectory
    [settings.signatureSource source, (Outputs.of directory source settings).artifact]

/-- Reads a file into a disk, if it is there. -/
def fetch (d : Disk) (path : Path) : IO Disk := do
  try
    let content ← IO.FS.readBinFile path.shown
    return (d.writeBelow path content.toList).2
  catch _ => return d

/-- Writes back what a command has put at a place. -/
def store (before : Disk) (location : Location) (node : Node) : IO Unit := do
  let path := location.path.shown
  unless before.node? location == some node do
    match node with
    | .directory => IO.FS.createDirAll path
    | .file content => IO.FS.writeBinFile path ⟨content.toArray⟩
    | .link _ => pure ()

/-- Removes what a command has removed from a place. -/
def discard (after : Disk) (location : Location) : IO Unit := do
  if (after.node? location).isNone then IO.FS.removeFile location.path.shown

/-- The disk on which a command line is carried out. -/
def fetchAll (d : Disk) (arguments : List RawText) : IO Disk := do
  match Command.parse arguments with
  | .error _ => return d
  | .ok (o, command) =>
    let d ← (firstFiles o command).foldlM fetch d
    match Configuration.discover o.config d with
    | .error _ => return d
    | .ok configuration => ((sources command).flatMap (moreFiles o configuration)).foldlM fetch d

/-- Carries out a command line, and gives its exit code. -/
def run (arguments : List String) : IO UInt32 := do
  let names := (Path.names (toString (← IO.currentDir))).filter (!·.isEmpty)
  let arguments := RawText.ofTexts arguments
  let before ← fetchAll (.empty names) arguments
  let colored := (← IO.getEnv "CLICOLOR_FORCE").any (· != "0")
  let workspace : Workspace := { disk := before, cache := .ofPath Cache.defaultPath 0 }
  let (outcome, after) := ((environment colored).run arguments).run workspace
  for (location, node) in after.disk.nodes.toList do store before location node
  for location in before.nodes.keys do discard after.disk location
  (← IO.getStdout).putStr outcome.output
  (← IO.getStderr).putStr outcome.complaint
  return outcome.code.toUInt32

end ForeignModule.Main

/-- Carries out the command line. -/
def main (arguments : List String) : IO UInt32 := ForeignModule.Main.run arguments
