import ForeignModule.Files.Path

/-!
# Arguments of the command line

A command is a verb with its operands. Options may stand before the verb or behind it; there they
take precedence. An argument of two dashes ends the options. Paths may be any bytes; all else has to be
text.

* `Options` are read one argument at a time by `Reading.step`;
* `Command.parse` reads a whole command line.
-/

namespace ForeignModule.CommandLine

/-- What can be asked for. -/
inductive Verb where
  | build
  | inspect
  | call
  | clean
deriving DecidableEq, Repr, Inhabited

namespace Verb

/-- All verbs, in the order in which they are listed. -/
def all : List Verb := [build, inspect, call, clean]

/-- The word for a verb. -/
def name : Verb → String
  | build => "build"
  | inspect => "inspect"
  | call => "call"
  | clean => "clean"

/-- The verb of a word. -/
def ofName? (word : RawText) : Option Verb := all.find? fun verb => (verb.name : RawText) == word

end Verb

/-- Why a command line is not carried out. -/
inductive Stop where
  /-- Help is asked for, in general or about a verb. -/
  | help (verb : Option Verb)
  | version
  /-- It is no command. -/
  | usage
deriving DecidableEq, Repr, Inhabited

/-- What is set by options. -/
structure Options where
  config : Option Path := none
  verbosity : Nat := 0
  directory : Option Path := none
  noCache : Bool := false
  strict : Bool := false
deriving DecidableEq, Repr, Inhabited

/-- An option that takes a value. -/
inductive Valued where
  | config
  | directory
deriving DecidableEq, Repr, Inhabited

/-- A switch. Only verbosity may be given more than once. -/
inductive Switch where
  | verbose
  | noCache
  | strict
  | help
  | version
deriving DecidableEq, Repr, Inhabited

/-- The options that take a value, by name. -/
def valuedNames : List (String × Valued) := [("config", .config), ("out-dir", .directory)]

/-- The switches by name. -/
def switchNames : List (String × Switch) :=
  [("verbose", .verbose), ("no-cache", .noCache), ("strict", .strict), ("help", .help),
    ("version", .version)]

/-- The switches with a letter. -/
def switchLetters : List (Char × Switch) := [('v', .verbose), ('h', .help), ('V', .version)]

/-- What an option starts with. -/
def dash : UInt8 := 0x2d

/-- What sets the value of an option apart. -/
def equals : UInt8 := 0x3d

namespace Options

/-- Options behind the verb take precedence over those before it. -/
def merge (before behind : Options) : Options :=
  { config := behind.config.or before.config
    verbosity := if behind.verbosity = 0 then before.verbosity else behind.verbosity
    directory := behind.directory.or before.directory
    noCache := before.noCache || behind.noCache
    strict := before.strict || behind.strict }

/-- Sets an option to a value, which must not be empty. -/
def setValue (o : Options) (option : Valued) (value : Path) : Except Stop Options :=
  if value.isEmpty then .error .usage
  else
    match option with
    | .config =>
      if o.config.isSome then .error .usage else .ok { o with config := some value }
    | .directory =>
      if o.directory.isSome then .error .usage else .ok { o with directory := some value }

end Options

/-- How far the arguments at one side of the verb have been read. -/
structure Reading where
  /-- The verb, behind it. -/
  verb : Option Verb := none
  options : Options := {}
  /-- What is no option, last one first. -/
  operands : List RawText := []
  /-- The option whose value comes next. -/
  pending : Option Valued := none
  /-- Have the options been ended? -/
  ended : Bool := false
deriving Repr, Inhabited

namespace Reading

/-- Can these operands, last one first, belong to a verb? Paths are not empty, and a call is told in
texts. -/
def admits (verb : Verb) (operands : List RawText) : Bool :=
  match verb, operands.reverse with
  | .build, paths | .clean, paths => paths.all (!·.isEmpty)
  | .inspect, paths => paths.all (!·.isEmpty) && paths.length ≤ 1
  | .call, path :: call => !path.isEmpty && call.all (·.text?.isSome)
  | .call, [] => true

/-- Have all operands so far been fitting ones? -/
def isSound (r : Reading) : Bool := r.verb.all (admits · r.operands)

/-- Turns a switch on. Help comes before all that is still missing, but not before what is already
wrong. The version is told before the verb only. -/
def turnOn (r : Reading) : Switch → Except Stop Reading
  | .verbose => .ok { r with options.verbosity := r.options.verbosity + 1 }
  | .noCache =>
    if r.options.noCache then .error .usage else .ok { r with options.noCache := true }
  | .strict => if r.options.strict then .error .usage else .ok { r with options.strict := true }
  | .help => .error (if r.isSound then .help r.verb else .usage)
  | .version => .error (if r.verb.isNone then .version else .usage)

/-- Reads an option by its name. -/
def long (r : Reading) (text : RawText) : Except Stop Reading :=
  let name := text.takeWhile (· ≠ equals)
  let option := (RawText.text? name).bind (List.lookup · valuedNames)
  match text.drop name.length, option with
  | [], some option => .ok { r with pending := some option }
  | [], none =>
    match (RawText.text? name).bind (List.lookup · switchNames) with
    | some switch => r.turnOn switch
    | none => .error .usage
  | _ :: value, some option =>
    (r.options.setValue option value).map fun options => { r with options }
  | _ :: _, none => .error .usage

/-- Reads switches by their letters. -/
def short (r : Reading) : List Char → Except Stop Reading
  | [] => .ok r
  | c :: rest =>
    match switchLetters.lookup c with
    | none => .error .usage
    | some switch =>
      match r.turnOn switch with
      | .error stop => .error stop
      | .ok r => short r rest

/-- Does the argument look like an option? A single dash does not. -/
def looksLikeOption (argument : RawText) : Bool :=
  match argument with
  | first :: _ :: _ => first == dash
  | _ => false

/-- Reads an operand. -/
def operand (r : Reading) (argument : RawText) : Except Stop Reading :=
  let r := { r with operands := argument :: r.operands }
  if r.isSound then .ok r else .error .usage

/-- Reads one argument. -/
def step (r : Reading) (argument : RawText) : Except Stop Reading :=
  match r.pending with
  | some option =>
    if looksLikeOption argument then .error .usage
    else
      (r.options.setValue option argument).map fun options =>
        { r with options, pending := none }
  | none =>
    if r.ended || !looksLikeOption argument then r.operand argument
    else
      match argument.tail with
      | second :: text =>
        if second ≠ dash then
          match RawText.text? (second :: text) with
          | some letters => r.short letters.toList
          | none => .error .usage
        else if text.isEmpty then .ok { r with ended := true }
        else r.long text
      | [] => r.operand argument

end Reading

/-- A verb with its operands. -/
inductive Command where
  | build (sources : List Path)
  | inspect (source : Path)
  | call (source : Path) (function : String) (arguments : List String)
  | clean (sources : List Path)
deriving DecidableEq, Repr, Inhabited

namespace Command

/-- The command that a verb makes of its operands. -/
def of? : Verb → List RawText → Option Command
  | .build, source :: more => some (build (source :: more))
  | .inspect, [source] => some (inspect source)
  | .call, source :: function :: arguments => do
    return call source (← function.text?) (← arguments.mapM RawText.text?)
  | .clean, sources => some (clean sources)
  | _, _ => none

/-- What asking for help about some words brings. -/
def helpAbout : List RawText → Stop
  | [] => .help none
  | [word] =>
    match Verb.ofName? word with
    | some verb => .help (some verb)
    | none => if word = "help" then .help none else .usage
  | _ => .usage

/-- Reads a verb and what stands behind it. -/
def parseVerb (before : Options) (word : RawText) (rest : List RawText) :
    Except Stop (Options × Command) := do
  match Verb.ofName? word with
  | none => throw (if word = "help" then helpAbout rest else .usage)
  | some verb =>
    let r ← rest.foldlM Reading.step { verb := some verb }
    match r.pending, of? verb r.operands.reverse with
    | none, some command => pure (before.merge r.options, command)
    | _, _ => throw .usage

/-- Reads the options before the verb, and then the rest. -/
def parseFrom (r : Reading) : List RawText → Except Stop (Options × Command)
  | [] => .error .usage
  | argument :: rest => do
    let r ← r.step argument
    match r.operands with
    | [] => parseFrom r rest
    | word :: _ => if r.ended then throw .usage else parseVerb r.options word rest

/-- Reads a command line. -/
def parse (arguments : List RawText) : Except Stop (Options × Command) := parseFrom {} arguments

end Command

end ForeignModule.CommandLine
