import ForeignModule.CommandLine.Arguments

/-!
# Help

What the program tells about its commands and options.
-/

namespace ForeignModule.CommandLine

/-- The name under which the program is called. -/
def programName : String := "nativekit"

/-- The version of the program. -/
def version : String := "0.3.0"

namespace Help

/-- What a verb does. -/
def purpose : Verb → String
  | .build => "Builds and binds each source, writing its \x60.d.ts\x60 stub"
  | .inspect => "Lists exported signatures with their ABI tags, without building"
  | .call => "Builds a source and calls one of its exports"
  | .clean => "Deletes the build hash cache, or only the entries for the given sources"

/-- The operands of a verb, with what is to be said about them. -/
def operands : Verb → List (String × String)
  | .build => [("<PATHS>...", "")]
  | .inspect => [("<PATH>", "")]
  | .call =>
    [("<PATH>", ""), ("<FUNCTION>", ""),
      ("[ARGS]...", "Literal arguments: numbers, true/false, null, or text")]
  | .clean => [("[PATHS]...", "")]

/-- The options, with what they do. -/
def options : List (String × String) :=
  [("    --config <path>", "Build configuration file (defaults to ./nativekit.yaml when present)"),
    ("-v, --verbose...", "Log verbosity: -v errors, -vv warnings, -vvv progress, -vvvv debug"),
    ("    --out-dir <dir>", "Directory for artifacts of modules without an \x60out\x60 setting"),
    ("    --no-cache", "Always rebuild and leave the hash cache untouched"),
    ("    --strict", "Refuse to bind functions whose types have no ABI mapping"),
    ("-h, --help", "Print help")]

/-- The option that asks for the version. -/
def versionOption : String × String := ("-V, --version", "Print version")

/-- Two columns; the first one is as wide as it has to be. -/
def columns (rows : List (String × String)) : String :=
  let width := (rows.map fun row => row.1.length).foldl max 0
  String.join (rows.map fun (left, right) =>
    "  " ++ left ++ "".pushn ' ' (width - left.length) ++ "  " ++ right ++ "\n")

/-- General help. -/
def general : String :=
  let verbs := Verb.all.map fun verb => (verb.name, purpose verb)
  "Build C, Kotlin/Native and Rust sources into loadable native modules\n\nUsage: "
    ++ programName ++ " [OPTIONS] <COMMAND>\n\nCommands:\n"
    ++ columns
      (verbs ++ [("help", "Print this message or the help of the given subcommand(s)")])
    ++ "\nOptions:\n" ++ columns (options ++ [versionOption])

/-- Help about a verb. -/
def about (verb : Verb) : String :=
  purpose verb ++ "\n\nUsage: " ++ programName ++ " " ++ verb.name ++ " [OPTIONS] "
    ++ " ".intercalate ((operands verb).map Prod.fst) ++ "\n\nArguments:\n"
    ++ columns (operands verb) ++ "\nOptions:\n" ++ columns options

end Help

end ForeignModule.CommandLine
