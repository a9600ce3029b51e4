import ForeignModule.Loading.Failure

/-!
# What a command tells

The text for both outputs, and the exit code. Words may be painted; a failure is reported with all
its causes.
-/

namespace ForeignModule.CommandLine

/-- How a command ends, and what it has told. -/
structure Outcome where
  code : Nat := 0
  output : String := ""
  complaint : String := ""
deriving DecidableEq, Repr, Inhabited

/-- How a word is painted. -/
inductive Paint where
  | bold
  | green
  | yellow
  | cyan
  | boldGreen
  | boldRed
deriving DecidableEq, Repr, Inhabited

namespace Paint

/-- The numbers that terminals know a paint by. -/
def codes : Paint → String
  | bold => "1"
  | green => "32"
  | yellow => "33"
  | cyan => "36"
  | boldGreen => "1;32"
  | boldRed => "1;31"

/-- A painted text, if there is any paint. -/
def apply (p : Paint) (colored : Bool) (text : String) : String :=
  if colored then "\x1b[" ++ p.codes ++ "m" ++ text ++ "\x1b[0m" else text

end Paint

namespace Report

/-- A failure and its causes in one line. -/
def line (chain : List Cause) : String := ": ".intercalate (chain.map Cause.text)

/-- A text whose further lines are indented like its first one. -/
def indent (first further text : String) : String :=
  first ++ .ofList (text.toList.flatMap fun c => if c = '\n' then c :: further.toList else [c])

/-- The lines of the causes. They are counted if there is more than one. -/
def causes : List String → List String
  | [cause] => [indent "    " "    " cause]
  | causes => causes.zipIdx.map fun (cause, n) =>
    let number := toString n
    indent ("".pushn ' ' (5 - number.length) ++ number ++ ": ") "       " cause

/-- A failure with its causes below it. -/
def text (chain : List Cause) : String :=
  match chain.map Cause.text with
  | [] => "Error: \n"
  | [failure] => "Error: " ++ failure ++ "\n"
  | failure :: more =>
    "Error: " ++ failure ++ "\n\nCaused by:\n" ++ "\n".intercalate (causes more) ++ "\n"

end Report

namespace Outcome

/-- A command that succeeds and has told this. -/
def told (output : String) : Outcome := { output }

/-- A command that fails after it has told this. -/
def failed (output : String) (chain : List Cause) : Outcome :=
  { code := 1, output, complaint := Report.text chain }

/-- A program that cannot go on at this site, for this reason. Whatever else it was about to tell is
lost. -/
def crashed (site complaint : String) : Outcome :=
  { code := 101
    complaint := "\n" ++ site ++ ":\n" ++ complaint
      ++ "\nnote: run with \x60RUST_BACKTRACE=1\x60 environment variable to display a backtrace\n" }

/-- A command line that is none. -/
def misused (complaint : String) : Outcome := { code := 2, complaint }

end Outcome

end ForeignModule.CommandLine
