import ForeignModule.Token.Listing
import ForeignModule.Token.Nesting
import ForeignModule.Token.Rendering

/-!
# Signatures

What a source file says about a function that it exports: its name, and the names and types of its
parameters and result as they are written. Nothing is checked here; types get their meaning later.
-/

namespace ForeignModule

/-- A parameter. Its type is the text of the type, empty when the source gives none. -/
structure Parameter where
  name : String
  type : String
deriving DecidableEq, Repr, Inhabited

/-- An exported function as its source declares it. -/
structure Signature where
  name : String
  result : String
  parameters : List Parameter
deriving DecidableEq, Repr, Inhabited

namespace Signature

/-- The number of parameters. -/
def arity (s : Signature) : Nat := s.parameters.length

end Signature

/-- Why a source text has no list of signatures. -/
inductive Violation where
  /-- A literal or comment is never closed. -/
  | unclosed (error : UnclosedError)
  /-- An exported Kotlin function does not spell out its result type. -/
  | missingResultType (function : String) (line : Nat)
deriving DecidableEq, Repr, Inhabited

namespace Violation

/-- The rule that is violated. -/
def rule : Violation → String
  | unclosed e => e.message
  | missingResultType _ _ => "Kotlin exports require an explicit return type"

/-- What violates it. -/
def subject : Violation → String
  | unclosed _ => "source"
  | missingResultType function _ => "fun " ++ function

/-- The line it is about. -/
def line : Violation → Nat
  | unclosed e => e.span.line
  | missingResultType _ line => line

/-- The wording of the violation. -/
def message (v : Violation) : String :=
  v.rule ++ " (\x60" ++ v.subject ++ "\x60, line " ++ toString v.line ++ ")"

end Violation

namespace Parameter

/-- Splits a parameter list at its commas and reads each part that is not empty. -/
def list (read : List Token → Parameter) (tokens : List Token) : List Parameter :=
  ((Token.splitTopLevel .comma 0 tokens).filter (!·.isEmpty)).map read

end Parameter

end ForeignModule
