import ForeignModule.Backend
import ForeignModule.Signature.CHeader
import ForeignModule.Signature.KotlinFunction
import ForeignModule.Signature.RustExport

/-!
# Signatures of a source text

Each backend recognises one shape of declaration.
-/

namespace ForeignModule.Signature

/-- The functions that a source text exports under a backend's grammar. -/
def ofSource : Backend → String → Except Violation (List Signature)
  | .clang => ofC
  | .konan => ofKotlin
  | .rust => ofRust

end ForeignModule.Signature
