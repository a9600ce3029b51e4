import ForeignModule.Proofs.Bounds.CHeader
import ForeignModule.Proofs.Bounds.KotlinFunction
import ForeignModule.Proofs.Bounds.RustExport
import ForeignModule.Proofs.Bounds.ScannerRun
import ForeignModule.Signature.Extraction

/-!
# Extraction stays within its text

The extraction of signatures as one program that reads its text by byte offsets and its tokens by index. On every
text and with every grammar it ends, with the result that `Signature.ofSource` gives (`ofSource_eq_pure`). So it
takes no stretch of text from inside of a character or behind the end, reads no token that is not there, takes no
part of a list that ends before it starts, and counts below zero nowhere: each of these is a `Trap`.
-/

namespace ForeignModule.Bounds

/-- The functions that a C source declares or defines. -/
def ofC (source : String) : Run (Except Violation (List Signature)) := do
  match ← Scanner.tokenize .c source with
  | .ok tokens => .ok <$> CHeader.headers tokens
  | .error e => pure (.error (.unclosed e))

/-- The functions that a Kotlin source exports. -/
def ofKotlin (source : String) : Run (Except Violation (List Signature)) := do
  match ← Scanner.tokenize .kotlin source with
  | .ok tokens => KotlinFunction.functions tokens
  | .error e => pure (.error (.unclosed e))

/-- The functions that a Rust source exports. -/
def ofRust (source : String) : Run (Except Violation (List Signature)) := do
  match ← Scanner.tokenize .rust source with
  | .ok tokens => .ok <$> RustExport.functions tokens
  | .error e => pure (.error (.unclosed e))

/-- The functions that a source text exports under a backend's grammar. -/
def ofSource : Backend → String → Run (Except Violation (List Signature))
  | .clang => ofC
  | .konan => ofKotlin
  | .rust => ofRust

theorem ofC_eq (source : String) : ofC source = pure (Signature.ofC source) := by
  rw [ofC, Signature.ofC, Scanner.tokenize_eq, pure_bind]
  cases htokens : tokenize .c source with
  | error e => rfl
  | ok tokens =>
    dsimp only
    rw [CHeader.headers_eq (Token.lexical_of_tokenize (by decide) htokens)]
    rfl

theorem ofKotlin_eq (source : String) : ofKotlin source = pure (Signature.ofKotlin source) := by
  rw [ofKotlin, Signature.ofKotlin, Scanner.tokenize_eq, pure_bind]
  cases tokenize .kotlin source with
  | error e => rfl
  | ok tokens => exact KotlinFunction.functions_eq tokens

theorem ofRust_eq (source : String) : ofRust source = pure (Signature.ofRust source) := by
  rw [ofRust, Signature.ofRust, Scanner.tokenize_eq, pure_bind]
  cases tokenize .rust source with
  | error e => rfl
  | ok tokens =>
    dsimp only
    rw [RustExport.functions_eq]
    rfl

/-- On every text and with every grammar the extraction ends with its result, and is stopped by no trap. -/
theorem ofSource_eq_pure (b : Backend) (source : String) : ofSource b source = pure (Signature.ofSource b source) := by
  cases b with
  | clang => exact ofC_eq source
  | konan => exact ofKotlin_eq source
  | rust => exact ofRust_eq source

end ForeignModule.Bounds
