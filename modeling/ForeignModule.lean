import ForeignModule.Abi.CType
import ForeignModule.Abi.KotlinType
import ForeignModule.Abi.RustType
import ForeignModule.Abi.Tag
import ForeignModule.Abi.TypeMap
import ForeignModule.Backend
import ForeignModule.Build.Builder
import ForeignModule.Build.Invocation
import ForeignModule.Build.Plan
import ForeignModule.Build.Watch
import ForeignModule.Cache
import ForeignModule.Cache.Entries
import ForeignModule.CommandLine.Arguments
import ForeignModule.CommandLine.Commands
import ForeignModule.CommandLine.Help
import ForeignModule.CommandLine.Report
import ForeignModule.CommandLine.Verbosity
import ForeignModule.Configuration.File
import ForeignModule.Configuration.Reading
import ForeignModule.Configuration.Section
import ForeignModule.Configuration.Settings
import ForeignModule.Digest.Reading
import ForeignModule.Digest.Sha256
import ForeignModule.Files.Change
import ForeignModule.Files.Disk
import ForeignModule.Files.Path
import ForeignModule.Json.Quoted
import ForeignModule.Json.TextMap
import ForeignModule.Loading.Failure
import ForeignModule.Loading.Loader
import ForeignModule.Main
import ForeignModule.Native.Binding
import ForeignModule.Native.Call
import ForeignModule.Native.Declaration
import ForeignModule.Native.Value
import ForeignModule.Number.Binary
import ForeignModule.Number.Decimal
import ForeignModule.Routine
import ForeignModule.Signature
import ForeignModule.Signature.CHeader
import ForeignModule.Signature.Extraction
import ForeignModule.Signature.File
import ForeignModule.Signature.KotlinFunction
import ForeignModule.Signature.RustExport
import ForeignModule.Source.Position
import ForeignModule.Source.Segment
import ForeignModule.Text.Blank
import ForeignModule.Text.Quoted
import ForeignModule.Text.Search
import ForeignModule.Text.Utf8
import ForeignModule.Text.Visible
import ForeignModule.Token
import ForeignModule.Token.Listing
import ForeignModule.Token.Nesting
import ForeignModule.Token.Rendering
import ForeignModule.Yaml.Character
import ForeignModule.Yaml.Document
import ForeignModule.Yaml.Layout
import ForeignModule.Yaml.Node
import ForeignModule.Yaml.Resolved
import ForeignModule.Yaml.Scalar
import ForeignModule.Yaml.Tag
import ForeignModule.Proofs.Token.Nesting
import ForeignModule.Proofs.Signature.RustExport
import ForeignModule.Proofs.Signature.RustFile
import ForeignModule.Proofs.Text.Search
import ForeignModule.Proofs.Token.Listing
import ForeignModule.Proofs.Token.Rendering
import ForeignModule.Proofs.Native.Binding
import ForeignModule.Proofs.Abi.CType
import ForeignModule.Proofs.Abi.LastSegment
import ForeignModule.Proofs.Abi.RawPointer
import ForeignModule.Proofs.Abi.RustOption
import ForeignModule.Proofs.Abi.RustPath
import ForeignModule.Proofs.Signature.CHeader
import ForeignModule.Proofs.Files.Disk
import ForeignModule.Proofs.Files.Change
import ForeignModule.Proofs.Json.TextMap
import ForeignModule.Proofs.Routine
import ForeignModule.Proofs.Text.Utf8
import ForeignModule.Proofs.Cache.Entries
import ForeignModule.Proofs.Cache.Consistency
import ForeignModule.Proofs.Cache.RoundTrip
import ForeignModule.Proofs.Cache.Pool
import ForeignModule.Proofs.Files.Keeping
import ForeignModule.Proofs.Files.Moving
import ForeignModule.Proofs.Cache.Keeping
import ForeignModule.Proofs.Build.Project
import ForeignModule.Proofs.Build.Freshness
import ForeignModule.Proofs.Signature.KotlinFile
import ForeignModule.Proofs.Build.Compiler
import ForeignModule.Proofs.Native.Declaration
import ForeignModule.Proofs.Bounds.Extraction
import ForeignModule.Proofs.Native.Calling
import ForeignModule.Proofs.Native.Acceptance
import ForeignModule.Proofs.Source.Grammar
import ForeignModule.Proofs.Source.Segment
import ForeignModule.Proofs.Token.Lossless
import ForeignModule.Proofs.Cache.Mapping
import ForeignModule.Proofs.Build.Discipline
import ForeignModule.Proofs.Interleaving
import ForeignModule.Proofs.Build.Interleaved
import ForeignModule.Proofs.Native.RoundTrip
import ForeignModule.Proofs.Native.Outcome
import ForeignModule.Proofs.Native.Agreement
import ForeignModule.Proofs.Native.Literal
import ForeignModule.Proofs.Digest.Content
import ForeignModule.Proofs.Cache.Shared
import ForeignModule.Proofs.Cache.History
import ForeignModule.Proofs.Source.Boundary
import ForeignModule.Proofs.Source.Alike
import ForeignModule.Proofs.Source.LineEnding
import ForeignModule.Proofs.Token.Outline
import ForeignModule.Proofs.Token.LineEnding
import ForeignModule.Proofs.Token.Places
import ForeignModule.Proofs.Token.Rereading
import ForeignModule.Proofs.Token.Comments
import ForeignModule.Proofs.Token.Lexemes
import ForeignModule.Proofs.Signature.Placeless
import ForeignModule.Proofs.Signature.DirectiveComment
import ForeignModule.Proofs.Token.KotlinLiteral
import ForeignModule.Proofs.Signature.KotlinLiteral
import ForeignModule.Proofs.Signature.KotlinDefaults
import ForeignModule.Proofs.Threads
import ForeignModule.Proofs.Files.Making
import ForeignModule.Proofs.Files.Ground
import ForeignModule.Proofs.Cache.Ground
import ForeignModule.Proofs.Cache.Views
import ForeignModule.Proofs.Loading.Undisturbed
import ForeignModule.Proofs.Loading.Housing
import ForeignModule.Proofs.Loading.Course
import ForeignModule.Proofs.Loading.Failing
import ForeignModule.Proofs.Loading.Recorded
import ForeignModule.Proofs.Loading.Together
import ForeignModule.Proofs.Loading.Outputs
import ForeignModule.Proofs.Build.Silent
import ForeignModule.Proofs.Guarding
import ForeignModule.Proofs.Cache.Beside
import ForeignModule.Proofs.Cache.Forgetting
import ForeignModule.Proofs.Cache.Knowledge
import ForeignModule.Proofs.Signature.Qualifiers
import ForeignModule.Proofs.Token.LineStart
import ForeignModule.Proofs.Configuration.Resolution
import ForeignModule.Proofs.Build.Arguments
import ForeignModule.Proofs.Build.DataFlow
import ForeignModule.Proofs.Build.Watching
import ForeignModule.Proofs.Cache.Leftover
import ForeignModule.Proofs.Digest.Whole
import ForeignModule.Proofs.Token.Partner
import ForeignModule.Proofs.Token.Splitting
import ForeignModule.Proofs.Abi.CanonicalSpelling
