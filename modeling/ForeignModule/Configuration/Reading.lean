import ForeignModule.Configuration.Section
import ForeignModule.Text.Blank
import ForeignModule.Yaml.Document
import ForeignModule.Yaml.Resolved

/-!
# Reading configurations

A configuration is written in YAML. Unknown keys are refused, and so is a setting that is given
twice. Shared settings are read by what each of them asks for, so that any scalar is a text there;
the settings of single files are first resolved, so that only texts are texts.

* `Field` says how one setting is read, `Fields` lists those of a kind of settings;
* `Configuration.ofText?` reads a whole configuration.
-/

namespace ForeignModule

open ForeignModule.Yaml (Resolved Tag)

namespace Configuration

/-- Where a setting stands. -/
inductive Scope where
  | shared
  | file
deriving DecidableEq, Repr, Inhabited

/-! ## Values -/

/-- What a scalar stands for once it is resolved. -/
def resolved? : Yaml.Node → Option Resolved
  | .scalar tag style s => Resolved.of? tag style s
  | _ => none

/-- Can a collection with this tag be read? A tag of the document's own has no meaning where values
are resolved, and other tags say nothing about collections. -/
def admits (scope : Scope) (tag : Option Tag) : Bool :=
  scope == .shared || !tag.any Tag.isLocal

/-- The text of a scalar as it stands, or as it resolves. -/
def text? : Scope → Yaml.Node → Option String
  | .shared, .scalar _ _ s => some s
  | .shared, _ => none
  | .file, node =>
    match resolved? node with
    | some (.text s) => some s
    | _ => none

/-- The text of a scalar that may be something else than a text: it is written plain, or has the tag
that says so and keeps its lines. -/
def word? (expected : Tag) : Yaml.Node → Option String
  | .scalar _ .plain s => some s
  | .scalar tag .literal s => if tag = some expected then some s else none
  | _ => none

/-- A truth value. -/
def switch? : Scope → Yaml.Node → Option Bool
  | .shared, node => (word? .bool node).bind Resolved.bool?
  | .file, node =>
    match resolved? node with
    | some (.bool b) => some b
    | _ => none

/-- The natural number of a word without a minus sign. -/
def natural? (s : String) : Option Nat := do
  guard (s.toList.head? ≠ some '-')
  return (← Resolved.integer? s).toNat

/-- A position, which is a number without a minus sign. -/
def index? : Yaml.Node → Option Nat
  | .scalar tag style s =>
    match Resolved.of? tag style s with
    | some (.integer _) => natural? s
    | _ => none
  | _ => none

/-- A number of seconds. Minus zero is one only where it is resolved. -/
def seconds? (scope : Scope) (node : Yaml.Node) : Option UInt64 := do
  let n ← match scope with
    | .shared => (word? .int node).bind natural?
    | .file =>
      match resolved? node with
      | some (.integer n) => if 0 ≤ n then some n.toNat else none
      | _ => none
  if n < UInt64.size then some (.ofNat n) else none

/-- A list of texts. Where nothing is resolved, an empty plain scalar is an empty list. -/
def texts? (scope : Scope) : Yaml.Node → Option (List String)
  | .sequence tag items => if admits scope tag then items.mapM (text? scope) else none
  | .scalar _ .plain "" => if scope = .shared then some [] else none
  | _ => none

/-- A path. What is read is text. -/
def path? (scope : Scope) (node : Yaml.Node) : Option Path := (text? scope node).map Text.bytes

/-- A list of paths. -/
def paths? (scope : Scope) (node : Yaml.Node) : Option (List Path) :=
  (texts? scope node).map RawText.ofTexts

/-- Does a value say that a setting stays unset? If it is tagged to say nothing and does say
something, there is no answer. -/
def unsets? : Scope → Yaml.Node → Option Bool
  | .shared, .scalar none .plain s => some (s.isEmpty || Resolved.isNull s)
  | .shared, .scalar (some tag) .plain s =>
    if tag ≠ .null then some false else if Resolved.isNull s then some true else none
  | .shared, _ => some false
  | .file, node => some (resolved? node == some .null)

/-- A choice among names, by name or by position. -/
def choice? (choices : List (String × α)) (node : Yaml.Node) : Option α :=
  match text? .file node with
  | some name => choices.lookup name
  | none => do
    let choice ← choices[← index? node]?
    pure choice.2

/-- A level of optimization: a small number or a name. A name may also be the key of a mapping
that says nothing more. Levels are resolved wherever they stand. -/
def level? (ofNumber : UInt8 → α) (named : List (String × α)) (_ : Scope) : Yaml.Node → Option α
  | .mapping tag [(key, value)] =>
    if admits .file tag && resolved? value == some .null then choice? named key else none
  | node =>
    match resolved? node with
    | some (.integer n) => if 0 ≤ n ∧ n < 256 then some (ofNumber (.ofNat n.toNat)) else none
    | some (.text name) => named.lookup name
    | _ => none

/-! ## Settings -/

/-- How one setting is read: under which names, and what it does to the settings. -/
structure Field (α : Type) where
  names : List String
  read? : Scope → Yaml.Node → Option (α → α)

/-- A setting whose value may be null, which leaves it unset. -/
def Field.of (names : List String) (value? : Scope → Yaml.Node → Option β)
    (set : Option β → α → α) : Field α where
  names
  read? scope node := do
    if ← unsets? scope node then return set none
    return set (some (← value? scope node))

/-- The settings of a kind, in order. -/
class Fields (α : Type) where
  fields : List (Field α)

instance : Fields ClangSettings where
  fields :=
    [.of ["out"] path? fun v s => { s with out := v },
      .of ["optimize"] (level? .level ClangLevel.named) fun v s => { s with optimize := v },
      .of ["debug"] switch? fun v s => { s with debug := v },
      .of ["libraries"] texts? fun v s => { s with libraries := v },
      .of ["frameworks"] texts? fun v s => { s with frameworks := v },
      .of ["header_search_paths", "headerSearchPaths"] paths?
        fun v s => { s with headerSearchPaths := v },
      .of ["lib_search_paths", "libSearchPaths"] paths?
        fun v s => { s with librarySearchPaths := v },
      .of ["additional_sources", "additionalSources"] paths?
        fun v s => { s with additionalSources := v },
      .of ["use_header", "useHeader"] path? fun v s => { s with useHeader := v },
      .of ["timeout_secs", "timeoutSecs"] seconds? fun v s => { s with timeoutSeconds := v }]

instance : Fields KonanSettings where
  fields :=
    [.of ["out"] path? fun v s => { s with out := v },
      .of ["optimize"] switch? fun v s => { s with optimize := v },
      .of ["debug"] switch? fun v s => { s with debug := v },
      .of ["libraries"] texts? fun v s => { s with libraries := v },
      .of ["additional_sources", "additionalSources"] paths?
        fun v s => { s with additionalSources := v },
      .of ["timeout_secs", "timeoutSecs"] seconds? fun v s => { s with timeoutSeconds := v }]

instance : Fields RustSettings where
  fields :=
    [.of ["out"] path? fun v s => { s with out := v },
      .of ["optimize"] (level? .level RustLevel.named) fun v s => { s with optimize := v },
      .of ["debug"] switch? fun v s => { s with debug := v },
      .of ["libraries"] texts? fun v s => { s with libraries := v },
      .of ["lib_search_paths", "libSearchPaths"] paths?
        fun v s => { s with librarySearchPaths := v },
      .of ["timeout_secs", "timeoutSecs"] seconds? fun v s => { s with timeoutSeconds := v }]

section Entry

variable {α : Type} [Settings α] [Fields α]

/-- The position of the setting that a key names. The settings of a file may also be given by
position. -/
def position? (α : Type) [Fields α] (scope : Scope) (key : Yaml.Node) : Option Nat :=
  match text? scope key with
  | some name => (Fields.fields (α := α)).findIdx? fun f => f.names.contains name
  | none => if scope = .file then index? key else none

/-- Reads one setting. -/
def setting? (scope : Scope) (position : Nat) (node : Yaml.Node) : Option (α → α) := do
  let field ← (Fields.fields (α := α))[position]?
  field.read? scope node

/-- Reads the settings of a mapping, each at most once. -/
def mapping? (scope : Scope) (pairs : List (Yaml.Node × Yaml.Node)) : Option α := do
  let placed ← pairs.mapM fun (key, node) => do
    let position ← position? α scope key
    pure (position, ← setting? (α := α) scope position node)
  let positions := placed.map Prod.fst
  if positions.eraseDups = positions then
    some (placed.foldl (fun s (_, set) => set s) Settings.unset)
  else none

/-- Reads settings: a mapping or, for a file, the values in order. For all files an empty plain
scalar is an empty mapping. -/
def settings? (scope : Scope) : Yaml.Node → Option α
  | .mapping tag pairs => if admits scope tag then mapping? scope pairs else none
  | .sequence tag items =>
    if scope = .file ∧ admits scope tag then do
      let sets ← items.zipIdx.mapM fun (node, position) => setting? scope position node
      pure (sets.foldl (fun s set => set s) Settings.unset)
    else none
  | .scalar _ .plain "" => if scope = .shared then some Settings.unset else none
  | _ => none

/-! ## Sections -/

/-- The pairs of a mapping. An empty plain scalar is an empty mapping. -/
def pairs? : Yaml.Node → Option (List (Yaml.Node × Yaml.Node))
  | .mapping _ pairs => some pairs
  | .scalar _ .plain "" => some []
  | _ => none

/-- Takes the value of a key that is given at most once out of pairs. -/
def takeKey? (name : String) (pairs : List (String × Yaml.Node)) :
    Option (Option Yaml.Node × List (String × Yaml.Node)) :=
  match pairs.filter (·.1 == name) with
  | [] => some (none, pairs)
  | [(_, node)] => some (some node, pairs.filter (·.1 != name))
  | _ => none

/-- The keys of a mapping as texts. -/
def keyed? (node : Yaml.Node) : Option (List (String × Yaml.Node)) := do
  (← pairs? node).mapM fun (key, value) => do pure (← text? .shared key, value)

/-- Reads a section. Of two entries for one file the later one stays. -/
def section? (node : Yaml.Node) : Option (Section α) := do
  let (shared, files) ← takeKey? "global" (← keyed? node)
  let shared ← match shared with
    | none => pure none
    | some node => if ← unsets? .shared node then pure none else (settings? .shared node).map some
  let files ← files.mapM fun (name, node) => do pure (name, ← settings? .file node)
  pure { shared, files := files.foldl (fun m (name, s) => m.insert name s) ∅ }

/-- Reads a section that may be left out. -/
def sectionOr? : Option Yaml.Node → Option (Section α)
  | none => some {}
  | some node => section? node

end Entry

/-- Reads a configuration from a document. -/
def ofNode? (node : Yaml.Node) : Option Configuration := do
  let pairs ← keyed? node
  let (clang, pairs) ← takeKey? "clang" pairs
  let (konan, pairs) ← takeKey? "konan" pairs
  let (rust, pairs) ← takeKey? "rust" pairs
  if pairs.isEmpty then
    pure { clang := ← sectionOr? clang, konan := ← sectionOr? konan, rust := ← sectionOr? rust }
  else none

/-- The wording of a text that is no configuration. -/
def failure : String := "failed to parse build configuration"

/-- Reads a configuration from a text. A text without content is the empty configuration. -/
def ofText? (text : String) : Option Configuration :=
  if text.toList.all Text.isBlank then some {}
  else do
    match ← Yaml.Node.ofText? text with
    | none => pure {}
    | some node => (ofNode? node).map sanitize

end Configuration

end ForeignModule
