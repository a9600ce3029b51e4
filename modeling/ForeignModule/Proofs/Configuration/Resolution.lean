import ForeignModule.Configuration.Section

/-!
# What the settings of a file come to

Settings are a row of things that may be set. `Fieldwise` looks at them one by one: two settings are
the same if every single thing is set to the same in both, and to lay settings over others, or to
clear what makes sense for a single file only, is to do so for each thing by itself.

* `merge_lawful`: laying settings over others is associative, and nothing set is its unit;
* `Section.resolves`: what a file has set itself counts, then what is set for all files, unless it
  makes sense for a single file only; nothing else of the section counts;
* `Configuration.resolve_fieldwise` puts both together for every backend.
-/

namespace ForeignModule

/-! ## Single settings -/

/-- One thing that can be set. Not every backend knows all of them. -/
inductive Setting where
  | out
  | optimize
  | debug
  | libraries
  | frameworks
  | headerSearchPaths
  | librarySearchPaths
  | additionalSources
  | useHeader
  | timeoutSeconds

namespace Setting

/-- Does it make sense for a single file only? -/
def isFileOnly : Setting → Bool
  | out | useHeader => true
  | _ => false

/-- What something is set to. -/
inductive Value where
  | path (p : Path)
  | clangLevel (level : ClangLevel)
  | rustLevel (level : RustLevel)
  | switch (on : Bool)
  | texts (l : List String)
  | paths (l : List Path)
  | seconds (n : UInt64)

end Setting

open Setting in
/-- What one thing is set to. -/
def ClangSettings.value? (s : ClangSettings) : Setting → Option Value
  | .out => s.out.map .path
  | .optimize => s.optimize.map .clangLevel
  | .debug => s.debug.map .switch
  | .libraries => s.libraries.map .texts
  | .frameworks => s.frameworks.map .texts
  | .headerSearchPaths => s.headerSearchPaths.map .paths
  | .librarySearchPaths => s.librarySearchPaths.map .paths
  | .additionalSources => s.additionalSources.map .paths
  | .useHeader => s.useHeader.map .path
  | .timeoutSeconds => s.timeoutSeconds.map .seconds

open Setting in
/-- What one thing is set to, if it can be set for Kotlin. -/
def KonanSettings.value? (s : KonanSettings) : Setting → Option Value
  | .out => s.out.map .path
  | .optimize => s.optimize.map .switch
  | .debug => s.debug.map .switch
  | .libraries => s.libraries.map .texts
  | .additionalSources => s.additionalSources.map .paths
  | .timeoutSeconds => s.timeoutSeconds.map .seconds
  | .frameworks | .headerSearchPaths | .librarySearchPaths | .useHeader => none

open Setting in
/-- What one thing is set to, if it can be set for Rust. -/
def RustSettings.value? (s : RustSettings) : Setting → Option Value
  | .out => s.out.map .path
  | .optimize => s.optimize.map .rustLevel
  | .debug => s.debug.map .switch
  | .libraries => s.libraries.map .texts
  | .librarySearchPaths => s.librarySearchPaths.map .paths
  | .timeoutSeconds => s.timeoutSeconds.map .seconds
  | .frameworks | .headerSearchPaths | .additionalSources | .useHeader => none

/-- Settings are told by their single values, and each of these is laid over others and cleared by
itself. -/
class Fieldwise (α : Type) [Settings α] where
  value? : α → Setting → Option Setting.Value
  ext : ∀ {s t : α}, (∀ x, value? s x = value? t x) → s = t
  value?_unset : ∀ x, value? Settings.unset x = none
  value?_merge : ∀ base top x, value? (Settings.merge base top) x = (value? top x).or (value? base x)
  value?_withoutFileOnly : ∀ s x,
    value? (Settings.withoutFileOnly s) x = if x.isFileOnly then none else value? s x

/-- A setting is told by its value. -/
theorem Setting.eq_of_map_eq {β : Type} {make : β → Value} (hmake : ∀ u v, make u = make v → u = v)
    {s t : Option β} (h : s.map make = t.map make) : s = t := by
  cases s with
  | none =>
    cases t with
    | none => rfl
    | some v => cases h
  | some u =>
    cases t with
    | none => cases h
    | some v => rw [hmake u v (Option.some.inj h)]

open Setting in
instance : Fieldwise ClangSettings where
  value? := ClangSettings.value?
  ext {s t} h := by
    cases s
    cases t
    rw [ClangSettings.mk.injEq]
    exact ⟨eq_of_map_eq (fun _ _ => Value.path.inj) (h .out),
      eq_of_map_eq (fun _ _ => Value.clangLevel.inj) (h .optimize),
      eq_of_map_eq (fun _ _ => Value.switch.inj) (h .debug),
      eq_of_map_eq (fun _ _ => Value.texts.inj) (h .libraries),
      eq_of_map_eq (fun _ _ => Value.texts.inj) (h .frameworks),
      eq_of_map_eq (fun _ _ => Value.paths.inj) (h .headerSearchPaths),
      eq_of_map_eq (fun _ _ => Value.paths.inj) (h .librarySearchPaths),
      eq_of_map_eq (fun _ _ => Value.paths.inj) (h .additionalSources),
      eq_of_map_eq (fun _ _ => Value.path.inj) (h .useHeader),
      eq_of_map_eq (fun _ _ => Value.seconds.inj) (h .timeoutSeconds)⟩
  value?_unset x := by cases x <;> rfl
  value?_merge base top x := by cases x <;> exact Option.map_or
  value?_withoutFileOnly s x := by cases x <;> rfl

open Setting in
instance : Fieldwise KonanSettings where
  value? := KonanSettings.value?
  ext {s t} h := by
    cases s
    cases t
    rw [KonanSettings.mk.injEq]
    exact ⟨eq_of_map_eq (fun _ _ => Value.path.inj) (h .out),
      eq_of_map_eq (fun _ _ => Value.switch.inj) (h .optimize),
      eq_of_map_eq (fun _ _ => Value.switch.inj) (h .debug),
      eq_of_map_eq (fun _ _ => Value.texts.inj) (h .libraries),
      eq_of_map_eq (fun _ _ => Value.paths.inj) (h .additionalSources),
      eq_of_map_eq (fun _ _ => Value.seconds.inj) (h .timeoutSeconds)⟩
  value?_unset x := by cases x <;> rfl
  value?_merge base top x := by
    cases x with
    | frameworks | headerSearchPaths | librarySearchPaths | useHeader => rfl
    | _ => exact Option.map_or
  value?_withoutFileOnly s x := by cases x <;> rfl

open Setting in
instance : Fieldwise RustSettings where
  value? := RustSettings.value?
  ext {s t} h := by
    cases s
    cases t
    rw [RustSettings.mk.injEq]
    exact ⟨eq_of_map_eq (fun _ _ => Value.path.inj) (h .out),
      eq_of_map_eq (fun _ _ => Value.rustLevel.inj) (h .optimize),
      eq_of_map_eq (fun _ _ => Value.switch.inj) (h .debug),
      eq_of_map_eq (fun _ _ => Value.texts.inj) (h .libraries),
      eq_of_map_eq (fun _ _ => Value.paths.inj) (h .librarySearchPaths),
      eq_of_map_eq (fun _ _ => Value.seconds.inj) (h .timeoutSeconds)⟩
  value?_unset x := by cases x <;> rfl
  value?_merge base top x := by
    cases x with
    | frameworks | headerSearchPaths | additionalSources | useHeader => rfl
    | _ => exact Option.map_or
  value?_withoutFileOnly s x := by cases x <;> rfl

/-! ## Settings over others -/

/-- Laying settings over others is associative, and nothing set is its unit. -/
structure LawfulMerge (α : Type) [Settings α] : Prop where
  assoc : ∀ s t u : α, Settings.merge (Settings.merge s t) u = Settings.merge s (Settings.merge t u)
  unset_merge : ∀ s : α, Settings.merge Settings.unset s = s
  merge_unset : ∀ s : α, Settings.merge s Settings.unset = s

section

variable {α : Type} [Settings α] [Fieldwise α]

open Fieldwise

theorem merge_lawful : LawfulMerge α := by
  constructor
  case assoc =>
    intro s t u
    apply ext
    intro x
    rw [value?_merge, value?_merge, value?_merge, value?_merge, Option.or_assoc]
  case unset_merge =>
    intro s
    apply ext
    intro x
    rw [value?_merge, value?_unset, Option.or_none]
  case merge_unset =>
    intro s
    apply ext
    intro x
    rw [value?_merge, value?_unset, Option.none_or]

theorem withoutFileOnly_withoutFileOnly (s : α) :
    Settings.withoutFileOnly (Settings.withoutFileOnly s) = Settings.withoutFileOnly s := by
  apply ext
  intro x
  rw [value?_withoutFileOnly, value?_withoutFileOnly]
  split <;> rfl

end

/-! ## The settings of a file -/

namespace Section

section

variable {α : Type} [Settings α] [Fieldwise α] {s s' : Section α} {file other : String}
  {x : Setting}

open Fieldwise

/-- What the entry of a file sets. -/
def own? (s : Section α) (file : String) (x : Setting) : Option Setting.Value :=
  s.files[file]?.bind fun own => value? own x

/-- What is set for all files. -/
def shared? (s : Section α) (x : Setting) : Option Setting.Value :=
  s.shared.bind fun shared => value? shared x

/-- What the settings of a file come to, and what they do not depend on. -/
structure Resolves (s : Section α) (file : String) : Prop where
  /-- The entry of the file comes first, then what is set for all files. -/
  value : ∀ x, value? (s.resolve file) x =
    (s.own? file x).or (if x.isFileOnly then none else s.shared? x)
  /-- Nothing else counts: no entry of another file, and nothing that is set for all files but makes
  sense for a single one only. -/
  determined : ∀ s' : Section α, (∀ x, s'.own? file x = s.own? file x) →
    (∀ x, x.isFileOnly = false → s'.shared? x = s.shared? x) → s'.resolve file = s.resolve file
  sanitize : s.sanitize.resolve file = s.resolve file
  sanitize_sanitize : s.sanitize.sanitize = s.sanitize

theorem value?_base (s : Section α) (x : Setting) :
    value? (Settings.withoutFileOnly (s.shared.getD Settings.unset)) x =
      if x.isFileOnly then none else s.shared? x := by
  rw [value?_withoutFileOnly, shared?]
  cases s.shared with
  | none => rw [Option.getD_none, value?_unset, Option.bind_none]
  | some shared => rfl

theorem value?_resolve (s : Section α) (file : String) (x : Setting) :
    value? (s.resolve file) x =
      (s.own? file x).or (if x.isFileOnly then none else s.shared? x) := by
  rw [← value?_base, resolve, own?]
  cases s.files[file]? with
  | none => rfl
  | some own => exact value?_merge _ own x

theorem resolve_congr (hown : ∀ x, s'.own? file x = s.own? file x)
    (hshared : ∀ x, x.isFileOnly = false → s'.shared? x = s.shared? x) :
    s'.resolve file = s.resolve file := by
  apply ext
  intro x
  rw [value?_resolve, value?_resolve, hown x]
  -- What makes sense for one file only is not taken from what is set for all.
  cases hx : x.isFileOnly with
  | true => rfl
  | false => rw [hshared x hx]

/-- What another file sets can be changed at will. -/
theorem own?_insert (hne : other ≠ file) (s : Section α) (entry : α) (x : Setting) :
    own? { s with files := s.files.insert other entry } file x = s.own? file x := by
  have hget : (s.files.insert other entry)[file]? = s.files[file]? := by
    rw [Std.ExtTreeMap.getElem?_insert, if_neg]
    simpa using hne
  rw [own?, own?, hget]

theorem shared?_sanitize (s : Section α) (hx : x.isFileOnly = false) :
    s.sanitize.shared? x = s.shared? x := by
  unfold sanitize shared?
  cases s.shared with
  | none => rfl
  | some shared =>
    show value? (Settings.withoutFileOnly shared) x = value? shared x
    rw [value?_withoutFileOnly, hx]
    rfl

theorem sanitize_sanitize (s : Section α) : s.sanitize.sanitize = s.sanitize := by
  unfold sanitize
  cases s.shared with
  | none => rfl
  | some shared => simp [withoutFileOnly_withoutFileOnly]

theorem resolves (s : Section α) (file : String) : s.Resolves file where
  value := s.value?_resolve file
  determined _ hown hshared := resolve_congr hown hshared
  sanitize := resolve_congr (fun _ => rfl) fun _ hx => s.shared?_sanitize hx
  sanitize_sanitize := s.sanitize_sanitize

end

end Section

/-! ## All backends -/

/-- What can be set for a backend. -/
def Backend.Choices : Backend → Type
  | clang => ClangSettings
  | konan => KonanSettings
  | rust => RustSettings

instance : (b : Backend) → Settings b.Choices
  | .clang => inferInstanceAs (Settings ClangSettings)
  | .konan => inferInstanceAs (Settings KonanSettings)
  | .rust => inferInstanceAs (Settings RustSettings)

instance : (b : Backend) → Fieldwise b.Choices
  | .clang => inferInstanceAs (Fieldwise ClangSettings)
  | .konan => inferInstanceAs (Fieldwise KonanSettings)
  | .rust => inferInstanceAs (Fieldwise RustSettings)

/-- The settings of a source file for a backend. -/
def ModuleSettings.of : (b : Backend) → b.Choices → ModuleSettings
  | .clang => .clang
  | .konan => .konan
  | .rust => .rust

namespace Configuration

/-- The section of a backend. -/
def sectionOf (c : Configuration) : (b : Backend) → Section b.Choices
  | .clang => c.clang
  | .konan => c.konan
  | .rust => c.rust

theorem resolve_eq (c : Configuration) (b : Backend) (file : String) :
    c.resolve b file = .of b ((c.sectionOf b).resolve file) := by
  cases b <;> rfl

theorem sectionOf_sanitize (c : Configuration) (b : Backend) :
    c.sanitize.sectionOf b = (c.sectionOf b).sanitize := by
  cases b <;> rfl

/-- The settings of a file under a backend are those that its section gives. There each thing is set
as the file's own entry sets it, else as all files do if it makes sense for them; nothing else of the
section counts, and neither does clearing what makes no sense there. Settings laid over settings
laid over settings are the same either way, and laying nothing changes nothing. -/
theorem resolve_fieldwise (b : Backend) :
    (∀ (c : Configuration) (file : String),
      c.resolve b file = .of b ((c.sectionOf b).resolve file) ∧
        c.sanitize.sectionOf b = (c.sectionOf b).sanitize) ∧
      (∀ (s : Section b.Choices) (file : String), s.Resolves file) ∧ LawfulMerge b.Choices :=
  ⟨fun c file => ⟨c.resolve_eq b file, c.sectionOf_sanitize b⟩, Section.resolves, merge_lawful⟩

/-- Settings for all files, one of which counts for a single file only, and for one file. -/
def oneFile : Section ClangSettings where
  shared := some { optimize := some (.level 2), out := some "all.o" }
  files := (∅ : Std.ExtTreeMap String ClangSettings).insert "a.c" { debug := some true }

/-- With settings for another file, and without what counts for a single file only. -/
def twoFiles : Section ClangSettings where
  shared := some { optimize := some (.level 2) }
  files := oneFile.files.insert "b.c" { optimize := some .fast }

/-- The first file has the settings that it had. -/
theorem resolve_fieldwise_oneFile :
    (∀ x, twoFiles.own? "a.c" x = oneFile.own? "a.c" x) ∧
      (∀ x, x.isFileOnly = false → twoFiles.shared? x = oneFile.shared? x) ∧
      twoFiles.resolve "a.c" = oneFile.resolve "a.c" := by
  have hown : ∀ x, twoFiles.own? "a.c" x = oneFile.own? "a.c" x :=
    oneFile.own?_insert (by decide) { optimize := some .fast }
  have hshared : ∀ x, x.isFileOnly = false → twoFiles.shared? x = oneFile.shared? x := by
    intro x hx
    cases x with
    | out | useHeader => cases hx
    | _ => rfl
  have hresolves := (resolve_fieldwise .clang).2.1 oneFile "a.c"
  exact ⟨hown, hshared, hresolves.determined twoFiles hown hshared⟩

end Configuration

end ForeignModule
