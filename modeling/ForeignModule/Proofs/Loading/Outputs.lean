import ForeignModule.Proofs.Build.Discipline
import ForeignModule.Proofs.Loading.Undisturbed

/-!
# The files of a module

What is written for a source goes to one directory, unless its settings say otherwise, and each file
there has a name that is made from what is shown of the file name of the source.

* `Plan.files` lists the files, and `ModuleFile.name` gives their names;
* `ModuleFile.name_inj`: of two sources that have a backend, no two files have one name, except for
  the declarations, where a point is written like an underscore;
* `Plan.files_apart` says this of the paths;
* `Loader.stub_of_load`: the declarations of a module that has been loaded are in the file that is
  listed for them.
-/

namespace ForeignModule

open Routine

/-- Where the settings say that a module goes. -/
def ModuleSettings.out? : ModuleSettings → Option Path
  | clang s => s.out
  | konan s => s.out
  | rust s => s.out

/-! ## Points in names -/

namespace Path

variable {p : Path} {name stem extension : RawText}

/-- What stands behind the last point of a name. -/
theorem splitLastPoint?_append (h : point ∉ extension) :
    splitLastPoint? (stem ++ point :: extension) = some (stem, extension) := by
  have hreverse : (stem ++ point :: extension).reverse
      = extension.reverse ++ point :: stem.reverse := by
    simp
  have htake : (stem ++ point :: extension).reverse.takeWhile (· ≠ point) = extension.reverse := by
    have hbefore : ∀ b ∈ extension.reverse, decide (b ≠ point) = true := by
      intro b hb
      rw [decide_eq_true_eq]
      rintro rfl
      exact h (List.mem_reverse.1 hb)
    rw [hreverse, List.takeWhile_append_of_pos hbefore]
    simp
  simp only [splitLastPoint?, htake]
  rw [hreverse]
  simp

/-- What is split at its last point is put together again with one. -/
theorem eq_of_splitLastPoint? (h : splitLastPoint? name = some (stem, extension)) :
    name = stem ++ point :: extension := by
  have hsplit : name.reverse.takeWhile (· ≠ point) ++ name.reverse.dropWhile (· ≠ point)
      = name.reverse := List.takeWhile_append_dropWhile
  have hdrop : name.reverse.drop (name.reverse.takeWhile (· ≠ point)).length
      = name.reverse.dropWhile (· ≠ point) := by
    conv => lhs; arg 2; rw [← hsplit]
    exact List.drop_left
  simp only [splitLastPoint?, List.length_reverse, hdrop] at h
  cases hbehind : name.reverse.dropWhile (· ≠ point) with
  | nil =>
    rw [hbehind] at h
    cases h
  | cons b front =>
    obtain rfl : b = point := by
      have hhead := List.head?_dropWhile_not (fun b => decide (b ≠ point)) name.reverse
      rw [hbehind] at hhead
      simpa using hhead
    rw [hbehind] at h hsplit
    obtain ⟨rfl, rfl⟩ := Prod.mk.inj (Option.some.inj h)
    have hname := congrArg List.reverse hsplit
    rw [List.reverse_reverse, List.reverse_append, List.reverse_cons, List.append_assoc] at hname
    exact hname.symm

/-- A name with something behind its last point is one that a file may have. -/
theorem isName_of_point (h : point ∉ extension) (hne : extension ≠ []) :
    IsName (stem ++ point :: extension) := by
  have hsplit : splitLastPoint? (stem ++ point :: extension) = some (stem, extension) :=
    splitLastPoint?_append h
  refine ⟨fun hempty => ?_, fun hdot => ?_, fun hup => ?_⟩
  · rw [hempty] at hsplit
    cases hsplit
  · rw [hdot] at hsplit
    exact hne (Prod.mk.inj (Option.some.inj hsplit)).2.symm
  · rw [hup] at hsplit
    exact hne (Prod.mk.inj (Option.some.inj hsplit)).2.symm

theorem point_not_mem_bytes {text : String} (h : '.' ∉ text.toList) : point ∉ Text.bytes text :=
  fun hpoint => h (Text.mem_of_mem_bytes hpoint (by decide))

theorem slash_not_mem_bytes {text : String} (h : '/' ∉ text.toList) : slash ∉ Text.bytes text :=
  fun hslash => h (Text.mem_of_mem_bytes hslash (by decide))

theorem bytes_point (stem extension : String) :
    Text.bytes (stem ++ "." ++ extension) = Text.bytes stem ++ point :: Text.bytes extension := by
  rw [Text.bytes_append, Text.bytes_append, List.append_assoc]
  rfl

/-- A text is split at its last point in one way. -/
theorem append_point_inj {stem stem' extension extension' : String} (h : '.' ∉ extension.toList)
    (h' : '.' ∉ extension'.toList) (heq : stem ++ "." ++ extension = stem' ++ "." ++ extension') :
    stem = stem' ∧ extension = extension' := by
  have hsplit := congrArg splitLastPoint? (congrArg Text.bytes heq)
  rw [bytes_point, bytes_point, splitLastPoint?_append (point_not_mem_bytes h),
    splitLastPoint?_append (point_not_mem_bytes h')] at hsplit
  obtain ⟨hstem, hextension⟩ := Prod.mk.inj (Option.some.inj hsplit)
  exact ⟨Text.bytes_inj hstem, Text.bytes_inj hextension⟩

/-- A name that is shown has no slash either. -/
theorem slash_not_mem_shownName (p : Path) : '/' ∉ p.shownName.toList := by
  unfold shownName
  cases hname : p.fileName? with
  | none => exact List.not_mem_nil
  | some name =>
    intro hslash
    obtain ⟨b, hb, hvalue⟩ := Text.exists_of_mem_decodeLossy hslash (by decide) (by decide)
    obtain rfl : b = slash := UInt8.toNat_inj.1 hvalue
    exact (isName_of_fileName? hname).2 hb

end Path

/-! ## Names -/

/-- What a file of a module is. -/
inductive ModuleFile where
  /-- The module, as a C or Rust compiler writes it. -/
  | compiled
  /-- The library of a Kotlin source. -/
  | library
  /-- The header of that library. -/
  | header
  /-- The object with its forwarding functions. -/
  | object
  /-- The module that is linked from both. -/
  | linked
  | declarations
deriving DecidableEq, Repr

namespace ModuleFile

/-- The file's name, for a source with this file name. -/
def name (source : String) : ModuleFile → String
  | compiled => source ++ ".o"
  | library => "lib" ++ source ++ ".a"
  | header => "lib" ++ source ++ "_api.h"
  | object => "lib" ++ source ++ ".a" ++ ".intermediate.o"
  | linked => "lib" ++ source ++ ".a" ++ ".o"
  | declarations => Declaration.fileName source

/-- What stands before its last point. -/
def stem (source : String) : ModuleFile → String
  | compiled => source
  | library => "lib" ++ source
  | header => "lib" ++ source ++ "_api"
  | object => "lib" ++ source ++ ".a" ++ "." ++ "intermediate"
  | linked => "lib" ++ source ++ "." ++ "a"
  | declarations => .ofList (source.toList.map fun c => if c = '.' then '_' else c) ++ ".d"

/-- What stands behind it. -/
def extension : ModuleFile → String
  | compiled | object | linked => "o"
  | library => "a"
  | header => "h"
  | declarations => "ts"

theorem name_eq (source : String) (kind : ModuleFile) :
    kind.name source = kind.stem source ++ "." ++ kind.extension := by
  cases kind <;> simp [name, stem, extension, Declaration.fileName, String.append_assoc]

variable {f g : String} {kind other : ModuleFile}

theorem point_not_mem_extension (kind : ModuleFile) : '.' ∉ kind.extension.toList := by
  cases kind <;> decide

theorem isName_name (source : String) (kind : ModuleFile) : Path.IsName (kind.name source) := by
  rw [name_eq, Path.bytes_point]
  exact Path.isName_of_point (Path.point_not_mem_bytes kind.point_not_mem_extension)
    (by cases kind <;> decide)

theorem slash_not_mem_name (h : '/' ∉ f.toList) (kind : ModuleFile) :
    '/' ∉ (kind.name f).toList := by
  have hmap : ∀ c ∈ f.toList, (if c = '.' then '_' else c) ≠ '/' := by
    intro c hc
    split
    · decide
    · rintro rfl
      exact h hc
  cases kind with
  | declarations => simpa [name, Declaration.fileName] using hmap
  | _ => simp [name, h]

/-- Names tell what stands before and behind their last points. -/
theorem stem_of_name (h : kind.name f = other.name g) :
    kind.stem f = other.stem g ∧ kind.extension = other.extension := by
  rw [name_eq, name_eq] at h
  exact Path.append_point_inj kind.point_not_mem_extension other.point_not_mem_extension h

/-- The file name is shown like that of a source which has a backend. -/
def IsSource (f : String) : Prop :=
  ∃ stem extension, f = stem ++ "." ++ extension ∧ (Backend.ofExtension? extension).isSome

theorem point_not_mem_of_ofExtension? {extension : String}
    (h : (Backend.ofExtension? extension).isSome) : '.' ∉ extension.toList := by
  have hall : ∀ b : Backend, ∀ extension ∈ b.extensions, '.' ∉ extension.toList := by
    intro b
    cases b <;> decide
  obtain ⟨b, hb⟩ := Option.isSome_iff_exists.1 h
  exact hall b extension (by simpa using List.find?_some hb)

theorem not_isSource {stem extension : String} (h : '.' ∉ extension.toList)
    (hnone : Backend.ofExtension? extension = none) : ¬IsSource (stem ++ "." ++ extension) := by
  rintro ⟨stem', extension', heq, hsome⟩
  obtain ⟨-, rfl⟩ := Path.append_point_inj h (point_not_mem_of_ofExtension? hsome) heq
  rw [hnone] at hsome
  cases hsome

/-- No source is called like a library or like an object with forwarding functions. -/
theorem not_isSource_stem (hkind : kind = object ∨ kind = linked) : ¬IsSource (kind.stem g) := by
  rcases hkind with rfl | rfl
  · exact not_isSource (by decide) (by decide)
  · exact not_isSource (by decide) (by decide)

theorem stem_object_ne : stem f object ≠ stem g linked := by
  intro h
  exact absurd (Path.append_point_inj (by decide) (by decide) h).2 (by decide)

/-- What a file is can be told from its name. -/
theorem kind_of_name (hf : IsSource f) (hg : IsSource g) (h : kind.name f = other.name g) :
    kind = other := by
  obtain ⟨hstem, hextension⟩ := stem_of_name h
  -- Only what is compiled, the object and the module of a Kotlin source have one extension.
  cases kind <;> cases other <;> try first | rfl | exact absurd hextension (by decide)
  case compiled.object =>
    obtain rfl : f = _ := hstem
    exact absurd hf (not_isSource_stem (.inl rfl))
  case compiled.linked =>
    obtain rfl : f = _ := hstem
    exact absurd hf (not_isSource_stem (.inr rfl))
  case object.compiled =>
    obtain rfl : _ = g := hstem
    exact absurd hg (not_isSource_stem (.inl rfl))
  case linked.compiled =>
    obtain rfl : _ = g := hstem
    exact absurd hg (not_isSource_stem (.inr rfl))
  case object.linked => exact absurd hstem stem_object_ne
  case linked.object => exact absurd hstem.symm stem_object_ne

/-- Files of two sources have one name only if both are declarations. -/
theorem name_inj (hf : IsSource f) (hg : IsSource g) (hne : f ≠ g)
    (h : kind.name f = other.name g) : kind = declarations ∧ other = declarations := by
  obtain rfl := kind_of_name hf hg h
  have hstem := (stem_of_name h).1
  cases kind with
  | declarations => exact ⟨rfl, rfl⟩
  | _ => simp [stem, hne] at hstem

end ModuleFile

/-! ## Paths -/

namespace Path

/-- What is added to a name is added to its path. -/
theorem join_append {directory : Path} {name : RawText} (h : name ≠ []) (suffix : RawText) :
    join directory (name ++ suffix) = join directory name ++ suffix := by
  have habsolute : isAbsolute (name ++ suffix) = isAbsolute name := by
    cases name with
    | nil => exact absurd rfl h
    | cons b rest => rfl
  unfold join
  rw [habsolute]
  split
  · rfl
  · split <;> simp

/-- What is shown of a path to a name is that name behind what is shown of the directory. -/
theorem exists_shown_join (directory : Path) :
    ∃ place : String, ∀ name : String, '/' ∉ name.toList →
      (join directory name).shown = place ++ name ∧ join place name = Text.bytes (place ++ name) := by
  rcases exists_join_eq directory with hjoin | ⟨front, hjoin⟩
  · refine ⟨"", fun name hname => ?_⟩
    rw [String.empty_append, hjoin _ (slash_not_mem_bytes hname), RawText.shown_bytes]
    exact ⟨rfl, by simp [join, show Text.bytes "" = [] from rfl]⟩
  · refine ⟨front.shown ++ "/", fun name hname => ⟨?_, ?_⟩⟩
    · rw [hjoin _ (slash_not_mem_bytes hname), RawText.shown_append (by decide), RawText.shown_bytes]
      rfl
    · have hrelative := isAbsolute_of_slash_not_mem (slash_not_mem_bytes hname)
      rw [Text.bytes_append (front.shown ++ "/"), Text.bytes_append front.shown,
        show Text.bytes "/" = [slash] from rfl]
      simp [join, hrelative]

end Path

theorem Library.withoutSuffix_append (text : String) : withoutSuffix (text ++ ".a") = text := by
  have hstrip : Text.stripEnd? ".a".toList (text ++ ".a").toList = some text.toList :=
    Text.stripEnd?_eq_some_iff.2 (by simp)
  unfold withoutSuffix
  rw [hstrip]
  exact String.ofList_toList

namespace Plan

open RawText (noText noTextEither)

/-- The declarations of a module lie beside its artifact. -/
def declarations (directory source : Path) (settings : ModuleSettings) : Path :=
  Declaration.path (Outputs.of directory source settings).artifact source.shownName

/-- The files that are written for a source. -/
def files (directory source : Path) (settings : ModuleSettings) : List Path :=
  let outputs := Outputs.of directory source settings
  let beside : List Path := match settings with
    | .konan _ => [Library.header outputs.primary, Library.intermediate outputs.primary]
    | _ => []
  outputs.primary :: outputs.artifact :: declarations directory source settings :: beside

variable {directory s t p q : Path} {settings settings' : ModuleSettings} {f : String}

/-- Every tool of a plan is told to write one of these files. -/
theorem output_mem_files {signatures : List Signature} {i : Invocation}
    (hi : i ∈ (Plan.of directory s settings signatures).steps) :
    ∃ out ∈ files directory s settings, [("-o" : RawText), out] <:+: i.arguments := by
  cases settings with
  | clang c =>
    obtain rfl := List.mem_singleton.1 hi
    exact ⟨_, List.mem_cons_self, ((ModuleSettings.clang c).suffix_arguments s _).isInfix⟩
  | rust r =>
    obtain rfl := List.mem_singleton.1 hi
    exact ⟨_, List.mem_cons_self, ((ModuleSettings.rust r).suffix_arguments s _).isInfix⟩
  | konan k =>
    simp only [Plan.of, konanSteps, List.mem_cons, List.not_mem_nil, or_false] at hi
    rcases hi with rfl | rfl | rfl
    · exact ⟨_, List.mem_cons_self, ((ModuleSettings.konan k).suffix_arguments s _).isInfix⟩
    · exact ⟨Library.intermediate _, by simp [files], ["-c", "-x", "c++"], ["-"], rfl⟩
    · exact ⟨_, List.mem_cons_of_mem _ List.mem_cons_self, ["-shared", _, _], [], rfl⟩

theorem isSource_of_ofPath? (h : (Backend.ofPath? s).isSome) :
    ModuleFile.IsSource s.shownName := by
  obtain ⟨b, hb⟩ := Option.isSome_iff_exists.1 h
  obtain ⟨raw, hraw, hb⟩ := Option.bind_eq_some_iff.1 hb
  obtain ⟨extension, htext, hofExtension⟩ := Option.bind_eq_some_iff.1 hb
  obtain ⟨name, hname, hraw⟩ := Option.bind_eq_some_iff.1 hraw
  obtain ⟨⟨stem, raw'⟩, hsplit, hraw⟩ := Option.bind_eq_some_iff.1 hraw
  obtain rfl : raw' = raw := by
    dsimp only at hraw
    split at hraw
    · cases hraw
    · exact Option.some.inj hraw
  refine ⟨stem.shown, extension, ?_, Option.isSome_iff_exists.2 ⟨b, hofExtension⟩⟩
  rw [Path.shownName, hname, Path.eq_of_splitLastPoint? hsplit, Option.map_some, Option.getD_some,
    RawText.shown_append (by decide), RawText.shown_of_text? htext]
  rfl

/-- If the settings do not say where a module goes, the directory and the file name do. -/
theorem outputs_eq (directory s : Path) (hout : settings.out? = none) :
    Outputs.of directory s settings = Outputs.default settings.backend directory s.shownName := by
  cases settings with
  | _ c =>
    have hnone : c.out = none := hout
    simp [Outputs.of, ModuleSettings.backend, hnone]

theorem default_single {b : Backend} (hb : b ≠ .konan) (directory : Path) (f : String) :
    Outputs.default b directory f = .single (Path.join directory (ModuleFile.compiled.name f)) := by
  cases b with
  | konan => exact absurd rfl hb
  | _ => rw [ModuleFile.name, Text.bytes_append]; rfl

theorem default_konan (directory : Path) (f : String) :
    Outputs.default .konan directory f =
      .linked (Path.join directory (ModuleFile.library.name f)) := by
  rw [ModuleFile.name, Text.bytes_append, Text.bytes_append]
  rfl

/-- What is added to the path of a library is added to its name. -/
theorem join_library (directory : Path) (f suffix : String) :
    Path.join directory (ModuleFile.library.name f) ++ Text.bytes suffix =
      Path.join directory (ModuleFile.library.name f ++ suffix : String) := by
  rw [Text.bytes_append]
  exact (Path.join_append (ModuleFile.isName_name f .library).ne_empty _).symm

/-- The header has a name of its own, in what is shown of the directory. -/
theorem exists_header_eq (directory : Path) (hslash : '/' ∉ f.toList) :
    ∃ place : Path, Text.bytes (Library.header (Path.join directory (ModuleFile.library.name f))) =
      place.join (ModuleFile.header.name f) := by
  obtain ⟨place, hplace⟩ := Path.exists_shown_join directory
  refine ⟨place, ?_⟩
  have hlibrary := (hplace _ (ModuleFile.slash_not_mem_name hslash .library)).1
  have hheader := (hplace _ (ModuleFile.slash_not_mem_name hslash .header)).2
  have hsplit : place ++ ModuleFile.library.name f = place ++ "lib" ++ f ++ ".a" := by
    simp [ModuleFile.name, String.append_assoc]
  rw [hheader, Library.header, hlibrary, hsplit, Library.withoutSuffix_append, ModuleFile.name]
  simp [String.append_assoc]

/-- The artifact is the compiled or the linked module. -/
theorem artifact_eq (directory s : Path) (hout : settings.out? = none) :
    ∃ kind, kind ≠ ModuleFile.declarations ∧
      (Outputs.of directory s settings).artifact = Path.join directory (kind.name s.shownName) := by
  rw [outputs_eq directory s hout]
  by_cases hb : settings.backend = .konan
  · refine ⟨.linked, by decide, ?_⟩
    rw [hb, default_konan]
    exact join_library directory s.shownName ".o"
  · refine ⟨.compiled, by decide, ?_⟩
    rw [default_single hb]
    rfl

/-- All declarations go to one directory: that of the artifacts, which is the same for all. -/
theorem exists_declarations_eq (directory : Path) :
    ∃ place : Path, ∀ {s : Path} {settings : ModuleSettings}, settings.out? = none →
      declarations directory s settings = place.join (ModuleFile.declarations.name s.shownName) := by
  obtain ⟨front, hfront⟩ := Path.exists_endsIn_join directory
  refine ⟨if front = [] then [] else Path.ofReversed (Path.dropFiller front.reverse), ?_⟩
  intro s settings hout
  obtain ⟨kind, -, hartifact⟩ := artifact_eq directory s hout
  have hslash := ModuleFile.slash_not_mem_name s.slash_not_mem_shownName kind
  have hends := hfront (kind.name s.shownName) (ModuleFile.isName_name s.shownName kind)
    (Path.slash_not_mem_bytes hslash)
  rw [declarations, Declaration.path, hartifact, hends.parent?_eq]
  rfl

/-- The other files go to the directory itself, under the names of their kinds. Only of the header it
is the shown directory. -/
theorem exists_kind (hout : settings.out? = none) (hp : p ∈ files directory s settings) :
    p = declarations directory s settings ∨
      ∃ kind, kind ≠ ModuleFile.declarations ∧ ∃ place : Path, p = place.join (kind.name s.shownName) := by
  simp only [files, outputs_eq directory s hout, List.mem_cons] at hp
  by_cases hb : settings.backend = .konan
  · obtain ⟨c, rfl⟩ : ∃ c, settings = .konan c := by
      cases settings <;> first | exact ⟨_, rfl⟩ | cases hb
    rw [hb, default_konan] at hp
    simp only [Outputs.linked, List.mem_cons, List.not_mem_nil, or_false] at hp
    rcases hp with hp | hp | hp | hp | hp
    · exact .inr ⟨.library, by decide, directory, hp⟩
    · exact .inr ⟨.linked, by decide, directory, hp.trans (join_library directory s.shownName ".o")⟩
    · exact .inl hp
    · obtain ⟨place, hplace⟩ := exists_header_eq directory s.slash_not_mem_shownName
      exact .inr ⟨.header, by decide, place, hp.trans hplace⟩
    · exact .inr ⟨.object, by decide, directory,
        hp.trans (join_library directory s.shownName ".intermediate.o")⟩
  · rw [default_single hb] at hp
    rcases hp with hp | hp | hp | hp
    · exact .inr ⟨.compiled, by decide, directory, hp⟩
    · exact .inr ⟨.compiled, by decide, directory, hp⟩
    · exact .inl hp
    · cases settings with
      | konan c => exact absurd rfl hb
      | _ c => cases hp

/-- Every file is named for its source and its kind. -/
theorem exists_name (hout : settings.out? = none) (hp : p ∈ files directory s settings) :
    ∃ kind : ModuleFile, (kind = .declarations → p = declarations directory s settings) ∧
      p.fileName? = some (Text.bytes (kind.name s.shownName)) := by
  have hname : ∀ (kind : ModuleFile) (place : Path),
      (place.join (kind.name s.shownName)).fileName? = some (Text.bytes (kind.name s.shownName)) :=
    fun kind => Path.fileName?_join (ModuleFile.isName_name s.shownName kind)
      (Path.slash_not_mem_bytes (ModuleFile.slash_not_mem_name s.slash_not_mem_shownName kind))
  rcases exists_kind hout hp with hp | ⟨kind, hkind, place, hp⟩
  · obtain ⟨place, hplace⟩ := exists_declarations_eq directory
    exact ⟨.declarations, fun _ => hp, by rw [hp, hplace hout, hname]⟩
  · exact ⟨kind, fun h => absurd h hkind, by rw [hp, hname]⟩

/-- Two modules that are built for sources whose names are shown differently in one directory have no
file in common, unless their declarations are one: points are written like underscores in the names of
these. Files with one name are one file here, so it is not only the spellings that differ. -/
theorem files_apart (hs : (Backend.ofPath? s).isSome) (ht : (Backend.ofPath? t).isSome)
    (hne : s.shownName ≠ t.shownName) (hout : settings.out? = none) (hout' : settings'.out? = none) :
    ∀ p ∈ files directory s settings, ∀ q ∈ files directory t settings',
      (p.fileName? = q.fileName? ↔ p = q) ∧
      (p = q ↔ p = declarations directory s settings ∧ q = declarations directory t settings' ∧
        Declaration.fileName s.shownName = Declaration.fileName t.shownName) := by
  intro p hp q hq
  obtain ⟨place, hplace⟩ := exists_declarations_eq directory
  obtain ⟨kind, hkind, hname⟩ := exists_name hout hp
  obtain ⟨other, hother, hname'⟩ := exists_name hout' hq
  -- Whatever makes the two files one also makes their names one.
  have hdeclarations : p.fileName? = q.fileName? →
      p = declarations directory s settings ∧ q = declarations directory t settings' ∧
        Declaration.fileName s.shownName = Declaration.fileName t.shownName := by
    intro heq
    rw [hname, hname', Option.some.injEq] at heq
    have hnames := Text.bytes_inj heq
    obtain ⟨rfl, rfl⟩ :=
      ModuleFile.name_inj (isSource_of_ofPath? hs) (isSource_of_ofPath? ht) hne hnames
    exact ⟨hkind rfl, hother rfl, hnames⟩
  have hsame : p = declarations directory s settings ∧ q = declarations directory t settings' ∧
      Declaration.fileName s.shownName = Declaration.fileName t.shownName → p = q := by
    rintro ⟨hp, hq, heq⟩
    rw [hp, hq, hplace hout, hplace hout', ModuleFile.name, ModuleFile.name, heq]
  exact ⟨⟨fun heq => hsame (hdeclarations heq), congrArg _⟩,
    ⟨fun heq => hdeclarations (congrArg _ heq), hsame⟩⟩

/-- A C and a Kotlin source that differ in their extensions only. -/
theorem files_apart_extension :
    files "out" "src/add.c" (.clang {}) ∩ files "out" "src/add.kt" (.konan {}) = [] := by
  rw [List.eq_nil_iff_forall_not_mem]
  intro p hp
  obtain ⟨hc, hkt⟩ := List.mem_inter_iff.1 hp
  have happart := files_apart (by decide) (by decide) (by decide) rfl rfl p hc p hkt
  exact absurd (happart.2.1 rfl).2.2 (by decide)

/-- Sources whose names are shown alike have all files in common. -/
theorem files_congr (h : s.shownName = t.shownName) :
    files directory s settings = files directory t settings := by
  have houtputs : Outputs.of directory s settings = Outputs.of directory t settings := by
    simp only [Outputs.of, h]
  simp only [files, declarations, houtputs, h]

/-- Points and underscores are told apart in the names of modules, but not of declarations. And two names
that are no texts may be shown alike. -/
theorem files_alike :
    (¬∀ (directory s t : Path) (settings settings' : ModuleSettings),
      (Backend.ofPath? s).isSome → (Backend.ofPath? t).isSome → s.fileName? ≠ t.fileName? →
      settings.out? = none → settings'.out? = none →
      List.Disjoint (files directory s settings) (files directory t settings')) ∧
    ("out/a_b_c.d.ts" : Path) ∈ files "out" "a.b.c" (.clang {}) ∩ files "out" "a_b.c" (.clang {}) ∧
    ((Backend.ofPath? noText).isSome ∧ (Backend.ofPath? noTextEither).isSome ∧
      Path.fileName? noText ≠ Path.fileName? noTextEither ∧
      files "out" noText (.clang {}) = files "out" noTextEither (.clang {})) := by
  have hshared : ("out/a_b_c.d.ts" : Path) ∈ files "out" "a.b.c" (.clang {}) ∩
      files "out" "a_b.c" (.clang {}) := by
    decide
  refine ⟨fun h => ?_, hshared, by decide, by decide, by decide, files_congr (by decide)⟩
  have hdisjoint := h "out" "a.b.c" "a_b.c" (.clang {}) (.clang {}) (by decide) (by decide)
    (by decide) rfl rfl
  obtain ⟨hs, ht⟩ := List.mem_inter_iff.1 hshared
  exact hdisjoint hs ht

end Plan

/-! ## Loaded modules -/

theorem Builder.artifact_of_built {ε : Type} {b : Builder} {r : BuildRequest} {f : BuildError → ε}
    {w w' : Workspace} {artifact : Path}
    (h : (ExceptT.mk do
        let built ← (b.build r).run
        return built.mapError f : ExceptT ε (Routine Workspace) Path).run.run w
      = (.ok artifact, w')) :
    artifact = (Outputs.of b.directory r.source r.settings).artifact := by
  have hbuilds := b.build_builds r w
  rw [ExceptT.run_mk, run_bind] at h
  rw [Ground.eq_ok_of_mapError (Prod.mk.inj h).1] at hbuilds
  generalize ((b.build r).run.run w).2 = w₁ at hbuilds
  cases hbuilds <;> rfl

namespace Loader

variable {l : Loader} {b : Backend} {module : String} {source artifact stub : Path}
  {signatures : List Signature} {m : Native.Binding} {loaded : LoadedModule} {w w' : Workspace}

theorem module_of_bind (h : (l.bind b module artifact signatures).run.run w = (.ok m, w')) :
    m.module = module := by
  obtain ⟨loadable, w₁, -, hbind⟩ := exists_of_run_bind h
  exact Ground.bind_module (Ground.eq_ok_of_mapError (Prod.mk.inj hbind).1)

theorem stub_of_writeStub (h : (writeStub artifact m).run.run w = (.ok stub, w')) :
    stub = Declaration.path artifact m.module := by
  obtain ⟨-, w₁, -, hpath⟩ := exists_of_run_bind h
  exact (Except.ok.inj (Prod.mk.inj hpath).1).symm

theorem name_of_resolve {settings : ModuleSettings}
    (h : l.resolve source = .ok (b, module, settings)) : module = source.shownName := by
  unfold resolve at h
  split at h
  · cases h
  · cases h
    rfl

/-- The declarations of a module that has been loaded are in the file for them. -/
theorem stub_of_load (h : (l.load source).run.run w = (.ok loaded, w')) :
    ∃ b module settings, l.resolve source = .ok (b, module, settings) ∧
      loaded.stub = Plan.declarations l.builder.directory source settings := by
  unfold load at h
  cases hresolve : l.resolve source with
  | error e =>
    rw [hresolve] at h
    cases h
  | ok resolved =>
    obtain ⟨b, module, settings⟩ := resolved
    refine ⟨b, module, settings, rfl, ?_⟩
    obtain rfl := name_of_resolve hresolve
    rw [hresolve, Ground.liftM_ok_bind] at h
    obtain ⟨read, w₁, -, h⟩ := exists_of_run_bind h
    -- The parts are the same, whether the cache is asked or not.
    dsimp only at h
    split at h
    all_goals
      obtain ⟨upToDate, w₂, -, h⟩ := exists_of_run_bind h
      obtain ⟨signatures, w₃, -, h⟩ := exists_of_run_bind h
      obtain ⟨artifact, w₄, hbuild, h⟩ := exists_of_run_bind h
      obtain ⟨m, w₅, hbind, h⟩ := exists_of_run_bind h
      obtain ⟨stub, w₆, hstub, h⟩ := exists_of_run_bind h
      have hloaded : stub = loaded.stub :=
        congrArg LoadedModule.stub (Except.ok.inj (Prod.mk.inj h).1)
      rw [← hloaded, stub_of_writeStub hstub, module_of_bind hbind,
        Builder.artifact_of_built hbuild, Plan.declarations]

end Loader

end ForeignModule
