import Mathlib.Data.List.TakeWhile
import ForeignModule.Build.Plan
import ForeignModule.Proofs.Files.Path
import ForeignModule.Proofs.Text.Search
import ForeignModule.Proofs.Text.Utf8

/-!
# What the arguments of a compiler tell

The arguments of a compiler are one row of words: flags, the values behind them, the source, further
sources and the output. The values are any texts, and may look like flags. Still the row tells all
of them, as it can be read from the left: each part is known by its first word, and no source is
written like a flag, since it has the extension of a backend.

* `Plan.suffix_getLast`: the last words of a plan say where the artifact goes;
* `flagEach_append_inj`, `switchFlag_append_inj` and `optional_append_inj` read one part off a row;
* `ModuleSettings.arguments_eq_iff`: two rows are the same exactly if the settings agree on all that
  the compiler is told (`ModuleSettings.Agree`).
-/

namespace ForeignModule

/-! ## What compilers are told -/

/-- The arguments of the compiler of a source. -/
def ModuleSettings.arguments (s : ModuleSettings) (source out : Path) : List RawText :=
  match s with
  | clang s => s.arguments source out
  | konan s => s.arguments source out
  | rust s => s.arguments source out

/-- The C compiler is told the same. A list that is not set is an empty list. -/
structure ClangSettings.Agree (s t : ClangSettings) : Prop where
  optimize : s.optimize = t.optimize
  debug : s.debug = some true ↔ t.debug = some true
  frameworks : s.frameworks.getD [] = t.frameworks.getD []
  headerSearchPaths : s.headerSearchPaths.getD [] = t.headerSearchPaths.getD []
  librarySearchPaths : s.librarySearchPaths.getD [] = t.librarySearchPaths.getD []
  libraries : s.libraries.getD [] = t.libraries.getD []
  additionalSources : s.additionalSources.getD [] = t.additionalSources.getD []

/-- The Kotlin compiler is told the same. It optimizes or does not. -/
structure KonanSettings.Agree (s t : KonanSettings) : Prop where
  optimize : s.optimize = some true ↔ t.optimize = some true
  debug : s.debug = some true ↔ t.debug = some true
  libraries : s.libraries.getD [] = t.libraries.getD []
  additionalSources : s.additionalSources.getD [] = t.additionalSources.getD []

/-- The Rust compiler is told the same. -/
structure RustSettings.Agree (s t : RustSettings) : Prop where
  optimize : s.optimize = t.optimize
  debug : s.debug = some true ↔ t.debug = some true
  librarySearchPaths : s.librarySearchPaths.getD [] = t.librarySearchPaths.getD []
  libraries : s.libraries.getD [] = t.libraries.getD []

/-- The settings are for one backend, and its compiler is told the same. -/
def ModuleSettings.Agree : ModuleSettings → ModuleSettings → Prop
  | clang s, clang t => s.Agree t
  | konan s, konan t => s.Agree t
  | rust s, rust t => s.Agree t
  | _, _ => False

/-! ## Where the output goes -/

/-- The compiler is told last what to write. -/
theorem ModuleSettings.suffix_arguments (s : ModuleSettings) (source out : Path) :
    [("-o" : RawText), out] <:+ s.arguments source out := by
  cases s with
  | clang | konan => exact List.suffix_append _ _
  | rust =>
    have hlast : [("-o" : RawText), out] <:+ [source, ("-o" : RawText), out] :=
      List.suffix_cons source [("-o" : RawText), out]
    exact hlast.trans (List.suffix_append _ _)

namespace Outputs

variable (directory source : Path)

/-- A C or Rust compiler writes the artifact itself. -/
theorem artifact_eq_primary (settings : ModuleSettings) (h : settings.backend ≠ .konan) :
    (of directory source settings).artifact = (of directory source settings).primary := by
  cases settings with
  | konan s => exact absurd rfl h
  | _ s => cases hout : s.out <;> simp [of, hout, single, default]

/-- The artifact of a Kotlin source lies beside the library. -/
theorem artifact_konan (s : KonanSettings) :
    (of directory source (.konan s)).artifact =
      (of directory source (.konan s)).primary ++ (".o" : RawText) := by
  cases hout : s.out <;> simp [of, hout, linked, default]

end Outputs

/-- The last step of a plan is told last to write the artifact. -/
theorem Plan.suffix_getLast (directory source : Path) (settings : ModuleSettings)
    (signatures : List Signature) :
    ∃ final ∈ (of directory source settings signatures).steps.getLast?,
      [("-o" : RawText), (of directory source settings signatures).outputs.artifact] <:+
        final.arguments := by
  cases settings with
  | clang s =>
    have hartifact := Outputs.artifact_eq_primary directory source (.clang s) nofun
    refine ⟨_, rfl, ?_⟩
    simp only [of, hartifact]
    exact (ModuleSettings.clang s).suffix_arguments source _
  | konan s =>
    -- Here the linker comes last.
    exact ⟨_, rfl, List.suffix_append [("-shared" : RawText), _, _] _⟩
  | rust s =>
    have hartifact := Outputs.artifact_eq_primary directory source (.rust s) nofun
    refine ⟨_, rfl, ?_⟩
    simp only [of, hartifact]
    exact (ModuleSettings.rust s).suffix_arguments source _

/-! ## Reading from the left -/

/-- The row starts with one of these flags or with the source, if it is not empty. -/
def StartsIn (flags : List RawText) (source : Path) (row : List RawText) : Prop :=
  ∀ first ∈ row.head?, first ∈ flags ∨ first = source

section Reading

variable {flags row row' : List RawText} {source : Path} {flag : String}
  {values values' : Option (List RawText)} {on on' : Option Bool}

theorem StartsIn.of_source (source : Path) (row : List RawText) :
    StartsIn [] source (source :: row) := by
  intro first hfirst
  obtain rfl := Option.some.inj hfirst
  exact .inr rfl

theorem StartsIn.mono (h : StartsIn flags source row) (word : RawText) :
    StartsIn (word :: flags) source row :=
  fun first hfirst => (h first hfirst).imp_left (List.mem_cons_of_mem word)

theorem StartsIn.of_flag (word : RawText) (flags : List RawText) (source : Path)
    (row : List RawText) : StartsIn (word :: flags) source (word :: row) := by
  intro first hfirst
  obtain rfl := Option.some.inj hfirst
  exact .inl List.mem_cons_self

theorem StartsIn.flagEach (h : StartsIn flags source row) (flag : String)
    (values : Option (List RawText)) :
    StartsIn (flag :: flags) source (flagEach flag values ++ row) := by
  unfold ForeignModule.flagEach
  cases values.getD [] with
  | nil => exact h.mono flag
  | cons value more => exact .of_flag flag flags source _

theorem StartsIn.switchFlag (h : StartsIn flags source row) (flag : String) (on : Option Bool) :
    StartsIn (flag :: flags) source (switchFlag flag on ++ row) := by
  unfold ForeignModule.switchFlag
  split
  · exact .of_flag flag flags source row
  · exact h.mono flag

/-- Another word does not come first. -/
theorem StartsIn.ne_cons {word : RawText} (h : StartsIn flags source row) (hflag : word ∉ flags)
    (hsource : word ≠ source) (more : List RawText) : row ≠ word :: more := by
  rintro rfl
  rcases h word rfl with hmem | heq
  · exact hflag hmem
  · exact hsource heq

/-- Values with a flag before each are read up to where another word stands in place of the flag. -/
theorem flagEach_append_inj (hrow : StartsIn flags source row) (hrow' : StartsIn flags source row')
    (hflag : (flag : RawText) ∉ flags) (hsource : (flag : RawText) ≠ source)
    (h : flagEach flag values ++ row = flagEach flag values' ++ row') :
    values.getD [] = values'.getD [] ∧ row = row' := by
  unfold flagEach at h
  generalize values.getD [] = l at h ⊢
  generalize values'.getD [] = l' at h ⊢
  -- Where one list ends before the other, its rest would have to start with the flag.
  induction l generalizing l' with
  | nil =>
    cases l' with
    | nil => exact ⟨rfl, h⟩
    | cons value' more' => exact absurd h (hrow.ne_cons hflag hsource _)
  | cons value more ih =>
    cases l' with
    | nil => exact absurd h.symm (hrow'.ne_cons hflag hsource _)
    | cons value' more' =>
      simp only [List.flatMap_cons, List.cons_append, List.nil_append] at h
      injection h with _ h
      injection h with hvalue h
      obtain ⟨hmore, hrest⟩ := ih more' h
      exact ⟨by rw [hvalue, hmore], hrest⟩

/-- A flag alone is read where it stands. -/
theorem switchFlag_append_inj (hrow : StartsIn flags source row)
    (hrow' : StartsIn flags source row') (hflag : (flag : RawText) ∉ flags)
    (hsource : (flag : RawText) ≠ source)
    (h : switchFlag flag on ++ row = switchFlag flag on' ++ row') :
    (on = some true ↔ on' = some true) ∧ row = row' := by
  unfold switchFlag at h
  by_cases hon : on = some true
  · by_cases hon' : on' = some true
    · rw [if_pos hon, if_pos hon'] at h
      exact ⟨iff_of_true hon hon', (List.cons.inj h).2⟩
    · rw [if_pos hon, if_neg hon'] at h
      exact absurd h.symm (hrow'.ne_cons hflag hsource _)
  · by_cases hon' : on' = some true
    · rw [if_neg hon, if_pos hon'] at h
      exact absurd h (hrow.ne_cons hflag hsource _)
    · rw [if_neg hon, if_neg hon'] at h
      exact ⟨iff_of_false hon hon', h⟩

/-- What may be given is read off the words that stand for it, of which there are always the same
number. -/
theorem optional_append_inj {α : Type} {level level' : Option α} {word : α → RawText}
    {more : α → List RawText} (hrow : StartsIn flags source row)
    (hrow' : StartsIn flags source row') (hword : ∀ a, word a ∉ flags)
    (hsource : ∀ a, word a ≠ source) (hlength : ∀ a a', (more a).length = (more a').length)
    (hinj : ∀ a a', word a :: more a = word a' :: more a' → a = a')
    (h : (level.map fun a => word a :: more a).getD [] ++ row =
      (level'.map fun a => word a :: more a).getD [] ++ row') :
    level = level' ∧ row = row' := by
  cases level with
  | none =>
    cases level' with
    | none => exact ⟨rfl, h⟩
    | some a' => exact absurd h (hrow.ne_cons (hword a') (hsource a') _)
  | some a =>
    cases level' with
    | none => exact absurd h.symm (hrow'.ne_cons (hword a) (hsource a) _)
    | some a' =>
      -- The words of both are equally many, so they end at one place.
      have hsame : (word a :: more a).length = (word a' :: more a').length := by
        rw [List.length_cons, List.length_cons, hlength a a']
      obtain ⟨hlevel, hrest⟩ := List.append_inj h hsame
      exact ⟨by rw [hinj a a' hlevel], hrest⟩

end Reading

/-! ## Levels -/

section Levels

variable {n : Nat} {name : String} {c : Char}

/-- No number is written like a name. -/
theorem toString_ne_name (hc : c ∈ name.toList) (hletter : c.isDigit = false) :
    toString n ≠ name := by
  rintro rfl
  rw [Text.isDigit_of_mem_toString hc] at hletter
  cases hletter

theorem ClangLevel.text_inj {l l' : ClangLevel} (h : l.text = l'.text) : l = l' := by
  cases l with
  | level n =>
    cases l' with
    | level m => rw [UInt8.toNat_inj.1 (Text.toString_nat_inj h)]
    | fast => exact absurd h (toString_ne_name (c := 'f') (by decide) (by decide))
    | s => exact absurd h (toString_ne_name (c := 's') (by decide) (by decide))
    | z => exact absurd h (toString_ne_name (c := 'z') (by decide) (by decide))
    | g => exact absurd h (toString_ne_name (c := 'g') (by decide) (by decide))
  | fast | s | z | g =>
    cases l' with
    | level m => exact absurd h.symm (toString_ne_name (List.mem_cons_self) (by decide))
    | _ => revert h; decide

theorem RustLevel.text_inj {l l' : RustLevel} (h : l.text = l'.text) : l = l' := by
  cases l with
  | level n =>
    cases l' with
    | level m => rw [UInt8.toNat_inj.1 (Text.toString_nat_inj h)]
    | s => exact absurd h (toString_ne_name (c := 's') (by decide) (by decide))
    | z => exact absurd h (toString_ne_name (c := 'z') (by decide) (by decide))
  | s | z =>
    cases l' with
    | level m => exact absurd h.symm (toString_ne_name (List.mem_cons_self) (by decide))
    | _ => revert h; decide

/-- The text of a level has neither points nor slashes. -/
theorem ClangLevel.not_mem_text (l : ClangLevel) (hc : c = '.' ∨ c = '/') : c ∉ l.text.toList := by
  have hdigit : c.isDigit = false := by rcases hc with rfl | rfl <;> decide
  cases l with
  | level n =>
    intro hmem
    rw [Text.isDigit_of_mem_toString hmem] at hdigit
    cases hdigit
  | _ => rcases hc with rfl | rfl <;> decide

end Levels

/-! ## The source -/

section Source

variable {p source : Path} {flag : String}

/-- What has no point has no extension, and so no backend. -/
theorem Backend.ofPath?_eq_none (hslash : Path.slash ∉ p) (hpoint : Path.point ∉ p) :
    Backend.ofPath? p = none := by
  have hname : p.fileName? = none ∨ p.fileName? = some p := by
    rw [Path.fileName?, Path.names_of_slash_not_mem hslash]
    simp only [List.reverse_singleton, Path.dropFiller]
    split
    · exact .inl rfl
    · exact .inr rfl
  have hsplit : Path.splitLastPoint? p = none := by
    have hall : ∀ b ∈ p.reverse, decide (b ≠ Path.point) = true := by
      intro b hb
      rw [decide_eq_true_eq]
      rintro rfl
      exact hpoint (List.mem_reverse.1 hb)
    have htake : p.reverse.takeWhile (· ≠ Path.point) = p.reverse :=
      List.takeWhile_eq_self_iff.2 hall
    simp only [Path.splitLastPoint?, htake, List.reverse_reverse]
    rw [List.drop_eq_nil_of_le (by simp)]
  unfold Backend.ofPath? Path.extension?
  rcases hname with hname | hname
  · rw [hname]
    rfl
  · rw [hname]
    simp [hsplit]

/-- A source is not written like a flag. -/
theorem ne_source {word : RawText} (h : (Backend.ofPath? source).isSome)
    (hword : Backend.ofPath? word = none) : word ≠ source := by
  rintro rfl
  rw [hword] at h
  cases h

/-- The flags before the source. -/
def sourceFlags : List String := ["-C", "-g", "-opt", "-framework", "-I", "-L", "-l"]

theorem ne_source_of_mem (h : (Backend.ofPath? source).isSome) (hflag : flag ∈ sourceFlags) :
    (flag : RawText) ≠ source := by
  apply ne_source h
  revert flag
  decide +kernel

/-- What tells the level of optimization is none of the flags either. -/
theorem ClangLevel.flag_ne (l : ClangLevel) (hflag : flag.toList[1]? ≠ some 'O') :
    Text.bytes ("-O" ++ l.text) ≠ Text.bytes flag := by
  intro h
  obtain rfl := Text.bytes_inj h
  exact hflag (by simp)

theorem ClangLevel.flag_ne_source (l : ClangLevel) (h : (Backend.ofPath? source).isSome) :
    Text.bytes ("-O" ++ l.text) ≠ source := by
  apply ne_source h
  apply Backend.ofPath?_eq_none
  · intro hslash
    have hmem : '/' ∈ ("-O" ++ l.text).toList := Text.mem_of_mem_bytes hslash (by decide)
    exact l.not_mem_text (.inr rfl) (by simpa using hmem)
  · intro hpoint
    have hmem : '.' ∈ ("-O" ++ l.text).toList := Text.mem_of_mem_bytes hpoint (by decide)
    exact l.not_mem_text (.inl rfl) (by simpa using hmem)

end Source

/-! ## The compilers -/

section Compilers

open RawText (ofTexts)

variable {source out : Path} {texts texts' : Option (List String)}

/-- Texts that go over to a compiler, or the empty list for none. -/
theorem getD_ofTexts (texts : Option (List String)) :
    (texts.map ofTexts).getD [] = ofTexts (texts.getD []) := by
  cases texts <;> rfl

theorem getD_eq_of_ofTexts (h : (texts.map ofTexts).getD [] = (texts'.map ofTexts).getD []) :
    texts.getD [] = texts'.getD [] := by
  rw [getD_ofTexts, getD_ofTexts] at h
  exact RawText.ofTexts_inj h

theorem ClangSettings.agree_of_arguments (hsource : (Backend.ofPath? source).isSome)
    {s t : ClangSettings} (h : s.arguments source out = t.arguments source out) : s.Agree t := by
  -- What each part is followed by, from the last one to the first.
  have hsources := fun u : ClangSettings =>
    StartsIn.of_source source (u.additionalSources.getD [] ++ [("-o" : RawText), out])
  have hlibraries := fun u => (hsources u).flagEach "-l" (u.libraries.map ofTexts)
  have hpaths := fun u => (hlibraries u).flagEach "-L" u.librarySearchPaths
  have hheaders := fun u => (hpaths u).flagEach "-I" u.headerSearchPaths
  have hframeworks := fun u => (hheaders u).flagEach "-framework" (u.frameworks.map ofTexts)
  have hdebug := fun u => (hframeworks u).switchFlag "-g" u.debug
  have hflags : ∀ l : ClangLevel,
      Text.bytes ("-O" ++ l.text) ∉ ofTexts ["-g", "-framework", "-I", "-L", "-l"] := by
    intro l
    simp only [ofTexts, List.map_cons, List.map_nil, List.mem_cons, List.not_mem_nil, or_false,
      not_or]
    exact ⟨l.flag_ne (by decide), l.flag_ne (by decide), l.flag_ne (by decide),
      l.flag_ne (by decide), l.flag_ne (by decide)⟩
  have hlevels : ∀ u : ClangSettings,
      ofTexts (u.optimize.map fun level => "-O" ++ level.text).toList =
        (u.optimize.map fun level => [Text.bytes ("-O" ++ level.text)]).getD [] := by
    intro u
    cases u.optimize <;> rfl
  simp only [ClangSettings.arguments, hlevels, List.append_assoc, List.cons_append,
    List.append_cancel_left_eq] at h
  obtain ⟨optimize, h⟩ := optional_append_inj (hdebug s) (hdebug t) hflags
    (fun l => l.flag_ne_source hsource) (fun _ _ => rfl)
    (fun l l' hsame => ClangLevel.text_inj (by
      have := Text.bytes_inj (List.cons.inj hsame).1
      simpa using this)) h
  obtain ⟨debug, h⟩ := switchFlag_append_inj (hframeworks s) (hframeworks t) (by decide)
    (ne_source_of_mem hsource (by decide)) h
  obtain ⟨frameworks, h⟩ := flagEach_append_inj (hheaders s) (hheaders t) (by decide)
    (ne_source_of_mem hsource (by decide)) h
  obtain ⟨headerSearchPaths, h⟩ := flagEach_append_inj (hpaths s) (hpaths t) (by decide)
    (ne_source_of_mem hsource (by decide)) h
  obtain ⟨librarySearchPaths, h⟩ := flagEach_append_inj (hlibraries s) (hlibraries t) (by decide)
    (ne_source_of_mem hsource (by decide)) h
  obtain ⟨libraries, h⟩ := flagEach_append_inj (hsources s) (hsources t) (by decide)
    (ne_source_of_mem hsource (by decide)) h
  have additionalSources := List.append_cancel_right (List.cons.inj h).2
  exact ⟨optimize, debug, getD_eq_of_ofTexts frameworks, headerSearchPaths, librarySearchPaths,
    getD_eq_of_ofTexts libraries, additionalSources⟩

theorem KonanSettings.agree_of_arguments (hsource : (Backend.ofPath? source).isSome)
    {s t : KonanSettings} (h : s.arguments source out = t.arguments source out) : s.Agree t := by
  have hsources := fun u : KonanSettings =>
    StartsIn.of_source source (u.additionalSources.getD [] ++ [("-o" : RawText), out])
  have hlibraries := fun u => (hsources u).flagEach "-l" (u.libraries.map ofTexts)
  have hdebug := fun u => (hlibraries u).switchFlag "-g" u.debug
  simp only [KonanSettings.arguments, List.append_assoc, List.cons_append,
    List.append_cancel_left_eq] at h
  obtain ⟨optimize, h⟩ := switchFlag_append_inj (hdebug s) (hdebug t) (by decide)
    (ne_source_of_mem hsource (by decide)) h
  obtain ⟨debug, h⟩ := switchFlag_append_inj (hlibraries s) (hlibraries t) (by decide)
    (ne_source_of_mem hsource (by decide)) h
  obtain ⟨libraries, h⟩ := flagEach_append_inj (hsources s) (hsources t) (by decide)
    (ne_source_of_mem hsource (by decide)) h
  have additionalSources := List.append_cancel_right (List.cons.inj h).2
  exact ⟨optimize, debug, getD_eq_of_ofTexts libraries, additionalSources⟩

theorem RustSettings.agree_of_arguments (hsource : (Backend.ofPath? source).isSome)
    {s t : RustSettings} (h : s.arguments source out = t.arguments source out) : s.Agree t := by
  have hsources := StartsIn.of_source source [("-o" : RawText), out]
  have hlibraries := fun u : RustSettings => hsources.flagEach "-l" (u.libraries.map ofTexts)
  have hpaths := fun u => (hlibraries u).flagEach "-L" u.librarySearchPaths
  have hdebug := fun u => (hpaths u).switchFlag "-g" u.debug
  have hlevels : ∀ u : RustSettings,
      ofTexts ((u.optimize.map fun level => ["-C", "opt-level=" ++ level.text]).getD []) =
        (u.optimize.map fun level =>
          Text.bytes "-C" :: ofTexts ["opt-level=" ++ level.text]).getD [] := by
    intro u
    cases u.optimize <;> rfl
  simp only [RustSettings.arguments, hlevels, List.append_assoc,
    List.append_cancel_left_eq] at h
  obtain ⟨optimize, h⟩ := optional_append_inj (hdebug s) (hdebug t) (fun _ => by decide)
    (fun _ => ne_source_of_mem hsource (by decide)) (fun _ _ => rfl)
    (fun l l' hsame => RustLevel.text_inj (by
      have := Text.bytes_inj (List.cons.inj (List.cons.inj hsame).2).1
      simpa using this)) h
  obtain ⟨debug, h⟩ := switchFlag_append_inj (hpaths s) (hpaths t) (by decide)
    (ne_source_of_mem hsource (by decide)) h
  obtain ⟨librarySearchPaths, h⟩ := flagEach_append_inj (hlibraries s) (hlibraries t) (by decide)
    (ne_source_of_mem hsource (by decide)) h
  obtain ⟨libraries, -⟩ := flagEach_append_inj hsources hsources (by decide)
    (ne_source_of_mem hsource (by decide)) h
  exact ⟨optimize, debug, librarySearchPaths, getD_eq_of_ofTexts libraries⟩

/-- A flag alone depends on whether it is switched on. -/
theorem switchFlag_congr {flag : String} {on on' : Option Bool}
    (h : on = some true ↔ on' = some true) : switchFlag flag on = switchFlag flag on' := by
  simp only [switchFlag, h]

/-- An unset list is an empty list. -/
theorem flagEach_congr {flag : String} {values values' : Option (List RawText)}
    (h : values.getD [] = values'.getD []) : flagEach flag values = flagEach flag values' := by
  unfold flagEach
  rw [h]

theorem flagEach_ofTexts_congr {flag : String} (h : texts.getD [] = texts'.getD []) :
    flagEach flag (texts.map ofTexts) = flagEach flag (texts'.map ofTexts) := by
  apply flagEach_congr
  rw [getD_ofTexts, getD_ofTexts, h]

theorem ModuleSettings.arguments_of_agree {s t : ModuleSettings} (h : s.Agree t) :
    s.arguments source out = t.arguments source out := by
  cases s with
  | clang s =>
    cases t with
    | clang t =>
      have h : s.Agree t := h
      simp only [ModuleSettings.arguments, ClangSettings.arguments, h.optimize,
        switchFlag_congr h.debug, flagEach_ofTexts_congr h.frameworks, flagEach_congr h.headerSearchPaths,
        flagEach_congr h.librarySearchPaths, flagEach_ofTexts_congr h.libraries, h.additionalSources]
    | konan | rust => exact h.elim
  | konan s =>
    cases t with
    | konan t =>
      have h : s.Agree t := h
      simp only [ModuleSettings.arguments, KonanSettings.arguments, switchFlag_congr h.optimize,
        switchFlag_congr h.debug, flagEach_ofTexts_congr h.libraries, h.additionalSources]
    | clang | rust => exact h.elim
  | rust s =>
    cases t with
    | rust t =>
      have h : s.Agree t := h
      simp only [ModuleSettings.arguments, RustSettings.arguments, h.optimize,
        switchFlag_congr h.debug, flagEach_congr h.librarySearchPaths, flagEach_ofTexts_congr h.libraries]
    | clang | konan => exact h.elim

/-- The word that the arguments of a compiler start with. -/
def Backend.firstArgument : Backend → RawText
  | clang => "-shared"
  | konan => "-nomain"
  | rust => "--crate-type"

/-- The first word tells the compiler. -/
theorem ModuleSettings.backend_of_arguments {s t : ModuleSettings}
    (h : s.arguments source out = t.arguments source out) : s.backend = t.backend := by
  have hfirst : ∀ u : ModuleSettings,
      (u.arguments source out).head? = some u.backend.firstArgument := by
    intro u
    cases u <;> rfl
  have hinj : ∀ b b' : Backend, b.firstArgument = b'.firstArgument → b = b' := by
    intro b b'
    cases b <;> cases b' <;> decide
  have hhead := congrArg List.head? h
  rw [hfirst, hfirst] at hhead
  exact hinj _ _ (Option.some.inj hhead)

/-- For a source with a backend, and whatever the values are, the arguments of two settings are the
same exactly if the settings agree on all that the compiler is told. -/
theorem ModuleSettings.arguments_eq_iff (hsource : (Backend.ofPath? source).isSome) (out : Path)
    (s t : ModuleSettings) :
    s.arguments source out = t.arguments source out ↔ s.Agree t := by
  constructor
  case mpr => exact arguments_of_agree
  case mp =>
    intro h
    have hbackend := backend_of_arguments h
    cases s with
    | clang s =>
      cases t with
      | clang t => exact ClangSettings.agree_of_arguments hsource h
      | konan | rust => cases hbackend
    | konan s =>
      cases t with
      | konan t => exact KonanSettings.agree_of_arguments hsource h
      | clang | rust => cases hbackend
    | rust s =>
      cases t with
      | rust t => exact RustSettings.agree_of_arguments hsource h
      | clang | konan => cases hbackend

/-- Values that look like flags stay in their lists. -/
theorem ModuleSettings.arguments_ne_moved :
    (Backend.ofPath? "a.c").isSome ∧
      (clang { frameworks := some ["-I"], libraries := some ["a.c"] }).arguments "a.c" "a.o" ≠
        (clang { headerSearchPaths := some ["-l", "a.c"] }).arguments "a.c" "a.o" := by
  have hsource : (Backend.ofPath? "a.c").isSome := by decide +kernel
  refine ⟨hsource, fun h => ?_⟩
  have hagree := (arguments_eq_iff hsource "a.o" _ _).1 h
  exact absurd hagree.frameworks (by decide)

end Compilers

end ForeignModule
