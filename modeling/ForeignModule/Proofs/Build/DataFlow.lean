import ForeignModule.Proofs.Loading.Outputs

/-!
# What the steps of a build hand on

The steps of a build know of each other only by paths, and each path is made where it is needed. They
are made alike, so what a later step reads is what an earlier one was told to write, and in the end
there is the artifact that a loader looks for.

* `Path.parts` says what a path leads through, however it is written, and `Path.parts_ne` tells paths
  in one directory apart;
* `Library.apart`: a library, its object and its module are three paths;
* `Plan.HandsOn` are the steps for a Kotlin source, and how they fit;
* `Plan.steps_fit`: every plan ends with its artifact, and the plans for Kotlin sources hand on.
-/

namespace ForeignModule

/-! ## Paths that differ -/

namespace Path

variable {p q : Path} {front : List RawText} {name other suffix : RawText}

/-- What a path leads through: the root or not, the first name, and the further ones that say
something. Paths with different parts differ in more than how they are written. -/
def parts (p : Path) : Bool × List RawText :=
  (p.isAbsolute, p.names.head?.toList ++ p.names.tail.filter fun name => !isFiller name)

theorem names_ne_nil (p : Path) : p.names ≠ [] := by
  rw [names_eq_splitOn]
  exact List.splitOn_ne_nil _ _

/-- What is written behind a path belongs to its last name. -/
theorem names_append (h : p.names = front ++ [name]) (hslash : Path.slash ∉ suffix) :
    names (p ++ suffix) = front ++ [name ++ suffix] := by
  have hname : Path.slash ∉ name ++ suffix := by
    have hlast : Path.slash ∉ name := slash_not_mem (p := p) (by simp [h])
    simp [hlast, hslash]
  have hfront : ∀ part ∈ front, Path.slash ∉ part := fun part hpart =>
    slash_not_mem (p := p) (by simp [h, hpart])
  have htext : p ++ suffix = [slash].intercalate (front ++ [name ++ suffix]) := by
    rw [← intercalate_names p, h]
    by_cases hempty : front = []
    · simp [hempty]
    · rw [intercalate_append hempty (by simp), intercalate_append hempty (by simp)]
      simp
  rw [htext, names_intercalate (by simp)]
  intro part hpart
  rcases List.mem_append.1 hpart with hpart | hpart
  · exact hfront part hpart
  · rw [List.mem_singleton.1 hpart]
    exact hname

/-- Behind the same names, another last name makes another path, if it says something. -/
theorem parts_ne (hp : p.names = front ++ [name]) (hq : q.names = front ++ [other])
    (hne : name ≠ other) (hother : isFiller other = false) : p.parts ≠ q.parts := by
  intro h
  have hnames := (Prod.mk.inj h).2
  rw [hp, hq] at hnames
  -- A first name counts even if it says nothing, so paths of one name are a case of their own.
  cases front with
  | nil => exact hne (by simpa using hnames)
  | cons first more =>
    simp only [List.cons_append, List.head?_cons, List.tail_cons, List.filter_append,
      List.append_cancel_left_eq] at hnames
    by_cases hname : isFiller name = true
    · -- Then one path has a name less than the other.
      simp [hname, hother] at hnames
    · simp [hname, hother] at hnames
      exact hne hnames

end Path

/-! ## The files of a library -/

namespace Library

theorem isFiller_append_o (name : RawText) : Path.isFiller (name ++ (".o" : RawText)) = false := by
  have hname : Path.IsName (name ++ Path.point :: ("o" : RawText)) :=
    Path.isName_of_point (by decide) (by decide)
  exact hname.isFiller_eq

/-- A library, its object and its module are three paths. -/
theorem apart (library : Path) :
    [library, intermediate library, library ++ (".o" : RawText)].Pairwise fun p q =>
      p.parts ≠ q.parts := by
  obtain ⟨front, name, hlibrary⟩ : ∃ front name, library.names = front ++ [name] :=
    ⟨_, _, (List.dropLast_append_getLast library.names_ne_nil).symm⟩
  have hobject : (intermediate library).names = front ++ [name ++ (".intermediate.o" : RawText)] :=
    Path.names_append hlibrary (by decide)
  have hmodule : Path.names (library ++ (".o" : RawText)) = front ++ [name ++ (".o" : RawText)] :=
    Path.names_append hlibrary (by decide)
  have hsays : Path.isFiller (name ++ (".intermediate.o" : RawText)) = false := by
    have hsays := isFiller_append_o (name ++ (".intermediate" : RawText))
    rwa [List.append_assoc] at hsays
  have hlong : name ++ (".intermediate.o" : RawText) ≠ name := by simp [Text.bytes]
  have hshort : name ++ (".o" : RawText) ≠ name := by simp [Text.bytes]
  have hboth : name ++ (".intermediate.o" : RawText) ≠ name ++ (".o" : RawText) := fun h =>
    absurd (List.append_cancel_left h) (by decide)
  have hlibrary_object := Path.parts_ne hlibrary hobject hlong.symm hsays
  have hlibrary_module := Path.parts_ne hlibrary hmodule hshort.symm (isFiller_append_o name)
  have hobject_module := Path.parts_ne hobject hmodule hboth (isFiller_append_o name)
  simpa using ⟨⟨hlibrary_object, hlibrary_module⟩, hobject_module⟩

end Library

/-! ## Forwarding functions -/

namespace Forwarding

open ForeignModule.Abi

variable {signatures : List Signature} {s : Signature}

/-- The functions of a library are included from its header. -/
theorem include_prefix_source (header table : String) (signatures : List Signature) :
    ("#include \"" ++ header ++ "\"\n").toList <+: (source header table signatures).toList := by
  refine ⟨("extern \"C\" \x7b\n" ++ String.join (signatures.map (line table)) ++ "\x7d\n").toList, ?_⟩
  simp [source]

/-- Every function is called by way of the table of symbols. -/
theorem call_infix_source (header table : String) (hs : s ∈ signatures) :
    (table ++ "_symbols()->kotlin.root." ++ s.name ++ "(").toList <:+:
      (source header table signatures).toList := by
  have hline : (table ++ "_symbols()->kotlin.root." ++ s.name ++ "(").toList <:+:
      (line table s).toList := by
    refine ⟨(KotlinType.cType s.result ++ " " ++ s.name ++ "(" ++ ", ".intercalate
        (s.parameters.map fun p => KotlinType.cType p.type ++ " " ++ p.name)
        ++ ") \x7b return ").toList,
      (", ".intercalate (s.parameters.map Parameter.name) ++ "); \x7d\n").toList, ?_⟩
    simp [line]
  -- The lines are put together in the order of the signatures.
  have hlines : (line table s).toList <:+: (String.join (signatures.map (line table))).toList := by
    rw [String.toList_join]
    obtain ⟨before, behind, rfl⟩ := List.append_of_mem hs
    simp only [List.map_append, List.map_cons, List.flatMap_append, List.flatMap_cons]
    exact (List.prefix_append _ _).isInfix.trans (List.suffix_append _ _).isInfix
  have hsource : (String.join (signatures.map (line table))).toList <:+:
      (source header table signatures).toList := by
    rw [source, String.toList_append, String.toList_append]
    exact (List.suffix_append _ _).isInfix.trans (List.prefix_append _ _).isInfix
  exact (hline.trans hlines).trans hsource

end Forwarding

/-! ## Plans -/

namespace Plan

/-- The steps for a Kotlin source, and what each of them leaves to the next ones. -/
structure HandsOn (plan : Plan) (signatures : List Signature) (compile forward link : Invocation)
    (object : Path) : Prop where
  steps_eq : plan.steps = [compile, forward, link]
  /-- The compiler writes the library. -/
  compiles : [("-o" : RawText), plan.outputs.primary] <:+ compile.arguments
  /-- The forwarding functions go to the object. -/
  forwards : forward.arguments = RawText.ofTexts ["-c", "-x", "c++", "-o"] ++ [object, ("-" : RawText)]
  /-- Both are linked to the artifact. -/
  links : link.arguments =
    [("-shared" : RawText), object, plan.outputs.primary, ("-o" : RawText), plan.outputs.artifact]
  apart : [plan.outputs.primary, object, plan.outputs.artifact].Pairwise fun p q =>
    p.parts ≠ q.parts
  /-- The forwarding functions are for this library: they have its header, and each of them asks its
  table of symbols. -/
  input : ∃ text, forward.input = some text ∧
    ("#include \"" ++ Library.header plan.outputs.primary ++ "\"\n").toList <+: text.toList ∧
    ∀ s ∈ signatures,
      (Library.symbolName plan.outputs.primary ++ "_symbols()->kotlin.root." ++ s.name ++ "(").toList
        <:+: text.toList

variable (directory source : Path) (settings : ModuleSettings) (signatures : List Signature)

theorem handsOn_konan (s : KonanSettings) :
    ∃ compile forward link object,
      (of directory source (.konan s) signatures).HandsOn signatures compile forward link object := by
  have hlibrary := (ModuleSettings.konan s).suffix_arguments source
    (Outputs.of directory source (.konan s)).primary
  refine ⟨_, _, _, _, rfl, hlibrary, rfl, rfl, ?apart, _, rfl, ?header, ?calls⟩
  case apart =>
    simp only [of, Outputs.artifact_konan]
    exact Library.apart _
  case header => exact Forwarding.include_prefix_source _ _ _
  case calls => exact fun t ht => Forwarding.call_infix_source _ _ ht

/-- Without a setting, the artifact is where it is looked for. -/
theorem artifact_eq_default (hout : settings.out? = none) :
    (of directory source settings signatures).outputs.artifact =
      defaultArtifact settings.backend directory source := by
  cases settings with
  | _ s =>
    -- Both paths are made from the directory and the file name in the same way.
    have hnone : s.out = none := hout
    simp [of, Outputs.of, hnone, defaultArtifact, ModuleSettings.backend]

/-- Every plan ends with its artifact. A plan for a Kotlin source hands on what the later steps
read. If nothing is set, the artifact is the default one. -/
theorem steps_fit :
    (∃ final ∈ (of directory source settings signatures).steps.getLast?,
      [("-o" : RawText), (of directory source settings signatures).outputs.artifact] <:+ final.arguments) ∧
    (settings.backend = .konan → ∃ compile forward link object,
      (of directory source settings signatures).HandsOn signatures compile forward link object) ∧
    (settings.out? = none → (of directory source settings signatures).outputs.artifact =
      defaultArtifact settings.backend directory source) := by
  refine ⟨suffix_getLast directory source settings signatures, fun hkonan => ?_,
    artifact_eq_default directory source settings signatures⟩
  cases settings with
  | konan s => exact handsOn_konan directory source signatures s
  | clang | rust => cases hkonan

/-- The steps for a Kotlin source with one function, which is not told where to go. -/
theorem steps_fit_kotlin :
    (ModuleSettings.konan {}).backend = .konan ∧ (ModuleSettings.konan {}).out? = none ∧
      (∃ compile forward link object, (of "lib/" "a/m.kt" (.konan {}) [⟨"f", "Int", []⟩]).HandsOn
        [⟨"f", "Int", []⟩] compile forward link object) ∧
      (of "lib/" "a/m.kt" (.konan {}) [⟨"f", "Int", []⟩]).outputs.artifact = "lib/libm.kt.a.o" := by
  have hfit := steps_fit "lib/" "a/m.kt" (.konan {}) [⟨"f", "Int", []⟩]
  exact ⟨rfl, rfl, hfit.2.1 rfl, hfit.2.2 rfl⟩

end Plan

end ForeignModule
