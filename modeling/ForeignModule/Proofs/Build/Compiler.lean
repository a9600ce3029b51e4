import ForeignModule.Proofs.Build.Project

/-!
# A compiler that writes one file

The simplest tool that is honest: it reads the source that stands before the flag, and writes what it
compiles from it to the path behind the flag (`honest_of_compiles`). All that this needs is that no two
artifacts, and no artifact and another file that matters, have the same last name. The same goes for an
edit that writes a source (`Edit.write`).
-/

namespace ForeignModule

open Routine Disk

/-- A tool that reads the source and writes one file. Before these two, and between them, it is told what
it may be. -/
def Toolchain.compiler (compile : List UInt8 → List UInt8) : Toolchain := fun _ i =>
  match i.arguments.reverse with
  | out :: _ :: source :: _ => attempt fun d =>
    (d.read source >>= fun content => d.write out (compile content)).mapError fun fault =>
      .tool i.program (.notStarted fault)
  | _ => pure (.error (.tool i.program (.notStarted .notFound)))

/-- It writes to the path behind the flag, or nothing at all. -/
theorem Toolchain.compiler_writes {compile : List UInt8 → List UInt8} {i : Invocation} {out : Path}
    (harguments : [("-o" : RawText), out] <:+ i.arguments) (ran : List Invocation) (d : Disk) :
    ((Toolchain.compiler compile ran i).run d).2 = d ∨ ∃ content,
      d.write out content = .ok ((Toolchain.compiler compile ran i).run d).2 := by
  obtain ⟨before, harguments⟩ := harguments
  have hreverse : i.arguments.reverse = out :: ("-o" : RawText) :: before.reverse := by
    simp [← harguments]
  unfold Toolchain.compiler
  rw [hreverse]
  cases before.reverse with
  | nil => exact .inl rfl
  | cons source more =>
    simp only [attempt, run_act]
    cases d.read source with
    | error fault => exact .inl rfl
    | ok content =>
      have hboth : (Except.ok content >>= fun content => d.write out (compile content))
          = d.write out (compile content) := rfl
      rw [hboth]
      cases hwrite : d.write out (compile content) with
      | error fault => exact .inl rfl
      | ok e => exact .inr ⟨compile content, hwrite⟩

namespace Project

/-- Each build is one run of such a tool, which is told one path to write to. What lies beside an artifact
has another last name. -/
structure Compiles (P : Project) (compile : List UInt8 → List UInt8) : Prop where
  toolchain_eq : P.builder.toolchain = .compiler compile
  compile_eq : ∀ p, P.compile p = compile
  step : ∀ t, P.targets t → ∃ i, (P.builder.planOf t).steps = [i] ∧
    [t.source, ("-o" : RawText), P.builder.artifact t] <:+ i.arguments ∧
    ∀ t', P.targets t' → i.Writes (P.builder.artifact t') → P.builder.artifact t' = P.builder.artifact t
  artifact_named : ∀ t, P.targets t → ∃ front name, (P.builder.artifact t).EndsIn front name
  source_named : ∀ t, P.targets t → ∃ front name, t.source.EndsIn front name
  artifact_ne : ∀ t t', P.targets t → P.targets t' →
    (P.builder.artifact t').fileName? = (P.builder.artifact t).fileName? →
      P.builder.artifact t' = P.builder.artifact t
  source_ne : ∀ t t', P.targets t → P.targets t' →
    t'.source.fileName? ≠ (P.builder.artifact t).fileName?
  apart : ∀ t, P.targets t → Apart P.cache P.number (P.builder.artifact t)

section

variable {P : Project} {compile : List UInt8 → List UInt8} {written written' : Path → Prop} {t : Target}
  {content : List UInt8} {d e : Disk}

theorem Watched.artifact {front : List RawText} {name : RawText} (ht : P.targets t)
    (h : (P.builder.artifact t).EndsIn front name) : P.Watched name :=
  ⟨front, .inr (.inr ⟨t, ht, .inr h⟩)⟩

theorem KeepsBut.refl (hlinks : d.NoLinks P.Watched) : P.KeepsBut written d d where
  noLinks := hlinks
  sources t _ := .refl d t.source
  artifacts t _ _ := .refl d (P.builder.artifact t)
  ready h := h

theorem KeepsBut.mono (h : P.KeepsBut written d e) (himp : ∀ p, written p → written' p) :
    P.KeepsBut written' d e where
  noLinks := h.noLinks
  sources := h.sources
  artifacts t ht hnot := h.artifacts t ht fun hwritten => hnot (himp _ hwritten)
  ready := h.ready

theorem Compiles.dropLast_eq (h : P.Compiles compile) (ht : P.targets t) :
    (P.builder.planOf t).steps.dropLast = [] := by
  obtain ⟨i, hsteps, -⟩ := h.step t ht
  rw [hsteps]
  rfl

theorem Compiles.eq_of_writes (h : P.Compiles compile) {t' : Target} (ht : P.targets t)
    (ht' : P.targets t') {i : Invocation} (hi : i ∈ (P.builder.planOf t).steps)
    (hwrites : i.Writes (P.builder.artifact t')) : P.builder.artifact t' = P.builder.artifact t := by
  obtain ⟨i', hsteps, -, hone⟩ := h.step t ht
  rw [hsteps, List.mem_singleton] at hi
  exact hone t' ht' (hi ▸ hwrites)

/-- Writing an artifact changes nothing else that matters. -/
theorem Compiles.keepsBut_write (h : P.Compiles compile) (ht : P.targets t)
    (hlinks : d.NoLinks P.Watched) (hwrite : d.write (P.builder.artifact t) content = .ok e) :
    P.KeepsBut (· = P.builder.artifact t) d e ∧ e.HasFile (P.builder.artifact t) content := by
  obtain ⟨front, name, hends⟩ := h.artifact_named t ht
  have hname := Watched.artifact ht hends
  obtain ⟨parent, hplace, hinert, rfl⟩ := exists_of_write hends hwrite
    fun parent target hplace => hlinks.ne_link hplace hname target
  have hagree := agreeOff_put d (parent.child name) (.file content)
  constructor
  · constructor
    case noLinks => exact hlinks.put fun _ hnode => nomatch hnode
    case sources =>
      intro t' ht'
      apply hagree.keeps hinert hplace.slash_not_mem
      intro front' hends'
      apply h.source_ne t t' ht ht'
      rw [hends.fileName?_eq, hends'.fileName?_eq]
    case artifacts =>
      intro t' ht' hne
      apply hagree.keeps hinert hplace.slash_not_mem
      intro front' hends'
      apply hne
      apply h.artifact_ne t t' ht ht'
      rw [hends.fileName?_eq, hends'.fileName?_eq]
    case ready =>
      intro hready
      exact hready.frame hagree hinert hplace.slash_not_mem fun front' name' hcache =>
        (h.apart t ht).ne_of_mem hcache hends.mem_names
  · exact ⟨parent, name, hplace.frame hagree hinert, by rw [nodes_put, if_pos rfl]⟩

/-- The tool looks at the last arguments alone. -/
theorem compiler_run {i : Invocation} {source out : Path}
    (harguments : [source, ("-o" : RawText), out] <:+ i.arguments) (hread : d.read source = .ok content)
    (ran : List Invocation) :
    (Toolchain.compiler compile ran i).run d = match d.write out (compile content) with
      | .ok e => (.ok (), e)
      | .error fault => (.error (.tool i.program (.notStarted fault)), d) := by
  obtain ⟨before, harguments⟩ := harguments
  have hreverse : i.arguments.reverse = out :: ("-o" : RawText) :: source :: before.reverse := by
    simp [← harguments]
  have hboth : (d.read source >>= fun content => d.write out (compile content))
      = d.write out (compile content) := by
    rw [hread]
    rfl
  simp only [Toolchain.compiler, hreverse, attempt, run_act, hboth]
  cases d.write out (compile content) <;> rfl

/-- Such a compiler is honest. -/
theorem honest_of_compiles (h : P.Compiles compile) : P.Honest := by
  intro t ht i hi ran d content hlinks hsource
  have hone : ∀ t', P.targets t' → i.Writes (P.builder.artifact t') →
      P.builder.artifact t' = P.builder.artifact t := fun t' ht' => h.eq_of_writes ht ht' hi
  obtain ⟨i', hsteps, ⟨before, harguments⟩, -⟩ := h.step t ht
  rw [hsteps, List.mem_singleton] at hi
  subst hi
  have htold : i.Writes (P.builder.artifact t) := ⟨before ++ [t.source], [], by simp [← harguments]⟩
  rw [h.toolchain_eq, compiler_run ⟨before, harguments⟩ hsource.read]
  cases hwrite : d.write (P.builder.artifact t) (compile content) with
  | error fault => exact .refl hlinks
  | ok e =>
    obtain ⟨hkeeps, hfile⟩ := h.keepsBut_write ht hlinks hwrite
    constructor
    · exact hkeeps.mono fun p hp => hp ▸ htold
    · intro t' ht' htold'
      rw [hone t' ht' htold', h.compile_eq]
      exact hfile

/-- A source that is written is an edit: no artifact has its last name. -/
theorem Compiles.edit_write (h : P.Compiles compile) (ht : P.targets t) (hlinks : d.NoLinks P.Watched)
    (hcontent : P.contents content) (hwrite : d.write t.source content = .ok e) : P.Edit t d e := by
  refine ⟨.inl ⟨content, hcontent, hwrite⟩, fun t' ht' => ?_⟩
  obtain ⟨front, name, hends⟩ := h.source_named t ht
  have hname := Watched.source ht hends
  obtain ⟨parent, hplace, hinert, rfl⟩ := exists_of_write hends hwrite
    fun parent target hplace => hlinks.ne_link hplace hname target
  apply (agreeOff_put d (parent.child name) (.file content)).keeps hinert hplace.slash_not_mem
  intro front' hends'
  apply h.source_ne t' t ht' ht
  rw [hends.fileName?_eq, hends'.fileName?_eq]

end

end Project

end ForeignModule
