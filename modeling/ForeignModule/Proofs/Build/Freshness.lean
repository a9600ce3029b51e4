import ForeignModule.Proofs.Build.Arguments
import ForeignModule.Proofs.Build.Compiler
import ForeignModule.Proofs.Build.Recording

/-!
# Fresh artifacts

However sources are edited and built, a build that succeeds leaves an artifact that is compiled from what its
source contains (`artifact_fresh`), whether the tools have run or not, as long as every source has an artifact of
its own. Two sources with the same file name go to one artifact unless something else is set, and then a
build may be skipped that was needed (`artifact_stale`).

A build is followed step by step: `Asked` holds once the cache has been asked, `During` while the tools run.
Only the last tool writes the artifact, and from then on until the source is recorded what is recorded for it
may be stale.
-/

namespace ForeignModule

open Routine Disk

namespace Builder

variable {b : Builder} {t : Target}

/-! ## Plans -/

/-- The last step of a plan writes the artifact. -/
theorem exists_last (b : Builder) (t : Target) :
    ∃ i, (b.planOf t).steps.getLast? = some i ∧ i.Writes (b.artifact t) := by
  obtain ⟨i, hi, hartifact⟩ := Plan.suffix_getLast b.directory t.source t.settings t.signatures
  exact ⟨i, hi, hartifact.isInfix⟩

theorem runTools_append (b : Builder) (l l' : List Invocation) :
    b.runTools (l ++ l') = b.runTools l >>= fun _ => b.runTools l' := by
  induction l with
  | nil => simp [runTools]
  | cons i l ih => simp [runTools, ih]

theorem runTool_run (b : Builder) (i : Invocation) (w : Workspace) :
    (b.runTool i).run.run w =
      (((b.toolchain w.ran i).run w.disk).1,
        { w with ran := w.ran ++ [i], disk := ((b.toolchain w.ran i).run w.disk).2 }) := by
  have hbind : (b.runTool i).run = (ask (·.ran) >>= fun ran =>
      change (fun w => { w with ran := w.ran ++ [i] }) >>= fun _ =>
        Workspace.onDisk (b.toolchain ran i)) := rfl
  rw [hbind]
  simp only [run_bind, run_ask, run_change, Cache.run_onDisk]

end Builder

namespace Project

section

variable {P : Project} {stale written : Path → Prop} {w w' : Workspace} {t : Target}
  {content : List UInt8} {upToDate : Bool} {d e : Disk}

/-! ## While tools run -/

/-- A step that does not write an artifact. -/
theorem runTool_before (hsep : P.Separate) (hhonest : P.Honest) (ht : P.targets t) {i : Invocation}
    (hi : i ∈ (P.builder.planOf t).steps.dropLast) :
    Leaves (P.During t content fun _ => False) (P.builder.runTool i)
      (fun _ => P.During t content fun _ => False) (P.During t content fun _ => False) := by
  intro w hw
  have hstep := hhonest t ht i (List.dropLast_subset _ hi) w.ran w.disk content hw.sound.noLinks hw.source
  rw [Builder.runTool_run]
  generalize (P.builder.toolchain w.ran i).run w.disk = outcome at hstep ⊢
  obtain ⟨result, e⟩ := outcome
  cases result with
  | error error => exact hw.keepsBut ht rfl hstep fun _ h => h
  | ok _ =>
    have hkeeps : P.KeepsBut (fun _ => False) w.disk e := by
      obtain ⟨⟨hlinks, hsources, hartifacts, hready⟩, -⟩ := hstep
      exact ⟨hlinks, hsources, fun t' ht' _ => hartifacts t' ht' (hsep.before t t' ht ht' i hi), hready⟩
    exact hw.keepsBut ht rfl hkeeps fun _ h => h

/-- The step that writes the artifact. What is recorded for the source may be stale then. -/
theorem runTool_last (hsep : P.Separate) (hhonest : P.Honest) (ht : P.targets t) {i : Invocation}
    (hi : (P.builder.planOf t).steps.getLast? = some i) (hwrites : i.Writes (P.builder.artifact t)) :
    Leaves (P.During t content fun _ => False) (P.builder.runTool i)
      (fun _ w => P.During t content (· = P.builder.artifact t) w ∧ P.Fresh t content w)
      (P.During t content fun _ => False) := by
  intro w hw
  have hstep := hhonest t ht i (List.mem_of_getLast? hi) w.ran w.disk content hw.sound.noLinks hw.source
  rw [Builder.runTool_run]
  generalize (P.builder.toolchain w.ran i).run w.disk = outcome at hstep ⊢
  obtain ⟨result, e⟩ := outcome
  cases result with
  | error error => exact hw.keepsBut ht rfl hstep fun _ h => h
  | ok _ =>
    obtain ⟨⟨hlinks, hsources, hartifacts, hready⟩, hfile⟩ := hstep
    have hkeeps : P.KeepsBut (· = P.builder.artifact t) w.disk e :=
      ⟨hlinks, hsources, fun t' ht' hne => hartifacts t' ht' fun h => hne (hsep.last t t' ht ht' i hi h),
        hready⟩
    have hsound : P.Sound (· = P.builder.artifact t) w :=
      ⟨hw.sound.toLaid, fun hcached entries hentries t' ht' digest hdigest =>
        (hw.sound.recorded hcached entries hentries t' ht' digest hdigest).imp_right
          fun hfresh _ => hfresh not_false⟩
    have hduring : P.During t content (· = P.builder.artifact t) w := ⟨hsound, hw.source, hw.loaded⟩
    exact ⟨hduring.keepsBut ht rfl hkeeps fun _ h => h, hfile t ht hwrites⟩

/-- All steps of a plan. -/
theorem runTools_leaves (hsep : P.Separate) (hhonest : P.Honest) (ht : P.targets t) :
    Leaves (P.During t content fun _ => False) (P.builder.runTools (P.builder.planOf t).steps)
      (fun _ w => P.During t content (· = P.builder.artifact t) w ∧ P.Fresh t content w)
      (P.During t content fun _ => False) := by
  have hbefore : ∀ l, l ⊆ (P.builder.planOf t).steps.dropLast →
      Leaves (P.During t content fun _ => False) (P.builder.runTools l)
        (fun _ => P.During t content fun _ => False) (P.During t content fun _ => False) := by
    intro l hl
    induction l with
    | nil => exact .pure fun _ h => h
    | cons i l ih =>
      refine .bind (runTool_before hsep hhonest ht (hl List.mem_cons_self)) fun _ => ih ?_
      exact fun j hj => hl (List.mem_cons_of_mem _ hj)
  obtain ⟨i, hi, hwrites⟩ := P.builder.exists_last t
  obtain ⟨front, hsplit⟩ := List.getLast?_eq_some_iff.1 hi
  rw [hsplit, List.dropLast_concat] at hbefore
  rw [hsplit, Builder.runTools_append]
  refine .bind (hbefore front fun _ h => h) fun _ => ?_
  refine .bind (runTool_last hsep hhonest ht hi hwrites) fun _ => .pure fun _ h => h

/-! ## Around the tools -/

/-- The cache has been asked: if it says that nothing has changed, then the artifact is fresh. -/
def Asked (P : Project) (t : Target) (content : List UInt8) (upToDate : Bool) (w : Workspace) : Prop :=
  P.During t content (fun _ => False) w ∧ (upToDate = true → P.Fresh t content w)

/-- Directories that are made get in the way of nothing. -/
theorem keepsBut_made (hlinks : d.NoLinks P.Watched) {path : Path} (hpath : Apart P.cache P.number path)
    (hmade : Made (· ∈ path.names) d e) : P.KeepsBut (fun _ => False) d e where
  noLinks := hmade.noLinks hlinks
  sources t _ := hmade.keeps t.source
  artifacts t _ _ := hmade.keeps (P.builder.artifact t)
  ready hready := hready.made hpath hmade

theorem ensureParent_leaves (ht : P.targets t) {path : Path} (hpath : Apart P.cache P.number path) :
    Leaves (P.Asked t content upToDate) (Builder.ensureParent path)
      (fun _ => P.Asked t content upToDate) (P.Asked t content upToDate) := by
  unfold Builder.ensureParent
  cases hdirectory : path.directory? with
  | none => exact .pure fun _ h => h
  | some directory =>
    intro w hw
    have hkeeps := keepsBut_made hw.1.sound.noLinks hpath (made_makeDirectories w.disk hdirectory)
    have hafter : P.Asked t content upToDate { w with disk := (w.disk.makeDirectories directory).2 } :=
      ⟨hw.1.keepsBut ht rfl hkeeps fun _ h => h, fun hup =>
        (hkeeps.artifacts t ht not_false).hasFile (hw.2 hup)⟩
    rw [ExceptT.run_mk, Cache.run_onDisk, run_act]
    generalize w.disk.makeDirectories directory = made at hafter ⊢
    obtain ⟨_ | _, e⟩ := made <;> exact hafter

/-- What a build that succeeds brings. -/
structure Delivered (P : Project) (t : Target) (content : List UInt8) (p : Path) (w : Workspace) : Prop where
  path_eq : p = P.builder.artifact t
  sound : P.Sound (fun _ => False) w
  source : w.disk.HasFile t.source content
  fresh : P.Fresh t content w

theorem look_leaves {α : Type} {f : Disk → α} {before failed : Workspace → Prop}
    {after : α → Workspace → Prop} (h : ∀ w, before w → after (f w.disk) w) :
    Leaves before (Builder.look f) after failed := .lift h

theorem rebuild_leaves (hsep : P.Separate) (hhonest : P.Honest) (ht : P.targets t) :
    Leaves (P.During t content fun _ => False) (P.builder.rebuild t.source (P.builder.planOf t))
      (P.Delivered t content) (P.Sound fun _ => False) := by
  have hrecord : Leaves (ε := BuildError)
      (fun w => P.builder.cached = true ∧ P.During t content (· = P.builder.artifact t) w ∧
        P.Fresh t content w)
      (liftM (Cache.record t.source) : Builder.Build (Except CacheError Unit))
      (fun _ => P.Delivered t content (P.builder.artifact t)) (P.Sound fun _ => False) := by
    refine .lift fun w hw => ?_
    obtain ⟨result, w', hrun, hsound, hsource, hfresh⟩ := record_during hsep hw.1 ht hw.2.1 hw.2.2
    rw [hrun]
    exact ⟨rfl, hsound, hsource, hfresh⟩
  have hlook : Leaves
      (fun w => P.During t content (· = P.builder.artifact t) w ∧ P.Fresh t content w)
      (Builder.look (·.exists? (P.builder.planOf t).outputs.artifact))
      (fun there w => there = true ∧ P.During t content (· = P.builder.artifact t) w ∧
        P.Fresh t content w) (P.Sound fun _ => False) :=
    look_leaves fun w hw => ⟨HasFile.exists hw.2, hw⟩
  have htools : Leaves (P.During t content fun _ => False) _ _ (P.Sound fun _ => False) :=
    (runTools_leaves hsep hhonest ht).imp_failed fun _ h => h.sound
  unfold Builder.rebuild
  refine .bind htools fun _ => .bind hlook fun there => ?_
  cases there with
  | false => exact fun w hw => nomatch hw.1
  | true =>
    intro w hw
    obtain ⟨-, hduring, hfresh⟩ := hw
    by_cases hcached : P.builder.cached = true
    · simp only [if_true, hcached]
      have hboth : Leaves _ (liftM (Cache.record t.source) >>= fun _ => pure (P.builder.artifact t)) _ _ :=
        .bind hrecord fun _ => .pure fun _ h => h
      exact hboth w ⟨hcached, hduring, hfresh⟩
    · simp only [if_true, hcached]
      have hsound : P.Sound (fun _ => False) w :=
        ⟨hduring.sound.toLaid, fun h => absurd h hcached⟩
      exact ⟨rfl, hsound, hduring.source, hfresh⟩

/-- A build after the cache has been asked about the same source. -/
theorem build_leaves (hsep : P.Separate) (hhonest : P.Honest) (ht : P.targets t) :
    Leaves (P.Asked t content upToDate) (P.builder.build ⟨t.source, t.settings, t.signatures, upToDate⟩)
      (P.Delivered t content) (P.Sound fun _ => False) := by
  have hfile : Leaves (P.Asked t content upToDate) (Builder.look (·.isFile t.source))
      (fun there w => there = true ∧ P.Asked t content upToDate w) (P.Sound fun _ => False) :=
    look_leaves fun w hw => ⟨isFile_iff.2 ⟨content, hw.1.source.read⟩, hw⟩
  have hexists : Leaves (P.Asked t content upToDate)
      (Builder.look (·.exists? (P.builder.planOf t).outputs.artifact))
      (fun _ => P.Asked t content upToDate) (P.Sound fun _ => False) := look_leaves fun w hw => hw
  have hrebuild : Leaves (P.Asked t content upToDate)
      (P.builder.rebuild t.source (P.builder.planOf t)) (P.Delivered t content)
      (P.Sound fun _ => False) := fun w hw => rebuild_leaves hsep hhonest ht w hw.1
  -- The artifact may stay if the cache says so and anything is there.
  have hskip : Leaves (P.Asked t content upToDate)
      (if upToDate = true then
        Builder.look (·.exists? (P.builder.planOf t).outputs.artifact) >>= fun there =>
          if there = true then pure (P.builder.planOf t).outputs.artifact
          else P.builder.rebuild t.source (P.builder.planOf t)
      else P.builder.rebuild t.source (P.builder.planOf t))
      (P.Delivered t content) (P.Sound fun _ => False) := by
    by_cases hup : upToDate = true
    · rw [if_pos hup]
      refine .bind hexists fun there => ?_
      cases there with
      | false => exact hrebuild
      | true => exact fun w hw => ⟨rfl, hw.1.sound, hw.1.source, hw.2 hup⟩
    · rw [if_neg hup]
      exact hrebuild
  unfold Builder.build
  refine .bind hfile fun there => ?_
  cases there with
  | false => exact fun w hw => nomatch hw.1
  | true =>
    have hparent : ∀ {path}, Apart P.cache P.number path →
        Leaves (P.Asked t content upToDate) (Builder.ensureParent path)
          (fun _ => P.Asked t content upToDate) (P.Sound fun _ => False) := fun hpath =>
      (ensureParent_leaves ht hpath).imp_failed fun _ h => h.1.sound
    have hall : Leaves (P.Asked t content upToDate) _ (P.Delivered t content) _ :=
      .bind (hparent (hsep.primary_apart t ht)) fun _ =>
        .bind (hparent (hsep.artifact_apart t ht)) fun _ => hskip
    exact fun w hw => hall w hw.2

/-! ## Histories -/

/-- A source that is no file is not built. -/
theorem update_missing (b : Builder) (hmissing : w.disk.isFile t.source = false) :
    (b.update t).run w = (.error (.missingSource t.source), w) := by
  have hdigest : ∃ fault, w.disk.digest t.source = .error fault := by
    unfold Disk.digest
    cases hread : w.disk.read t.source with
    | error fault => exact ⟨fault, rfl⟩
    | ok content =>
      rw [isFile_iff.2 ⟨content, hread⟩] at hmissing
      cases hmissing
  obtain ⟨fault, hdigest⟩ := hdigest
  have hunchanged : (b.unchanged t.source).run w = (false, w) := by
    unfold Builder.unchanged Cache.shouldSkip
    by_cases hcached : b.cached = true
    · simp only [hcached, if_true, run_bind, run_ask, hdigest, run_pure]
    · rw [if_neg hcached, run_pure]
  have hlook : (Builder.look (·.isFile t.source)).run.run w = (.ok false, w) := by
    rw [← hmissing]
    rfl
  rw [Builder.update, run_bind, hunchanged, Builder.build, ExceptT.run_bind, run_bind, hlook]
  rfl

/-- A build leaves the invariant, and if it succeeds the artifact is compiled from what the source contained
and still contains. -/
theorem update_sound (hsep : P.Separate) (hhonest : P.Honest) (ht : P.targets t)
    (h : P.Sound (fun _ => False) w) :
    match (P.builder.update t).run w with
    | (.ok p, w') => ∃ content, w.disk.HasFile t.source content ∧ P.Delivered t content p w'
    | (.error _, w') => P.Sound (fun _ => False) w' := by
  by_cases hfile : w.disk.isFile t.source = true
  case neg =>
    rw [update_missing P.builder (by simpa using hfile)]
    exact h
  obtain ⟨content, hread⟩ := isFile_iff.1 hfile
  have hsource := h.hasFile_of_read ht hread
  have hasked : ∃ upToDate w', (P.builder.unchanged t.source).run w = (upToDate, w') ∧
      P.Asked t content upToDate w' := by
    unfold Builder.unchanged
    by_cases hcached : P.builder.cached = true
    · obtain ⟨upToDate, w', hrun, hduring, hfresh⟩ := shouldSkip_during hsep hcached h ht hsource
      exact ⟨upToDate, w', by rw [if_pos hcached, hrun], hduring, hfresh⟩
    · refine ⟨false, w, by rw [if_neg hcached]; rfl, ⟨h, hsource, fun hc => absurd hc hcached⟩, nofun⟩
  obtain ⟨upToDate, w', hrun, hw'⟩ := hasked
  have hbuild := build_leaves hsep hhonest ht w' hw'
  rw [Builder.update, run_bind, hrun]
  generalize (P.builder.build ⟨t.source, t.settings, t.signatures, upToDate⟩).run.run w' = outcome
    at hbuild ⊢
  obtain ⟨result, w''⟩ := outcome
  cases result with
  | ok p => exact ⟨content, hsource, hbuild⟩
  | error error => exact hbuild

/-- The invariant holds at the end of every history. -/
theorem Reaches.sound {w₀ : Workspace} (hsep : P.Separate) (hhonest : P.Honest) (hstart : P.Starts w₀)
    (h : P.Reaches w₀ w) : P.Sound (fun _ => False) w := by
  induction h with
  | start => exact hstart.sound
  | edit _ ht hedit ih => exact ih.edit hsep ht hedit
  | @build w t _ ht ih =>
    have hupdate := update_sound hsep hhonest ht ih
    generalize (P.builder.update t).run w = outcome at hupdate ⊢
    obtain ⟨result, w'⟩ := outcome
    cases result with
    | ok p =>
      obtain ⟨content, -, hdelivered⟩ := hupdate
      exact hdelivered.sound
    | error error => exact hupdate

/-- After every history, a build that succeeds leaves an artifact that is compiled from what its source
contains. -/
theorem artifact_fresh {w₀ : Workspace} {p : Path} (hsep : P.Separate) (hhonest : P.Honest)
    (hstart : P.Starts w₀) (h : P.Reaches w₀ w) (ht : P.targets t)
    (hrun : (P.builder.update t).run w = (.ok p, w')) :
    ∃ content, w.disk.read t.source = .ok content ∧ w'.disk.read t.source = .ok content ∧
      w'.disk.read p = .ok (P.compile p content) := by
  have hupdate := update_sound hsep hhonest ht (h.sound hsep hhonest hstart)
  rw [hrun] at hupdate
  obtain ⟨content, hsource, hdelivered⟩ := hupdate
  obtain rfl := hdelivered.path_eq
  exact ⟨content, hsource.read, hdelivered.source.read, hdelivered.fresh.read⟩

end

/-! ## Sources in two directories -/

/-- A C source without settings of its own. -/
def cSource (source : Path) : Target := ⟨source, .clang {}, []⟩

/-- A builder whose compiler puts a mark before what it reads. -/
def marking : Builder := { toolchain := .compiler (0x7f :: ·) }

/-- What the source in the first directory contains at first. -/
def one : List UInt8 := Text.bytes "int one;"

/-- What the other sources contain. -/
def two : List UInt8 := Text.bytes "int two;"

/-- Some C sources that it builds. -/
def ofSources (sources : List Path) : Project where
  builder := marking
  targets t := t ∈ sources.map cSource
  place t := "/w/" ++ t.source
  contents content := content = one ∨ content = two
  compile _ content := 0x7f :: content
  cache := Cache.defaultPath
  number := 7

/-- Three sources in two directories. Two of them have the same file name. -/
def threeSources : List Path := ["a/m.c", "b/m.c", "b/n.c"]

/-- A workspace with these sources, where nothing has been built. -/
def unbuilt : Workspace where
  disk := (((((Disk.empty ["w"]).put "/w/a" .directory).put "/w/b" .directory).put "/w/a/m.c"
    (.file one)).put "/w/b/m.c" (.file two)).put "/w/b/n.c" (.file two)
  cache := .ofPath Cache.defaultPath 7

theorem node_unbuilt {x : Location} {node : Node} (h : unbuilt.disk.nodes[x]? = some node) :
    node = .directory ∨ node = .file one ∨ node = .file two := by
  have hroot : ((Disk.mk ∅ Location.root).put "/w" .directory).nodes[x]? = some node → node = .directory := by
    intro h
    rw [nodes_put] at h
    split at h
    · exact (Option.some.inj h).symm
    · simp at h
  unfold unbuilt at h
  iterate 5
    rw [nodes_put] at h
    split at h
    · cases h
      simp
  exact .inl (hroot h)

theorem endsIn_hash : Path.EndsIn Cache.defaultPath [".", ".nativekit"] "hash.json" :=
  ⟨by decide, by decide, by decide, by decide⟩

/-- The directory and the file name of a source. -/
theorem endsIn_source : ∀ source ∈ threeSources,
    source.EndsIn (source.names.take 1) (source.fileName?.getD []) := by
  have hname : ∀ source ∈ threeSources, source.fileName?.getD [] ≠ [] ∧
      source.fileName?.getD [] ≠ Path.here ∧ source.fileName?.getD [] ≠ Path.up ∧
      source.names = source.names.take 1 ++ [source.fileName?.getD []] := by decide
  intro source hsource
  obtain ⟨hempty, hdot, hup, hnames⟩ := hname source hsource
  exact ⟨hnames, hempty, hdot, hup⟩

theorem endsIn_artifact : ∀ source ∈ threeSources,
    (marking.artifact (cSource source)).EndsIn ["out"] (source.fileName?.getD [] ++ (".o" : RawText)) := by
  have hname : ∀ source ∈ threeSources, source.fileName?.getD [] ++ (".o" : RawText) ≠ [] ∧
      source.fileName?.getD [] ++ (".o" : RawText) ≠ Path.here ∧
      source.fileName?.getD [] ++ (".o" : RawText) ≠ Path.up ∧
      (marking.artifact (cSource source)).names =
        [("out" : RawText)] ++ [source.fileName?.getD [] ++ (".o" : RawText)] := by decide
  intro source hsource
  obtain ⟨hempty, hdot, hup, hnames⟩ := hname source hsource
  exact ⟨hnames, hempty, hdot, hup⟩

section

variable {sources : List Path} {t : Target}

/-- No artifact has the last name of a source or of a file of the cache. -/
theorem compiles_ofSources (h : sources ⊆ threeSources) : (ofSources sources).Compiles (0x7f :: ·) := by
  have hcases : ∀ t, (ofSources sources).targets t → ∃ source ∈ threeSources, cSource source = t :=
    fun t ht => (List.mem_map.1 ht).imp fun source hs => ⟨h hs.1, hs.2⟩
  constructor
  case toolchain_eq => rfl
  case compile_eq => exact fun _ => rfl
  case step =>
    have htold : ∀ source ∈ threeSources, ∀ source' ∈ threeSources,
        [("-o" : RawText), marking.artifact (cSource source')] <:+:
            RawText.ofTexts ["-shared", "-fPIC"] ++
              [source, ("-o" : RawText), marking.artifact (cSource source)] →
          marking.artifact (cSource source') = marking.artifact (cSource source) := by decide
    intro t ht
    obtain ⟨source, hsource, rfl⟩ := hcases t ht
    refine ⟨_, rfl, List.suffix_append (RawText.ofTexts ["-shared", "-fPIC"]) _, fun t' ht' => ?_⟩
    obtain ⟨source', hsource', rfl⟩ := hcases t' ht'
    exact htold source hsource source' hsource'
  case artifact_named =>
    intro t ht
    obtain ⟨source, hsource, rfl⟩ := hcases t ht
    exact ⟨_, _, endsIn_artifact source hsource⟩
  case source_named =>
    intro t ht
    obtain ⟨source, hsource, rfl⟩ := hcases t ht
    exact ⟨_, _, endsIn_source source hsource⟩
  case artifact_ne =>
    have hnames : ∀ source ∈ threeSources, ∀ source' ∈ threeSources,
        (marking.artifact (cSource source')).fileName? = (marking.artifact (cSource source)).fileName? →
          marking.artifact (cSource source') = marking.artifact (cSource source) := by decide
    intro t t' ht ht'
    obtain ⟨source, hsource, rfl⟩ := hcases t ht
    obtain ⟨source', hsource', rfl⟩ := hcases t' ht'
    exact hnames source hsource source' hsource'
  case source_ne =>
    have hnames : ∀ source ∈ threeSources, ∀ source' ∈ threeSources,
        source'.fileName? ≠ (marking.artifact (cSource source)).fileName? := by decide
    intro t t' ht ht'
    obtain ⟨source, hsource, rfl⟩ := hcases t ht
    obtain ⟨source', hsource', rfl⟩ := hcases t' ht'
    exact hnames source hsource source' hsource'
  case apart =>
    have hnames : ∀ source ∈ threeSources, ("hash.json" : RawText) ∉ (marking.artifact (cSource source)).names ∧
        Entries.temporaryName "hash.json" 7 ∉ (marking.artifact (cSource source)).names := by decide
    intro t ht
    obtain ⟨source, hsource, rfl⟩ := hcases t ht
    exact .of_endsIn endsIn_hash (hnames source hsource)

theorem starts_unbuilt (h : sources ⊆ threeSources) : (ofSources sources).Starts unbuilt where
  path_eq := rfl
  number_eq := rfl
  noLinks x target hlink := by rcases node_unbuilt hlink with h | h | h <;> cases h
  sources t ht := by
    have hplaces : ∀ source ∈ threeSources, ∃ parent name,
        unbuilt.disk.NamesPlace source parent name ∧ parent.child name = "/w/" ++ source := by
      intro source hsource
      have hends := endsIn_source source hsource
      simp only [threeSources, List.mem_cons, List.not_mem_nil, or_false] at hsource
      rcases hsource with rfl | rfl | rfl
      · exact ⟨"/w/a", "m.c", ⟨by decide, by decide, _, hends, by rfl⟩, by decide⟩
      · exact ⟨"/w/b", "m.c", ⟨by decide, by decide, _, hends, by rfl⟩, by decide⟩
      · exact ⟨"/w/b", "n.c", ⟨by decide, by decide, _, hends, by rfl⟩, by decide⟩
    obtain ⟨source, hsource, rfl⟩ := List.mem_map.1 ht
    exact hplaces source (h hsource)
  contents t ht content hfile := by
    obtain ⟨parent, name, -, hnode⟩ := hfile
    rcases node_unbuilt hnode with h | h | h
    · cases h
    · exact .inl (Node.file.inj h)
    · exact .inr (Node.file.inj h)
  unrecorded entries hentries t ht := by
    have hload : Entries.load Cache.defaultPath unbuilt.disk = .ok none := by rfl
    rcases hentries with h | ⟨-, h⟩
    · cases h
    · cases h.symm.trans hload

end

theorem digest_one_ne_two : Digest.ofContent one ≠ Digest.ofContent two := by
  intro h
  have hoption := congrArg Except.toOption h
  revert hoption
  decide +kernel

theorem primary_cSource (source : Path) :
    (marking.planOf (cSource source)).outputs.primary = marking.artifact (cSource source) := rfl

/-- Two of the sources have artifacts of their own. -/
theorem separate_ofSources : (ofSources ["a/m.c", "b/n.c"]).Separate := by
  have hcompiles : (ofSources ["a/m.c", "b/n.c"]).Compiles (0x7f :: ·) := compiles_ofSources (by decide)
  constructor
  case cache_named => exact ⟨_, _, endsIn_hash⟩
  case one =>
    have hone : ∀ source ∈ [("a/m.c" : Path), "b/n.c"],
        ∀ source' ∈ [("a/m.c" : Path), "b/n.c"],
        (marking.artifact (cSource source') = marking.artifact (cSource source) ↔
          RawText.shown ("/w/" ++ source') = RawText.shown ("/w/" ++ source)) := by decide
    intro t t' ht ht'
    obtain ⟨source, hsource, rfl⟩ := List.mem_map.1 ht
    obtain ⟨source', hsource', rfl⟩ := List.mem_map.1 ht'
    exact hone source hsource source' hsource'
  case before =>
    intro t t' ht ht' i hi
    rw [hcompiles.dropLast_eq ht] at hi
    cases hi
  case last =>
    intro t t' ht ht' i hi hwrites
    exact hcompiles.eq_of_writes ht ht' (List.mem_of_getLast? hi) hwrites
  case source_apart =>
    have hnames : ∀ source ∈ [("a/m.c" : Path), "b/n.c"],
        ("hash.json" : RawText) ∉ Path.names source ∧
        Entries.temporaryName "hash.json" 7 ∉ Path.names source := by decide
    intro t ht
    obtain ⟨source, hsource, rfl⟩ := List.mem_map.1 ht
    exact .of_endsIn endsIn_hash (hnames source hsource)
  case primary_apart =>
    intro t ht
    obtain ⟨source, hsource, rfl⟩ := List.mem_map.1 ht
    exact primary_cSource source ▸ hcompiles.apart _ ht
  case artifact_apart => exact hcompiles.apart
  case digests =>
    intro content content' hcontent hcontent' h
    rcases hcontent with rfl | rfl <;> rcases hcontent' with rfl | rfl
    · rfl
    · exact absurd h.symm digest_one_ne_two
    · exact absurd h digest_one_ne_two
    · rfl

/-- The workspace after a build. -/
def built (w : Workspace) (source : Path) : Workspace := ((marking.update (cSource source)).run w).2

theorem reaches_built {sources : List Path} {source : Path} {w₀ w : Workspace} (hsource : source ∈ sources)
    (h : (ofSources sources).Reaches w₀ w) : (ofSources sources).Reaches w₀ (built w source) :=
  .build h (List.mem_map_of_mem hsource)

/-- The disk after a source has been written. -/
def edited (d : Disk) (source : Path) (content : List UInt8) : Disk :=
  (d.write source content).toOption.getD d

theorem run_update {w : Workspace} {source p : Path}
    (h : ((marking.update (cSource source)).run w).1.toOption = some p) :
    (marking.update (cSource source)).run w = (.ok p, built w source) := eq_of_toOption h

theorem write_edited {d : Disk} {source : Path} {content : List UInt8}
    (h : (d.write source content).toOption.isSome = true) :
    d.write source content = .ok (edited d source content) := by
  obtain ⟨e, he⟩ := Option.isSome_iff_exists.1 h
  rw [edited, he]
  exact eq_ok_of_toOption he

/-- The first source is built, edited and built again. -/
theorem exists_edited : ∃ w, (ofSources ["a/m.c", "b/n.c"]).Reaches unbuilt w ∧
    (w.disk.write "a/m.c" two).toOption.isSome = true ∧
    ((marking.update (cSource "a/m.c")).run { w with disk := edited w.disk "a/m.c" two }).1.toOption
      = some "out/m.c.o" :=
  ⟨built unbuilt "a/m.c", reaches_built (by decide) .start, by decide +kernel⟩

/-- A source that is built, edited and built again has an artifact that is compiled from its new content. -/
theorem artifact_fresh_edited : ∃ w w', (ofSources ["a/m.c", "b/n.c"]).Reaches unbuilt w ∧
    (marking.update (cSource "a/m.c")).run w = (.ok "out/m.c.o", w') ∧
      ∃ content, w.disk.read "a/m.c" = .ok content ∧ w'.disk.read "a/m.c" = .ok content ∧
        w'.disk.read "out/m.c.o" = .ok (0x7f :: content) := by
  have hcompiles : (ofSources ["a/m.c", "b/n.c"]).Compiles (0x7f :: ·) := compiles_ofSources (by decide)
  have hhonest := honest_of_compiles hcompiles
  have hstarts : (ofSources ["a/m.c", "b/n.c"]).Starts unbuilt := starts_unbuilt (by decide)
  have ht : (ofSources ["a/m.c", "b/n.c"]).targets (cSource "a/m.c") := List.mem_cons_self
  obtain ⟨w, hbuilt, hwrite, hrun⟩ := exists_edited
  have hedit := hcompiles.edit_write ht (hbuilt.sound separate_ofSources hhonest hstarts).noLinks (.inr rfl)
    (write_edited hwrite)
  have hreaches := hbuilt.edit ht hedit
  exact ⟨_, _, hreaches, run_update hrun,
    artifact_fresh separate_ofSources hhonest hstarts hreaches ht (run_update hrun)⟩

/-- The two sources with one file name are built, and then the first one once more. -/
theorem exists_shared : ∃ w, (ofSources ["a/m.c", "b/m.c"]).Reaches unbuilt w ∧
    ((marking.update (cSource "a/m.c")).run w).1.toOption = some "out/m.c.o" ∧
    (built w "a/m.c").ran.length = w.ran.length ∧ (w.disk.read "a/m.c").toOption = some one ∧
    ((built w "a/m.c").disk.read "a/m.c").toOption = some one ∧
    ((built w "a/m.c").disk.read "out/m.c.o").toOption = some (0x7f :: two) :=
  ⟨built (built unbuilt "a/m.c") "b/m.c",
    reaches_built (by decide) (reaches_built (by decide) .start),
    by decide +kernel⟩

/-- Sources with one file name have one artifact. The first one is not built again after the other one has been
built, so that what is handed out is compiled from the other one. -/
theorem artifact_stale : (ofSources ["a/m.c", "b/m.c"]).Honest ∧ (ofSources ["a/m.c", "b/m.c"]).Starts unbuilt ∧
    ∃ w w', (ofSources ["a/m.c", "b/m.c"]).Reaches unbuilt w ∧
      (marking.update (cSource "a/m.c")).run w = (.ok "out/m.c.o", w') ∧ w'.ran.length = w.ran.length ∧
      w.disk.read "a/m.c" = .ok one ∧ w'.disk.read "a/m.c" = .ok one ∧
      w'.disk.read "out/m.c.o" = .ok (0x7f :: two) := by
  have hcompiles : (ofSources ["a/m.c", "b/m.c"]).Compiles (0x7f :: ·) := compiles_ofSources (by decide)
  refine ⟨honest_of_compiles hcompiles, starts_unbuilt (by decide), ?_⟩
  obtain ⟨w, hbuilt, hrun, hran, hbefore, hafter, hartifact⟩ := exists_shared
  exact ⟨w, built w "a/m.c", hbuilt, run_update hrun, hran, eq_ok_of_toOption hbefore,
    eq_ok_of_toOption hafter, eq_ok_of_toOption hartifact⟩

end Project

end ForeignModule
