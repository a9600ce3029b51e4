import ForeignModule.Build.Process
import ForeignModule.Proofs.Build.Freshness
import ForeignModule.Proofs.Cache.Mapping

/-!
# What a build may do

A build with any tools, on any disk and with any cache. `Ran` says how tools run one after another,
and `Builds` lists all that a build can come to. From this follows what is promised of every build
(`build_disciplined`): nothing happens without a source, tools run in the order of the plan up to
the first failure, and the cache changes only behind a build that has succeeded.

The error of a tool is returned as it is, so that a source may be called missing which is there; tools
that are processes never do so (`Toolchain.missesNone_ofProcesses`). And the artifact is there when a
build looks for it. Behind that the build records the source, and this replaces the file of the cache:
where an artifact lies on the way through that file, it may be gone at the end (`build_undisciplined`).
-/

namespace ForeignModule

open Routine Disk

/-- No tool answers that a source is missing. That is for the build to say. -/
def Toolchain.MissesNone (t : Toolchain) : Prop :=
  ∀ before i d source, ((t before i).run d).1 ≠ .error (.missingSource source)

/-- What the end of a watch tells of a program is a fault of this program, or the end of all. -/
theorem WatchEnd.answer?_ne_missing (ended : WatchEnd) (program : String) (source : Path) :
    ended.answer? program ≠ some (.error (.missingSource source)) := by
  cases ended with
  | finished result => cases result <;> simp [answer?, result?, Except.mapError]
  | stopped timeout => simp [answer?, result?, Except.mapError]
  | beyondClock => simp [answer?]
  | unfinished => simp [answer?, result?]

/-- Processes miss no source, whether they cannot be started, fail or take too long. -/
theorem Toolchain.missesNone_ofProcesses (start : Starting) : (ofProcesses start).MissesNone := by
  intro before i d source
  rw [ofProcesses, Routine.run_bind]
  cases hstart : ((start before i).run d).1 with
  | error cause => simp
  | ok p =>
    intro hanswer
    exact WatchEnd.answer?_ne_missing _ _ source (Option.eq_some_iff_get_eq.mpr ⟨_, hanswer⟩)

namespace Builder

/-- These tools run one after another. Each but the last one succeeds, and where the last one fails,
this is the failure of the whole. -/
inductive Ran (b : Builder) : List Invocation → Workspace → Except BuildError Unit → Workspace → Prop
  where
  | nothing {w : Workspace} : Ran b [] w (.ok ()) w
  | failed {i : Invocation} {w : Workspace} {e : BuildError} {disk : Disk}
      (h : (b.toolchain w.ran i).run w.disk = (.error e, disk)) :
      Ran b [i] w (.error e) { w with disk, ran := w.ran ++ [i] }
  | more {i : Invocation} {rest : List Invocation} {w w' : Workspace} {disk : Disk}
      {outcome : Except BuildError Unit}
      (h : (b.toolchain w.ran i).run w.disk = (.ok (), disk))
      (hrest : Ran b rest { w with disk, ran := w.ran ++ [i] } outcome w') :
      Ran b (i :: rest) w outcome w'

/-- All that a build can come to. -/
inductive Builds (b : Builder) (r : BuildRequest) (w : Workspace) :
    Except BuildError Path → Workspace → Prop where
  | missing (hsource : w.disk.isFile r.source = false) :
      Builds b r w (.error (.missingSource r.source)) w
  | blocked {disk : Disk} {path : Path} {fault : Fault} (hsource : w.disk.isFile r.source = true)
      (hmade : Made (fun _ => True) w.disk disk) :
      Builds b r w (.error (.disk path fault)) { w with disk }
  | skipped {disk : Disk} (hsource : w.disk.isFile r.source = true)
      (hmade : Made (fun _ => True) w.disk disk) (hup : r.upToDate = true)
      (hexists : disk.exists? (b.plan r).outputs.artifact = true) :
      Builds b r w (.ok (b.plan r).outputs.artifact) { w with disk }
  | failed {disk : Disk} {done : List Invocation} {e : BuildError} {w' : Workspace}
      (hsource : w.disk.isFile r.source = true) (hmade : Made (fun _ => True) w.disk disk)
      (hneeded : r.upToDate = true → disk.exists? (b.plan r).outputs.artifact = false)
      (hdone : done <+: (b.plan r).steps) (hran : Ran b done { w with disk } (.error e) w') :
      Builds b r w (.error e) w'
  | unproduced {disk : Disk} {w' : Workspace}
      (hsource : w.disk.isFile r.source = true) (hmade : Made (fun _ => True) w.disk disk)
      (hneeded : r.upToDate = true → disk.exists? (b.plan r).outputs.artifact = false)
      (hran : Ran b (b.plan r).steps { w with disk } (.ok ()) w')
      (hexists : w'.disk.exists? (b.plan r).outputs.artifact = false) :
      Builds b r w (.error (.missingArtifact (b.plan r).outputs.artifact)) w'
  | built {disk : Disk} {w₁ w' : Workspace}
      (hsource : w.disk.isFile r.source = true) (hmade : Made (fun _ => True) w.disk disk)
      (hneeded : r.upToDate = true → disk.exists? (b.plan r).outputs.artifact = false)
      (hran : Ran b (b.plan r).steps { w with disk } (.ok ()) w₁)
      (hexists : w₁.disk.exists? (b.plan r).outputs.artifact = true)
      (hrecord : w' = if b.cached then ((Cache.record r.source).run w₁).2 else w₁) :
      Builds b r w (.ok (b.plan r).outputs.artifact) w'

section

variable {b : Builder} {r : BuildRequest} {w w' : Workspace} {done : List Invocation}
  {outcome : Except BuildError Unit} {result : Except BuildError Path} {disk : Disk}

/-! ## Tools -/

theorem Ran.ran_eq (h : Ran b done w outcome w') : w'.ran = w.ran ++ done := by
  induction h with
  | nothing => exact (List.append_nil _).symm
  | failed _ => rfl
  | more _ _ ih => rw [ih, List.append_assoc]; rfl

theorem Ran.cache_eq (h : Ran b done w outcome w') : w'.cache = w.cache := by
  induction h with
  | nothing => rfl
  | failed _ => rfl
  | more _ _ ih => exact ih

/-- A failure is what the tool answers that ran last. -/
theorem Ran.exists_last {e : BuildError} (h : Ran b done w (.error e) w') :
    ∃ front i disk, done = front ++ [i] ∧
      ((b.toolchain (w.ran ++ front) i).run disk).1 = .error e := by
  generalize houtcome : Except.error e = outcome at h
  induction h with
  | nothing => cases houtcome
  | @failed i w error disk htool =>
    cases houtcome
    exact ⟨[], i, w.disk, rfl, by rw [List.append_nil, htool]⟩
  | @more i rest w _ _ _ _ _ ih =>
    obtain ⟨front, last, disk, rfl, htool⟩ := ih houtcome
    refine ⟨i :: front, last, disk, rfl, ?_⟩
    rwa [List.append_assoc] at htool

/-- The tools of a plan run in order, up to the first that fails. -/
theorem runTools_ran (b : Builder) (steps : List Invocation) (w : Workspace) :
    ∃ done outcome w', (b.runTools steps).run.run w = (outcome, w') ∧ done <+: steps ∧
      Ran b done w outcome w' ∧ (outcome = .ok () → done = steps) := by
  induction steps generalizing w with
  | nil => exact ⟨[], .ok (), w, rfl, List.prefix_refl _, .nothing, fun _ => rfl⟩
  | cons i rest ih =>
    have hrun := b.runTool_run i w
    rw [runTools]
    generalize htool : (b.toolchain w.ran i).run w.disk = tool at hrun
    obtain ⟨answer, disk⟩ := tool
    cases answer with
    | error e =>
      -- No tool behind this one runs.
      exact ⟨[i], _, _, run_bind_error hrun, ⟨rest, rfl⟩, .failed htool, by simp⟩
    | ok _ =>
      obtain ⟨done, outcome, w', hrest, hprefix, hran, hall⟩ :=
        ih { w with ran := w.ran ++ [i], disk := disk }
      refine ⟨i :: done, outcome, w', (run_bind_ok hrun).trans hrest, ?_, .more htool hran, ?_⟩
      · exact List.cons_prefix_cons.2 ⟨rfl, hprefix⟩
      · exact fun hok => congrArg (i :: ·) (hall hok)

/-! ## The whole build -/

theorem look_run {α : Type} (f : Disk → α) (w : Workspace) :
    (look f).run.run w = (.ok (f w.disk), w) := rfl

/-- Directories are made, and if this fails some of them are there nevertheless. -/
theorem ensureParent_run (path : Path) (w : Workspace) :
    ∃ disk, Made (fun _ => True) w.disk disk ∧
      ((ensureParent path).run.run w = (.ok (), { w with disk }) ∨
        ∃ directory fault,
          (ensureParent path).run.run w = (.error (.disk directory fault), { w with disk })) := by
  unfold ensureParent
  cases hdirectory : path.directory? with
  | none => exact ⟨w.disk, .refl, .inl rfl⟩
  | some directory =>
    have hmade := (made_makeDirectories w.disk hdirectory).mono fun _ _ => trivial
    have hrun : (ExceptT.mk (Workspace.onDisk (act fun d =>
        (d.makeDirectories directory).map (·.mapError (BuildError.disk directory)) id)) :
          Build Unit).run.run w
        = ((w.disk.makeDirectories directory).1.mapError (BuildError.disk directory),
            { w with disk := (w.disk.makeDirectories directory).2 }) := by
      rw [ExceptT.run_mk, Cache.run_onDisk, run_act]
      rfl
    refine ⟨_, hmade, ?_⟩
    dsimp only
    rw [hrun]
    generalize w.disk.makeDirectories directory = made
    obtain ⟨fault | _, disk⟩ := made
    · exact .inr ⟨directory, fault, rfl⟩
    · exact .inl rfl

/-- All that a build does behind the directories. -/
theorem rebuild_builds (hsource : w.disk.isFile r.source = true)
    (hmade : Made (fun _ => True) w.disk disk)
    (hneeded : r.upToDate = true → disk.exists? (b.plan r).outputs.artifact = false) :
    Builds b r w ((b.rebuild r.source (b.plan r)).run.run { w with disk }).1
      ((b.rebuild r.source (b.plan r)).run.run { w with disk }).2 := by
  obtain ⟨done, outcome, w₁, hrun, hprefix, hran, hall⟩ :=
    b.runTools_ran (b.plan r).steps { w with disk }
  unfold rebuild
  cases outcome with
  | error e =>
    rw [run_bind_error hrun]
    exact .failed hsource hmade hneeded hprefix hran
  | ok _ =>
    obtain rfl := hall rfl
    rw [run_bind_ok hrun, run_bind_ok (look_run _ w₁)]
    cases hexists : w₁.disk.exists? (b.plan r).outputs.artifact with
    | false => exact .unproduced hsource hmade hneeded hran hexists
    | true =>
      cases hcached : b.cached with
      | false => exact .built hsource hmade hneeded hran hexists (by rw [hcached]; rfl)
      | true =>
        have hrecord := run_bind_ok (ε := BuildError) (k := fun _ => pure (b.plan r).outputs.artifact)
          (run_liftM (Cache.record r.source) w₁)
        have hbuilt : Builds b r w (.ok (b.plan r).outputs.artifact)
            ((Cache.record r.source).run w₁).2 :=
          .built hsource hmade hneeded hran hexists (by rw [hcached]; rfl)
        simp only [if_true]
        rw [hrecord]
        exact hbuilt

/-- A build comes to one of the listed ends. -/
theorem build_builds (b : Builder) (r : BuildRequest) (w : Workspace) :
    Builds b r w ((b.build r).run.run w).1 ((b.build r).run.run w).2 := by
  unfold build
  rw [run_bind_ok (look_run _ w)]
  cases hsource : w.disk.isFile r.source with
  | false => exact .missing hsource
  | true =>
    simp only [if_true]
    -- The directories of two paths are made, and both can fail.
    obtain ⟨disk, hmade, hprimary | ⟨directory, fault, hprimary⟩⟩ :=
      ensureParent_run (b.plan r).outputs.primary w
    case inr =>
      rw [run_bind_error hprimary]
      exact .blocked hsource hmade
    rw [run_bind_ok hprimary]
    obtain ⟨disk', hmade', hartifact | ⟨directory, fault, hartifact⟩⟩ :=
      ensureParent_run (b.plan r).outputs.artifact { w with disk }
    case inr =>
      rw [run_bind_error hartifact]
      exact .blocked hsource (hmade.trans hmade')
    rw [run_bind_ok hartifact]
    have hall := hmade.trans hmade'
    cases hup : r.upToDate with
    | false => exact rebuild_builds hsource hall (by simp [hup])
    | true =>
      simp only [if_true]
      rw [run_bind_ok (look_run _ _)]
      cases hexists : disk'.exists? (b.plan r).outputs.artifact with
      | true => exact .skipped hsource hall hup hexists
      | false => exact rebuild_builds hsource hall fun _ => hexists

/-! ## Promises -/

/-- All tools of the plan have run and succeeded, and the artifact is there. -/
def Succeeded (b : Builder) (r : BuildRequest) (done : List Invocation)
    (outcome : Except BuildError Unit) (after : Workspace) : Prop :=
  done = (b.plan r).steps ∧ outcome = .ok () ∧
    after.disk.exists? (b.plan r).outputs.artifact = true

/-- How a build goes whose source is there. First directories are made, which leads to `prepared`;
then the tools run that are `done`, with this outcome, which leads to `after`; and then perhaps
the source is recorded. -/
structure Course (b : Builder) (r : BuildRequest) (w : Workspace) (result : Except BuildError Path)
    (w' prepared : Workspace) (done : List Invocation) (outcome : Except BuildError Unit)
    (after : Workspace) : Prop where
  made : ∃ disk, Made (fun _ => True) w.disk disk ∧ prepared = { w with disk }
  /-- The tools are the first ones of the plan, in order, up to the first that fails. -/
  steps : done <+: (b.plan r).steps
  ran : Ran b done prepared outcome after
  logged : w'.ran = w.ran ++ done
  /-- Up to here the cache is the same. -/
  cache : after.cache = w.cache
  /-- The error of that tool is returned. -/
  failed : ∀ e, outcome = .error e → result = .error e
  /-- A source is said to be missing only if that tool says so. -/
  missed : ∀ source, result = .error (.missingSource source) →
    outcome = .error (.missingSource source)
  /-- Without a failure it is all tools that run, or none. -/
  complete : outcome = .ok () → done = (b.plan r).steps ∨
    done = [] ∧ (r.upToDate = true ∧ prepared.disk.exists? (b.plan r).outputs.artifact = true ∨
      ∃ path fault, result = .error (.disk path fault))
  reused : r.upToDate = true → w.disk.exists? (b.plan r).outputs.artifact = true → done = []
  /-- A path that is returned is that of the artifact, which is there behind the tools. -/
  artifact : ∀ p, result = .ok p → p = (b.plan r).outputs.artifact ∧ after.disk.exists? p = true
  /-- It is there at the end too, where recording does not get at it. -/
  kept : ∀ p content front name, result = .ok p → after.disk.HasFile p content →
    w.cache.path.EndsIn front name → name ∉ p.names →
    Entries.temporaryName name w.cache.number ∉ p.names →
    after.disk.NoLinks (fun n => n = name ∨ n = Entries.temporaryName name w.cache.number) →
    w'.disk.HasFile p content
  /-- Nothing is done behind the tools, unless they have succeeded. -/
  ended : w' = after ∨ b.cached = true ∧ Succeeded b r done outcome after
  /-- Directories do not change what the cache has in memory or in a file that can be read. -/
  found : (w.cache.entries? = none → ∃ content, w.disk.read w.cache.path = .ok content) →
    prepared.mapping = w.mapping
  /-- If the tools leave the file of the cache as it is, then the mapping changes at the key of the
  source at most, to the digest of what the source contains behind the tools. -/
  mapping : (w.cache.entries? = none →
      after.disk.read w.cache.path = prepared.disk.read w.cache.path) →
    w'.mapping = prepared.mapping ∨
      Succeeded b r done outcome after ∧ ∃ digest, after.disk.digest r.source = .ok digest ∧
        w'.mapping = prepared.mapping.insert (after.disk.key r.source) digest

/-- What is promised of every build. -/
structure Disciplined (b : Builder) (r : BuildRequest) (w : Workspace)
    (result : Except BuildError Path) (w' : Workspace) : Prop where
  missing : w.disk.isFile r.source = false → result = .error (.missingSource r.source)
  /-- Without a source nothing happens at all. -/
  untouched : w.disk.isFile r.source = false → w' = w
  /-- Only a source that is no file is said to be missing, unless a tool says so of one. -/
  missing_iff : b.toolchain.MissesNone →
    ((∃ source, result = .error (.missingSource source)) ↔ w.disk.isFile r.source = false)
  course : w.disk.isFile r.source = true →
    ∃ prepared done outcome after, Course b r w result w' prepared done outcome after

theorem mapping_made (hmade : Made (fun _ => True) w.disk disk)
    (hfile : w.cache.entries? = none → ∃ content, w.disk.read w.cache.path = .ok content) :
    Workspace.mapping { w with disk } = w.mapping := by
  refine mapping_congr rfl fun hnone => ?_
  obtain ⟨content, hread⟩ := hfile hnone
  rw [hread]
  exact hmade.read_ok hread

/-- A build that ends behind its tools, where the cache is as it was. -/
theorem Course.of_ran (hmade : Made (fun _ => True) w.disk disk)
    (hran : Ran b done { w with disk } outcome w') (hsteps : done <+: (b.plan r).steps)
    (failed : ∀ e, outcome = .error e → result = .error e)
    (missed : ∀ source, result = .error (.missingSource source) →
      outcome = .error (.missingSource source))
    (complete : outcome = .ok () → done = (b.plan r).steps ∨
      done = [] ∧ (r.upToDate = true ∧ disk.exists? (b.plan r).outputs.artifact = true ∨
        ∃ path fault, result = .error (.disk path fault)))
    (reused : r.upToDate = true → w.disk.exists? (b.plan r).outputs.artifact = true → done = [])
    (artifact : ∀ p, result = .ok p →
      p = (b.plan r).outputs.artifact ∧ w'.disk.exists? p = true) :
    Course b r w result w' { w with disk } done outcome w' where
  made := ⟨disk, hmade, rfl⟩
  found := mapping_made hmade
  steps := hsteps
  ran := hran
  logged := hran.ran_eq
  cache := hran.cache_eq
  failed := failed
  missed := missed
  complete := complete
  reused := reused
  artifact := artifact
  kept _ _ _ _ _ hfile _ _ _ _ := hfile
  ended := .inl rfl
  mapping hread := .inl (mapping_congr hran.cache_eq hread)

/-- Tools run only where no artifact has been there that can stay. -/
theorem not_reused (hmade : Made (fun _ => True) w.disk disk)
    (hneeded : r.upToDate = true → disk.exists? (b.plan r).outputs.artifact = false)
    (hup : r.upToDate = true) : w.disk.exists? (b.plan r).outputs.artifact ≠ true := by
  intro hexists
  -- Directories that are made do not take it away.
  have hthere := hmade.exists_of_exists hexists
  rw [hneeded hup] at hthere
  cases hthere

/-- A build that records its source in the end. -/
theorem Course.of_record {after : Workspace} (hmade : Made (fun _ => True) w.disk disk)
    (hneeded : r.upToDate = true → disk.exists? (b.plan r).outputs.artifact = false)
    (hran : Ran b (b.plan r).steps { w with disk } (.ok ()) after)
    (hexists : after.disk.exists? (b.plan r).outputs.artifact = true) (hcached : b.cached = true) :
    Course b r w (.ok (b.plan r).outputs.artifact) ((Cache.record r.source).run after).2
      { w with disk } (b.plan r).steps (.ok ()) after := by
  obtain ⟨answer, w', hrun, hlogged, hreplaced, -, hmapping⟩ :=
    Cache.record_mapping after r.source {} {}
  rw [hrun]
  have hcache : after.cache = { w with disk }.cache := hran.cache_eq
  have hsucceeded : Succeeded b r (b.plan r).steps (.ok ()) after := ⟨rfl, rfl, hexists⟩
  constructor
  case made => exact ⟨disk, hmade, rfl⟩
  case found => exact mapping_made hmade
  case steps => exact List.prefix_refl _
  case ran => exact hran
  case logged => exact hlogged.trans hran.ran_eq
  case cache => exact hcache
  case failed => exact fun e he => nomatch he
  case missed => exact nofun
  case complete => exact fun _ => .inl rfl
  case reused => exact fun hup hthere => absurd hthere (not_reused hmade hneeded hup)
  case artifact =>
    intro p hp
    cases hp
    exact ⟨rfl, hexists⟩
  case kept =>
    -- The path of the artifact passes neither file of the cache, and no link bears their names.
    intro p content front name _ hfile hends hname htemporary hlinks
    rw [hcache] at hreplaced
    have hothers := hreplaced.keepsOthers hends (.inl rfl) (.inr rfl) hlinks
    exact (hothers.keeps p (.of_endsIn hends ⟨hname, htemporary⟩)).hasFile hfile
  case ended => exact .inr ⟨hcached, hsucceeded⟩
  case mapping =>
    intro hread
    rw [mapping_congr hcache hread] at hmapping
    exact hmapping.imp_right fun hchanged => ⟨hsucceeded, hchanged⟩

/-- A build whose source is there keeps the promises if it goes as it should. -/
theorem Disciplined.of_course {prepared after : Workspace} (hsource : w.disk.isFile r.source = true)
    (hcourse : Course b r w result w' prepared done outcome after) :
    Disciplined b r w result w' where
  missing h := by simp [hsource] at h
  untouched h := by simp [hsource] at h
  missing_iff hnone := by
    constructor
    · rintro ⟨source, hmissing⟩
      obtain rfl := hcourse.missed source hmissing
      obtain ⟨front, i, disk, -, htool⟩ := hcourse.ran.exists_last
      exact absurd htool (hnone _ i disk _)
    · intro hfile
      simp [hsource] at hfile
  course _ := ⟨_, _, _, _, hcourse⟩

theorem Builds.disciplined (h : Builds b r w result w') : Disciplined b r w result w' := by
  cases h with
  | missing hsource =>
    exact ⟨fun _ => rfl, fun _ => rfl, fun _ => ⟨fun _ => hsource, fun _ => ⟨_, rfl⟩⟩,
      fun h => by simp [hsource] at h⟩
  | @blocked disk path fault hsource hmade =>
    refine .of_course hsource (.of_ran hmade .nothing List.nil_prefix nofun nofun ?_
      (fun _ _ => rfl) nofun)
    exact fun _ => .inr ⟨rfl, .inr ⟨path, fault, rfl⟩⟩
  | skipped hsource hmade hup hexists =>
    refine .of_course hsource (.of_ran hmade .nothing List.nil_prefix nofun nofun ?_
      (fun _ _ => rfl) ?_)
    · exact fun _ => .inr ⟨rfl, .inl ⟨hup, hexists⟩⟩
    · intro p hp
      cases hp
      exact ⟨rfl, hexists⟩
  | @failed disk done e w' hsource hmade hneeded hdone hran =>
    refine .of_course hsource (.of_ran hmade hran hdone ?_ ?_ nofun ?_ nofun)
    · rintro _ ⟨⟩
      rfl
    · rintro source ⟨⟩
      rfl
    · exact fun hup hthere => absurd hthere (not_reused hmade hneeded hup)
  | unproduced hsource hmade hneeded hran hexists =>
    refine .of_course hsource (.of_ran hmade hran (List.prefix_refl _) nofun nofun
      (fun _ => .inl rfl) ?_ nofun)
    exact fun hup hthere => absurd hthere (not_reused hmade hneeded hup)
  | @built disk after w' hsource hmade hneeded hran hexists hrecord =>
    refine .of_course hsource
      (?_ : Course b r w _ w' { w with disk } (b.plan r).steps (.ok ()) after)
    subst hrecord
    cases hcached : b.cached with
    | true => exact .of_record hmade hneeded hran hexists hcached
    | false =>
      refine .of_ran hmade hran (List.prefix_refl _) nofun nofun (fun _ => .inl rfl) ?_ ?_
      · exact fun hup hthere => absurd hthere (not_reused hmade hneeded hup)
      · intro p hp
        cases hp
        exact ⟨rfl, hexists⟩

/-- Every build keeps the promises. -/
theorem build_disciplined (b : Builder) (r : BuildRequest) (w : Workspace) :
    Disciplined b r w ((b.build r).run.run w).1 ((b.build r).run.run w).2 :=
  (build_builds b r w).disciplined

end

/-! ## What is not promised -/

/-- A workspace in which the file of the cache is a link to a directory. -/
def linkedCache : Workspace where
  disk := ((((Disk.empty ["w"]).put "/w/.nativekit" .directory).put "/w/.nativekit/real"
    .directory).put "/w/.nativekit/hash.json" (.link "real")).put "/w/a.c" (.file Project.one)
  cache := .ofPath Cache.defaultPath 7

/-- A source whose artifact is to lie behind that link. -/
def throughLink : BuildRequest where
  source := "a.c"
  settings := .clang { out := some ".nativekit/hash.json/x.o" }
  signatures := []
  upToDate := false

/-- A tool that finds no source. -/
def blind : Builder := { toolchain := fun _ _ => pure (.error (.missingSource "a.c")) }

/-- Recording replaces the link by a file, and so the artifact is not to be found at the end, although
its path is returned. And a source is called missing that is there. -/
theorem build_undisciplined :
    (∃ w', (Project.marking.build throughLink).run.run linkedCache
        = (.ok ".nativekit/hash.json/x.o", w') ∧
      w'.disk.exists? ".nativekit/hash.json/x.o" = false) ∧
    linkedCache.disk.isFile throughLink.source = true ∧
      ∃ w', (blind.build throughLink).run.run linkedCache
        = (.error (.missingSource throughLink.source), w') := by
  have hgone : ((Project.marking.build throughLink).run.run linkedCache).1.toOption
        = some ".nativekit/hash.json/x.o" ∧
      ((Project.marking.build throughLink).run.run linkedCache).2.disk.exists?
        ".nativekit/hash.json/x.o" = false := by
    decide +kernel
  have hblind : ((blind.build throughLink).run.run linkedCache).1
      = .error (.missingSource throughLink.source) := by
    decide +kernel
  exact ⟨⟨_, eq_of_toOption hgone.1, hgone.2⟩, by decide +kernel, _, eq_of_error hblind⟩

end Builder

end ForeignModule
