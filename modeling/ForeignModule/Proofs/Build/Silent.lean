import ForeignModule.Proofs.Build.Discipline

/-!
# Tools that say nothing and do nothing

A build looks for its artifact when its tools have succeeded, and says so if it is not there.
`Builder.Silent` is a run of tools which succeed without anything new coming to be at a path.
`Builder.build_silent` says what a build makes of it: if nothing is at the path of the artifact when
the tools start, the build fails and the cache is as it was. If something is there and stays, the
build takes it for its artifact, whatever source it has been made from (`Builder.old_artifact_taken`).
-/

namespace ForeignModule

open Routine

namespace Builder

/-- These tools run one after another and succeed. Behind each of them a path leads to what it has led
to before, or to nothing. -/
inductive Silent (b : Builder) (path : Path) : List Invocation → Workspace → Workspace → Prop where
  | nothing {w : Workspace} : Silent b path [] w w
  | more {i : Invocation} {rest : List Invocation} {w w' : Workspace} {disk : Disk}
      (h : (b.toolchain w.ran i).run w.disk = (.ok (), disk))
      (hquiet : disk.stat? path = none ∨ disk.stat? path = w.disk.stat? path)
      (hrest : Silent b path rest { w with disk, ran := w.ran ++ [i] } w') :
      Silent b path (i :: rest) w w'

section

variable {b : Builder} {r : BuildRequest} {path : Path} {steps : List Invocation}
  {w w' prepared after : Workspace}

theorem Silent.runTools (h : Silent b path steps w w') :
    (b.runTools steps).run.run w = (.ok (), w') := by
  induction h with
  | nothing => rfl
  | @more i rest w w' disk htool hquiet hrest ih =>
    have hrun := b.runTool_run i w
    rw [htool] at hrun
    exact (run_bind_ok hrun).trans ih

theorem Silent.cache_eq (h : Silent b path steps w w') : w'.cache = w.cache := by
  induction h with
  | nothing => rfl
  | more _ _ _ ih => exact ih

/-- Nothing new comes from any number of such tools. -/
theorem Silent.stat? (h : Silent b path steps w w') :
    w'.disk.stat? path = none ∨ w'.disk.stat? path = w.disk.stat? path := by
  induction h with
  | nothing => exact .inr rfl
  | more _ hquiet _ ih =>
    rcases ih with hnone | hsame
    · exact .inl hnone
    · exact hquiet.imp hsame.trans hsame.trans

/-- The directories of what a plan writes. -/
def ensureParents (outputs : Outputs) : Build Unit := do
  ensureParent outputs.primary
  ensureParent outputs.artifact

theorem cache_of_ensureParent (h : (ensureParent path).run.run w = (.ok (), w')) :
    w'.cache = w.cache := by
  obtain ⟨disk, -, hrun | ⟨directory, fault, hrun⟩⟩ := ensureParent_run path w
  · rw [hrun] at h
    cases h
    rfl
  · rw [hrun] at h
    cases h

theorem cache_of_ensureParents {outputs : Outputs}
    (h : (ensureParents outputs).run.run w = (.ok (), prepared)) : prepared.cache = w.cache := by
  obtain ⟨_, w₁, hprimary, hartifact⟩ := exists_of_run_bind h
  exact (cache_of_ensureParent hartifact).trans (cache_of_ensureParent hprimary)

/-- A build that is needed runs its tools where the directories have been made. -/
theorem build_run (hsource : w.disk.isFile r.source = true)
    (hprepared : (ensureParents (b.plan r).outputs).run.run w = (.ok (), prepared))
    (hneeded : r.upToDate = true → prepared.disk.exists? (b.plan r).outputs.artifact = false) :
    (b.build r).run.run w = (b.rebuild r.source (b.plan r)).run.run prepared := by
  obtain ⟨_, w₁, hprimary, hartifact⟩ := exists_of_run_bind hprepared
  unfold build
  rw [run_bind_ok (look_run _ w), hsource]
  simp only [if_true]
  rw [run_bind_ok hprimary, run_bind_ok hartifact]
  cases hup : r.upToDate with
  | false => rfl
  | true =>
    simp only [if_true]
    rw [run_bind_ok (look_run _ _), hneeded hup]
    rfl

/-- Behind tools that have succeeded, a build looks for its artifact. -/
theorem rebuild_run (htools : (b.runTools (b.plan r).steps).run.run prepared = (.ok (), after)) :
    (after.disk.exists? (b.plan r).outputs.artifact = false →
      (b.rebuild r.source (b.plan r)).run.run prepared
        = (.error (.missingArtifact (b.plan r).outputs.artifact), after)) ∧
    (after.disk.exists? (b.plan r).outputs.artifact = true →
      ((b.rebuild r.source (b.plan r)).run.run prepared).1
        = .ok (b.plan r).outputs.artifact) := by
  unfold rebuild
  rw [run_bind_ok htools, run_bind_ok (look_run _ after)]
  constructor
  · intro hnone
    rw [hnone]
    rfl
  · intro hthere
    rw [hthere]
    cases b.cached with
    | false => rfl
    | true =>
      simp only [if_true]
      -- What recording says is ignored.
      rw [run_bind_ok (run_liftM (Cache.record r.source) after)]
      rfl

/-- What a build makes of tools that succeed without making its artifact. If nothing has been at the
path, it fails and leaves the cache alone, on any disk and with any cache; whatever is at the path
behind the tools has been there before, and then the build gives it away as its own. -/
theorem build_silent (hsource : w.disk.isFile r.source = true)
    (hprepared : (ensureParents (b.plan r).outputs).run.run w = (.ok (), prepared))
    (hneeded : r.upToDate = true → prepared.disk.exists? (b.plan r).outputs.artifact = false)
    (hsilent : Silent b (b.plan r).outputs.artifact (b.plan r).steps prepared after) :
    (prepared.disk.exists? (b.plan r).outputs.artifact = false →
      after.disk.exists? (b.plan r).outputs.artifact = false) ∧
    (after.disk.exists? (b.plan r).outputs.artifact = false →
      (b.build r).run.run w = (.error (.missingArtifact (b.plan r).outputs.artifact), after) ∧
      after.cache = w.cache ∧
      ((w.cache.entries? = none → after.disk.read w.cache.path = w.disk.read w.cache.path) →
        after.mapping = w.mapping)) ∧
    (after.disk.exists? (b.plan r).outputs.artifact = true →
      ((b.build r).run.run w).1 = .ok (b.plan r).outputs.artifact ∧
      after.disk.stat? (b.plan r).outputs.artifact
        = prepared.disk.stat? (b.plan r).outputs.artifact) := by
  have hrebuild := rebuild_run hsilent.runTools
  rw [build_run hsource hprepared hneeded]
  have hcache : after.cache = w.cache := hsilent.cache_eq.trans (cache_of_ensureParents hprepared)
  refine ⟨fun hnone => ?_, fun hnone => ⟨hrebuild.1 hnone, hcache, mapping_congr hcache⟩,
    fun hthere => ⟨hrebuild.2 hthere, ?_⟩⟩
  · rcases hsilent.stat? with h | h
    · rw [Disk.exists?, h]
      rfl
    · rw [Disk.exists?, h]
      exact hnone
  · rcases hsilent.stat? with h | h
    · rw [Disk.exists?, h] at hthere
      cases hthere
    · exact h

end

/-! ## An old artifact -/

/-- A compiler that says that all is well and does nothing. -/
def idle : Builder := { toolchain := fun _ _ => pure (.ok ()) }

/-- A source in a directory of its own, without settings. -/
def request : BuildRequest where
  source := "a/m.c"
  settings := .clang {}
  signatures := []
  upToDate := false

/-- Where this compiler starts, and where it ends. -/
def started (w : Workspace) : Workspace := ((ensureParents (idle.plan request).outputs).run.run w).2

def stopped (w : Workspace) : Workspace :=
  { started w with ran := (started w).ran ++ (idle.plan request).steps }

theorem silent_idle (w : Workspace) :
    Silent idle (idle.plan request).outputs.artifact (idle.plan request).steps (started w)
      (stopped w) :=
  .more rfl (.inr rfl) .nothing

/-- A source that has never been built, and of which nothing is recorded. -/
def unbuilt : Workspace :=
  { Project.unbuilt with cache := { Project.unbuilt.cache with entries? := some ∅ } }

/-- Without an artifact from before, the idle compiler is found out. -/
theorem build_silent_unbuilt : ∃ w', (idle.build request).run.run unbuilt
      = (.error (.missingArtifact "out/m.c.o"), w') ∧ w'.mapping = unbuilt.mapping := by
  have hfacts : unbuilt.disk.isFile request.source = true ∧
      ((ensureParents (idle.plan request).outputs).run.run unbuilt).1.toOption = some () ∧
      (started unbuilt).disk.exists? "out/m.c.o" = false := by
    decide +kernel
  obtain ⟨hsource, hprepared, hnone⟩ := hfacts
  have hsilent := build_silent hsource (eq_of_toOption hprepared) (fun h => nomatch h)
    (silent_idle unbuilt)
  obtain ⟨hrun, -, hmapping⟩ := hsilent.2.1 (hsilent.1 hnone)
  exact ⟨_, hrun, hmapping fun h => nomatch h⟩

/-- The source has been built, and changed behind that. -/
def changed : Workspace :=
  { Project.built Project.unbuilt "a/m.c" with
    disk := Project.edited (Project.built Project.unbuilt "a/m.c").disk "a/m.c" Project.two }

/-- With an artifact from before it is not: the build succeeds, and records the new content of the
source. From then on the source is held to be unchanged, but its artifact is compiled from the old
content. -/
theorem old_artifact_taken : ∃ prepared after w',
    changed.disk.isFile request.source = true ∧
    (ensureParents (idle.plan request).outputs).run.run changed = (.ok (), prepared) ∧
    Silent idle "out/m.c.o" (idle.plan request).steps prepared after ∧
    (idle.build request).run.run changed = (.ok "out/m.c.o", w') ∧
    w'.mapping ≠ changed.mapping ∧ ((Cache.shouldSkip request.source).run w').1 = true ∧
    w'.disk.read request.source = .ok Project.two ∧
    w'.disk.read "out/m.c.o" = .ok (0x7f :: Project.one) := by
  have hfacts : changed.disk.isFile request.source = true ∧
      ((ensureParents (idle.plan request).outputs).run.run changed).1.toOption = some () ∧
      ((idle.build request).run.run changed).1.toOption = some "out/m.c.o" ∧
      ((idle.build request).run.run changed).2.mapping["/w/a/m.c"]?
        ≠ changed.mapping["/w/a/m.c"]? ∧
      ((Cache.shouldSkip request.source).run ((idle.build request).run.run changed).2).1 = true ∧
      (((idle.build request).run.run changed).2.disk.read request.source).toOption
        = some Project.two ∧
      (((idle.build request).run.run changed).2.disk.read "out/m.c.o").toOption
        = some (0x7f :: Project.one) := by
    decide +kernel
  obtain ⟨hsource, hprepared, hbuild, hmapping, hskip, hread, hartifact⟩ := hfacts
  refine ⟨started changed, stopped changed, _, hsource, eq_of_toOption hprepared,
    silent_idle changed, eq_of_toOption hbuild, ?_, hskip, eq_ok_of_toOption hread,
    eq_ok_of_toOption hartifact⟩
  intro h
  exact hmapping (by rw [h])

end Builder

end ForeignModule
