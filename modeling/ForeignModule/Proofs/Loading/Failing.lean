import ForeignModule.Proofs.Loading.Course

/-!
# What a failed load leaves in the cache

A load that fails before its build or in it leaves the entries of the cache as they were. A load that
fails behind its build may have changed one: the build has succeeded by then and has been recorded, and
the failure does not take that back.

* `Builder.build_cache`, `Builder.build_mapping`: what a build does to the cache;
* `Loader.load_failed`: what is left when a load fails;
* `Loader.not_load_failed`: a module that cannot be bound is recorded.
-/

namespace ForeignModule

open Disk Routine

/-! ## Builds -/

namespace Builder

variable {b : Builder} {r : BuildRequest} {w w' : Workspace} {result : Except BuildError Path}

/-- Without a cache nothing is recorded. -/
theorem build_cache (hcached : b.cached = false) (h : (b.build r).run.run w = (result, w')) :
    w'.cache = w.cache := by
  have hbuilds := b.build_builds r w
  rw [h] at hbuilds
  cases hbuilds with
  | missing | blocked | skipped => rfl
  | failed hsource hmade hneeded hdone hran => exact hran.cache_eq
  | unproduced hsource hmade hneeded hran hexists => exact hran.cache_eq
  | built hsource hmade hneeded hran hexists hrecord =>
    simp only [hcached, Bool.false_eq_true, if_false] at hrecord
    rw [hrecord]
    exact hran.cache_eq

/-- All tools have run and succeeded, which led here, and the artifact is there. -/
def Succeeds (b : Builder) (r : BuildRequest) (w built : Workspace) : Prop :=
  (∃ disk, Ran b (b.plan r).steps { w with disk } (.ok ()) built) ∧
    built.disk.exists? (b.plan r).outputs.artifact = true

/-- Where the mapping is in memory, only a build that has succeeded changes it. -/
theorem build_mapping (h : (b.build r).run.run w = (result, w'))
    (hmemory : w.disk.isFile r.source = true → (w.cache.entries?).isSome = true) :
    (∀ e, result = .error e → w'.mapping = w.mapping) ∧
      ∀ artifact, result = .ok artifact → ∀ disk,
        { w' with disk }.mapping = w.mapping ∨ ∃ built digest, b.Succeeds r w built ∧
          built.disk.digest r.source = .ok digest ∧
          { w' with disk }.mapping = w.mapping.insert (built.disk.key r.source) digest := by
  have hsame : w.disk.isFile r.source = true → ∀ v : Workspace, v.cache = w.cache →
      v.mapping = w.mapping := by
    intro hsource v hcache
    obtain ⟨m, hm⟩ := Option.isSome_iff_exists.1 (hmemory hsource)
    rw [mapping_of_memory hm, mapping_of_memory (hcache ▸ hm)]
  have hbuilds := b.build_builds r w
  rw [h] at hbuilds
  cases hbuilds with
  | missing hsource => exact ⟨fun _ _ => rfl, nofun⟩
  | blocked hsource => exact ⟨fun _ _ => hsame hsource _ rfl, nofun⟩
  | skipped hsource => exact ⟨nofun, fun _ _ _ => .inl (hsame hsource _ rfl)⟩
  | failed hsource hmade hneeded hdone hran =>
    exact ⟨fun _ _ => hsame hsource _ hran.cache_eq, nofun⟩
  | unproduced hsource hmade hneeded hran hexists =>
    exact ⟨fun _ _ => hsame hsource _ hran.cache_eq, nofun⟩
  | @built disk built _ hsource hmade hneeded hran hexists hrecord =>
    refine ⟨nofun, fun _ _ written => ?_⟩
    have hbuilt : built.mapping = w.mapping := hsame hsource _ hran.cache_eq
    cases hcached : b.cached with
    | false =>
      simp only [hcached, Bool.false_eq_true, if_false] at hrecord
      obtain rfl := hrecord
      exact .inl (hsame hsource _ hran.cache_eq)
    | true =>
      simp only [hcached, if_true] at hrecord
      obtain ⟨_, recorded, hrun, -, -, hkept, hchange⟩ := Cache.record_mapping built r.source {} {}
      rw [hrun] at hrecord
      obtain rfl := hrecord
      -- What is written behind the build does not concern what is in memory.
      obtain ⟨m, hm⟩ := Option.isSome_iff_exists.1
        (hkept (hran.cache_eq ▸ hmemory hsource))
      have hwritten : { w' with disk := written }.mapping = w'.mapping := by
        rw [mapping_of_memory hm, mapping_of_memory (w := { w' with disk := written }) hm]
      rw [hwritten]
      rcases hchange with hno | ⟨digest, hdigest, hnew⟩
      · exact .inl (hno.trans hbuilt)
      · refine .inr ⟨built, digest, ⟨⟨disk, hran⟩, hexists⟩, hdigest, ?_⟩
        rw [hnew, hbuilt]

end Builder

namespace Loader

variable {l : Loader} {source : Path} {w w' : Workspace} {e : LoadError}

/-! ## Loads -/

/-- Behind the tools the source is built, as the configuration says and with the signatures that have
been read. -/
def Builds (l : Loader) (source : Path) (w built : Workspace) : Prop :=
  ∃ b module settings signatures, l.resolve source = .ok (b, module, settings) ∧
    Signature.ofFile b (settings.signatureSource source) w.disk = .ok signatures ∧
    l.builder.Succeeds ⟨source, settings, signatures, ((l.lookUp source).run w).1⟩
      ((l.lookUp source).run w).2 built

/-- A load that fails leaves the entries of the cache as they were, if it fails before its build has
succeeded. If it fails later the entry of its source may be new, with the digest of what the source
contains behind the tools; all others are the same. -/
theorem load_failed (h : (l.load source).run.run w = (.error e, w')) :
    (l.builder.cached = false → w'.cache = w.cache) ∧
    (l.builder.cached = true → w'.mapping = w.mapping ∨
      e.IsLate ∧ ∃ built digest, l.Builds source w built ∧
        built.disk.digest source = .ok digest ∧
        w'.mapping = w.mapping.insert (built.disk.key source) digest) := by
  have hruns := l.load_runs source w
  rw [h] at hruns
  constructor
  · intro hcached
    have hsame : ((l.lookUp source).run w).2.cache = w.cache :=
      congrArg Workspace.cache (l.lookUp_uncached hcached)
    cases hruns with
    | unresolved => rfl
    | unread => exact hsame
    | unbuilt hresolve hread hbuild =>
      have hbuilt := Builder.build_cache hcached hbuild
      rw [hbuilt, hsame]
    | built hresolve hread hbuild hlate =>
      have hbuilt := Builder.build_cache hcached hbuild
      exact hbuilt.trans hsame
  · intro hcached
    obtain ⟨hmapping, -, hmemory⟩ := l.lookUp_mapping source w hcached
    cases hruns with
    | unresolved => exact .inl rfl
    | unread => exact .inl hmapping
    | unbuilt hresolve hread hbuild =>
      exact .inl (((Builder.build_mapping hbuild hmemory).1 _ rfl).trans hmapping)
    | @built b module settings signatures _ _ disk _ hresolve hread hbuild hlate =>
      rcases (Builder.build_mapping hbuild hmemory).2 _ rfl disk with
        hno | ⟨built, digest, hsucceeds, hdigest, hnew⟩
      · exact .inl (hno.trans hmapping)
      · refine .inr ⟨hlate e rfl, built, digest,
          ⟨b, module, settings, signatures, hresolve, hread, hsucceeds⟩, hdigest, ?_⟩
        rw [hnew, hmapping]

/-- Its artifacts are no libraries. -/
def unbinding : Loader where
  configuration := {}
  builder := Project.marking
  library? _ := none

theorem unbinding_records :
    ∃ e w', (unbinding.load "a/m.c").run.run Project.unbuilt = (.error e, w') ∧
      w'.mapping ≠ Project.unbuilt.mapping := by
  have hfacts : ((unbinding.load "a/m.c").run.run Project.unbuilt).1.toOption.isNone = true ∧
      (((unbinding.load "a/m.c").run.run Project.unbuilt).2.mapping["/w/a/m.c"]?).isSome = true ∧
      Project.unbuilt.mapping["/w/a/m.c"]? = none := by
    decide +kernel
  obtain ⟨hfailed, hthere, hnone⟩ := hfacts
  generalize (unbinding.load "a/m.c").run.run Project.unbuilt = outcome at hfailed hthere ⊢
  obtain ⟨e | loaded, w'⟩ := outcome
  · refine ⟨e, w', rfl, fun hsame => ?_⟩
    rw [hsame, hnone] at hthere
    cases hthere
  · cases hfailed

/-- A module that cannot be bound has been built and recorded. -/
theorem load_failed_unbinding :
    ∃ e w' built digest, (unbinding.load "a/m.c").run.run Project.unbuilt = (.error e, w') ∧
      e.IsLate ∧ unbinding.Builds "a/m.c" Project.unbuilt built ∧
      built.disk.digest "a/m.c" = .ok digest ∧
      w'.mapping = Project.unbuilt.mapping.insert (built.disk.key "a/m.c") digest := by
  obtain ⟨e, w', hrun, hne⟩ := unbinding_records
  obtain ⟨hlate, built, digest, hbuilds, hdigest, hnew⟩ :=
    ((load_failed hrun).2 rfl).resolve_left hne
  exact ⟨e, w', built, digest, hrun, hlate, hbuilds, hdigest, hnew⟩

/-- A load that fails does not always leave the entries as they were. -/
theorem not_load_failed :
    ¬∀ (l : Loader) (source : Path) (w w' : Workspace) (e : LoadError),
      (l.load source).run.run w = (.error e, w') → w'.mapping = w.mapping := by
  intro h
  obtain ⟨e, w', hrun, hne⟩ := unbinding_records
  exact hne (h _ _ _ _ _ hrun)

end Loader

end ForeignModule
