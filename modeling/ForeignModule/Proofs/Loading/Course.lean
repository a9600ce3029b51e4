import ForeignModule.Proofs.Build.Discipline
import ForeignModule.Proofs.Loading.Undisturbed

/-!
# How loading a module goes

A module is loaded in three parts: its source is inspected and the cache asked, it is built, and it is
bound and declared. `Loader.Runs` lists all that this can come to, for any loader in any workspace, and
`Loader.load_runs` says that there is nothing else. Only the build can change what the cache holds
(`Builder.build_mapping`, `Builder.build_cache`).
-/

namespace ForeignModule

open Disk Routine

/-- The failure comes behind the build: the artifact is not found, or the module cannot be bound or
declared. -/
def LoadError.IsLate : LoadError → Prop
  | .resolve _ _ | .bind _ _ _ | .stub _ _ => True
  | .unsupported _ | .signatures _ _ | .build _ _ => False

namespace Loader

variable {l : Loader} {source : Path} {w w' : Workspace}

/-! ## Behind the build -/

theorem bind_run (l : Loader) (b : Backend) (module : String) (artifact : Path)
    (signatures : List Signature) (w : Workspace) :
    ∃ result, (l.bind b module artifact signatures).run.run w = (result, w) ∧
      ∀ e, result = .error e → e.IsLate := by
  have hlook : ∀ {α : Type} (f : Disk → Except LoadError α), (Loader.look f).run.run w = (f w.disk, w) :=
    fun _ => rfl
  unfold Loader.bind
  cases hloadable : w.disk.canonicalize artifact with
  | error fault =>
    refine ⟨.error (.resolve artifact fault), ?_, ?_⟩
    · rw [run_bind_error (by rw [hlook, hloadable]; rfl)]
    · rintro _ ⟨⟩
      trivial
  | ok loadable =>
    rw [run_bind_ok (by rw [hlook, hloadable]; rfl)]
    refine ⟨_, hlook _, fun e he => ?_⟩
    cases hbound : Native.bind b module loadable signatures l.strict
        (l.libraryAt loadable w.disk) with
    | error error =>
      rw [hbound] at he
      cases he
      trivial
    | ok m =>
      rw [hbound] at he
      cases he

theorem writeStub_run (artifact : Path) (m : Native.Binding) (w : Workspace) :
    ∃ result disk, (Loader.writeStub artifact m).run.run w = (result, { w with disk }) ∧
      ∀ e, result = .error e → e.IsLate := by
  unfold Loader.writeStub
  cases hwrite : w.disk.write (Declaration.path artifact m.module) (Text.bytes m.declarations) with
  | error fault =>
    refine ⟨.error (.stub (Declaration.path artifact m.module) fault), w.disk, ?_, ?_⟩
    · refine run_bind_error ?_
      rw [ExceptT.run_mk, attempt, Ground.onDisk_act, run_act, hwrite]
      rfl
    · rintro _ ⟨⟩
      trivial
  | ok disk =>
    refine ⟨.ok (Declaration.path artifact m.module), disk, ?_, by simp⟩
    refine run_bind_ok (t := { w with disk }) (a := ()) ?_ |>.trans rfl
    rw [ExceptT.run_mk, attempt, Ground.onDisk_act, run_act, hwrite]
    rfl

/-- Behind its build a module is bound and declared, which changes the disk only. -/
theorem bind_writeStub_run (l : Loader) (b : Backend) (module : String) (artifact : Path)
    (signatures : List Signature) (make : Native.Binding → Path → LoadedModule) (w : Workspace) :
    ∃ result disk, (l.bind b module artifact signatures >>= fun m =>
          Loader.writeStub artifact m >>= fun stub => pure (make m stub)).run.run w
        = (result, { w with disk }) ∧
      ∀ e, result = .error e → e.IsLate := by
  obtain ⟨bound, hbind, hbound⟩ := bind_run l b module artifact signatures w
  cases bound with
  | error error => exact ⟨.error error, w.disk, run_bind_error hbind, fun e he => hbound e (by cases he; rfl)⟩
  | ok m =>
    obtain ⟨written, disk, hwrite, hwritten⟩ := writeStub_run artifact m w
    rw [run_bind_ok hbind]
    cases written with
    | error error =>
      exact ⟨.error error, disk, run_bind_error hwrite, fun e he => hwritten e (by cases he; rfl)⟩
    | ok stub => exact ⟨.ok (make m stub), disk, run_bind_ok hwrite, by simp⟩

/-! ## Before the build -/

/-- The cache is asked, if it is used. -/
def lookUp (l : Loader) (source : Path) : Routine Workspace Bool :=
  if l.builder.cached then Cache.shouldSkip source else pure false

/-- Asking leaves the workspace alone, or brings the mapping into memory. -/
theorem shouldSkip_run_cases (w : Workspace) (source : Path) :
    ((Cache.shouldSkip source).run w).2 = w ∧ w.disk.isFile source = false ∨
      ((Cache.shouldSkip source).run w).2 = w.asked := by
  unfold Cache.shouldSkip
  rw [run_bind, run_ask]
  cases hdigest : w.disk.digest source with
  | error fault =>
    refine .inl ⟨rfl, ?_⟩
    cases hfile : w.disk.isFile source with
    | false => rfl
    | true =>
      obtain ⟨digest, hdigest'⟩ := Ground.exists_digest hfile
      rw [hdigest] at hdigest'
      cases hdigest'
  | ok digest =>
    simp only [run_bind, run_ask, run_atomically, Cache.holds, Cache.loaded_run_eq]
    exact .inr rfl

/-- Where the cache is used and the source is a file, the mapping is in memory before the build. -/
theorem lookUp_mapping (source : Path) (w : Workspace) (hcached : l.builder.cached = true) :
    ((l.lookUp source).run w).2.mapping = w.mapping ∧
      ((l.lookUp source).run w).2.ran = w.ran ∧
      (((l.lookUp source).run w).2.disk.isFile source = true →
        (((l.lookUp source).run w).2.cache.entries?).isSome = true) := by
  rw [lookUp, if_pos hcached]
  rcases shouldSkip_run_cases w source with ⟨hsame, hfile⟩ | hasked
  · rw [hsame]
    exact ⟨rfl, rfl, by simp [hfile]⟩
  · rw [hasked]
    exact ⟨rfl, rfl, fun _ => rfl⟩

theorem lookUp_uncached (hcached : l.builder.cached = false) :
    ((l.lookUp source).run w).2 = w := by
  rw [lookUp, hcached]
  rfl

/-! ## The whole -/

/-- All that loading a module can come to. -/
inductive Runs (l : Loader) (source : Path) (w : Workspace) :
    Except LoadError LoadedModule → Workspace → Prop where
  | unresolved {e : LoadError} (h : l.resolve source = .error e) : Runs l source w (.error e) w
  /-- The cache is asked even if the signatures cannot be read. -/
  | unread {b : Backend} {module : String} {settings : ModuleSettings} {error : SourceError}
      (hresolve : l.resolve source = .ok (b, module, settings))
      (hread : Signature.ofFile b (settings.signatureSource source) w.disk = .error error) :
      Runs l source w (.error (.signatures (settings.signatureSource source) error))
        ((l.lookUp source).run w).2
  | unbuilt {b : Backend} {module : String} {settings : ModuleSettings}
      {signatures : List Signature} {error : BuildError} {w' : Workspace}
      (hresolve : l.resolve source = .ok (b, module, settings))
      (hread : Signature.ofFile b (settings.signatureSource source) w.disk = .ok signatures)
      (hbuild : (l.builder.build ⟨source, settings, signatures,
        ((l.lookUp source).run w).1⟩).run.run ((l.lookUp source).run w).2 = (.error error, w')) :
      Runs l source w (.error (.build source error)) w'
  | built {b : Backend} {module : String} {settings : ModuleSettings}
      {signatures : List Signature} {artifact : Path} {w' : Workspace} {disk : Disk}
      {result : Except LoadError LoadedModule}
      (hresolve : l.resolve source = .ok (b, module, settings))
      (hread : Signature.ofFile b (settings.signatureSource source) w.disk = .ok signatures)
      (hbuild : (l.builder.build ⟨source, settings, signatures,
        ((l.lookUp source).run w).1⟩).run.run ((l.lookUp source).run w).2 = (.ok artifact, w'))
      (hlate : ∀ e, result = .error e → e.IsLate) :
      Runs l source w result { w' with disk }

/-- The error of a part is blamed on something. -/
theorem run_mapError {ε α : Type} (f : ε → LoadError) {r : ExceptT ε (Routine Workspace) α}
    {outcome : Except ε α} (h : r.run.run w = (outcome, w')) :
    (ExceptT.mk do
      let built ← r.run
      return built.mapError f : Load α).run.run w = (outcome.mapError f, w') := by
  rw [ExceptT.run_mk, run_bind, h]
  rfl

/-- Loading a module comes to one of these. -/
theorem load_runs (l : Loader) (source : Path) (w : Workspace) :
    Runs l source w ((l.load source).run.run w).1 ((l.load source).run.run w).2 := by
  have hload : l.load source = (liftM (l.resolve source) : Load _) >>= fun resolved =>
      let b := resolved.1
      let settings := resolved.2.2
      (liftM (ask fun w => Signature.ofFile b (settings.signatureSource source) w.disk :
          Routine Workspace _) : Load _) >>= fun read =>
      (liftM (l.lookUp source) : Load Bool) >>= fun upToDate =>
      (liftM (read.mapError (LoadError.signatures (settings.signatureSource source))) :
          Load _) >>= fun signatures =>
      (ExceptT.mk do
        let built ← (l.builder.build { source, settings, signatures, upToDate }).run
        return built.mapError (.build source)) >>= fun artifact =>
      l.bind b resolved.2.1 artifact signatures >>= fun m =>
      writeStub artifact m >>= fun stub =>
      pure { source, backend := b, signatures, binding := m, stub } := by
    unfold load lookUp
    split <;> rfl
  rw [hload]
  cases hresolve : l.resolve source with
  | error e => exact .unresolved hresolve
  | ok resolved =>
    obtain ⟨b, module, settings⟩ := resolved
    rw [Ground.liftM_ok_bind, run_bind_ok (run_liftM _ w), run_ask]
    rw [run_bind_ok (run_liftM (l.lookUp source) w)]
    cases hread : Signature.ofFile b (settings.signatureSource source) w.disk with
    | error error => exact .unread hresolve hread
    | ok signatures =>
      have hok : (Except.ok signatures).mapError
          (LoadError.signatures (settings.signatureSource source)) = .ok signatures := rfl
      rw [hok, Ground.liftM_ok_bind]
      generalize hbuild : (l.builder.build ⟨source, settings, signatures,
        ((l.lookUp source).run w).1⟩).run.run ((l.lookUp source).run w).2 = outcome
      have hblamed := run_mapError (LoadError.build source) hbuild
      obtain ⟨error | artifact, w'⟩ := outcome
      · rw [run_bind_error hblamed]
        exact .unbuilt hresolve hread hbuild
      · obtain ⟨result, disk, hrest, hlate⟩ := bind_writeStub_run l b module artifact signatures
          (fun binding stub => ⟨source, b, signatures, binding, stub⟩) w'
        rw [run_bind_ok hblamed, hrest]
        exact .built hresolve hread hbuild hlate

end Loader

end ForeignModule
