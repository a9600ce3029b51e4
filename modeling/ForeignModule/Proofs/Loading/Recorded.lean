import ForeignModule.Proofs.Loading.Course

/-!
# What loading a module records

A module is rebuilt if its tools run when it is loaded, and its build does not fail
(`Loader.Rebuilds`). Loading a module that nobody disturbs goes one of three ways (`Houses.load_loads`). If
it is rebuilt, then its digest is in the cache in the end, and otherwise its entry is what it has been
(`Loads.entry`).
-/

namespace ForeignModule

open Disk Routine

/-- The tools of the module run when it is loaded, and its build does not fail. -/
def Loader.Rebuilds (l : Loader) (source : Path) (w : Workspace) : Prop :=
  ((l.load source).run.run w).2.ran ≠ w.ran ∧
    ∀ e, ((l.load source).run.run w).1 ≠ .error (.build source e)

namespace Ground

variable {G : Ground} {w₀ w : Workspace} {s : Path} {l : Loader}

/-- The cache has the digest of the source in memory. -/
def Entered (w₀ : Workspace) (s : Path) (c : Cache) : Prop :=
  ∃ m digest, c.entries? = some m ∧ w₀.disk.digest s = .ok digest ∧ m[w₀.disk.key s]? = some digest

/-- A run that nobody disturbs comes here, with this cache and behind these tools. -/
def Alone (G : Ground) (w₀ : Workspace) (s : Path) (p : Disk → Prop) (c : Cache)
    (ran : List Invocation) (w : Workspace) : Prop :=
  G.Seen w₀ s p w w ∧ w.cache = c ∧ w.ran = ran

/-! ## Parts that leave the cache as it is -/

section

variable {c : Cache} {ran : List Invocation}

theorem leaves_ensureParent (path : Path) :
    Leaves (fun w => w.cache = c ∧ w.ran = ran) (Builder.ensureParent path)
      (fun _ w => w.cache = c ∧ w.ran = ran) fun w => w.cache = c := by
  rintro w ⟨hcache, hran⟩
  obtain ⟨disk, -, hrun | ⟨directory, fault, hrun⟩⟩ := Builder.ensureParent_run path w
  · rw [hrun]
    exact ⟨hcache, hran⟩
  · rw [hrun]
    exact hcache

theorem leaves_runTools (b : Builder) (steps : List Invocation) :
    Leaves (fun w => w.cache = c ∧ w.ran = ran) (b.runTools steps)
      (fun _ w => w.cache = c ∧ w.ran = ran ++ steps) fun w => w.cache = c := by
  rintro w ⟨rfl, rfl⟩
  obtain ⟨done, outcome, w', hrun, -, hran, hall⟩ := b.runTools_ran steps w
  rw [hrun]
  cases outcome with
  | error e => exact hran.cache_eq
  | ok _ =>
    rw [hall rfl] at hran
    exact ⟨hran.cache_eq, hran.ran_eq⟩

theorem alone_look {α : Type} {p : Disk → Prop} (f : Disk → α) :
    Leaves (G.Alone w₀ s p c ran) (Builder.look f) (fun _ => G.Alone w₀ s p c ran) fun w => w.cache = c :=
  .lift fun _ h => h

theorem Prepares.alone_ensureParent {path : Path} {p : Disk → Prop} (hprepares : G.Prepares path)
    (hlasting : G.Lasting p) :
    Leaves (G.Alone w₀ s p c ran) (Builder.ensureParent path)
      (fun _ => G.Alone w₀ s (fun d => p d ∧ There d path) c ran) fun w => w.cache = c :=
  ((hprepares.ensureParent_undisturbed hlasting).leaves.both
    (leaves_ensureParent path)).imp_failed fun _ h => h.2

end

/-! ## A build that nobody disturbs -/

section

variable {b : Backend} {module : String} {settings : ModuleSettings} {signatures : List Signature}
  {c : Cache} {ran : List Invocation}
  (hkeeps : G.Keeps w₀.cache.path w₀.cache.number) (hdisk : G.disk = w₀.disk) (hfix : G.Fixes s)

include hkeeps hdisk hfix in
theorem Sound.entered_record (h : G.Sound w₀ w) (hfile : w₀.disk.isFile s = true) :
    Entered w₀ s ((Cache.record s).run w).2.cache ∧ ((Cache.record s).run w).2.ran = w.ran := by
  obtain ⟨digest, hdigest⟩ := exists_digest hfile
  have hdigest' : w.disk.digest s = .ok digest := by rw [hfix.digest_eq h.allows, hdisk, hdigest]
  have hkey : w.disk.key s = w₀.disk.key s := by
    rw [hfix.key_eq h.allows (hdisk ▸ hdigest), hdisk]
  have hrun : (Cache.record s).run w = (.ok (), w.recorded (w₀.disk.key s) digest) := by
    unfold Cache.record
    simp only [run_bind, run_ask, hdigest', run_atomically, hkey, h.insert_run hkeeps]
  rw [hrun]
  exact ⟨⟨_, digest, rfl, hdigest, by simp⟩, rfl⟩

variable (hhouses : G.Houses l s b module settings) (hcached : l.builder.cached = true)
  (hfile : w₀.disk.isFile s = true)
  (hsignatures : Signature.ofFile b (settings.signatureSource s) G.disk = .ok signatures)

include hkeeps hdisk hfix hhouses hcached hfile hsignatures

theorem rebuild_entered :
    Leaves (G.Alone w₀ s (Prepared (l.outputs s settings)) c ran)
      (l.builder.rebuild s (Plan.of l.builder.directory s settings signatures))
      (fun _ w => Entered w₀ s w.cache ∧ w.ran ≠ ran) fun w => w.cache = c := by
  have hsteps : (Plan.of l.builder.directory s settings signatures).steps ≠ [] := by
    cases settings <;> exact List.cons_ne_nil _ _
  have htools : Leaves (G.Alone w₀ s (Prepared (l.outputs s settings)) c ran)
      (l.builder.runTools (Plan.of l.builder.directory s settings signatures).steps)
      (fun _ => G.Alone w₀ s (Prepared (l.outputs s settings)) c
        (ran ++ (Plan.of l.builder.directory s settings signatures).steps)) fun w => w.cache = c :=
    ((runTools_undisturbed (hhouses.tools signatures hsignatures)).leaves.both
      (leaves_runTools l.builder _)).imp_failed fun _ h => h.2
  unfold Builder.rebuild
  refine htools.bind fun _ => (alone_look _).bind fun there => ?_
  cases there with
  | false => exact fun w h => h.2.1
  | true =>
    have hrecord : Leaves (G.Alone w₀ s (Prepared (l.outputs s settings)) c
          (ran ++ (Plan.of l.builder.directory s settings signatures).steps))
        (liftM (Cache.record s) : Builder.Build _) (fun _ w => Entered w₀ s w.cache ∧ w.ran ≠ ran)
        fun w => w.cache = c := by
      refine .lift ?_
      rintro w ⟨hseen, -, hran⟩
      obtain ⟨hentered, hsame⟩ := hseen.1.before.entered_record hkeeps hdisk hfix hfile
      refine ⟨hentered, ?_⟩
      rw [hsame, hran]
      exact fun h => hsteps (List.append_right_eq_self.1 h)
    simp only [if_true, hcached]
    exact hrecord.bind fun _ => .pure fun w h => h

/-- A build records its source behind its tools, or leaves the cache as it is. -/
theorem build_entered (upToDate : Bool) :
    Leaves (G.Alone w₀ s (fun _ => True) c ran)
      (l.builder.build ⟨s, settings, signatures, upToDate⟩)
      (fun _ w => w.cache = c ∧ w.ran = ran ∨ Entered w₀ s w.cache ∧ w.ran ≠ ran) fun w => w.cache = c := by
  have hrebuild : Leaves (G.Alone w₀ s (Prepared (l.outputs s settings)) c ran)
      (l.builder.rebuild s (Plan.of l.builder.directory s settings signatures))
      (fun _ w => w.cache = c ∧ w.ran = ran ∨ Entered w₀ s w.cache ∧ w.ran ≠ ran) fun w => w.cache = c :=
    (rebuild_entered hkeeps hdisk hfix hhouses hcached hfile hsignatures).imp_after fun _ _ => .inr
  have hsource : Leaves (G.Alone w₀ s (fun _ => True) c ran) (Builder.look (·.isFile s))
      (fun there w => G.Alone w₀ s (fun _ => True) c ran w ∧ there = true) fun w => w.cache = c := by
    refine .lift fun w h => ⟨h, ?_⟩
    show w.disk.isFile s = true
    rw [hfix.isFile_eq h.1.1.before.allows, hdisk, hfile]
  have hprimary : Leaves (G.Alone w₀ s (fun _ => True) c ran) _ _ fun w => w.cache = c :=
    hhouses.primary.alone_ensureParent fun _ _ _ _ _ => trivial
  have hartifact : Leaves (G.Alone w₀ s (fun d => True ∧ There d (l.outputs s settings).primary) c ran)
      _ _ fun w => w.cache = c :=
    hhouses.artifact.alone_ensureParent fun _ _ _ hchanges h => ⟨h.1, h.2.changes hchanges⟩
  have hprepared : ∀ w, G.Alone w₀ s (fun d => (True ∧ There d (l.outputs s settings).primary) ∧
        There d (l.outputs s settings).artifact) c ran w →
      G.Alone w₀ s (Prepared (l.outputs s settings)) c ran w := fun w h =>
    ⟨⟨h.1.1, h.1.2.1, h.1.2.2.1.2, h.1.2.2.2⟩, h.2⟩
  unfold Builder.build
  refine hsource.bind fun there => .of_fact ?_
  rintro rfl
  simp only [if_true]
  refine hprimary.bind fun _ => (hartifact.imp_after fun _ => hprepared).bind fun _ => ?_
  cases upToDate with
  | false => exact hrebuild
  | true =>
    simp only [if_true]
    refine (alone_look _).bind fun there => ?_
    cases there with
    | false => exact hrebuild
    | true => exact .pure fun w h => .inl h.2

end

/-! ## Loading -/

section

variable {b : Backend} {module : String} {settings : ModuleSettings}
  (hkeeps : G.Keeps w₀.cache.path w₀.cache.number) (hdisk : G.disk = w₀.disk) (hfix : G.Fixes s)
  (hhouses : G.Houses l s b module settings) (hcached : l.builder.cached = true)

/-- What loading a module alone leaves in the cache. -/
inductive Loads (w₀ : Workspace) (s : Path) : Except LoadError LoadedModule → Workspace → Prop where
  /-- Nothing has been run. -/
  | idle {result : Except LoadError LoadedModule} {w : Workspace} (hran : w.ran = w₀.ran)
      (hentry : w.mapping[w₀.disk.key s]? = w₀.mapping[w₀.disk.key s]?) : Loads w₀ s result w
  | failed {error : BuildError} {w : Workspace}
      (hentry : w.mapping[w₀.disk.key s]? = w₀.mapping[w₀.disk.key s]?) :
      Loads w₀ s (.error (.build s error)) w
  | rebuilt {result : Except LoadError LoadedModule} {w : Workspace} (hran : w.ran ≠ w₀.ran)
      (hresult : ∀ error, result ≠ .error (.build s error)) (hentered : Entered w₀ s w.cache) :
      Loads w₀ s result w

include hkeeps hdisk hfix hhouses hcached in
theorem Houses.load_loads (hresolve : l.resolve s = .ok (b, module, settings)) :
    Loads w₀ s ((l.load s).run.run w₀).1 ((l.load s).run.run w₀).2 := by
  have hstart : G.View w₀ s w₀ w₀ := .refl (.start hdisk)
  have hlookUp : l.lookUp s = Cache.shouldSkip s := if_pos hcached
  obtain ⟨hview, hasked⟩ := (shouldSkip_undisturbed hkeeps hdisk hfix).alone hstart
  obtain ⟨hmapping, hran, -⟩ := l.lookUp_mapping s w₀ hcached
  rw [← hlookUp] at hview hasked
  have hsame : ((l.lookUp s).run w₀).2.mapping[w₀.disk.key s]? = w₀.mapping[w₀.disk.key s]? := by
    rw [hmapping]
  -- Behind the build the entry is the same, or that of a module which has been rebuilt.
  have hbuilt : ∀ signatures outcome w₂,
      Signature.ofFile b (settings.signatureSource s) w₀.disk = .ok signatures →
      (l.builder.build ⟨s, settings, signatures, ((l.lookUp s).run w₀).1⟩).run.run
        ((l.lookUp s).run w₀).2 = (outcome, w₂) →
      match outcome with
      | .error _ => w₂.mapping[w₀.disk.key s]? = w₀.mapping[w₀.disk.key s]?
      | .ok _ => w₂.ran = w₀.ran ∧
          (∀ disk, { w₂ with disk }.mapping[w₀.disk.key s]? = w₀.mapping[w₀.disk.key s]?) ∨
        w₂.ran ≠ w₀.ran ∧ Entered w₀ s w₂.cache := by
    intro signatures outcome w₂ hsignatures hrun
    generalize (l.lookUp s).run w₀ = found at *
    obtain ⟨upToDate, w₁⟩ := found
    cases hfile : w₀.disk.isFile s with
    | false =>
      have hdisciplined := Builder.build_disciplined l.builder ⟨s, settings, signatures, upToDate⟩ w₁
      have hnone : w₁.disk.isFile s = false := by rw [hfix.isFile_eq hview.before.allows, hdisk, hfile]
      have hmissing : (l.builder.build ⟨s, settings, signatures, upToDate⟩).run.run w₁
          = (.error (.missingSource s), w₁) :=
        Prod.ext (hdisciplined.missing hnone) (hdisciplined.untouched hnone)
      obtain ⟨rfl, rfl⟩ := Prod.mk.inj (hmissing.symm.trans hrun)
      exact hsame
    | true =>
      obtain ⟨m, hm⟩ := Option.isSome_iff_exists.1 (hasked hfile)
      have hmemory : ∀ w : Workspace, w.cache = w₁.cache →
          w.mapping[w₀.disk.key s]? = w₀.mapping[w₀.disk.key s]? := by
        intro w hcache
        rw [← hsame, mapping_of_memory hm, mapping_of_memory (hcache ▸ hm)]
      have hentered := build_entered hkeeps hdisk hfix hhouses hcached hfile (hdisk ▸ hsignatures)
        upToDate w₁ ⟨⟨hview, hasked hfile, trivial⟩, rfl, rfl⟩
      rw [hrun] at hentered
      cases outcome with
      | error error => exact hmemory w₂ hentered
      | ok artifact =>
        rcases hentered with ⟨hcache, hran'⟩ | ⟨hentered, hran'⟩
        · exact .inl ⟨hran'.trans hran, fun disk => hmemory _ hcache⟩
        · exact .inr ⟨fun h => hran' (h.trans hran.symm), hentered⟩
  have hruns := l.load_runs s w₀
  generalize (l.load s).run.run w₀ = outcome at hruns ⊢
  obtain ⟨result, w⟩ := outcome
  cases hruns with
  | unresolved h =>
    rw [hresolve] at h
    cases h
  | unread => exact .idle hran hsame
  | unbuilt hresolve' hread hbuild =>
    cases hresolve.symm.trans hresolve'
    exact .failed (hbuilt _ _ _ hread hbuild)
  | built hresolve' hread hbuild hlate =>
    cases hresolve.symm.trans hresolve'
    rcases hbuilt _ _ _ hread hbuild with ⟨hran', hentry⟩ | ⟨hran', hentered⟩
    · exact .idle hran' (hentry _)
    · exact .rebuilt hran' (fun error h => hlate _ h) hentered

/-- The cache has the digest of a module that has been rebuilt, and what it had for any other one. -/
theorem Loads.entry (h : Loads w₀ s ((l.load s).run.run w₀).1 ((l.load s).run.run w₀).2) :
    (l.Rebuilds s w₀ → ∃ digest, w₀.disk.digest s = .ok digest ∧
      ((l.load s).run.run w₀).2.mapping[w₀.disk.key s]? = some digest) ∧
    (¬l.Rebuilds s w₀ →
      ((l.load s).run.run w₀).2.mapping[w₀.disk.key s]? = w₀.mapping[w₀.disk.key s]?) := by
  unfold Loader.Rebuilds
  generalize (l.load s).run.run w₀ = outcome at h ⊢
  obtain ⟨result, w⟩ := outcome
  cases h with
  | idle hran hentry => exact ⟨fun h => absurd hran h.1, fun _ => hentry⟩
  | failed hentry => exact ⟨fun h => absurd rfl (h.2 _), fun _ => hentry⟩
  | rebuilt hran hresult hentered =>
    obtain ⟨m, digest, hm, hdigest, hentry⟩ := hentered
    refine ⟨fun _ => ⟨digest, hdigest, ?_⟩, fun h => absurd ⟨hran, hresult⟩ h⟩
    rw [mapping_of_memory hm]
    exact hentry

end

end Ground

end ForeignModule
