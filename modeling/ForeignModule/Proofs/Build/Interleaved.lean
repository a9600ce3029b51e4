import ForeignModule.Proofs.Build.Freshness
import ForeignModule.Proofs.Interleaving

/-!
# Sources that are rewritten during builds

One source is built again and again, and an editor rewrites it at any time, also between the steps of
a build. A build reads the source twice: the tools compile it, and behind them the digest is taken
that is recorded. Where the editor comes between these two, the artifact is compiled from one content
and the digest is that of another one, and from then on the source is held to be unchanged although
the artifact is not compiled from it (`artifact_outdated`).

That is all that can go wrong. `Builder.quietly` is a build in which nobody comes between the start of
its tools and the digest. If all builds are like this, and the editor does what it wants at all other
times, then a source is held to be unchanged only if its artifact is compiled from what it contains
(`artifact_fresh_of_shouldSkip`).

A build is cut into parts for this (`Builder.update_eq`). `Settled` holds between builds, `Open` from
the moment at which the cache has been asked, and `Measured` from the digest on until it is kept.
-/

namespace ForeignModule

open Routine Disk

namespace Cache

/-- Keeps the digest that has been taken of a source: what recording does behind taking it. -/
def keep (source : Path) (digest : Except Fault String) :
    Routine Workspace (Except CacheError Unit) := do
  match digest with
  | .error fault => return .error (.disk source fault)
  | .ok digest =>
    let key ← ask (·.disk.key source)
    atomically (insert key digest {} {})

theorem record_eq (source : Path) :
    record source = ask (·.disk.digest source) >>= keep source := by
  unfold record
  congr 1

end Cache

/-! ## The parts of a build -/

namespace Builder

/-- Looks for the source and makes directories. Gives the artifact if that can stay. -/
def prepare (b : Builder) (t : Target) (upToDate : Bool) : Build (Option Path) := do
  unless ← look (·.isFile t.source) do throw (.missingSource t.source)
  ensureParent (b.planOf t).outputs.primary
  ensureParent (b.artifact t)
  if upToDate then
    if ← look (·.exists? (b.artifact t)) then return some (b.artifact t)
  return none

/-- Runs the tools, and looks for the artifact. -/
def produce (b : Builder) (t : Target) : Build Unit := do
  b.runTools (b.planOf t).steps
  unless ← look (·.exists? (b.artifact t)) do throw (.missingArtifact (b.artifact t))

/-- Runs the tools, and takes the digest of the source behind them. -/
def measure (b : Builder) (t : Target) : Build (Except Fault String) := do
  b.produce t
  look (·.digest t.source)

/-- The end of a build, with what makes the artifact and takes the digest. -/
def finish (b : Builder) (t : Target) (window : Build (Except Fault String)) : Build Path := do
  let digest ← window
  let _ ← (Cache.keep t.source digest : Routine Workspace (Except CacheError Unit))
  return b.artifact t

/-- A whole build, with what makes the artifact and takes the digest. -/
def around (b : Builder) (t : Target) (window : Build (Except Fault String)) :
    Routine Workspace (Except BuildError Path) := do
  let upToDate ← b.unchanged t.source
  ExceptT.run do
    match ← b.prepare t upToDate with
    | some p => return p
    | none => b.finish t window

/-- A build in which nobody comes between the start of its tools and the digest. -/
def quietly (b : Builder) (t : Target) : Routine Workspace (Except BuildError Path) :=
  b.around t (.mk (atomically (b.measure t).run))

section

variable {b : Builder} {t : Target} {others : Workspace → Workspace → Prop}

theorem rebuild_eq (hcached : b.cached = true) :
    b.rebuild t.source (b.planOf t) = b.finish t (b.measure t) := by
  unfold rebuild finish measure produce
  rw [LawfulMonad.bind_assoc, LawfulMonad.bind_assoc]
  refine bind_congr fun _ => ?_
  rw [LawfulMonad.bind_assoc]
  refine bind_congr fun there => ?_
  cases there with
  | false => rfl
  | true =>
    simp only [if_true, hcached, Cache.record_eq, liftM_bind, LawfulMonad.bind_assoc,
      LawfulMonad.pure_bind]
    rfl

theorem build_eq (upToDate : Bool) :
    b.build ⟨t.source, t.settings, t.signatures, upToDate⟩ = (do
      match ← b.prepare t upToDate with
      | some p => return p
      | none => b.rebuild t.source (b.planOf t)) := by
  unfold build prepare
  rw [LawfulMonad.bind_assoc]
  refine bind_congr fun there => ?_
  cases there with
  | false => rfl
  | true =>
    simp only [if_true, LawfulMonad.bind_assoc]
    refine bind_congr fun _ => bind_congr fun _ => ?_
    cases upToDate with
    | false => rfl
    | true =>
      simp only [if_true, LawfulMonad.bind_assoc]
      refine bind_congr fun there => ?_
      cases there <;> rfl

/-- A build that uses the cache is made of these parts. -/
theorem update_eq (hcached : b.cached = true) : b.update t = b.around t (b.measure t) := by
  unfold update around
  refine bind_congr fun upToDate => ?_
  rw [build_eq, rebuild_eq hcached]

theorem around_mono {window window' : Build (Except Fault String)} {w w' : Workspace}
    {result : Except BuildError Path}
    (h : ∀ {w digest w'}, window.run.Among others w digest w' →
      window'.run.Among others w digest w')
    (hrun : (b.around t window).Among others w result w') :
    (b.around t window').Among others w result w' := by
  obtain ⟨upToDate, w₁, hasked, hbuild⟩ := among_bind.1 hrun
  refine among_bind.2 ⟨upToDate, w₁, hasked, ?_⟩
  obtain ⟨p?, w₂, hprepared, hrest⟩ | hfailed := among_bind_except.1 hbuild
  · refine among_bind_except.2 (.inl ⟨p?, w₂, hprepared, ?_⟩)
    cases p? with
    | some p => exact hrest
    | none => exact among_bind_mono h hrest
  · exact among_bind_except.2 (.inr hfailed)

/-- What can happen during a quiet build can happen during any build. -/
theorem among_update_of_quietly (hcached : b.cached = true) {w w' : Workspace}
    {result : Except BuildError Path} (h : (b.quietly t).Among others w result w') :
    (b.update t).Among others w result w' := by
  rw [update_eq hcached]
  exact around_mono Among.of_atomically h

/-- Somebody may come between the tools and the digest. -/
theorem among_update_of_between (hcached : b.cached = true) {w w₁ w₂ w₃ w₄ w₅ : Workspace}
    {upToDate : Bool} {answer : Except CacheError Unit}
    (hasked : (b.unchanged t.source).run w = (upToDate, w₁))
    (hprepared : (b.prepare t upToDate).run.run w₁ = (.ok none, w₂))
    (hproduced : (b.produce t).run.run w₂ = (.ok (), w₃)) (hothers : others w₃ w₄)
    (hkept : (Cache.keep t.source (w₄.disk.digest t.source)).run w₄ = (answer, w₅)) :
    (b.update t).Among others w (.ok (b.artifact t)) w₅ := by
  have hlooked : (look (·.digest t.source)).run.Among others w₃
      (.ok (w₄.disk.digest t.source)) w₄ := (among_run _ w₄).head (.single hothers)
  have hmeasured : (b.measure t).run.Among others w₂ (.ok (w₄.disk.digest t.source)) w₄ :=
    among_bind_except.2 (.inl ⟨(), w₃, among_of_run hproduced, hlooked⟩)
  have hend : (liftM (Cache.keep t.source (w₄.disk.digest t.source)) :
      Build (Except CacheError Unit)).run.Among others w₄ (.ok answer) w₅ :=
    among_of_run (by rw [run_liftM, hkept])
  have hfinished : (b.finish t (b.measure t)).run.Among others w₂ (.ok (b.artifact t)) w₅ :=
    among_bind_except.2 (.inl ⟨_, w₄, hmeasured,
      among_bind_except.2 (.inl ⟨answer, w₅, hend, rfl, .refl⟩)⟩)
  rw [update_eq hcached]
  exact among_bind.2 ⟨upToDate, w₁, among_of_run hasked,
    among_bind_except.2 (.inl ⟨none, w₂, among_of_run hprepared, hfinished⟩)⟩

/-- Without anybody else, a quiet build is a build. -/
theorem quietly_run (hcached : b.cached = true) (w : Workspace) :
    (b.quietly t).run w = (b.update t).run w := by
  rw [update_eq hcached, quietly, around, around, run_bind, run_bind]
  simp only [ExceptT.run_bind, run_bind]
  generalize ((b.prepare t _).run.run _) = prepared
  obtain ⟨(_ | _ | _), w'⟩ := prepared
  · rfl
  · simp only [finish, ExceptT.run_bind, run_bind, ExceptT.run_mk, run_atomically]
  · rfl

end

end Builder

namespace Project

/-- The editor writes the source, and no artifact changes. -/
inductive Rewrites (P : Project) (t : Target) : Workspace → Workspace → Prop where
  | write {w : Workspace} {e : Disk} {content : List UInt8} (hcontent : P.contents content)
    (hwrite : w.disk.write t.source content = .ok e)
    (hartifacts : ∀ t', P.targets t' → w.disk.Keeps e (P.builder.artifact t')) :
    Rewrites P t w { w with disk := e }

/-- The histories of one source that is built by a routine, one build after another, and rewritten at
any time, also between the steps of a build. -/
inductive Interleaves (P : Project) (t : Target)
    (build : Routine Workspace (Except BuildError Path)) (w₀ : Workspace) : Workspace → Prop where
  | start : Interleaves P t build w₀ w₀
  | rewrite {w w' : Workspace} (h : Interleaves P t build w₀ w) (hrewrite : P.Rewrites t w w') :
    Interleaves P t build w₀ w'
  | build {w w' : Workspace} {result : Except BuildError Path} (h : Interleaves P t build w₀ w)
    (hbuild : build.Among (P.Rewrites t) w result w') : Interleaves P t build w₀ w'

/-- Between builds. -/
def Settled (P : Project) (t : Target) (w : Workspace) : Prop :=
  P.Sound (fun _ => False) w ∧ ∃ content, w.disk.HasFile t.source content

/-- During a build, whatever the source contains. -/
def Open (P : Project) (t : Target) (stale : Path → Prop) (w : Workspace) : Prop :=
  ∃ content, P.During t content stale w

/-- A digest has been taken, and the artifact is compiled from the content that had it. -/
def Measured (P : Project) (t : Target) (digest : Except Fault String) (w : Workspace) : Prop :=
  P.Open t (· = P.builder.artifact t) w ∧
    ∃ content, P.contents content ∧ Digest.ofContent content = digest ∧ P.Fresh t content w

section

variable {P : Project} {stale : Path → Prop} {w w' w₀ : Workspace} {t : Target}
  {content : List UInt8} {upToDate : Bool} {digest : Except Fault String} {e : Disk}

/-- Every quiet history is a history. -/
theorem Interleaves.of_quietly (hcached : P.builder.cached = true)
    (h : P.Interleaves t (P.builder.quietly t) w₀ w) :
    P.Interleaves t (P.builder.update t) w₀ w := by
  induction h with
  | start => exact .start
  | rewrite _ hrewrite ih => exact ih.rewrite hrewrite
  | build _ hbuild ih => exact ih.build (Builder.among_update_of_quietly hcached hbuild)

/-! ## What the editor leaves alone -/

theorem Laid.hasFile_of_write (h : P.Laid w) (ht : P.targets t)
    (hwrite : w.disk.write t.source content = .ok e) : e.HasFile t.source content := by
  obtain ⟨parent, name, hplace, -⟩ := h.sources t ht
  obtain ⟨front, hends, -⟩ := hplace.front
  obtain ⟨parent', hplace', hinert, rfl⟩ := exists_of_write hends hwrite
    fun parent target hp => h.noLinks.ne_link hp (Watched.source ht hends) target
  have hagree := agreeOff_put w.disk (parent'.child name) (.file content)
  exact ⟨parent', name, hplace'.frame hagree hinert, by rw [nodes_put, if_pos rfl]⟩

theorem Sound.rewrite (hsep : P.Separate) (ht : P.targets t) (h : P.Sound stale w)
    (hrewrite : P.Rewrites t w w') :
    P.Sound stale w' ∧ ∃ content, w'.disk.HasFile t.source content := by
  obtain ⟨hcontent, hwrite, hartifacts⟩ := hrewrite
  exact ⟨h.edit hsep ht ⟨.inl ⟨_, hcontent, hwrite⟩, hartifacts⟩, _, h.hasFile_of_write ht hwrite⟩

theorem stable_settled (hsep : P.Separate) (ht : P.targets t) :
    Stable (P.Rewrites t) (P.Settled t) :=
  fun _ _ h hrewrite => h.1.rewrite hsep ht hrewrite

theorem stable_open (stale : Path → Prop) (hsep : P.Separate) (ht : P.targets t) :
    Stable (P.Rewrites t) (P.Open t stale) := by
  rintro w w' ⟨_, h⟩ hrewrite
  obtain ⟨hsound, content, hfile⟩ := h.sound.rewrite hsep ht hrewrite
  obtain ⟨-, -, -⟩ := hrewrite
  exact ⟨content, hsound, hfile, h.loaded⟩

theorem stable_measured (digest : Except Fault String) (hsep : P.Separate) (ht : P.targets t) :
    Stable (P.Rewrites t) (P.Measured t digest) := by
  rintro w w' ⟨h, content, hcontent, hdigest, hfresh⟩ hrewrite
  refine ⟨stable_open _ hsep ht w w' h hrewrite, content, hcontent, hdigest, ?_⟩
  obtain ⟨-, -, hartifacts⟩ := hrewrite
  exact (hartifacts t ht).hasFile hfresh

/-- What does not speak of the state cannot be made wrong. -/
theorem stable_and {p : Workspace → Prop} {q : Prop} (h : Stable (P.Rewrites t) p) :
    Stable (P.Rewrites t) fun w => p w ∧ q :=
  fun w w' hw hrewrite => ⟨h w w' hw.1 hrewrite, hw.2⟩

theorem Open.settled (h : P.Open t (fun _ => False) w) : P.Settled t w := by
  obtain ⟨content, hduring⟩ := h
  exact ⟨hduring.sound, content, hduring.source⟩

/-! ## The parts of a build among rewrites -/

/-- Asking the cache, whatever it answers. -/
theorem shouldSkip_secures (hsep : P.Separate) (ht : P.targets t) :
    Secures (P.Rewrites t) (P.Settled t) (Cache.shouldSkip t.source)
      fun _ => P.Open t fun _ => False := by
  have hsettled := stable_settled hsep ht
  have hopen := stable_open (fun _ => False) hsep ht
  have hdigest : Secures (P.Rewrites t) (P.Settled t) (ask (·.disk.digest t.source))
      fun answer w => P.Settled t w ∧ ∃ digest, answer = .ok digest := by
    refine .ask hsettled (fun _ => stable_and hsettled) fun w hw => ⟨hw, ?_⟩
    obtain ⟨-, content, hfile⟩ := hw
    rw [digest_of_read hfile.read]
    exact Digest.exists_ofContent content
  have hholds : ∀ key digest, Secures (P.Rewrites t) (P.Settled t)
      (atomically (Cache.holds key digest {})) fun _ => P.Open t fun _ => False := by
    intro key digest
    refine .atomically hsettled (fun _ => hopen) fun w hw => ?_
    obtain ⟨hsound, content, hfile⟩ := hw
    obtain ⟨entries, w', hrun, -, hduring⟩ := loaded_during hsep hsound ht hfile
    rw [Cache.holds, run_bind, hrun]
    exact ⟨content, hduring⟩
  -- The source may be rewritten between these two steps, and then the answer is about a content that
  -- is gone. All that is kept is what does not depend on the answer.
  unfold Cache.shouldSkip
  refine .bind hdigest fun answer => ?_
  cases answer with
  | error fault => exact fun w _ _ hw => nomatch hw.2
  | ok digest =>
    have hkey : Secures (P.Rewrites t) (P.Settled t) (ask (·.disk.key t.source))
        fun _ => P.Settled t := .ask hsettled (fun _ => hsettled) fun _ hw => hw
    have hrest := hkey.bind fun key => hholds key digest
    exact fun w answer w' hw hrun => hrest w answer w' hw.1 hrun

theorem look_secures {α : Type} {f : Disk → α} {before failed : Workspace → Prop}
    {after : α → Workspace → Prop} (hbefore : Stable (P.Rewrites t) before)
    (hafter : ∀ a, Stable (P.Rewrites t) (after a))
    (h : ∀ w, before w → after (f w.disk) w) :
    Secures (P.Rewrites t) before (Builder.look f).run (Ends after failed) :=
  (Secures.ask hbefore hafter h).lift hafter

theorem ensureParent_secures (hsep : P.Separate) (ht : P.targets t) {path : Path}
    (hpath : Apart P.cache P.number path) :
    Secures (P.Rewrites t) (P.Open t fun _ => False) (Builder.ensureParent path).run
      (Ends (fun _ => P.Open t fun _ => False) (P.Settled t)) := by
  have hopen := stable_open (fun _ => False) hsep ht
  have hleaves : Leaves (P.Open t fun _ => False) (Builder.ensureParent path)
      (fun _ => P.Open t fun _ => False) (P.Settled t) := by
    rintro w ⟨content, hduring⟩
    have hasked : P.Asked t content false w := ⟨hduring, nofun⟩
    have hrun := ensureParent_leaves ht hpath w hasked
    generalize (Builder.ensureParent path).run.run w = outcome at hrun ⊢
    obtain ⟨_ | _, w'⟩ := outcome
    · exact Open.settled ⟨content, hrun.1⟩
    · exact ⟨content, hrun.1⟩
  -- Making directories is one step, and so a run without others is all that has to be known.
  have hstep := hleaves.secures hopen (fun _ => hopen) (stable_settled hsep ht)
  unfold Builder.ensureParent at hstep ⊢
  cases hdirectory : path.directory? with
  | none => exact .pure hopen fun _ h => h
  | some directory =>
    rw [hdirectory] at hstep
    exact hstep

theorem prepare_secures (hsep : P.Separate) (ht : P.targets t) :
    Secures (P.Rewrites t) (P.Open t fun _ => False) (P.builder.prepare t upToDate).run
      (Ends (fun _ => P.Open t fun _ => False) (P.Settled t)) := by
  have hopen := stable_open (fun _ => False) hsep ht
  have hfile : Secures (P.Rewrites t) (P.Open t fun _ => False)
      (Builder.look (·.isFile t.source)).run
      (Ends (fun there w => P.Open t (fun _ => False) w ∧ there = true) (P.Settled t)) := by
    refine look_secures hopen (fun _ => stable_and hopen) fun w hw => ⟨hw, ?_⟩
    obtain ⟨content, hduring⟩ := hw
    exact isFile_iff.2 ⟨content, hduring.source.read⟩
  have hexists : Secures (P.Rewrites t) (P.Open t fun _ => False)
      (Builder.look (·.exists? (P.builder.artifact t))).run
      (Ends (fun _ => P.Open t fun _ => False) (P.Settled t)) :=
    look_secures hopen (fun _ => hopen) fun _ hw => hw
  have hreturn : ∀ p? : Option Path, Secures (P.Rewrites t) (P.Open t fun _ => False)
      (pure p? : Builder.Build (Option Path)).run
      (Ends (fun _ => P.Open t fun _ => False) (P.Settled t)) :=
    fun p? => .pure hopen fun _ hw => hw
  have hreuse : Secures (P.Rewrites t) (P.Open t fun _ => False)
      (ExceptT.run (if upToDate = true then
        Builder.look (·.exists? (P.builder.artifact t)) >>= fun there =>
          if there = true then pure (some (P.builder.artifact t)) else pure none
      else pure none : Builder.Build (Option Path)))
      (Ends (fun _ => P.Open t fun _ => False) (P.Settled t)) := by
    cases upToDate with
    | false => exact hreturn none
    | true =>
      refine .bind_except hexists fun there => ?_
      cases there with
      | false => exact hreturn none
      | true => exact hreturn (some _)
  unfold Builder.prepare
  refine .bind_except hfile fun there => ?_
  cases there with
  | false => exact fun w _ _ hw => nomatch hw.2
  | true =>
    have hall : Secures (P.Rewrites t) (P.Open t fun _ => False) _ _ :=
      .bind_except (ensureParent_secures hsep ht (hsep.primary_apart t ht)) fun _ =>
        .bind_except (ensureParent_secures hsep ht (hsep.artifact_apart t ht)) fun _ => hreuse
    exact fun w result w' hw hrun => hall w result w' hw.1 hrun

/-- The tools, with nobody in between: the artifact is compiled from what they have read. -/
theorem produce_leaves (hsep : P.Separate) (hhonest : P.Honest) (ht : P.targets t) :
    Leaves (P.During t content fun _ => False) (P.builder.produce t)
      (fun _ w => P.During t content (· = P.builder.artifact t) w ∧ P.Fresh t content w)
      (P.Settled t) := by
  have htools : Leaves (P.During t content fun _ => False) _ _ (P.Settled t) :=
    (runTools_leaves hsep hhonest ht).imp_failed fun _ h => Open.settled ⟨content, h⟩
  have hlook : Leaves
      (fun w => P.During t content (· = P.builder.artifact t) w ∧ P.Fresh t content w)
      (Builder.look (·.exists? (P.builder.artifact t)))
      (fun there w => there = true ∧ P.During t content (· = P.builder.artifact t) w ∧
        P.Fresh t content w) (P.Settled t) :=
    look_leaves fun w hw => ⟨HasFile.exists hw.2, hw⟩
  unfold Builder.produce
  refine .bind htools fun _ => .bind hlook fun there => ?_
  cases there with
  | false => exact fun w hw => nomatch hw.1
  | true => exact .pure fun _ hw => hw.2

/-- The tools and the digest, with nobody in between: the digest is that of what they have read. -/
theorem measure_leaves (hsep : P.Separate) (hhonest : P.Honest) (ht : P.targets t) :
    Leaves (P.Open t fun _ => False) (P.builder.measure t) (P.Measured t) (P.Settled t) := by
  rintro w ⟨content, hduring⟩
  have hdigest : Leaves
      (fun w => P.During t content (· = P.builder.artifact t) w ∧ P.Fresh t content w)
      (Builder.look (·.digest t.source)) (P.Measured t) (P.Settled t) := by
    refine look_leaves fun w hw => ⟨⟨content, hw.1⟩, content, ?_, ?_, hw.2⟩
    · exact hw.1.sound.contents t ht content hw.1.source
    · exact (digest_of_read hw.1.source.read).symm
  exact ((produce_leaves hsep hhonest ht).bind fun _ => hdigest) w hduring

/-- The digest is kept, under the key of the source. -/
theorem keep_secures (hsep : P.Separate) (hcached : P.builder.cached = true) (ht : P.targets t) :
    Secures (P.Rewrites t) (P.Measured t digest) (Cache.keep t.source digest)
      fun _ => P.Settled t := by
  have hmeasured := stable_measured digest hsep ht
  have hkey : Secures (P.Rewrites t) (P.Measured t digest) (ask (·.disk.key t.source))
      fun key w => P.Measured t digest w ∧ key = P.key t := by
    refine .ask hmeasured (fun _ => stable_and hmeasured) fun w hw => ⟨hw, ?_⟩
    obtain ⟨⟨content, hduring⟩, -⟩ := hw
    exact hduring.sound.key_eq ht hduring.source
  unfold Cache.keep
  cases digest with
  | error fault =>
    rintro w _ _ ⟨-, content, -, hdigest, -⟩
    obtain ⟨digest, hok⟩ := Digest.exists_ofContent content
    rw [hok] at hdigest
    cases hdigest
  | ok digest =>
    -- The source may contain something else by now. What is kept is the digest of what the artifact
    -- is compiled from, and that is all the invariant asks for.
    refine .bind hkey fun key => ?_
    refine .atomically (stable_and hmeasured) (fun _ => stable_settled hsep ht) ?_
    rintro w ⟨⟨⟨content', hduring⟩, content, hcontent, hdigest, hfresh⟩, rfl⟩
    obtain ⟨result, w', hrun, hsound, hkeeps⟩ :=
      insert_during hsep ht hduring.sound (hduring.loaded hcached) hcontent hdigest hfresh
    rw [hrun]
    exact ⟨hsound, content', (hkeeps.sources t ht).hasFile hduring.source⟩

/-- A quiet build among rewrites. -/
theorem quietly_secures (hsep : P.Separate) (hhonest : P.Honest)
    (hcached : P.builder.cached = true) (ht : P.targets t) :
    Secures (P.Rewrites t) (P.Settled t) (P.builder.quietly t)
      (Ends (fun _ => P.Settled t) (P.Settled t)) := by
  have hsettled := stable_settled hsep ht
  have hopen := stable_open (fun _ => False) hsep ht
  have hasked : Secures (P.Rewrites t) (P.Settled t) (P.builder.unchanged t.source)
      fun _ => P.Open t fun _ => False := by
    rw [Builder.unchanged, if_pos hcached]
    exact shouldSkip_secures hsep ht
  have hwindow := (measure_leaves hsep hhonest ht).secures hopen
    (fun digest => stable_measured digest hsep ht) hsettled
  have hfinish : Secures (P.Rewrites t) (P.Open t fun _ => False)
      (P.builder.finish t (.mk (atomically (P.builder.measure t).run))).run
      (Ends (fun _ => P.Settled t) (P.Settled t)) := by
    refine .bind_except hwindow fun digest => ?_
    refine .bind_except ((keep_secures hsep hcached ht).lift fun _ => hsettled) fun _ => ?_
    exact .pure hsettled fun _ hw => hw
  refine .bind hasked fun upToDate => .bind_except (prepare_secures hsep ht) fun p? => ?_
  cases p? with
  | some p => exact .pure hsettled fun _ hw => hw.settled
  | none => exact hfinish

/-! ## Histories -/

theorem Starts.settled (h : P.Starts w) (ht : P.targets t)
    (hsource : w.disk.isFile t.source = true) : P.Settled t w := by
  obtain ⟨content, hread⟩ := isFile_iff.1 hsource
  exact ⟨h.sound, content, h.hasFile_of_read ht hread⟩

theorem Interleaves.settled (hsep : P.Separate) (hhonest : P.Honest)
    (hcached : P.builder.cached = true) (ht : P.targets t) (hstart : P.Settled t w₀)
    (h : P.Interleaves t (P.builder.quietly t) w₀ w) : P.Settled t w := by
  induction h with
  | start => exact hstart
  | rewrite _ hrewrite ih => exact stable_settled hsep ht _ _ ih hrewrite
  | @build w w' result _ hbuild ih =>
    have hend := quietly_secures hsep hhonest hcached ht w result w' ih hbuild
    cases result <;> exact hend

/-- If nobody comes between the start of the tools and the digest, then a source is held to be
unchanged only if its artifact is there and is compiled from what the source contains. -/
theorem artifact_fresh_of_shouldSkip (hsep : P.Separate) (hhonest : P.Honest)
    (hcached : P.builder.cached = true) (hstart : P.Starts w₀) (ht : P.targets t)
    (hsource : w₀.disk.isFile t.source = true)
    (h : P.Interleaves t (P.builder.quietly t) w₀ w)
    (hskip : (Cache.shouldSkip t.source).run w = (true, w')) :
    ∃ content, w.disk.read t.source = .ok content ∧ w'.disk.read t.source = .ok content ∧
      w'.disk.read (P.builder.artifact t)
        = .ok (P.compile (P.builder.artifact t) content) := by
  have hsettled := h.settled hsep hhonest hcached ht (hstart.settled ht hsource)
  obtain ⟨hsound, content, hfile⟩ := hsettled
  obtain ⟨upToDate, w'', hrun, hduring, hfresh⟩ := shouldSkip_during hsep hcached hsound ht hfile
  obtain ⟨rfl, rfl⟩ := Prod.mk.inj (hrun.symm.trans hskip)
  exact ⟨content, hfile.read, hduring.source.read, (hfresh rfl).read⟩

end

/-! ## A source that is rewritten -/

/-- The target of the first source. -/
def first : Target := cSource "a/m.c"

/-- It is one of two sources that have artifacts of their own. -/
def twoSources : Project := ofSources ["a/m.c", "b/n.c"]

theorem targets_first : twoSources.targets first := List.mem_cons_self

theorem separate_twoSources : twoSources.Separate := separate_ofSources

theorem compiles_twoSources : twoSources.Compiles (0x7f :: ·) := compiles_ofSources (by decide)

theorem honest_twoSources : twoSources.Honest := honest_of_compiles compiles_twoSources

theorem starts_twoSources : twoSources.Starts unbuilt := starts_unbuilt (by decide)

/-- The workspace after the source has been rewritten. -/
def rewritten (w : Workspace) : Workspace :=
  { w with disk := edited w.disk first.source two }

section

variable {w : Workspace}

theorem rewrites_rewritten (hlinks : w.disk.NoLinks twoSources.Watched)
    (hwrite : (w.disk.write first.source two).toOption.isSome = true) :
    twoSources.Rewrites first w (rewritten w) := by
  have hedit := compiles_twoSources.edit_write targets_first hlinks (.inr rfl) (write_edited hwrite)
  exact .write (.inr rfl) (write_edited hwrite) hedit.artifacts

theorem interleaves_built (h : twoSources.Interleaves first (marking.quietly first) unbuilt w) :
    twoSources.Interleaves first (marking.quietly first) unbuilt (built w first.source) :=
  h.build (among_of_run (Builder.quietly_run rfl w))

end

/-- The source is rewritten and then built. -/
theorem exists_rewritten : unbuilt.disk.isFile first.source = true ∧
    ∃ w, twoSources.Interleaves first (marking.quietly first) unbuilt w ∧
      ((Cache.shouldSkip first.source).run w).1 = true := by
  have hfacts : unbuilt.disk.isFile first.source = true ∧
      (unbuilt.disk.write first.source two).toOption.isSome = true ∧
      ((Cache.shouldSkip first.source).run (built (rewritten unbuilt) first.source)).1 = true := by
    decide +kernel
  obtain ⟨hsource, hwrite, hskip⟩ := hfacts
  have hrewrite := rewrites_rewritten starts_twoSources.noLinks hwrite
  exact ⟨hsource, _, interleaves_built (.rewrite .start hrewrite), hskip⟩

/-- A source that is built after it has been rewritten is held to be unchanged, and rightly so. -/
theorem artifact_fresh_of_rewritten : ∃ w w',
    twoSources.Interleaves first (marking.quietly first) unbuilt w ∧
    (Cache.shouldSkip first.source).run w = (true, w') ∧
    ∃ content, w.disk.read first.source = .ok content ∧
      w'.disk.read first.source = .ok content ∧
      w'.disk.read (marking.artifact first) = .ok (0x7f :: content) := by
  obtain ⟨hsource, w, hhistory, hskip⟩ := exists_rewritten
  have hrun : (Cache.shouldSkip first.source).run w
      = (true, ((Cache.shouldSkip first.source).run w).2) := Prod.ext hskip rfl
  exact ⟨w, _, hhistory, hrun, artifact_fresh_of_shouldSkip separate_twoSources honest_twoSources rfl
    starts_twoSources targets_first hsource hhistory hrun⟩

/-! ## A rewrite between the tools and the digest -/

/-- The workspace behind the tools, if the source has to be built. -/
def behindTools (w : Workspace) : Workspace :=
  ((marking.produce first).run.run ((marking.prepare first false).run.run
    ((marking.unchanged first.source).run w).2).2).2

/-- The workspace after the digest of the source has been taken and kept. -/
def behindRecord (w : Workspace) : Workspace :=
  ((Cache.keep first.source (w.disk.digest first.source)).run w).2

/-- The source has to be built, and nothing goes wrong up to the end of the tools. -/
structure Proceeds (w : Workspace) : Prop where
  asked : ((marking.unchanged first.source).run w).1 = false
  prepared : ((marking.prepare first false).run.run
    ((marking.unchanged first.source).run w).2).1.toOption = some none
  produced : ((marking.produce first).run.run ((marking.prepare first false).run.run
    ((marking.unchanged first.source).run w).2).2).1.toOption = some ()

section

variable {w w' : Workspace}

theorem Proceeds.noLinks (h : Proceeds w) (hsettled : twoSources.Settled first w) :
    (behindTools w).disk.NoLinks twoSources.Watched := by
  have hasked := shouldSkip_secures separate_twoSources targets_first w _ _ hsettled
    (among_run (Cache.shouldSkip first.source) w)
  have hprepared := prepare_secures separate_twoSources targets_first _ _ _ hasked
    (among_of_run (eq_of_toOption h.prepared))
  obtain ⟨content, hduring⟩ := hprepared
  have hproduced := (produce_leaves separate_twoSources honest_twoSources targets_first).of_run
    hduring (eq_of_toOption h.produced)
  exact hproduced.1.sound.noLinks

theorem Proceeds.interleaves (h : Proceeds w)
    (hbefore : twoSources.Interleaves first (marking.update first) unbuilt w)
    (hrewrite : twoSources.Rewrites first (behindTools w) w') :
    twoSources.Interleaves first (marking.update first) unbuilt (behindRecord w') :=
  hbefore.build (Builder.among_update_of_between rfl (Prod.ext h.asked rfl)
    (eq_of_toOption h.prepared) (eq_of_toOption h.produced) hrewrite rfl)

end

/-- The workspace after a build between whose tools and digest the source has been rewritten. -/
def outdated : Workspace := behindRecord (rewritten (behindTools unbuilt))

/-- Such a build belongs to a history, and behind it the source is held to be unchanged. -/
theorem exists_outdated : ∃ w, twoSources.Interleaves first (marking.update first) unbuilt w ∧
    ((Cache.shouldSkip first.source).run w).1 = true ∧
    (w.disk.read first.source).toOption = some two ∧
    (((Cache.shouldSkip first.source).run w).2.disk.read first.source).toOption = some two ∧
    (((Cache.shouldSkip first.source).run w).2.disk.read (marking.artifact first)).toOption
      = some (0x7f :: one) := by
  -- What comes of these runs is computed; that they make up a history is proved.
  have hfacts : (((marking.unchanged first.source).run unbuilt).1 = false ∧
      ((marking.prepare first false).run.run
        ((marking.unchanged first.source).run unbuilt).2).1.toOption = some none ∧
      ((marking.produce first).run.run ((marking.prepare first false).run.run
        ((marking.unchanged first.source).run unbuilt).2).2).1.toOption = some ()) ∧
      unbuilt.disk.isFile first.source = true ∧
      ((behindTools unbuilt).disk.write first.source two).toOption.isSome = true ∧
      ((Cache.shouldSkip first.source).run outdated).1 = true ∧
      (outdated.disk.read first.source).toOption = some two ∧
      (((Cache.shouldSkip first.source).run outdated).2.disk.read first.source).toOption = some two ∧
      (((Cache.shouldSkip first.source).run outdated).2.disk.read
        (marking.artifact first)).toOption = some (0x7f :: one) := by
    decide +kernel
  obtain ⟨⟨hasked, hprepared, hproduced⟩, hsource, hwrite, hend⟩ := hfacts
  have hproceeds : Proceeds unbuilt := ⟨hasked, hprepared, hproduced⟩
  have hsettled := starts_twoSources.settled targets_first hsource
  have hrewrites := rewrites_rewritten (hproceeds.noLinks hsettled) hwrite
  exact ⟨outdated, hproceeds.interleaves .start hrewrites, hend⟩

/-- The source is rewritten between the tools and the digest. It is held to be unchanged then, but its
artifact is compiled from what it contained before. -/
theorem artifact_outdated : twoSources.Separate ∧ twoSources.Honest ∧ twoSources.Starts unbuilt ∧
    ∃ w w', twoSources.Interleaves first (marking.update first) unbuilt w ∧
      (Cache.shouldSkip first.source).run w = (true, w') ∧
      w.disk.read first.source = .ok two ∧ w'.disk.read first.source = .ok two ∧
      w'.disk.read (marking.artifact first) = .ok (0x7f :: one) := by
  refine ⟨separate_twoSources, honest_twoSources, starts_twoSources, ?_⟩
  obtain ⟨w, hhistory, hskip, hsource, hsource', hartifact⟩ := exists_outdated
  exact ⟨w, _, hhistory, Prod.ext hskip rfl, eq_ok_of_toOption hsource,
    eq_ok_of_toOption hsource', eq_ok_of_toOption hartifact⟩

end Project

end ForeignModule
