import ForeignModule.Proofs.Build.Project

/-!
# Asking and recording during builds

What the cache does in a build keeps the invariant. It says that a source has not changed only if the artifact
is compiled from its content (`shouldSkip_during`), and once the source is recorded nothing is stale
(`record_during`). Recording never fails when there is something to replace, as the file of the cache can be
written again then.
-/

namespace ForeignModule

open Routine Disk

/-! ## Keys -/

namespace Disk

variable {d : Disk} {p : Path} {parent : Location} {name : RawText} {content : List UInt8}

/-- A file that is no link is kept under the path of its place. -/
theorem key_of_file (hplace : d.NamesPlace p parent name)
    (hnode : d.nodes[parent.child name]? = some (.file content)) :
    d.key p = (parent.child name).shown := by
  have hfind := hplace.find_of_file hnode
  rw [find, hplace.fit] at hfind
  have hpath : (parent.child name).path = parent.child name := by
    simp [Location.path, Location.child]
  have hplace' : d.canonicalize p = .ok (parent.child name) := by
    simp only [canonicalize, hfind, hpath]
  rw [key_of_canonicalize hplace']

theorem HasFile.exists (h : d.HasFile p content) : d.exists? p = true := by
  obtain ⟨parent, name, hplace, hnode⟩ := h
  rw [exists?, stat?, hplace.find_of_file hnode]
  rfl

end Disk

namespace Project

section

variable {P : Project} {stale : Path → Prop} {w : Workspace} {t : Target} {content : List UInt8}

theorem Laid.key_eq (h : P.Laid w) (ht : P.targets t) (hfile : w.disk.HasFile t.source content) :
    w.disk.key t.source = P.key t := by
  obtain ⟨parent, name, hplace, heq⟩ := h.sources t ht
  obtain ⟨parent', name', hplace', hnode⟩ := hfile
  obtain ⟨rfl, rfl⟩ := hplace.unique hplace'
  rw [key_of_file hplace hnode, heq]
  rfl

/-! ## Reading the cache -/

/-- Replacing the file of the cache fails only where something is in the way. -/
theorem persist_run (hsep : P.Separate) (h : P.Laid w) (m : Entries) :
    ∃ result e, (Workspace.onDisk (Entries.persist m w.cache.path w.cache.number).run).run w
        = (result, { w with disk := e }) ∧ P.KeepsBut (fun _ => False) w.disk e ∧
      match result with
      | .ok _ => Ready P.cache P.number e
      | .error _ => ¬Ready P.cache P.number w.disk := by
  obtain ⟨front, name, hends⟩ := hsep.cache_named
  have hstart : KeepsOthers P.cache P.number P.Watched w.disk w.disk :=
    ⟨h.noLinks, fun p _ => .refl w.disk p⟩
  have hkeeps := persist_keeps hends (Watched.cache hends) (Watched.temporary hends) m {} w.disk hstart
  have hleaves : Leaves (Ready P.cache P.number) (Entries.persist m P.cache P.number) (fun _ _ => True)
    fun _ => False := persist_ready m
  have hsucceeds := hleaves w.disk
  rw [h.path_eq, h.number_eq, Cache.run_onDisk]
  refine ⟨_, _, rfl, ?_⟩
  generalize (Entries.persist m P.cache P.number).run.run w.disk = outcome at hkeeps hsucceeds ⊢
  obtain ⟨result, e⟩ := outcome
  have hall : KeepsOthers P.cache P.number P.Watched w.disk e →
      (Ready P.cache P.number w.disk → Ready P.cache P.number e) →
      P.KeepsBut (fun _ => False) w.disk e := fun hothers hready =>
    ⟨hothers.noLinks, fun t ht => hothers.keeps _ (hsep.source_apart t ht),
      fun t ht _ => hothers.keeps _ (hsep.artifact_apart t ht), hready⟩
  cases result with
  | ok _ => exact ⟨hall hkeeps.1 fun _ => hkeeps.2, hkeeps.2⟩
  | error error => exact ⟨hall hkeeps fun hready => (hsucceeds hready).elim, hsucceeds⟩

theorem Laid.sound_of_empty (h : P.Laid w) (hmemory : w.cache.entries? = some ∅) : P.Sound stale w := by
  refine ⟨h, fun _ entries hentries t ht digest hdigest => ?_⟩
  rcases hentries with hsome | ⟨hnone, -⟩
  · rw [hmemory] at hsome
    obtain rfl := Option.some.inj hsome
    rw [Std.ExtTreeMap.getElem?_empty] at hdigest
    cases hdigest
  · rw [hmemory] at hnone
    cases hnone

theorem loaded_of_memory {m : Entries} (h : w.cache.entries? = some m) (loading : Trouble) :
    (Cache.loaded loading).run w = (m, w) := by
  unfold Cache.loaded
  rw [run_bind, run_ask, h]
  rfl

/-- Once the cache has been read, its entries are in memory. -/
theorem loaded_during (hsep : P.Separate) (h : P.Sound stale w) (ht : P.targets t)
    (hfile : w.disk.HasFile t.source content) :
    ∃ entries w', (Cache.loaded {}).run w = (entries, w') ∧ w'.cache.entries? = some entries ∧
      P.During t content stale w' := by
  cases hmemory : w.cache.entries? with
  | some m =>
    refine ⟨m, w, loaded_of_memory hmemory {}, hmemory, h, hfile, fun _ => ?_⟩
    rw [hmemory]
    rfl
  | none =>
    unfold Cache.loaded
    rw [run_bind, run_ask, hmemory]
    simp only [run_bind, run_ask]
    cases hload : Entries.load w.cache.path w.disk with
    | error error =>
      refine ⟨∅, _, rfl, rfl, ?_, hfile, fun _ => rfl⟩
      have hlaid : P.Laid { w with cache := { w.cache with entries? := some ∅ } } :=
        ⟨h.path_eq, h.number_eq, h.noLinks, h.sources, h.contents⟩
      exact hlaid.sound_of_empty rfl
    | ok m? =>
      cases m? with
      | some m =>
        refine ⟨m, _, rfl, rfl, ⟨⟨h.path_eq, h.number_eq, h.noLinks, h.sources, h.contents⟩, ?_⟩, hfile,
          fun _ => rfl⟩
        intro hcached entries hentries
        rcases hentries with hsome | ⟨hnone, -⟩
        · obtain rfl := Option.some.inj hsome
          exact h.recorded hcached m (.inr ⟨hmemory, hload⟩)
        · cases hnone
      | none =>
        obtain ⟨result, e, hrun, hkeeps, -⟩ := persist_run hsep h.toLaid ∅
        simp only [run_bind, hrun]
        refine ⟨∅, _, rfl, rfl, ?_, (hkeeps.sources t ht).hasFile hfile, fun _ => rfl⟩
        have hlaid : P.Laid { w with disk := e, cache := { w.cache with entries? := some ∅ } } :=
          h.toLaid.keepsBut rfl rfl hkeeps.noLinks hkeeps.sources
        exact hlaid.sound_of_empty rfl

/-- A source is held to be unchanged only if the artifact is compiled from what it contains. -/
theorem shouldSkip_during (hsep : P.Separate) (hcached : P.builder.cached = true)
    (h : P.Sound (fun _ => False) w) (ht : P.targets t) (hfile : w.disk.HasFile t.source content) :
    ∃ upToDate w', (Cache.shouldSkip t.source).run w = (upToDate, w') ∧
      P.During t content (fun _ => False) w' ∧ (upToDate = true → P.Fresh t content w') := by
  obtain ⟨digest, hdigest⟩ := Digest.exists_ofContent content
  obtain ⟨entries, w', hrun, hmemory, hduring⟩ := loaded_during hsep h ht hfile
  refine ⟨entries[P.key t]? == some digest, w', ?_, hduring, fun hheld => ?_⟩
  · unfold Cache.shouldSkip Cache.holds
    rw [run_bind, run_ask, digest_of_read hfile.read, hdigest]
    simp only [run_bind, run_ask, run_atomically, h.key_eq ht hfile, hrun, run_pure]
  · obtain ⟨-, hfresh⟩ := hduring.sound.recorded hcached entries (.inl hmemory) t ht digest
      (eq_of_beq hheld)
    obtain ⟨content', hcontent', hdigest', hartifact⟩ := hfresh not_false
    -- The digest is that of one content only.
    obtain rfl := hsep.digests content content' (hduring.sound.contents t ht content hduring.source)
      hcontent' (hdigest'.trans hdigest.symm)
    exact hartifact

/-! ## Recording -/

/-- Once the digest is kept from whose content the artifact of the source is compiled, that is not stale any
more. If this fails, then nothing has been recorded for any source. -/
theorem insert_during {digest : String} (hsep : P.Separate) (ht : P.targets t)
    (h : P.Sound (· = P.builder.artifact t) w) (hloaded : w.cache.entries?.isSome = true)
    (hcontent : P.contents content) (hdigest : Digest.ofContent content = .ok digest)
    (hfresh : P.Fresh t content w) :
    ∃ result w', (Cache.insert (P.key t) digest {} {}).run w = (result, w') ∧
      P.Sound (fun _ => False) w' ∧ P.KeepsBut (fun _ => False) w.disk w'.disk := by
  obtain ⟨entries, hmemory⟩ := Option.isSome_iff_exists.1 hloaded
  obtain ⟨result, e, hpersist, hkeeps, hready⟩ :=
    persist_run hsep h.toLaid (entries.insert (P.key t) digest)
  have hartifact : ∀ t', P.targets t' → w.disk.Keeps e (P.builder.artifact t') := fun t' ht' =>
    hkeeps.artifacts t' ht' not_false
  have hrun : (Cache.insert (P.key t) digest {} {}).run w
      = (Cache.commit (entries.insert (P.key t) digest) {}).run w := by
    unfold Cache.insert
    simp only [run_bind, loaded_of_memory hmemory]
  rw [hrun, Cache.commit]
  simp only [run_bind, run_ask, hpersist]
  cases result with
  | ok _ =>
    refine ⟨_, _, rfl, ⟨h.toLaid.keepsBut rfl rfl hkeeps.noLinks hkeeps.sources, ?_⟩, hkeeps⟩
    intro hcached entries' hentries' t' ht' digest' hdigest'
    refine ⟨hready, fun _ => ?_⟩
    rcases hentries' with hsome | ⟨hnone, -⟩
    case inr => cases hnone
    obtain rfl := Option.some.inj hsome
    by_cases hsame : P.key t' = P.key t
    · have hpath := (hsep.one t t' ht ht').2 hsame
      rw [hsame, Std.ExtTreeMap.getElem?_insert_self] at hdigest'
      obtain rfl := Option.some.inj hdigest'
      rw [hpath]
      exact ⟨content, hcontent, hdigest, (hartifact t ht).hasFile hfresh⟩
    · have hother : ¬compare (P.key t) (P.key t') = .eq := by simpa using Ne.symm hsame
      rw [Std.ExtTreeMap.getElem?_insert, if_neg hother] at hdigest'
      obtain ⟨-, hfresh'⟩ := h.recorded hcached entries (.inl hmemory) t' ht' digest' hdigest'
      obtain ⟨content', hcontent', hof, hfile⟩ := hfresh' fun hpath =>
        hsame ((hsep.one t t' ht ht').1 hpath)
      exact ⟨content', hcontent', hof, (hartifact t' ht').hasFile hfile⟩
  | error error =>
    refine ⟨_, _, rfl, ⟨h.toLaid.keepsBut rfl rfl hkeeps.noLinks hkeeps.sources, ?_⟩, hkeeps⟩
    intro hcached entries' hentries' t' ht' digest' hdigest'
    rcases hentries' with hsome | ⟨hnone, -⟩
    · have hbefore := h.recorded hcached entries' (.inl hsome) t' ht' digest' hdigest'
      exact absurd hbefore.1 hready
    · exact absurd (hmemory.symm.trans hnone) nofun

/-- Once the source is recorded, its artifact is not stale any more. -/
theorem record_during (hsep : P.Separate) (hcached : P.builder.cached = true) (ht : P.targets t)
    (h : P.During t content (· = P.builder.artifact t) w) (hfresh : P.Fresh t content w) :
    ∃ result w', (Cache.record t.source).run w = (result, w') ∧ P.Sound (fun _ => False) w' ∧
      w'.disk.HasFile t.source content ∧ P.Fresh t content w' := by
  obtain ⟨digest, hdigest⟩ := Digest.exists_ofContent content
  obtain ⟨result, w', hrun, hsound, hkeeps⟩ := insert_during hsep ht h.sound (h.loaded hcached)
    (h.sound.contents t ht content h.source) hdigest hfresh
  refine ⟨result, w', ?_, hsound, (hkeeps.sources t ht).hasFile h.source,
    (hkeeps.artifacts t ht not_false).hasFile hfresh⟩
  unfold Cache.record
  rw [run_bind, run_ask, digest_of_read h.source.read, hdigest]
  simp only [run_bind, run_ask, run_atomically, h.sound.key_eq ht h.source, hrun]

end

end Project

end ForeignModule
