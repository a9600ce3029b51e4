import ForeignModule.Build.Builder
import ForeignModule.Proofs.Cache.Consistency
import ForeignModule.Proofs.Cache.Keeping
import ForeignModule.Proofs.Digest.Content

/-!
# Sources that are edited and built

A `Project` is what is built by one builder with one cache: any number of targets, each a source and how it
is built. `Reaches` are the histories of edits and builds, one at a time. `Sound` is the invariant of them:
what is recorded for a source is the digest of a content, and the artifact holds what is compiled from it.

* `Separate` is what this needs of the paths, `Honest` what it needs of the tools;
* `KeepsBut` is what all parts of a build do to the disk, and `Sound.keepsBut` carries the invariant over it.
-/

namespace ForeignModule

open Routine Disk

namespace Invocation

/-- The path stands behind the flag for what is written. -/
def Writes (i : Invocation) (out : Path) : Prop := [("-o" : RawText), out] <:+: i.arguments

instance (i : Invocation) (out : Path) : Decidable (i.Writes out) :=
  inferInstanceAs (Decidable ([("-o" : RawText), out] <:+: i.arguments))

end Invocation

/-- A source, and how it is built. -/
structure Target where
  source : Path
  settings : ModuleSettings
  signatures : List Signature

namespace Builder

/-- The plan for a target. -/
def planOf (b : Builder) (t : Target) : Plan :=
  Plan.of b.directory t.source t.settings t.signatures

/-- What is built for a target. -/
def artifact (b : Builder) (t : Target) : Path := (b.planOf t).outputs.artifact

/-- Is a source as it was when it was last built? That is asked of the cache, if it is used. -/
def unchanged (b : Builder) (source : Path) : Routine Workspace Bool :=
  if b.cached then Cache.shouldSkip source else pure false

/-- Asks the cache, and builds with its answer. -/
def update (b : Builder) (t : Target) : Routine Workspace (Except BuildError Path) := do
  let upToDate ← b.unchanged t.source
  (b.build { source := t.source, settings := t.settings, signatures := t.signatures, upToDate }).run

end Builder

/-- What is built by one builder with one cache. -/
structure Project where
  builder : Builder
  targets : Target → Prop
  /-- Where the source of a target lies. -/
  place : Target → Location
  /-- What sources may contain. -/
  contents : List UInt8 → Prop
  /-- What the tools write to a path for a source with this content. -/
  compile : Path → List UInt8 → List UInt8
  /-- The file of the cache. -/
  cache : Path
  /-- The number of the running program. -/
  number : Nat

namespace Project

/-- The key of a source that is there. -/
def key (P : Project) (t : Target) : String := RawText.shown (P.place t)

/-- The last names of the sources, of the artifacts and of the files of the cache. -/
def Watched (P : Project) (name : RawText) : Prop :=
  ∃ front, P.cache.EndsIn front name ∨ (Entries.temporaryPath P.cache P.number).EndsIn front name ∨
    ∃ t, P.targets t ∧ (t.source.EndsIn front name ∨ (P.builder.artifact t).EndsIn front name)

/-- Two targets have one artifact exactly if their sources have one key, only the last step of a build writes an
artifact, and that of its own target. The cache has names of its own, and digests tell the contents apart. -/
structure Separate (P : Project) : Prop where
  cache_named : ∃ front name, P.cache.EndsIn front name
  one : ∀ t t', P.targets t → P.targets t' →
    (P.builder.artifact t' = P.builder.artifact t ↔ P.key t' = P.key t)
  before : ∀ t t', P.targets t → P.targets t' → ∀ i ∈ (P.builder.planOf t).steps.dropLast,
    ¬i.Writes (P.builder.artifact t')
  last : ∀ t t', P.targets t → P.targets t' → ∀ i ∈ (P.builder.planOf t).steps.getLast?,
    i.Writes (P.builder.artifact t') → P.builder.artifact t' = P.builder.artifact t
  source_apart : ∀ t, P.targets t → Apart P.cache P.number t.source
  primary_apart : ∀ t, P.targets t → Apart P.cache P.number (P.builder.planOf t).outputs.primary
  artifact_apart : ∀ t, P.targets t → Apart P.cache P.number (P.builder.artifact t)
  digests : ∀ content content', P.contents content → P.contents content' →
    Digest.ofContent content' = Digest.ofContent content → content' = content

/-- What a part of a build does to the disk: sources stay, and so do artifacts but for some paths. Nothing
gets in the way of the cache, and no link comes to bear a watched name. -/
structure KeepsBut (P : Project) (written : Path → Prop) (d e : Disk) : Prop where
  noLinks : e.NoLinks P.Watched
  sources : ∀ t, P.targets t → d.Keeps e t.source
  artifacts : ∀ t, P.targets t → ¬written (P.builder.artifact t) → d.Keeps e (P.builder.artifact t)
  ready : Ready P.cache P.number d → Ready P.cache P.number e

/-- A tool that succeeds writes what is compiled from the source to the artifact that it is told, and to no
other one. One that fails writes no artifact. -/
def Honest (P : Project) : Prop :=
  ∀ t, P.targets t → ∀ i ∈ (P.builder.planOf t).steps, ∀ ran d content, d.NoLinks P.Watched →
    d.HasFile t.source content →
    match (P.builder.toolchain ran i).run d with
    | (.ok _, e) =>
      P.KeepsBut i.Writes d e ∧ ∀ t', P.targets t' → i.Writes (P.builder.artifact t') →
        e.HasFile (P.builder.artifact t') (P.compile (P.builder.artifact t') content)
    | (.error _, e) => P.KeepsBut (fun _ => False) d e

/-- An edit of a source: it is written or removed, and no artifact changes. -/
structure Edit (P : Project) (t : Target) (d e : Disk) : Prop where
  changed : (∃ content, P.contents content ∧ d.write t.source content = .ok e) ∨
    d.removeFile t.source = .ok e
  artifacts : ∀ t', P.targets t' → d.Keeps e (P.builder.artifact t')

/-- The histories of edits and builds. -/
inductive Reaches (P : Project) (w₀ : Workspace) : Workspace → Prop where
  | start : Reaches P w₀ w₀
  | edit {w : Workspace} {t : Target} {e : Disk} (h : Reaches P w₀ w) (ht : P.targets t)
    (hedit : P.Edit t w.disk e) : Reaches P w₀ { w with disk := e }
  | build {w : Workspace} {t : Target} (h : Reaches P w₀ w) (ht : P.targets t) :
    Reaches P w₀ ((P.builder.update t).run w).2

end Project

/-! ## The invariant -/

/-- The cache has these entries in memory, or has read nothing yet and will find them in its file. -/
def Workspace.Records (w : Workspace) (entries : Entries) : Prop :=
  w.cache.entries? = some entries ∨
    w.cache.entries? = none ∧ Entries.load w.cache.path w.disk = .ok (some entries)

namespace Project

/-- Everything is where it should be. -/
structure Laid (P : Project) (w : Workspace) : Prop where
  path_eq : w.cache.path = P.cache
  number_eq : w.cache.number = P.number
  noLinks : w.disk.NoLinks P.Watched
  sources : ∀ t, P.targets t → ∃ parent name, w.disk.NamesPlace t.source parent name ∧
    parent.child name = P.place t
  contents : ∀ t, P.targets t → ∀ content, w.disk.HasFile t.source content → P.contents content

/-- At the start nothing is recorded for the sources. -/
structure Starts (P : Project) (w : Workspace) : Prop extends P.Laid w where
  unrecorded : ∀ entries, w.Records entries → ∀ t, P.targets t → entries[P.key t]? = none

/-- What is recorded for a source is the digest of a content, and its artifact is compiled from that, unless
its path is one of some stale ones. The record can be replaced. -/
structure Sound (P : Project) (stale : Path → Prop) (w : Workspace) : Prop extends P.Laid w where
  recorded : P.builder.cached = true → ∀ entries, w.Records entries → ∀ t, P.targets t →
    ∀ digest, entries[P.key t]? = some digest →
      Ready P.cache P.number w.disk ∧ (¬stale (P.builder.artifact t) →
        ∃ content, P.contents content ∧ Digest.ofContent content = .ok digest ∧
          w.disk.HasFile (P.builder.artifact t) (P.compile (P.builder.artifact t) content))

section

variable {P : Project} {written stale : Path → Prop} {w w' : Workspace} {t : Target} {d e : Disk}
  {content : List UInt8}

theorem Starts.sound (h : P.Starts w) : P.Sound stale w := by
  refine ⟨h.toLaid, fun _ entries hentries t ht digest hdigest => ?_⟩
  rw [h.unrecorded entries hentries t ht] at hdigest
  cases hdigest

theorem Laid.keepsBut (h : P.Laid w) (hcache : w'.cache.path = w.cache.path)
    (hnumber : w'.cache.number = w.cache.number) (hlinks : w'.disk.NoLinks P.Watched)
    (hsources : ∀ t, P.targets t → w.disk.Keeps w'.disk t.source) : P.Laid w' where
  path_eq := hcache.trans h.path_eq
  number_eq := hnumber.trans h.number_eq
  noLinks := hlinks
  sources t ht := by
    obtain ⟨parent, name, hplace, heq⟩ := h.sources t ht
    exact ⟨parent, name, (hsources t ht parent name hplace).1, heq⟩
  contents t ht content hfile := by
    obtain ⟨parent, name, hplace, -⟩ := h.sources t ht
    exact h.contents t ht content ((hsources t ht).hasFile_back hplace hfile)

/-- The invariant is kept, as nothing is recorded meanwhile. -/
theorem Sound.keepsBut (h : P.Sound stale w) (hcache : w'.cache = w.cache)
    (hloaded : P.builder.cached = true → w.cache.entries?.isSome = true)
    (hkeeps : P.KeepsBut written w.disk w'.disk) (hstale : ∀ p, written p → stale p) :
    P.Sound stale w' := by
  refine ⟨h.toLaid.keepsBut (by rw [hcache]) (by rw [hcache]) hkeeps.noLinks hkeeps.sources,
    fun hcached entries hentries t ht digest hdigest => ?_⟩
  have hmemory : w.Records entries := by
    rcases hentries with hsome | ⟨hnone, -⟩
    · exact .inl (hcache ▸ hsome)
    · have := hloaded hcached
      rw [← hcache, hnone] at this
      cases this
  obtain ⟨hready, hfresh⟩ := h.recorded hcached entries hmemory t ht digest hdigest
  refine ⟨hkeeps.ready hready, fun hnot => ?_⟩
  obtain ⟨content, hcontent, hdigest, hfile⟩ := hfresh hnot
  exact ⟨content, hcontent, hdigest,
    (hkeeps.artifacts t ht fun hwritten => hnot (hstale _ hwritten)).hasFile hfile⟩

/-! ## During a build -/

/-- The source has this content, and the entries of the cache are in memory if the cache is used. -/
structure During (P : Project) (t : Target) (content : List UInt8) (stale : Path → Prop) (w : Workspace) :
    Prop where
  sound : P.Sound stale w
  source : w.disk.HasFile t.source content
  loaded : P.builder.cached = true → w.cache.entries?.isSome = true

/-- The artifact of the target is compiled from this content. -/
def Fresh (P : Project) (t : Target) (content : List UInt8) (w : Workspace) : Prop :=
  w.disk.HasFile (P.builder.artifact t) (P.compile (P.builder.artifact t) content)

theorem During.keepsBut (h : P.During t content stale w) (ht : P.targets t)
    (hcache : w'.cache = w.cache) (hkeeps : P.KeepsBut written w.disk w'.disk)
    (hstale : ∀ p, written p → stale p) : P.During t content stale w' where
  sound := h.sound.keepsBut hcache h.loaded hkeeps hstale
  source := (hkeeps.sources t ht).hasFile h.source
  loaded hcached := hcache ▸ h.loaded hcached

/-! ## Edits -/

theorem Watched.cache {front : List RawText} {name : RawText} (h : P.cache.EndsIn front name) :
    P.Watched name := ⟨front, .inl h⟩

theorem Watched.temporary {front : List RawText} {name : RawText} (h : P.cache.EndsIn front name) :
    P.Watched (Entries.temporaryName name P.number) :=
  ⟨_, .inr (.inl (Entries.endsIn_temporaryPath P.number h))⟩

theorem Watched.source {front : List RawText} {name : RawText} (ht : P.targets t)
    (h : t.source.EndsIn front name) : P.Watched name := ⟨front, .inr (.inr ⟨t, ht, .inl h⟩)⟩

/-- What is read from a source lies at the place of its path. -/
theorem Laid.hasFile_of_read (h : P.Laid w) (ht : P.targets t)
    (hread : w.disk.read t.source = .ok content) : w.disk.HasFile t.source content := by
  obtain ⟨parent, name, hplace, -⟩ := h.sources t ht
  obtain ⟨front, hends, -⟩ := hplace.front
  exact h.noLinks.hasFile_of_read hends (Watched.source ht hends) hread

/-- An edit changes what lies at one place, where a file may come or go. -/
structure Changes (P : Project) (parent : Location) (name : RawText) (d e : Disk) : Prop where
  agreeOff : AgreeOff (parent.child name) d e
  before : d.Inert (parent.child name)
  after : e.Inert (parent.child name)
  noLinks : e.NoLinks P.Watched
  content : ∀ content, e.nodes[parent.child name]? = some (.file content) → P.contents content

theorem Edit.changes (hedit : P.Edit t d e) (ht : P.targets t) (hlinks : d.NoLinks P.Watched)
    {parent : Location} {name : RawText} (hplace : d.NamesPlace t.source parent name) :
    P.Changes parent name d e := by
  obtain ⟨front, hends, -⟩ := hplace.front
  have hne : ∀ parent target, d.NamesPlace t.source parent name →
      d.nodes[parent.child name]? ≠ some (.link target) := fun parent target h =>
    hlinks.ne_link h (Watched.source ht hends) target
  rcases hedit.changed with ⟨content, hcontent, hwrite⟩ | hremove
  · obtain ⟨parent', hplace', hinert, rfl⟩ := exists_of_write hends hwrite hne
    obtain ⟨rfl, -⟩ := hplace.unique hplace'
    have hnode : (d.put (parent'.child name) (.file content)).nodes[parent'.child name]?
        = some (.file content) := by simp [nodes_put]
    refine ⟨agreeOff_put d _ _, hinert, .inr ⟨content, hnode⟩, hlinks.put (fun _ h => nomatch h), ?_⟩
    intro content' h
    rw [hnode] at h
    cases h
    exact hcontent
  · obtain ⟨parent', node, hplace', hnode, hdir, rfl⟩ := exists_of_removeFile hends hremove
    obtain ⟨rfl, -⟩ := hplace.unique hplace'
    have hgone : (d.drop (parent'.child name)).nodes[parent'.child name]? = none := by
      simp [nodes_drop]
    have hinert : d.Inert (parent'.child name) := by
      cases node with
      | directory => exact absurd rfl hdir
      | file content => exact .inr ⟨content, hnode⟩
      | link target => exact absurd hnode (hne _ target hplace)
    refine ⟨agreeOff_drop d _, hinert, .inl hgone, hlinks.drop _, ?_⟩
    intro content' h
    rw [hgone] at h
    cases h

theorem Laid.changes (h : P.Laid w) {parent : Location} {name : RawText}
    (hchange : P.Changes parent name w.disk e) : P.Laid { w with disk := e } where
  path_eq := h.path_eq
  number_eq := h.number_eq
  noLinks := hchange.noLinks
  sources t ht := by
    obtain ⟨parent', name', hplace, heq⟩ := h.sources t ht
    exact ⟨parent', name', hplace.frame hchange.agreeOff hchange.before, heq⟩
  contents t ht content hfile := by
    obtain ⟨parent', name', hplace, hnode⟩ := hfile
    by_cases hsame : parent'.child name' = parent.child name
    · exact hchange.content content (hsame ▸ hnode)
    · refine h.contents t ht content ⟨parent', name', ?_, ?_⟩
      · exact hplace.frame hchange.agreeOff.symm hchange.after
      · rw [← hnode]
        exact (hchange.agreeOff.nodes _ hsame).symm

/-- What the file of the cache records after an edit it recorded before. -/
theorem records_of_changes (hsep : P.Separate) (ht : P.targets t) (h : P.Laid w) {parent : Location}
    {name : RawText} (hplace : w.disk.NamesPlace t.source parent name)
    (hchange : P.Changes parent name w.disk e) {entries : Entries}
    (hentries : Workspace.Records { w with disk := e } entries) : w.Records entries := by
  rcases hentries with hsome | ⟨hnone, hload⟩
  · exact .inl hsome
  refine .inr ⟨hnone, ?_⟩
  obtain ⟨front, name', hends⟩ := hsep.cache_named
  obtain ⟨front', hends', -⟩ := hplace.front
  rw [h.path_eq] at hload ⊢
  unfold Entries.load at hload ⊢
  cases hread : e.read P.cache with
  | error fault =>
    rw [hread] at hload
    cases fault <;> cases hload
  | ok content =>
    -- The file lies at the place of its path, which is not that of the source.
    have hfile := hchange.noLinks.hasFile_of_read hends (Watched.cache hends) hread
    have hkeeps : e.Keeps w.disk P.cache := by
      refine hchange.agreeOff.symm.keeps hchange.after hends'.slash_not_mem fun front'' hcache => ?_
      obtain ⟨-, rfl⟩ := hends.unique hcache
      exact (hsep.source_apart t ht).not_endsIn hends front' |>.1 hends'
    rw [(hkeeps.hasFile hfile).read]
    rw [hread] at hload
    exact hload

/-- An edit leaves what is recorded and what has been built. -/
theorem Sound.edit (hsep : P.Separate) (h : P.Sound stale w) (ht : P.targets t)
    (hedit : P.Edit t w.disk e) : P.Sound stale { w with disk := e } := by
  obtain ⟨parent, name, hplace, -⟩ := h.sources t ht
  obtain ⟨front', hends', -⟩ := hplace.front
  have hchange := hedit.changes ht h.noLinks hplace
  refine ⟨h.toLaid.changes hchange, fun hcached entries hentries t' ht' digest hdigest => ?_⟩
  have hbefore := records_of_changes hsep ht h.toLaid hplace hchange hentries
  obtain ⟨hready, hfresh⟩ := h.recorded hcached entries hbefore t' ht' digest hdigest
  constructor
  · exact hready.frame hchange.agreeOff hchange.before hends'.slash_not_mem fun front name' hends =>
      (hsep.source_apart t ht).ne_of_mem hends hends'.mem_names
  · intro hnot
    obtain ⟨content, hcontent, hof, hfile⟩ := hfresh hnot
    exact ⟨content, hcontent, hof, (hedit.artifacts t' ht').hasFile hfile⟩

end

end Project

end ForeignModule
