import ForeignModule.Proofs.Build.Freshness
import ForeignModule.Proofs.Cache.History

/-!
# Forgetting what has been recorded

A source is kept under its key: the path from the root of what its path leads to, if it leads to
anything, and else its path behind that of the working directory, as that is shown. Recording needs the source to be
there, forgetting does not.

Recording changes no more on the disk than the file of the cache, so the key is the same behind it
(`Replaced.leads`). Forgetting therefore undoes it, unless the source is gone by then and the
path by which it has been recorded is not the one from the root, without links and detours
(`Cache.forget_undoes_record`, `Cache.forgotten_in_vain`).
-/

namespace ForeignModule

open Routine Disk Entries

/-! ## What leads to a file -/

/-- The path leads to a file at this place. -/
def Disk.LeadsTo (p : Path) (x : Location) (d : Disk) : Prop :=
  ∃ content, d.find p = .ok (.present x (.file content))

/-- A path still leads to a file, and no link bears one of these names. -/
def Leading (p : Path) (x : Location) (names : RawText → Prop) (d : Disk) : Prop :=
  d.LeadsTo p x ∧ d.NoLinks names

section

variable {path p : Path} {number : Nat} {front : List RawText} {name : RawText} {x : Location}
  {names : RawText → Prop} {d e : Disk} {content : List UInt8}

theorem Disk.LeadsTo.frame {place : Location} (h : d.LeadsTo p x) (hagree : AgreeOff place d e)
    (hinert : d.Inert place) (hne : x ≠ place) : e.LeadsTo p x := by
  obtain ⟨content, hfind⟩ := h
  exact ⟨content, find_frame hagree hinert hfind (.inr hne)⟩

theorem Disk.LeadsTo.canonicalize (h : d.LeadsTo p x) : d.canonicalize p = .ok x.path := by
  obtain ⟨content, hfind⟩ := h
  have htrace : d.trace p = .ok (.present x (.file content)) := by
    unfold Disk.find at hfind
    split at hfind
    · cases hfind
    · exact hfind
  rw [Disk.canonicalize, htrace]

/-- The temporary file has been written, and the path leads where it did. -/
structure LeadingWritten (path : Path) (number : Nat) (name : RawText) (p : Path) (x : Location)
    (names : RawText → Prop) (d : Disk) : Prop where
  leading : Leading p x names d
  file : ∃ parent content,
    d.NamesPlace (temporaryPath path number) parent (temporaryName name number) ∧
    d.nodes[parent.child (temporaryName name number)]? = some (.file content)

theorem ne_child (hx : ¬names x.name) (hname : names name) (hslash : Path.slash ∉ name)
    (parent : Location) : x ≠ parent.child name := by
  rintro rfl
  rw [Location.name_child hslash] at hx
  exact hx hname

theorem Leading.write (hends : path.EndsIn front name) (hnames : names (temporaryName name number))
    (hx : ¬names x.name) (h : Leading p x names d)
    (hwrite : d.write (temporaryPath path number) content = .ok e) :
    LeadingWritten path number name p x names e := by
  obtain ⟨parent, hplace, hinert, rfl⟩ := exists_of_write (endsIn_temporaryPath number hends) hwrite
    fun parent target hp => h.2.ne_link hp hnames target
  have hagree := agreeOff_put d (parent.child (temporaryName name number)) (.file content)
  refine ⟨⟨?_, h.2.put fun _ hnode => nomatch hnode⟩, parent, content,
    hplace.frame hagree hinert, by simp [nodes_put]⟩
  exact h.1.frame hagree hinert (ne_child hx hnames hplace.slash_not_mem parent)

theorem LeadingWritten.drop (hnames : names (temporaryName name number)) (hx : ¬names x.name)
    (h : LeadingWritten path number name p x names d) {parent : Location}
    (hplace : d.NamesPlace (temporaryPath path number) parent (temporaryName name number)) :
    Leading p x names (d.drop (parent.child (temporaryName name number))) := by
  obtain ⟨parent', content, hplace', hnode⟩ := h.file
  obtain ⟨rfl, -⟩ := hplace.unique hplace'
  have hne := ne_child hx hnames hplace.slash_not_mem
  exact ⟨h.leading.1.frame (agreeOff_drop d _) (.inr ⟨content, hnode⟩) (hne _), h.leading.2.drop _⟩

theorem LeadingWritten.removeFile (hends : path.EndsIn front name)
    (hnames : names (temporaryName name number)) (hx : ¬names x.name)
    (h : LeadingWritten path number name p x names d)
    (hremove : d.removeFile (temporaryPath path number) = .ok e) : Leading p x names e := by
  obtain ⟨parent, node, hplace, -, -, rfl⟩ :=
    exists_of_removeFile (endsIn_temporaryPath number hends) hremove
  exact h.drop hnames hx hplace

theorem LeadingWritten.rename (hends : path.EndsIn front name) (hname : names name)
    (hnames : names (temporaryName name number)) (hx : ¬names x.name)
    (h : LeadingWritten path number name p x names d)
    (hrename : d.rename (temporaryPath path number) path = .ok e) : Leading p x names e := by
  obtain ⟨parent, parent', node, hplace, hplace', hnode, -, hdir, rfl⟩ :=
    exists_of_rename (endsIn_temporaryPath number hends) hends hrename
  have hdrop := h.drop hnames hx hplace
  obtain ⟨parent'', content, htemporary, hfile⟩ := h.file
  obtain ⟨rfl, -⟩ := hplace.unique htemporary
  obtain rfl := Option.some.inj (hfile.symm.trans hnode)
  -- Neither a directory nor a link lies where the file goes.
  have hinert : (d.drop (parent''.child (temporaryName name number))).Inert (parent'.child name) := by
    unfold Inert
    rw [nodes_drop]
    split
    · exact .inl rfl
    · cases hold : d.nodes[parent'.child name]? with
      | none => exact .inl rfl
      | some old =>
        cases old with
        | directory => exact absurd hold hdir
        | file bytes => exact .inr ⟨bytes, rfl⟩
        | link target => exact absurd hold (h.leading.2.ne_link hplace' hname target)
  exact ⟨hdrop.1.frame (agreeOff_put _ _ _) hinert (ne_child hx hname hplace'.slash_not_mem parent'),
    hdrop.2.put fun _ hnode => nomatch hnode⟩

/-- At no stage of replacing the file of the cache a path leads elsewhere. -/
theorem stages_leading (hends : path.EndsIn front name) (hname : names name)
    (hnames : names (temporaryName name number)) (hx : ¬names x.name) :
    Stages path number (Leading p x names)
      (fun _ => LeadingWritten path number name p x names) fun _ => Leading p x names where
  directory d _ hd hdirectory := by
    have hmade := made_makeDirectories d hdirectory
    obtain ⟨content, hfind⟩ := hd.1
    exact ⟨⟨content, hmade.find_present hfind⟩, hmade.noLinks hd.2⟩
  write _ _ _ hd he := hd.write hends hnames hx he
  unwritten _ _ hd := hd.leading
  remove _ _ _ hd he := hd.removeFile hends hnames hx he
  rename _ _ _ hd he := hd.rename hends hname hnames hx he

theorem Replaced.leading (h : Replaced path number d e) (hends : path.EndsIn front name)
    (hname : names name) (hnames : names (temporaryName name number)) (hx : ¬names x.name)
    (hd : Leading p x names d) : Leading p x names e := by
  induction h with
  | refl => exact hd
  | @more e _ m t ih =>
    have hleaves := (stages_leading hends hname hnames hx).persist_leaves m t e ih
    generalize (Entries.persist m path number t).run.run e = outcome at hleaves ⊢
    obtain ⟨error | _, f⟩ := outcome <;> exact hleaves

end

/-! ## The cache -/

theorem Location.name_path (x : Location) : Location.name x.path = x.name := by
  unfold path
  split
  · rename_i hroot
    rw [List.isEmpty_iff.1 hroot]
    rfl
  · rfl

namespace Cache

variable {w w₁ w₂ : Workspace} {source : Path} {loading writing : Trouble} {m : Entries}
  {d : Disk}

/-- Entries that could be written are in memory. -/
theorem commit_ok (h : (commit m writing).run w = (.ok (), w₁)) :
    Replaced w.cache.path w.cache.number w.disk w₁.disk ∧
      w₁.cache = { w.cache with entries? := some m } := by
  have hreplaced : Replaced w.cache.path w.cache.number w.disk _ := .more .refl m writing
  unfold commit at h
  simp only [run_bind, run_ask, run_onDisk] at h
  generalize (Entries.persist m w.cache.path w.cache.number writing).run.run w.disk = outcome
    at hreplaced h
  obtain ⟨e | _, disk⟩ := outcome
  · cases h
  · cases h
    exact ⟨hreplaced, rfl⟩

/-- Behind a recording that succeeds, the digest of the source is in memory under its key. -/
theorem record_ok (h : (record source loading writing).run w = (.ok (), w₁)) :
    ∃ digest, w.disk.digest source = .ok digest ∧
      Replaced w.cache.path w.cache.number w.disk w₁.disk ∧
      w₁.cache = { w.cache with
        entries? := some (w.mapping.insert (w.disk.key source) digest) } := by
  unfold record at h
  rw [run_bind, run_ask] at h
  cases hdigest : w.disk.digest source with
  | error fault =>
    rw [hdigest] at h
    cases h
  | ok digest =>
    obtain ⟨disk, hloaded, hrun⟩ := loaded_mapping w loading
    rw [hdigest] at h
    simp only [run_bind, run_ask, run_atomically, insert, hrun] at h
    obtain ⟨hcommitted, hcache⟩ := commit_ok h
    exact ⟨digest, rfl, hloaded.trans hcommitted, hcache⟩

/-- Dropping a key from entries that are in memory, where the rest can be written. -/
theorem erase_of_memory {key : String} (loading : Trouble) (hmemory : w.cache.entries? = some m)
    (hpersist : (Entries.persist (m.erase key) w.cache.path w.cache.number writing).run.run w.disk
      = (.ok (), d)) :
    ∃ w', (erase key loading writing).run w = (.ok (m.contains key), w') ∧
      w'.mapping = m.erase key := by
  have hloaded : (loaded loading).run w = (m, w) := by
    rw [loaded, run_bind, run_ask, hmemory]
    rfl
  unfold erase
  rw [run_bind, hloaded]
  by_cases hkey : m.contains key = true
  · simp only [hkey, if_true, commit, run_bind, run_ask, run_onDisk, hpersist]
    exact ⟨_, rfl, mapping_of_memory rfl⟩
  · rw [Bool.not_eq_true] at hkey
    simp only [hkey, Bool.false_eq_true, if_false]
    refine ⟨w, rfl, ?_⟩
    rw [mapping_of_memory hmemory]
    exact (Entries.erase_eq_self hkey).symm

/-- Forgetting undoes a recording: it says that there was an entry, and no entry is left under the key
by which the source has been recorded, while all others are what they have been. -/
def Undone (w w₂ : Workspace) (source : Path) (loading writing : Trouble) : Prop :=
  ∃ w₃, (forget source loading writing).run w₂ = (.ok true, w₃) ∧
    w₃.mapping = w.mapping.erase (w.disk.key source)

/-- What forgetting comes to where the cache is the one behind a recording, on any disk. -/
theorem undone_iff {recording : Trouble} {recording' : Trouble}
    (hrecord : (record source recording recording').run w = (.ok (), w₁))
    (hcache : w₂.cache = w₁.cache)
    (hpersist : (Entries.persist (w₁.mapping.erase (w₂.disk.key source)) w.cache.path
      w.cache.number writing).run.run w₂.disk = (.ok (), d)) :
    Undone w w₂ source loading writing ↔ w₂.disk.key source = w.disk.key source := by
  obtain ⟨digest, -, -, hmemory⟩ := record_ok hrecord
  have hmapping : w₁.mapping = w.mapping.insert (w.disk.key source) digest :=
    mapping_of_memory (by rw [hmemory])
  rw [hmapping] at hpersist
  obtain ⟨w₃, hrun, herased⟩ := erase_of_memory loading (by rw [hcache, hmemory])
    (by rw [hcache, hmemory]; exact hpersist)
  unfold Undone
  rw [forget_eq, hrun]
  constructor
  · rintro ⟨_, hpair, hall⟩
    obtain ⟨-, rfl⟩ := Prod.mk.inj hpair
    by_contra hne
    -- Another key has been dropped, so that the digest is still there.
    have hthere : w₃.mapping[w.disk.key source]? = some digest := by
      have hcompare : ¬compare (w₂.disk.key source) (w.disk.key source) = .eq := by simpa using hne
      rw [herased, Std.ExtTreeMap.getElem?_erase, if_neg hcompare,
        Std.ExtTreeMap.getElem?_insert_self]
    rw [hall, Std.ExtTreeMap.getElem?_erase_self] at hthere
    cases hthere
  · intro hkey
    refine ⟨w₃, ?_, ?_⟩
    · rw [hkey, Std.ExtTreeMap.contains_insert_self]
    · rw [herased, hkey, Entries.erase_insert]

theorem leadsTo_of_digest {digest : String} (h : d.digest source = .ok digest) :
    ∃ x, d.LeadsTo source x ∧ d.wholePath source = x.path := by
  obtain ⟨content, hread⟩ := read_of_digest h
  obtain ⟨x, hfind⟩ := find_of_read hread
  have hleads : d.LeadsTo source x := ⟨content, hfind⟩
  exact ⟨x, hleads, wholePath_of_canonicalize hleads.canonicalize⟩

/-- Recording leaves the path from the root as it is, unless that is one of the cache itself. -/
theorem canonicalize_of_record {front : List RawText} {name : RawText}
    (hends : w.cache.path.EndsIn front name)
    (hlinks : w.disk.NoLinks fun n => n = name ∨ n = temporaryName name w.cache.number)
    (hsource : Location.name (w.disk.wholePath source) ≠ name ∧
      Location.name (w.disk.wholePath source) ≠ temporaryName name w.cache.number)
    (hrecord : (record source loading writing).run w = (.ok (), w₁)) :
    w₁.disk.canonicalize source = .ok (w.disk.wholePath source) := by
  obtain ⟨digest, hdigest, hreplaced, -⟩ := record_ok hrecord
  obtain ⟨x, hleads, hwhole⟩ := leadsTo_of_digest hdigest
  rw [hwhole, Location.name_path] at hsource
  have hleading := hreplaced.leading hends (.inl rfl) (.inr rfl) (by simpa using hsource)
    ⟨hleads, hlinks⟩
  rw [hwhole]
  exact hleading.1.canonicalize

/-- Recording a source and forgetting it again, by whatever spelling, leaves nothing of it behind
exactly if its file is still there, or if its spelling is shown as its path from the root is. Between
the two, anything may happen on the disk that does not make the path lead to another place; no link
has the name of a file of the cache, and the source is none of these files. -/
theorem forget_undoes_record {front : List RawText} {name : RawText} {recording recording' : Trouble}
    (loading : Trouble) (hends : w.cache.path.EndsIn front name)
    (hlinks : w.disk.NoLinks fun n => n = name ∨ n = temporaryName name w.cache.number)
    (hsource : Location.name (w.disk.wholePath source) ≠ name ∧
      Location.name (w.disk.wholePath source) ≠ temporaryName name w.cache.number)
    (hrecord : (record source recording recording').run w = (.ok (), w₁))
    (hcache : w₂.cache = w₁.cache)
    (hbetween : w₂.disk.canonicalize source = w₁.disk.canonicalize source ∨
      ∃ fault, w₂.disk.canonicalize source = .error fault)
    (hpersist : (Entries.persist (w₁.mapping.erase (w₂.disk.key source)) w.cache.path
      w.cache.number writing).run.run w₂.disk = (.ok (), d)) :
    Undone w w₂ source loading writing ↔
      (∃ p, w₂.disk.canonicalize source = .ok p) ∨
        (w₂.disk.spelledPath source).shown = w.disk.key source := by
  have hthere := canonicalize_of_record hends hlinks hsource hrecord
  rw [undone_iff hrecord hcache hpersist]
  rcases hbetween with hsame | ⟨fault, hgone⟩
  · rw [hthere] at hsame
    have hkey : w₂.disk.key source = w.disk.key source := key_of_canonicalize hsame
    exact ⟨fun _ => .inl ⟨_, hsame⟩, fun _ => hkey⟩
  · have hkey : w₂.disk.key source = (w₂.disk.spelledPath source).shown := by
      rw [Disk.key, wholePath_of_fault hgone]
    rw [hkey, hgone]
    constructor
    · exact .inr
    · rintro (⟨p, hp⟩ | hsame)
      · cases hp
      · exact hsame

/-! ## A source that is gone -/

/-- The workspace behind a recording. -/
def recorded (w : Workspace) (source : Path) : Workspace := ((record source).run w).2

/-- The workspace behind that, without the file of the source. -/
def removed (w : Workspace) (source : Path) : Workspace :=
  { recorded w source with
    disk := ((recorded w source).disk.removeFile source).toOption.getD (recorded w source).disk }

theorem record_recorded (h : ((record source).run w).1.toOption = some ()) :
    (record source).run w = (.ok (), recorded w source) := eq_of_toOption h

theorem removeFile_removed (h : ((recorded w source).disk.removeFile source).toOption.isSome = true) :
    (recorded w source).disk.removeFile source = .ok (removed w source).disk := by
  obtain ⟨d, hd⟩ := Option.isSome_iff_exists.1 h
  rw [removed, hd]
  exact eq_ok_of_toOption hd

theorem removed_eq (w : Workspace) (source : Path) :
    removed w source = { recorded w source with disk := (removed w source).disk } := rfl

theorem cache_removed (w : Workspace) (source : Path) :
    (removed w source).cache = (recorded w source).cache := rfl

/-- A source that has been removed can be forgotten by the path that leads straight to it. -/
theorem forget_undoes_record_removed : ∃ w₁ disk,
    (record "a/m.c").run Project.unbuilt = (.ok (), w₁) ∧
    w₁.disk.removeFile "a/m.c" = .ok disk ∧
    Undone Project.unbuilt { w₁ with disk } "a/m.c" {} {} := by
  have hfacts : ((record "a/m.c").run Project.unbuilt).1.toOption = some () ∧
      ((recorded Project.unbuilt "a/m.c").disk.removeFile "a/m.c").toOption.isSome = true ∧
      ((removed Project.unbuilt "a/m.c").disk.canonicalize "a/m.c").toOption = none ∧
      ((Entries.persist ((recorded Project.unbuilt "a/m.c").mapping.erase
          ((removed Project.unbuilt "a/m.c").disk.key "a/m.c"))
        Project.unbuilt.cache.path Project.unbuilt.cache.number).run.run
          (removed Project.unbuilt "a/m.c").disk).1.toOption = some () ∧
      (Location.name (Project.unbuilt.disk.wholePath "a/m.c") ≠ "hash.json" ∧
        Location.name (Project.unbuilt.disk.wholePath "a/m.c")
          ≠ temporaryName "hash.json" Project.unbuilt.cache.number) ∧
      ((removed Project.unbuilt "a/m.c").disk.spelledPath "a/m.c").shown
        = Project.unbuilt.disk.key "a/m.c" := by
    decide +kernel
  obtain ⟨hrecord, hremove, hgone, hpersist, hsource, hjoin⟩ := hfacts
  have hlinks : Project.unbuilt.disk.NoLinks fun n =>
      n = "hash.json" ∨ n = temporaryName "hash.json" Project.unbuilt.cache.number := by
    intro x target hlink
    rcases Project.node_unbuilt hlink with h | h | h <;> cases h
  have hends : Project.unbuilt.cache.path.EndsIn [".", ".nativekit"] "hash.json" :=
    ⟨by decide, ⟨by decide, by decide, by decide⟩⟩
  refine ⟨_, _, record_recorded hrecord, removeFile_removed hremove, ?_⟩
  rw [← removed_eq]
  -- The states are named, so that nothing is run again where they are compared.
  have hrecord' := record_recorded hrecord
  have hcache := cache_removed Project.unbuilt "a/m.c"
  have hpersist' := eq_of_toOption hpersist
  have hundone := forget_undoes_record {} hends hlinks hsource hrecord' hcache
    (.inr (error_of_toOption hgone)) hpersist'
  exact hundone.2 (.inr hjoin)

/-- A source that has been recorded by another path and removed is not forgotten by that path. -/
theorem forgotten_in_vain : ∃ w₁ disk w₂,
    (record "./a/m.c").run Project.unbuilt = (.ok (), w₁) ∧
    w₁.disk.removeFile "./a/m.c" = .ok disk ∧
    (forget "./a/m.c").run { w₁ with disk } = (.ok false, w₂) ∧
    (w₂.mapping[Project.unbuilt.disk.key "./a/m.c"]?).isSome = true := by
  have hfacts : ((record "./a/m.c").run Project.unbuilt).1.toOption = some () ∧
      ((recorded Project.unbuilt "./a/m.c").disk.removeFile "./a/m.c").toOption.isSome = true ∧
      ((forget "./a/m.c").run (removed Project.unbuilt "./a/m.c")).1.toOption = some false ∧
      (((forget "./a/m.c").run (removed Project.unbuilt "./a/m.c")).2.mapping[
        Project.unbuilt.disk.key "./a/m.c"]?).isSome = true := by
    decide +kernel
  obtain ⟨hrecord, hremove, hforget, hthere⟩ := hfacts
  refine ⟨_, _, _, record_recorded hrecord, removeFile_removed hremove, ?_, hthere⟩
  rw [← removed_eq]
  exact eq_of_toOption hforget

end Cache

end ForeignModule
