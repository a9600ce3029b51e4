import ForeignModule.Proofs.Cache.Ground
import ForeignModule.Proofs.Digest.Content
import ForeignModule.Proofs.Threads

/-!
# What modules see of each other

Modules that are loaded at once share a disk and a cache.

* `View G w₀ s` is what the module of a source `s` has to count on: directories come, and its own files and
  its own entry in the cache stay as they are. It relates a run alone to a run among others, too: from the
  one workspace to the other the module sees no difference;
* `Move G w₀ s` is what that module does. It is in view of no other module (`Move.view`);
* `shouldSkip_undisturbed` and `record_undisturbed`: asking the cache and recording are not disturbed.

The cache reads its file when it is first asked, and nobody writes anything before that (`Sound.unread`).
-/

namespace ForeignModule

open Disk Routine Cache

/-- What the disk becomes when the cache is asked, where its file is missing. -/
def Cache.opened (c : Cache) (d : Disk) : Disk :=
  match c.entries? with
  | some _ => d
  | none =>
    match Entries.load c.path d with
    | .ok none => ((Entries.persist ∅ c.path c.number).run.run d).2
    | _ => d

/-- The workspace when the cache has been asked. -/
def Workspace.asked (w : Workspace) : Workspace :=
  { w with disk := opened w.cache w.disk, cache := { w.cache with entries? := some w.mapping } }

/-- The workspace when a digest has been recorded under a key. -/
def Workspace.recorded (w : Workspace) (key digest : String) : Workspace :=
  let m := w.mapping.insert key digest
  { w with
    disk := ((Entries.persist m w.cache.path w.cache.number).run.run w.asked.disk).2
    cache := { w.cache with entries? := some m } }

theorem Cache.loaded_run_eq (w : Workspace) : (loaded {}).run w = (w.mapping, w.asked) := by
  cases hmemory : w.cache.entries? with
  | some m =>
    have hsame : { w with cache := { w.cache with entries? := some m } } = w := by rw [← hmemory]
    rw [mapping_of_memory hmemory, loaded, run_bind, run_ask, hmemory]
    simp only [Workspace.asked, opened, hmemory, mapping_of_memory hmemory, hsame]
    rfl
  | none =>
    unfold loaded
    simp only [run_bind, run_ask, Workspace.asked, Workspace.mapping, opened, hmemory]
    cases hload : Entries.load w.cache.path w.disk with
    | error e => rfl
    | ok m? =>
      cases m? with
      | some m => rfl
      | none => simp only [run_bind, run_onDisk, run_pure, run_change]

namespace Ground

variable {G : Ground} {w₀ w w' w'' : Workspace} {s t : Path} {d e : Disk} {places : Location → Prop}

/-- A workspace that the modules can come to. Until the cache is asked nothing changes, and behind that
there are the directories that it makes when it is asked. -/
structure Sound (G : Ground) (w₀ w : Workspace) : Prop where
  path_eq : w.cache.path = w₀.cache.path
  number_eq : w.cache.number = w₀.cache.number
  allows : G.Allows w.disk
  unread : w.cache.entries? = none → w.disk = w₀.disk ∧ w.cache = w₀.cache
  asked : w.cache.entries?.isSome → ∀ x, G.made x →
    (opened w₀.cache w₀.disk).nodes[x]? = some .directory → w.disk.nodes[x]? = some .directory

/-- The module of a source sees no difference: there may be more directories, and what belongs to others
may have changed. -/
structure View (G : Ground) (w₀ : Workspace) (s : Path) (w w' : Workspace) : Prop where
  before : G.Sound w₀ w
  after : G.Sound w₀ w'
  disk : G.Changes (fun x => ¬G.owns s x) w.disk w'.disk
  entry : w'.mapping[w₀.disk.key s]? = w.mapping[w₀.disk.key s]?
  asked : w.cache.entries?.isSome → w'.cache.entries?.isSome

/-- What the module of a source does: it writes its own files, its own entry and the files of the cache. -/
structure Move (G : Ground) (w₀ : Workspace) (s : Path) (w w' : Workspace) : Prop where
  before : G.Sound w₀ w
  after : G.Sound w₀ w'
  disk : G.Changes (fun x => G.owns s x ∨ G.kept x) w.disk w'.disk
  entries : ∀ key, key ≠ w₀.disk.key s → w'.mapping[key]? = w.mapping[key]?
  asked : w.cache.entries?.isSome → w'.cache.entries?.isSome

theorem View.refl (h : G.Sound w₀ w) : G.View w₀ s w w := ⟨h, h, .refl h.allows, rfl, id⟩

theorem View.trans (h : G.View w₀ s w w') (h' : G.View w₀ s w' w'') : G.View w₀ s w w'' where
  before := h.before
  after := h'.after
  disk := h.disk.trans h'.disk
  entry := h'.entry.trans h.entry
  asked hasked := h'.asked (h.asked hasked)

theorem Move.refl (h : G.Sound w₀ w) : G.Move w₀ s w w := ⟨h, h, .refl h.allows, fun _ _ => rfl, id⟩

/-- What one module does is out of view of the others. -/
theorem Move.view (h : G.Move w₀ s w w') (hne : s ≠ t) (hkey : w₀.disk.key s ≠ w₀.disk.key t) :
    G.View w₀ t w w' where
  before := h.before
  after := h.after
  disk := h.disk.imp fun x _ hx howns => by
    rcases hx with howns' | hkept
    · exact hne (G.owned_once s t x howns' howns)
    · exact G.owns_not_kept t x howns hkept
  entry := h.entries _ (Ne.symm hkey)
  asked := h.asked

theorem stable_view (w : Workspace) : Stable (G.View w₀ s) (G.View w₀ s w) :=
  fun _ _ h h' => h.trans h'

theorem Sound.start (hdisk : G.disk = w₀.disk) : G.Sound w₀ w₀ where
  path_eq := rfl
  number_eq := rfl
  allows := hdisk ▸ G.allows_disk
  unread _ := ⟨rfl, rfl⟩
  asked hasked x _ hdir := by
    obtain ⟨m, hm⟩ := Option.isSome_iff_exists.1 hasked
    simpa [Cache.opened, hm] using hdir

/-! ## The disk -/

theorem mapping_disk (hasked : w.cache.entries?.isSome) :
    Workspace.mapping { w with disk := d } = w.mapping := by
  obtain ⟨m, hm⟩ := Option.isSome_iff_exists.1 hasked
  rw [mapping_of_memory hm]
  exact mapping_of_memory hm

theorem Sound.disk (h : G.Sound w₀ w) (hasked : w.cache.entries?.isSome)
    (hchanges : G.Changes places w.disk d) : G.Sound w₀ { w with disk := d } where
  path_eq := h.path_eq
  number_eq := h.number_eq
  allows := hchanges.after
  unread hnone := by
    obtain ⟨m, hm⟩ := Option.isSome_iff_exists.1 hasked
    rw [hm] at hnone
    cases hnone
  asked hasked x hx hdir := hchanges.directories x hx (h.asked hasked x hx hdir)

theorem Move.on_disk (h : G.Sound w₀ w) (hasked : w.cache.entries?.isSome)
    (hchanges : G.Changes (fun x => G.owns s x ∨ G.kept x) w.disk d) :
    G.Move w₀ s w { w with disk := d } where
  before := h
  after := h.disk hasked hchanges
  disk := hchanges
  entries key _ := by rw [mapping_disk hasked]
  asked := id

theorem View.on_disk (h : G.View w₀ s w w') (hasked : w.cache.entries?.isSome)
    (hchanges : G.Changes places w.disk d) (hchanges' : G.Changes places w'.disk e)
    (hboth : G.Changes (fun x => ¬G.owns s x) d e) :
    G.View w₀ s { w with disk := d } { w' with disk := e } where
  before := h.before.disk hasked hchanges
  after := h.after.disk (h.asked hasked) hchanges'
  disk := hboth
  entry := by
    rw [mapping_disk hasked, mapping_disk (h.asked hasked)]
    exact h.entry
  asked := h.asked

/-! ## Asking the cache -/

section

variable (hkeeps : G.Keeps w₀.cache.path w₀.cache.number)

include hkeeps

theorem Sound.opened (h : G.Sound w₀ w) : G.Changes G.kept w.disk (opened w.cache w.disk) := by
  unfold Cache.opened
  split
  · exact .refl h.allows
  · split
    · rw [h.path_eq, h.number_eq]
      exact hkeeps.persist_changes h.allows ∅
    · exact .refl h.allows

theorem Sound.after_asked (h : G.Sound w₀ w) : G.Sound w₀ w.asked where
  path_eq := h.path_eq
  number_eq := h.number_eq
  allows := (h.opened hkeeps).after
  unread hnone := nomatch hnone
  asked _ x hx hdir := by
    cases hmemory : w.cache.entries? with
    | some m =>
      have hthere := h.asked (by simp [hmemory]) x hx hdir
      exact (h.opened hkeeps).directories x hx hthere
    | none =>
      obtain ⟨hdisk, hcache⟩ := h.unread hmemory
      show (Cache.opened w.cache w.disk).nodes[x]? = _
      rw [hdisk, hcache]
      exact hdir

theorem Move.to_asked (h : G.Sound w₀ w) : G.Move w₀ s w w.asked where
  before := h
  after := h.after_asked hkeeps
  disk := (h.opened hkeeps).imp fun _ _ hx => .inr hx
  entries _ _ := rfl
  asked _ := rfl

/-- Asked alone or behind others, the cache makes the same directories. -/
theorem View.to_asked (h : G.View w₀ s w w') : G.View w₀ s w.asked ((w'.asked)) where
  before := h.before.after_asked hkeeps
  after := h.after.after_asked hkeeps
  entry := h.entry
  asked _ := rfl
  disk := by
    have haside : ∀ x, G.File x → G.kept x → ¬G.owns s x := fun x _ hkept howns =>
      G.owns_not_kept s x howns hkept
    have hopened := (h.before.opened hkeeps).imp haside
    have hopened' := (h.after.opened hkeeps).imp haside
    refine ⟨hopened.after, hopened'.after, fun x hx hdir => ?_, fun x hx hplace => ?_⟩
    · -- Where the cache has been asked by others before, the directories have been there since then.
      cases hmemory : w.cache.entries? with
      | some m =>
        have hold : w.disk.nodes[x]? = some .directory := by
          have hsame : Cache.opened w.cache w.disk = w.disk := by simp [Cache.opened, hmemory]
          rw [← hsame]
          exact hdir
        exact hopened'.directories x hx (h.disk.directories x hx hold)
      | none =>
        obtain ⟨hdisk, hcache⟩ := h.before.unread hmemory
        have hfirst : (Cache.opened w₀.cache w₀.disk).nodes[x]? = some .directory := by
          rw [← hdisk, ← hcache]
          exact hdir
        exact (h.after.after_asked hkeeps).asked rfl x hx hfirst
    · exact (hopened'.others x hx hplace).trans
        ((h.disk.others x hx hplace).trans (hopened.others x hx hplace).symm)

/-! ## Recording -/

theorem Sound.insert_run (h : G.Sound w₀ w) (key digest : String) :
    (Cache.insert key digest {} {}).run w = (.ok (), w.recorded key digest) := by
  have hrun : (Entries.persist (w.mapping.insert key digest) w.asked.cache.path
      w.asked.cache.number).run.run w.asked.disk = (.ok (), (w.recorded key digest).disk) := by
    refine Prod.ext ?_ rfl
    have hsucceeds := hkeeps.succeeds _ (h.opened hkeeps).after (w.mapping.insert key digest)
    rw [← h.path_eq, ← h.number_eq] at hsucceeds
    exact hsucceeds
  unfold Cache.insert commit
  simp only [run_bind, loaded_run_eq, run_ask, run_onDisk, hrun]
  rfl

theorem Sound.recorded_changes (h : G.Sound w₀ w) (key digest : String) :
    G.Changes G.kept w.disk (w.recorded key digest).disk := by
  have hopened := h.opened hkeeps
  refine hopened.trans ?_
  show G.Changes G.kept _ ((Entries.persist _ w.cache.path w.cache.number).run.run _).2
  rw [h.path_eq, h.number_eq]
  exact hkeeps.persist_changes hopened.after _

theorem Sound.after_recorded (h : G.Sound w₀ w) (key digest : String) :
    G.Sound w₀ (w.recorded key digest) where
  path_eq := h.path_eq
  number_eq := h.number_eq
  allows := (h.recorded_changes hkeeps key digest).after
  unread hnone := nomatch hnone
  asked _ x hx hdir := by
    have hopened := h.opened hkeeps
    have hpersist : G.Changes G.kept (Cache.opened w.cache w.disk)
        (w.recorded key digest).disk := by
      show G.Changes G.kept _ ((Entries.persist _ w.cache.path w.cache.number).run.run _).2
      rw [h.path_eq, h.number_eq]
      exact hkeeps.persist_changes hopened.after _
    exact hpersist.directories x hx ((h.after_asked hkeeps).asked rfl x hx hdir)

theorem Move.to_recorded (h : G.Sound w₀ w) (digest : String) :
    G.Move w₀ s w (w.recorded (w₀.disk.key s) digest) where
  before := h
  after := h.after_recorded hkeeps _ digest
  disk := (h.recorded_changes hkeeps _ digest).imp fun _ _ hx => .inr hx
  entries key hkey := by
    show (w.mapping.insert (w₀.disk.key s) digest)[key]? = _
    rw [Std.ExtTreeMap.getElem?_insert, if_neg]
    simpa using Ne.symm hkey
  asked _ := rfl

theorem View.to_recorded (h : G.View w₀ s w w') (digest : String) :
    G.View w₀ s (w.recorded (w₀.disk.key s) digest) (w'.recorded (w₀.disk.key s) digest) where
  before := h.before.after_recorded hkeeps _ digest
  after := h.after.after_recorded hkeeps _ digest
  entry := by
    show (w'.mapping.insert _ digest)[_]? = (w.mapping.insert _ digest)[_]?
    simp
  asked _ := rfl
  disk := by
    have hopened := (h.to_asked hkeeps).disk
    show G.Changes _ ((Entries.persist _ w.cache.path w.cache.number).run.run _).2
      ((Entries.persist _ w'.cache.path w'.cache.number).run.run _).2
    rw [h.before.path_eq, h.before.number_eq, h.after.path_eq, h.after.number_eq]
    exact hkeeps.persist_both hopened (fun x hx howns => G.owns_not_kept s x howns hx) _ _

end

/-! ## Sources -/

/-- The same is read at the path, and it leads to the same place, whatever is written. -/
structure Fixes (G : Ground) (path : Path) : Prop where
  read_eq : ∀ e, G.Allows e → e.read path = G.disk.read path
  canonicalize_eq : ∀ e, G.Allows e → e.canonicalize path = G.disk.canonicalize path

/-- What lies at a place where nobody writes. -/
theorem fixes_of_trace {path : Path} {r : Found} (h : G.disk.trace path = .ok r)
    (hfile : ¬G.File r.place) (hmade : ¬G.made r.place) : G.Fixes path := by
  have htrace : ∀ e, G.Allows e → e.trace path = G.disk.trace path := fun e he =>
    (he.changes.trace h (.inr ⟨hfile, hmade⟩)).trans h.symm
  constructor
  · intro e he
    unfold Disk.read Disk.find
    rw [htrace e he]
  · intro e he
    unfold Disk.canonicalize
    rw [htrace e he]

section

variable {path : Path} (hfix : G.Fixes path) (h : G.Allows d)

include hfix h

theorem Fixes.digest_eq : d.digest path = G.disk.digest path := by
  unfold Disk.digest
  rw [hfix.read_eq d h]

theorem Fixes.isFile_eq : d.isFile path = G.disk.isFile path := by
  rw [Bool.eq_iff_iff, isFile_iff, isFile_iff, hfix.read_eq d h]

/-- The key of a source that is there. -/
theorem Fixes.key_eq {digest : String} (hdigest : G.disk.digest path = .ok digest) :
    d.key path = G.disk.key path := by
  obtain ⟨content, hread⟩ := read_of_digest hdigest
  obtain ⟨place, hplace⟩ := canonicalize_of_read hread
  rw [key_of_canonicalize hplace, key_of_canonicalize ((hfix.canonicalize_eq d h).trans hplace)]

end

theorem exists_digest {path : Path} (h : d.isFile path = true) :
    ∃ digest, d.digest path = .ok digest := by
  obtain ⟨content, hread⟩ := isFile_iff.1 h
  rw [digest_of_read hread]
  exact Digest.exists_ofContent content

/-! ## Whole operations -/

/-- Nothing that is done makes this wrong. -/
def Lasting (G : Ground) (p : Disk → Prop) : Prop :=
  ∀ places d e, G.Changes places d e → p d → p e

/-- The module sees no difference, the cache has been asked, and this holds of the disk. -/
def Seen (G : Ground) (w₀ : Workspace) (s : Path) (p : Disk → Prop) (w w' : Workspace) : Prop :=
  G.View w₀ s w w' ∧ w.cache.entries?.isSome ∧ p w.disk

theorem stable_and {others : Workspace → Workspace → Prop} {p : Workspace → Prop} {q : Prop}
    (h : Stable others p) : Stable others fun w => p w ∧ q :=
  fun w w' hw hothers => ⟨h w w' hw.1 hothers, hw.2⟩

theorem stable_seen {p : Disk → Prop} (w : Workspace) : Stable (G.View w₀ s) (G.Seen w₀ s p w) :=
  stable_and (stable_view w)

section

variable (hkeeps : G.Keeps w₀.cache.path w₀.cache.number) (hdisk : G.disk = w₀.disk) (hfix : G.Fixes s)

include hdisk in
/-- What a source contains is looked up undisturbed. -/
theorem look_undisturbed {α : Type} {f : Disk → α} {before : Workspace → Workspace → Prop}
    (hview : ∀ w w', before w w' → G.View w₀ s w w')
    (hstable : ∀ w, Stable (G.View w₀ s) (before w))
    (hsame : ∀ w w', before w w' → ∀ d, G.Allows d → f d = f G.disk) :
    Undisturbed (G.View w₀ s) (G.Move w₀ s) before (ask fun w => f w.disk)
      fun a w w' => before w w' ∧ a = f w₀.disk := by
  refine .ask hstable (fun _ w => stable_and (hstable w)) fun w w' h => ?_
  have hview := hview w w' h
  have hbefore := hdisk ▸ hsame w w' h _ hview.before.allows
  have hafter := hdisk ▸ hsame w w' h _ hview.after.allows
  exact ⟨.refl hview.after, hbefore.trans hafter.symm, h, hafter⟩

include hkeeps hdisk hfix

/-- Asking the cache is not disturbed. It has been asked then, if there is a source. -/
theorem shouldSkip_undisturbed :
    Undisturbed (G.View w₀ s) (G.Move w₀ s) (G.View w₀ s) (shouldSkip s) fun _ w w' =>
      G.View w₀ s w w' ∧ (w₀.disk.isFile s = true → w.cache.entries?.isSome) := by
  have hholds : ∀ key digest, Undisturbed (G.View w₀ s) (G.Move w₀ s)
      (fun w w' => G.View w₀ s w w' ∧ key = w₀.disk.key s) (atomically (holds key digest {}))
      fun _ w w' => G.View w₀ s w w' ∧ (w₀.disk.isFile s = true → w.cache.entries?.isSome) := by
    intro key digest
    refine .act (fun w => stable_and (stable_view w)) (fun _ w => stable_and (stable_view w)) ?_
    rintro w w' ⟨h, rfl⟩
    have hrun : ∀ u : Workspace, (holds (w₀.disk.key s) digest {}).run u
        = (u.mapping[w₀.disk.key s]? == some digest, u.asked) := by
      intro u
      rw [holds, run_bind, loaded_run_eq]
      rfl
    rw [hrun, hrun, h.entry]
    exact ⟨.to_asked hkeeps h.after, rfl, h.to_asked hkeeps, fun _ => rfl⟩
  unfold shouldSkip
  refine (look_undisturbed hdisk (f := (·.digest s)) (fun _ _ h => h) stable_view
    fun _ _ _ d hd => hfix.digest_eq hd).bind fun digest => ?_
  cases digest with
  | error fault =>
    refine .pure (fun w => stable_and (stable_view w)) fun w w' h => ⟨h.1, fun hfile => ?_⟩
    obtain ⟨digest, hdigest⟩ := exists_digest hfile
    rw [hdigest] at h
    cases h.2
  | ok digest =>
    have hsame : ∀ w w', (G.View w₀ s w w' ∧ .ok digest = w₀.disk.digest s) → ∀ d, G.Allows d →
        d.key s = G.disk.key s := fun _ _ h d hd => hfix.key_eq hd (hdisk ▸ h.2.symm)
    refine (look_undisturbed hdisk (fun _ _ h => h.1) (fun w => stable_and (stable_view w))
      hsame).bind fun key => ?_
    exact (hholds key digest).imp (fun _ _ h => ⟨h.1.1, h.2⟩) fun _ _ _ h => h

/-- Recording is not disturbed. -/
theorem record_undisturbed {p : Disk → Prop} (hlasting : G.Lasting p) :
    Undisturbed (G.View w₀ s) (G.Move w₀ s) (G.Seen w₀ s p) (record s) fun _ => G.Seen w₀ s p := by
  have hinsert : ∀ key digest, Undisturbed (G.View w₀ s) (G.Move w₀ s)
      (fun w w' => G.Seen w₀ s p w w' ∧ key = w₀.disk.key s) (atomically (insert key digest {} {}))
      fun _ => G.Seen w₀ s p := by
    intro key digest
    refine .act (fun w => stable_and (stable_seen w)) (fun _ => stable_seen) ?_
    rintro w w' ⟨⟨h, -, hp⟩, rfl⟩
    have hchanges := h.before.recorded_changes hkeeps (w₀.disk.key s) digest
    rw [h.before.insert_run hkeeps, h.after.insert_run hkeeps]
    exact ⟨.to_recorded hkeeps h.after digest, rfl, h.to_recorded hkeeps digest, rfl,
      hlasting _ _ _ hchanges hp⟩
  unfold record
  refine (look_undisturbed hdisk (f := (·.digest s)) (fun _ _ h => h.1) stable_seen
    fun _ _ _ d hd => hfix.digest_eq hd).bind fun digest => ?_
  cases digest with
  | error fault => exact .pure (fun w => stable_seen w) fun w w' h => h.1
  | ok digest =>
    have hsame : ∀ w w', (G.Seen w₀ s p w w' ∧ .ok digest = w₀.disk.digest s) → ∀ d, G.Allows d →
        d.key s = G.disk.key s := fun _ _ h d hd => hfix.key_eq hd (hdisk ▸ h.2.symm)
    refine (look_undisturbed hdisk (fun _ _ h => h.1.1) (fun w => stable_and (stable_seen w))
      hsame).bind fun key => ?_
    exact (hinsert key digest).imp (fun _ _ h => ⟨h.1.1, h.2⟩) fun _ _ _ h => h

end

end Ground

end ForeignModule
