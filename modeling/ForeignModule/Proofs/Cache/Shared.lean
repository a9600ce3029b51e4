import ForeignModule.Proofs.Cache.Mapping

/-!
# One file for all programs

Every running program has a number of its own, and writes beside the file of the cache under that
number. `Shared path file d` says that the file holds this content for all of them. A program that
replaces the file replaces it for the others too (`Shared.replaced`), and what is written or removed
elsewhere leaves it alone (`Shared.write`, `Shared.removeFile`).
-/

namespace ForeignModule

open Routine

/-- The file of the cache holds this content, or is not there, whatever number a program has. -/
def Shared (path : Path) (file : Option (List UInt8)) (d : Disk) : Prop :=
  ∀ number, CacheFile path number file d

section

variable {path : Path} {number : Nat} {file file' : Option (List UInt8)} {d e : Disk}
  {w w' w'' : Workspace}

theorem reading_inj (h : reading file = reading file') : file = file' := by
  cases file <;> cases file' <;> simp_all [reading]

/-- The file has one content. -/
theorem Shared.unique (h : Shared path file d) (h' : CacheFile path number file' d) :
    file' = file :=
  reading_inj (h'.reads.symm.trans (h number).reads)

/-! ## Replacing the file -/

/-- While one program replaces the file, the others have it as it was, and then as it is. -/
theorem stages_shared (path : Path) (number : Nat) (file : Option (List UInt8)) :
    Entries.Stages path number (Shared path file)
      (fun content d => Beside path number file content d ∧ Shared path file d)
      fun content => Shared path (some content) where
  directory _ _ hd hdirectory := fun n => (hd n).prepared (.more .refl hdirectory)
  write _ _ _ hd he := by
    obtain ⟨hbeside, hkept⟩ := (hd number).write he
    exact ⟨hbeside, fun n => hkept n (hd n)⟩
  unwritten _ _ hd := hd.2
  remove d e content hd he := by
    obtain ⟨e', hremove, hkept⟩ := hd.1.removeFile
    obtain rfl : e' = e := Except.ok.inj (hremove.symm.trans he)
    exact fun n => hkept n (hd.2 n)
  rename d e content hd he := by
    obtain ⟨e', hrename, hmoved⟩ := hd.1.rename
    obtain rfl : e' = e := Except.ok.inj (hrename.symm.trans he)
    exact fun n => hmoved n (hd.2 n)

/-- However often a program replaces the file, all programs have the same file. -/
theorem Shared.replaced (h : Shared path file d) (hreplaced : Replaced path number d e) :
    ∃ file', Shared path file' e := by
  induction hreplaced with
  | refl => exact ⟨file, h⟩
  | @more e _ m t ih =>
    obtain ⟨file', h'⟩ := ih
    have hleaves := (stages_shared path number file').persist_leaves m t e h'
    generalize (Entries.persist m path number t).run.run e = outcome at hleaves ⊢
    obtain ⟨_ | _, f⟩ := outcome
    · exact ⟨file', hleaves⟩
    · exact ⟨_, hleaves⟩

/-! ## What happens elsewhere -/

/-- A change at a place that leads nowhere, and to which the path of the cache does not lead. -/
theorem Shared.frame {place parent : Location} {name : RawText} {r : Disk.Found}
    (hplace : d.NamesPlace path parent name) (hagree : Disk.AgreeOff place d e)
    (hd : d.Inert place) (he : e.Inert place) (hr : d.find path = .ok r) (hoff : r.Off place)
    (h : Shared path file d) : Shared path file e :=
  fun n => (h n).frame hplace hagree hd he hr hoff

/-- A file that is written elsewhere leaves the file of the cache alone. -/
theorem Shared.write {source : Path} {parent there : Location} {name base : RawText}
    {r : Disk.Found} {content : List UInt8} (hplace : d.NamesPlace path parent name)
    (hsource : d.NamesPlace source there base) (hfree : d.Inert (there.child base))
    (hr : d.find path = .ok r) (hoff : r.Off (there.child base))
    (hwrite : d.write source content = .ok e) (h : Shared path file d) : Shared path file e := by
  obtain rfl := Except.ok.inj ((Disk.write_of_inert hsource hfree content).symm.trans hwrite)
  exact h.frame hplace (Disk.agreeOff_put d _ _) hfree
    (.inr ⟨content, by simp [Disk.nodes_put]⟩) hr hoff

/-- A file that is removed elsewhere leaves the file of the cache alone. -/
theorem Shared.removeFile {source : Path} {parent there : Location} {name base : RawText}
    {r : Disk.Found} {content : List UInt8} (hplace : d.NamesPlace path parent name)
    (hsource : d.NamesPlace source there base)
    (hfile : d.nodes[there.child base]? = some (.file content))
    (hr : d.find path = .ok r) (hoff : r.Off (there.child base))
    (hremove : d.removeFile source = .ok e) (h : Shared path file d) : Shared path file e := by
  obtain rfl := Except.ok.inj ((Disk.removeFile_of_file hsource hfile).symm.trans hremove)
  exact h.frame hplace (Disk.agreeOff_drop d _) (.inr ⟨content, hfile⟩)
    (.inl (by simp [Disk.nodes_drop])) hr hoff

/-! ## What the operations do to the disk -/

/-- The disk is changed by replacing the file of the cache only, and the cache stays in its place. -/
structure Replacing (w w' : Workspace) : Prop where
  disk : Replaced w.cache.path w.cache.number w.disk w'.disk
  path_eq : w'.cache.path = w.cache.path
  number_eq : w'.cache.number = w.cache.number

namespace Replacing

theorem refl (w : Workspace) : Replacing w w := ⟨.refl, rfl, rfl⟩

theorem trans (h : Replacing w w') (h' : Replacing w' w'') : Replacing w w'' := by
  obtain ⟨hdisk, hpath, hnumber⟩ := h'
  rw [h.path_eq, h.number_eq] at hdisk
  exact ⟨h.disk.trans hdisk, hpath.trans h.path_eq, hnumber.trans h.number_eq⟩

end Replacing

namespace Cache

theorem loaded_replacing (w : Workspace) (loading : Trouble) :
    Replacing w ((loaded loading).run w).2 := by
  obtain ⟨disk, hreplaced, hrun⟩ := loaded_mapping w loading
  rw [hrun]
  exact ⟨hreplaced, rfl, rfl⟩

theorem commit_replacing (w : Workspace) (m : Entries) (writing : Trouble) :
    Replacing w ((commit m writing).run w).2 := by
  obtain ⟨result, disk, entries?, hreplaced, hrun, -⟩ := commit_mapping w m writing
  rw [hrun]
  exact ⟨hreplaced, rfl, rfl⟩

theorem holds_replacing (w : Workspace) (key digest : String) (loading : Trouble) :
    Replacing w ((holds key digest loading).run w).2 := by
  unfold holds
  rw [run_bind]
  exact loaded_replacing w loading

theorem insert_replacing (w : Workspace) (key digest : String) (loading writing : Trouble) :
    Replacing w ((insert key digest loading writing).run w).2 := by
  unfold insert
  rw [run_bind]
  exact (loaded_replacing w loading).trans (commit_replacing _ _ _)

theorem erase_replacing (w : Workspace) (key : String) (loading writing : Trouble) :
    Replacing w ((erase key loading writing).run w).2 := by
  unfold erase
  rw [run_bind]
  refine (loaded_replacing w loading).trans ?_
  split
  · simp only [run_bind, run_pure]
    exact commit_replacing _ _ _
  · exact .refl _

end Cache

end

end ForeignModule
