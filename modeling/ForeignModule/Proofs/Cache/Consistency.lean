import ForeignModule.Cache
import ForeignModule.Proofs.Cache.Entries

/-!
# Memory and file of the cache

`Cache.Consistent` is the invariant of what is done under the lock: the file holds a mapping, and the
cache has that mapping in memory or nothing yet. Reading the cache keeps the mapping (`loaded_run`), and
a change of it is made in both places or in none (`commit_run`).
-/

namespace ForeignModule

/-! ## Keys -/

namespace Disk

variable {d : Disk} {source other : Path}

theorem wholePath_of_canonicalize {path : Path} (h : d.canonicalize source = .ok path) :
    d.wholePath source = path := by
  rw [wholePath, h]

theorem wholePath_of_fault {fault : Fault} (h : d.canonicalize source = .error fault) :
    d.wholePath source = d.spelledPath source := by
  rw [wholePath, h]

theorem key_of_canonicalize {path : Path} (h : d.canonicalize source = .ok path) :
    d.key source = path.shown := by
  rw [key, wholePath_of_canonicalize h]

/-- Paths that are texts have keys of their own. -/
theorem eq_of_key_eq {place place' : String} (h : d.canonicalize source = .ok place)
    (h' : d.canonicalize other = .ok place') (hkey : d.key source = d.key other) :
    place = place' := by
  rwa [key_of_canonicalize h, key_of_canonicalize h', RawText.shown_bytes,
    RawText.shown_bytes] at hkey

end Disk

namespace Cache

open Routine

/-- The cache of this path and number has this mapping: its file holds it, and so does the memory as
soon as anything is there. A file that is missing holds no entries. -/
structure Consistent (path : Path) (number : Nat) (file : Option (List UInt8)) (m : Entries)
    (w : Workspace) : Prop where
  path_eq : w.cache.path = path
  number_eq : w.cache.number = number
  held : CacheFile path number file w.disk
  inFile : Entries.inFile? file = some m
  memory : ∀ m', w.cache.entries? = some m' → m' = m

/-- The file is what it was. Only if nothing of the cache has been in memory yet, it may have been made
without entries where none was. -/
inductive Unchanged (w : Workspace) (file : Option (List UInt8)) : Option (List UInt8) → Prop where
  | same : Unchanged w file file
  | made (missing : file = none) (unread : w.cache.entries? = none) :
    Unchanged w file (some (Text.bytes (Entries.text ∅)))

theorem run_onDisk {α : Type} (r : Routine Disk α) (w : Workspace) :
    (Workspace.onDisk r).run w = ((r.run w.disk).1, { w with disk := (r.run w.disk).2 }) := by
  unfold Workspace.onDisk
  exact run_within (by intros; rfl) (by intros; rfl) (by intros; rfl) r w

section

variable {path : Path} {number : Nat} {file : Option (List UInt8)} {m : Entries} {w : Workspace}

/-- What is read from the file is the mapping. -/
theorem Consistent.load_eq (h : Consistent path number file m w) :
    Entries.load w.cache.path w.disk = .ok (file.map fun _ => m) := by
  have hreads := h.held.reads
  have hin := h.inFile
  rw [h.path_eq, Entries.load]
  cases file with
  | none =>
    rw [hreads]
    rfl
  | some content =>
    rw [hreads]
    simp only [reading]
    rw [show (Text.decode? content).bind Entries.ofText? = some m from hin]
    rfl

/-- A mapping that is written is in the file, or everything is as it was. -/
theorem persist_run (h : Consistent path number file m w) (m' : Entries) (trouble : Trouble) :
    ∃ result disk, (Workspace.onDisk
        (Entries.persist m' w.cache.path w.cache.number trouble).run).run w
          = (result, { w with disk }) ∧
      match result with
      | .ok () => CacheFile path number (some (Text.bytes m'.text)) disk
      | .error _ => CacheFile path number file disk := by
  obtain rfl := h.path_eq
  obtain rfl := h.number_eq
  have hleaves := persist_leaves m' trouble w.disk h.held
  rw [run_onDisk]
  refine ⟨_, _, rfl, ?_⟩
  generalize (Entries.persist m' w.cache.path w.cache.number trouble).run.run w.disk = outcome
    at hleaves ⊢
  obtain ⟨_ | _, disk⟩ := outcome <;> exact hleaves

/-- Reading the cache brings the mapping into memory, and changes nothing. -/
theorem loaded_run (h : Consistent path number file m w) (loading : Trouble) :
    ∃ w', (loaded loading).run w = (m, w') ∧ w'.cache.entries? = some m ∧
      ∃ file', Unchanged w file file' ∧ Consistent path number file' m w' := by
  unfold loaded
  rw [run_bind, run_ask]
  cases hmemory : w.cache.entries? with
  | some m' =>
    obtain rfl := h.memory m' hmemory
    exact ⟨w, rfl, hmemory, file, .same, h⟩
  | none =>
    have hmem : ∀ m', some m = some m' → m' = m := fun m' hm' => (Option.some.inj hm').symm
    simp only [run_bind, run_ask, h.load_eq]
    cases file with
    | some content =>
      exact ⟨_, rfl, rfl, some content, .same, h.path_eq, h.number_eq, h.held, h.inFile, hmem⟩
    | none =>
      -- There is no file, so there are no entries, and a file without any may be made.
      obtain rfl : ∅ = m := Option.some.inj h.inFile
      obtain ⟨result, disk, hrun, hdisk⟩ := persist_run h ∅ loading
      simp only [Option.map_none, run_bind, hrun, run_pure, run_change]
      refine ⟨_, rfl, rfl, ?_⟩
      cases result with
      | ok _ =>
        exact ⟨_, .made rfl hmemory, h.path_eq, h.number_eq, hdisk, Entries.inFile?_text ∅, hmem⟩
      | error e => exact ⟨none, .same, h.path_eq, h.number_eq, hdisk, h.inFile, hmem⟩

/-- A change is made in the file and in memory, or in neither. -/
theorem commit_run (h : Consistent path number file m w) (m' : Entries) (writing : Trouble) :
    ∃ result w', (commit m' writing).run w = (result, w') ∧
      match result with
      | .ok () => Consistent path number (some (Text.bytes m'.text)) m' w'
      | .error _ => Consistent path number file m w' ∧ w'.cache.entries? = w.cache.entries? := by
  obtain ⟨result, disk, hrun, hdisk⟩ := persist_run h m' writing
  unfold commit
  simp only [run_bind, run_ask, hrun]
  cases result with
  | ok _ =>
    exact ⟨_, _, rfl, h.path_eq, h.number_eq, hdisk, Entries.inFile?_text m',
      fun _ hm => (Option.some.inj hm).symm⟩
  | error e =>
    exact ⟨_, _, rfl, ⟨h.path_eq, h.number_eq, hdisk, h.inFile, h.memory⟩, rfl⟩

/-! ## Under the lock -/

theorem holds_run (h : Consistent path number file m w) (key digest : String) (loading : Trouble) :
    ∃ w', (holds key digest loading).run w = (m[key]? == some digest, w') ∧
      ∃ file', Unchanged w file file' ∧ Consistent path number file' m w' := by
  obtain ⟨w', hrun, -, hloaded⟩ := loaded_run h loading
  refine ⟨w', ?_, hloaded⟩
  unfold holds
  rw [run_bind, hrun]
  rfl

/-- A digest that is kept is in the mapping, and nothing else has changed there. -/
theorem insert_run (h : Consistent path number file m w) (key digest : String)
    (loading writing : Trouble) :
    ∃ result w', (insert key digest loading writing).run w = (result, w') ∧
      match result with
      | .ok () => ∃ file', Consistent path number file' (m.insert key digest) w'
      | .error _ => ∃ file', Unchanged w file file' ∧ Consistent path number file' m w' := by
  obtain ⟨w', hrun, -, file', hsame, hw'⟩ := loaded_run h loading
  obtain ⟨result, w'', hcommit, hw''⟩ := commit_run hw' (m.insert key digest) writing
  refine ⟨result, w'', ?_, ?_⟩
  · unfold insert
    rw [run_bind, hrun]
    exact hcommit
  · cases result with
    | ok _ => exact ⟨_, hw''⟩
    | error e => exact ⟨file', hsame, hw''.1⟩

/-- What is dropped is no longer in the mapping, and nothing else has changed there. -/
theorem erase_run (h : Consistent path number file m w) (key : String)
    (loading writing : Trouble) :
    ∃ result w', (erase key loading writing).run w = (result, w') ∧
      match result with
      | .ok true => ∃ file', Consistent path number file' (m.erase key) w'
      | _ => ∃ file', Unchanged w file file' ∧ Consistent path number file' m w' := by
  obtain ⟨w', hrun, -, file', hsame, hw'⟩ := loaded_run h loading
  unfold erase
  rw [run_bind, hrun]
  by_cases hkey : m.contains key = true
  · obtain ⟨result, w'', hcommit, hw''⟩ := commit_run hw' (m.erase key) writing
    simp only [hkey, if_true, run_bind, hcommit]
    refine ⟨_, w'', rfl, ?_⟩
    cases result with
    | ok _ => exact ⟨_, hw''⟩
    | error e => exact ⟨file', hsame, hw''.1⟩
  · simp only [hkey, if_false, Bool.false_eq_true]
    exact ⟨_, w', rfl, file', hsame, hw'⟩

end

end Cache

end ForeignModule
