import ForeignModule.Proofs.Cache.Consistency
import ForeignModule.Proofs.Cache.Keeping

/-!
# What a cache holds, whatever lies on the disk

`Workspace.mapping` is what the cache has in memory, or else would find in its file. Nothing is
assumed here about that file: it may be missing, of no use, or not to be replaced. Recording
changes the mapping at the key of the source or not at all (`record_mapping`), and changes the
disk by replacing the file only (`Replaced`).
-/

namespace ForeignModule

open Routine

/-- The entries that the cache has in memory, or would find in its file. A file of no use has
none. -/
def Workspace.mapping (w : Workspace) : Entries :=
  match w.cache.entries? with
  | some m => m
  | none =>
    match Entries.load w.cache.path w.disk with
    | .ok (some m) => m
    | _ => ∅

/-- One disk comes from the other by replacing the file of the cache, any number of times and with
any trouble on the way. -/
inductive Replaced (path : Path) (number : Nat) (d : Disk) : Disk → Prop where
  | refl : Replaced path number d d
  | more {e : Disk} (h : Replaced path number d e) (m : Entries) (t : Trouble) :
      Replaced path number d ((Entries.persist m path number t).run.run e).2

section

variable {path : Path} {number : Nat} {d e : Disk} {w w' : Workspace} {m : Entries}

theorem Replaced.trans {f : Disk} (h : Replaced path number d e) (h' : Replaced path number e f) :
    Replaced path number d f := by
  induction h' with
  | refl => exact h
  | more _ m t ih => exact .more ih m t

/-- What has other names than the files of the cache stays. -/
theorem Replaced.keepsOthers {front : List RawText} {name : RawText} {names : RawText → Prop}
    (h : Replaced path number d e) (hends : path.EndsIn front name) (hname : names name)
    (htemporary : names (Entries.temporaryName name number)) (hlinks : d.NoLinks names) :
    KeepsOthers path number names d e := by
  induction h with
  | refl => exact ⟨hlinks, fun p _ => .refl d p⟩
  | @more e _ m t ih =>
    have hkeeps := persist_keeps hends hname htemporary m t e ih
    generalize (Entries.persist m path number t).run.run e = outcome at hkeeps ⊢
    obtain ⟨error | _, f⟩ := outcome
    · exact hkeeps
    · exact hkeeps.1

theorem mapping_of_memory (h : w.cache.entries? = some m) : w.mapping = m := by
  rw [Workspace.mapping, h]

/-- The mapping depends on what is in memory and on what is read from the file. -/
theorem mapping_congr (hcache : w'.cache = w.cache)
    (hread : w.cache.entries? = none → w'.disk.read w.cache.path = w.disk.read w.cache.path) :
    w'.mapping = w.mapping := by
  unfold Workspace.mapping Entries.load
  rw [hcache]
  cases h : w.cache.entries? with
  | some m => rfl
  | none => rw [hread h]

namespace Cache

/-- Reading the cache brings its mapping into memory. -/
theorem loaded_mapping (w : Workspace) (loading : Trouble) :
    ∃ disk, Replaced w.cache.path w.cache.number w.disk disk ∧
      (loaded loading).run w
        = (w.mapping, { w with disk, cache := { w.cache with entries? := some w.mapping } }) := by
  cases hmemory : w.cache.entries? with
  | some m =>
    have hsame : { w with cache := { w.cache with entries? := some m } } = w := by rw [← hmemory]
    refine ⟨w.disk, .refl, ?_⟩
    rw [mapping_of_memory hmemory, hsame, loaded, run_bind, run_ask, hmemory]
    rfl
  | none =>
    unfold loaded
    simp only [run_bind, run_ask, Workspace.mapping, hmemory]
    cases hload : Entries.load w.cache.path w.disk with
    | error e => exact ⟨w.disk, .refl, rfl⟩
    | ok m? =>
      cases m? with
      | some m => exact ⟨w.disk, .refl, rfl⟩
      | none =>
        -- A file of no use is replaced by one without entries, or at least that is tried.
        refine ⟨_, .more .refl ∅ loading, ?_⟩
        simp only [run_bind, run_onDisk, run_pure, run_change]

/-- Changed entries are in memory if they could be written. -/
theorem commit_mapping (w : Workspace) (m : Entries) (writing : Trouble) :
    ∃ result disk entries?, Replaced w.cache.path w.cache.number w.disk disk ∧
      (commit m writing).run w = (result, { w with disk, cache := { w.cache with entries? } }) ∧
      (entries? = w.cache.entries? ∨ entries? = some m) := by
  have hreplaced : Replaced w.cache.path w.cache.number w.disk _ := .more .refl m writing
  unfold commit
  simp only [run_bind, run_ask, run_onDisk]
  generalize (Entries.persist m w.cache.path w.cache.number writing).run.run w.disk = outcome
    at hreplaced ⊢
  obtain ⟨e | _, disk⟩ := outcome
  · exact ⟨_, disk, w.cache.entries?, hreplaced, rfl, .inl rfl⟩
  · exact ⟨_, disk, some m, hreplaced, rfl, .inr rfl⟩

/-- Recording changes the mapping at the key of the source, to the digest of its content, or not at
all. What is in memory is not lost from there. -/
theorem record_mapping (w : Workspace) (source : Path) (loading writing : Trouble) :
    ∃ result w', (record source loading writing).run w = (result, w') ∧ w'.ran = w.ran ∧
      Replaced w.cache.path w.cache.number w.disk w'.disk ∧
      ((w.cache.entries?).isSome = true → (w'.cache.entries?).isSome = true) ∧
      (w'.mapping = w.mapping ∨ ∃ digest, w.disk.digest source = .ok digest ∧
        w'.mapping = w.mapping.insert (w.disk.key source) digest) := by
  unfold record
  rw [run_bind, run_ask]
  cases hdigest : w.disk.digest source with
  | error fault => exact ⟨_, w, rfl, rfl, .refl, id, .inl rfl⟩
  | ok digest =>
    obtain ⟨disk, hloaded, hrun⟩ := loaded_mapping w loading
    obtain ⟨result, disk', entries?, hcommitted, hrun', hentries⟩ :=
      commit_mapping { w with disk, cache := { w.cache with entries? := some w.mapping } }
        (w.mapping.insert (w.disk.key source) digest) writing
    refine ⟨result, { w with disk := disk', cache := { w.cache with entries? } }, ?_, rfl,
      hloaded.trans hcommitted, fun _ => ?_, ?_⟩
    · simp only [run_bind, run_ask, run_atomically, insert, hrun, hrun']
    · rcases hentries with rfl | rfl <;> rfl
    · -- The new entries are in memory only if they could be written.
      rcases hentries with hsame | hnew
      · exact .inl (mapping_of_memory hsame)
      · exact .inr ⟨digest, rfl, mapping_of_memory hnew⟩

end Cache

end

end ForeignModule
