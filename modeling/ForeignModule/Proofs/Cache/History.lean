import ForeignModule.Proofs.Cache.RoundTrip
import ForeignModule.Proofs.Cache.Shared
import ForeignModule.Proofs.Digest.Content

/-!
# What the cache has been told

A history tells what is done with a cache, one thing after another: sources are recorded and
forgotten, the disk is changed elsewhere, as by writing and removing sources (`History.written`,
`History.removed`), and from time to time another program opens the cache. Its events are what has
been recorded and forgotten under which keys.

`Remembers` is the invariant: the cache and its file hold the digest of what was recorded last under each
key, unless that has been forgotten since (`History.remembers`). So a source is skipped exactly if it contains
what was recorded for it last (`shouldSkip_history`). Sources that are shown alike are one for the cache, and
its file must not be cut off when it is replaced (`shouldSkip_otherwise`).
-/

namespace ForeignModule

open Routine

namespace Cache

/-! ## Events -/

/-- What a cache has been told. -/
inductive Event where
  | recorded (key : String) (content : List UInt8)
  | forgotten (key : String)
deriving DecidableEq, Repr

/-- The key that an event is about. -/
def Event.key : Event → String
  | recorded key _ => key
  | forgotten key => key

/-- This content was recorded under the key, and nothing has been recorded or forgotten there since. -/
def Latest (log : List Event) (key : String) (content : List UInt8) : Prop :=
  ∃ before after, log = before ++ .recorded key content :: after ∧ ∀ e ∈ after, e.key ≠ key

section Latest

variable {log : List Event} {event : Event} {key : String} {content : List UInt8}

theorem not_latest_nil : ¬ Latest [] key content := by
  rintro ⟨before, after, h, -⟩
  simp at h

theorem Latest.mem (h : Latest log key content) : .recorded key content ∈ log := by
  obtain ⟨before, after, rfl, -⟩ := h
  simp

/-- The last event decides about its own key, and about no other. -/
theorem latest_concat : Latest (log ++ [event]) key content
    ↔ event = .recorded key content ∨ event.key ≠ key ∧ Latest log key content := by
  constructor
  · rintro ⟨before, after, hlog, hafter⟩
    -- The recording is the new event itself, or the new event is the last one behind it.
    rcases List.eq_nil_or_concat after with rfl | ⟨init, last, rfl⟩
    · obtain ⟨-, hevent⟩ := List.append_inj' hlog rfl
      exact .inl (List.cons.inj hevent).1
    · have hsplit : log ++ [event] = (before ++ .recorded key content :: init) ++ [last] := by
        simpa using hlog
      obtain ⟨rfl, hevent⟩ := List.append_inj' hsplit rfl
      obtain rfl := (List.cons.inj hevent).1
      refine .inr ⟨hafter _ (by simp), before, init, rfl, ?_⟩
      intro e he
      exact hafter e (by simp [he])
  · rintro (rfl | ⟨hother, before, after, rfl, hafter⟩)
    · exact ⟨log, [], rfl, by simp⟩
    · refine ⟨before, after ++ [event], by simp, ?_⟩
      intro e he
      rcases List.mem_append.1 he with he | he
      · exact hafter e he
      · rwa [List.mem_singleton.1 he]

end Latest

/-! ## Histories -/

/-- What can happen to a cache, one thing at a time, with what it has been told on the way. Whoever
changes the disk leaves the file of the cache alone: that is how sources are edited and removed. Writing the
file may meet any trouble; a source counts as recorded or forgotten only where that succeeds. -/
inductive History (path : Path) (w₀ : Workspace) : Workspace → List Event → Prop where
  | start : History path w₀ w₀ []
  | changed {w : Workspace} {log : List Event} {disk : Disk} (h : History path w₀ w log)
      (untouched : ∀ file, Shared path file w.disk → Shared path file disk) :
      History path w₀ { w with disk } log
  | reopened {w : Workspace} {log : List Event} (number : Nat) (h : History path w₀ w log) :
      History path w₀ { w with cache := .ofPath path number } log
  | asked {w w' : Workspace} {log : List Event} {source : Path} {loading : Trouble} {skip : Bool}
      (h : History path w₀ w log) (run : (shouldSkip source loading).run w = (skip, w')) :
      History path w₀ w' log
  | listed {w w' : Workspace} {log : List Event} {loading : Trouble} {m : Entries}
      (h : History path w₀ w log) (run : (entries loading).run w = (m, w')) :
      History path w₀ w' log
  | recorded {w w' : Workspace} {log : List Event} {source : Path} {loading writing : Trouble}
      {content : List UInt8} (h : History path w₀ w log) (read : w.disk.read source = .ok content)
      (run : (record source loading writing).run w = (.ok (), w')) :
      History path w₀ w' (log ++ [.recorded (w.disk.key source) content])
  | notRecorded {w w' : Workspace} {log : List Event} {source : Path} {loading writing : Trouble}
      {e : CacheError} (h : History path w₀ w log)
      (run : (record source loading writing).run w = (.error e, w')) : History path w₀ w' log
  | forgotten {w w' : Workspace} {log : List Event} {source : Path} {loading writing : Trouble}
      {removed : Bool} (h : History path w₀ w log)
      (run : (forget source loading writing).run w = (.ok removed, w')) :
      History path w₀ w' (log ++ [.forgotten (w.disk.key source)])
  | notForgotten {w w' : Workspace} {log : List Event} {source : Path} {loading writing : Trouble}
      {e : CacheError} (h : History path w₀ w log)
      (run : (forget source loading writing).run w = (.error e, w')) : History path w₀ w' log

section Sources

variable {path source : Path} {w₀ w : Workspace} {log : List Event} {parent there : Location}
  {name base : RawText} {r : Disk.Found} {content : List UInt8} {disk : Disk}

/-- A source is written. -/
theorem History.written (h : History path w₀ w log) (hplace : w.disk.NamesPlace path parent name)
    (hsource : w.disk.NamesPlace source there base) (hfree : w.disk.Inert (there.child base))
    (hr : w.disk.find path = .ok r) (hoff : r.Off (there.child base))
    (hwrite : w.disk.write source content = .ok disk) : History path w₀ { w with disk } log := by
  refine .changed h ?_
  intro file hshared
  exact hshared.write hplace hsource hfree hr hoff hwrite

/-- A source is removed. -/
theorem History.removed (h : History path w₀ w log) (hplace : w.disk.NamesPlace path parent name)
    (hsource : w.disk.NamesPlace source there base)
    (hfile : w.disk.nodes[there.child base]? = some (.file content))
    (hr : w.disk.find path = .ok r) (hoff : r.Off (there.child base))
    (hremove : w.disk.removeFile source = .ok disk) : History path w₀ { w with disk } log := by
  refine .changed h ?_
  intro file hshared
  exact hshared.removeFile hplace hsource hfile hr hoff hremove

end Sources

/-! ## The invariant -/

/-- Under each key stands the digest of what was recorded there last. -/
def Tells (m : Entries) (log : List Event) : Prop :=
  ∀ key digest, m[key]? = some digest
    ↔ ∃ content, Latest log key content ∧ Digest.ofContent content = .ok digest

/-- The cache and its file hold what the cache has been told, for this program and for any other one. -/
structure Remembers (path : Path) (log : List Event) (w : Workspace) : Prop where
  exists_mapping : ∃ file m, Consistent path w.cache.number file m w ∧ Shared path file w.disk ∧
    Tells m log

section Invariant

variable {path : Path} {w w' : Workspace} {log : List Event} {m : Entries} {key digest : String}
  {content : List UInt8} {source : Path} {file file' : Option (List UInt8)}

theorem tells_nil : Tells ∅ [] := by
  intro key digest
  rw [Std.ExtTreeMap.getElem?_empty]
  constructor
  · intro h
    cases h
  · rintro ⟨content, h, -⟩
    exact absurd h not_latest_nil

theorem Tells.insert (h : Tells m log) (hdigest : Digest.ofContent content = .ok digest) :
    Tells (m.insert key digest) (log ++ [.recorded key content]) := by
  intro key' digest'
  rw [Std.ExtTreeMap.getElem?_insert]
  by_cases hkey : key = key'
  · subst hkey
    simp [latest_concat, Event.key, hdigest]
  · have hother : ¬ compare key key' = .eq := by simpa using hkey
    simp [latest_concat, Event.key, hkey, h key' digest']

theorem Tells.erase (h : Tells m log) : Tells (m.erase key) (log ++ [.forgotten key]) := by
  intro key' digest'
  rw [Std.ExtTreeMap.getElem?_erase]
  by_cases hkey : key = key'
  · subst hkey
    simp [latest_concat, Event.key]
  · simp [latest_concat, Event.key, hkey, h key' digest']

/-- What an operation does to the disk is known to all programs. -/
theorem Remembers.of_replacing (hpath : w.cache.path = path) (hshared : Shared path file w.disk)
    (hreplacing : Replacing w w') (hconsistent : Consistent path w.cache.number file' m w')
    (htells : Tells m log) : Remembers path log w' := by
  obtain ⟨hdisk, -, hnumber⟩ := hreplacing
  rw [hpath] at hdisk
  obtain ⟨file'', hshared'⟩ := hshared.replaced hdisk
  -- The file is the same for the program itself and for the others.
  obtain rfl := hshared'.unique hconsistent.held
  rw [← hnumber] at hconsistent
  exact ⟨_, m, hconsistent, hshared', htells⟩

theorem shouldSkip_of_digest (h : w.disk.digest source = .ok digest) (loading : Trouble) :
    (shouldSkip source loading).run w = (holds (w.disk.key source) digest loading).run w := by
  simp only [shouldSkip, run_bind, run_ask, h, run_atomically]

theorem shouldSkip_of_fault {fault : Fault} (h : w.disk.digest source = .error fault)
    (loading : Trouble) : (shouldSkip source loading).run w = (false, w) := by
  simp only [shouldSkip, run_bind, run_ask, h, run_pure]

/-- A source is skipped exactly if the cache has the digest of its content. -/
theorem shouldSkip_iff_mapping (w : Workspace) (source : Path) (loading : Trouble) :
    ((shouldSkip source loading).run w).1 = true ↔
      ∃ digest, w.disk.digest source = .ok digest ∧
        w.mapping[w.disk.key source]? = some digest := by
  cases hdigest : w.disk.digest source with
  | error fault =>
    rw [shouldSkip_of_fault hdigest]
    simp
  | ok digest =>
    obtain ⟨disk, -, hloaded⟩ := loaded_mapping w loading
    rw [shouldSkip_of_digest hdigest, holds, run_bind, hloaded, run_pure]
    simp

theorem record_of_digest (h : w.disk.digest source = .ok digest) (loading writing : Trouble) :
    (record source loading writing).run w
      = (insert (w.disk.key source) digest loading writing).run w := by
  simp only [record, run_bind, run_ask, h, run_atomically]

theorem forget_eq (w : Workspace) (source : Path) (loading writing : Trouble) :
    (forget source loading writing).run w = (erase (w.disk.key source) loading writing).run w := by
  simp only [forget, run_bind, run_ask, run_atomically]

/-- Dropping a key succeeds only if nothing is kept under it afterwards. -/
theorem erase_ok {number : Nat} {loading writing : Trouble} {removed : Bool}
    (h : Consistent path number file m w)
    (hrun : (erase key loading writing).run w = (.ok removed, w')) :
    ∃ file', Consistent path number file' (m.erase key) w' := by
  obtain ⟨w₁, hloaded, -, file', -, hw₁⟩ := loaded_run h loading
  unfold erase at hrun
  rw [run_bind, hloaded] at hrun
  by_cases hkey : m.contains key = true
  · obtain ⟨result, w₂, hcommit, hw₂⟩ := commit_run hw₁ (m.erase key) writing
    simp only [hkey, if_true, run_bind, hcommit, run_pure] at hrun
    obtain ⟨hresult, rfl⟩ := Prod.mk.inj hrun
    cases result with
    | error e => cases hresult
    | ok _ => exact ⟨_, hw₂⟩
  · -- Nothing is kept under the key, so there is nothing to write.
    have hsame : m.erase key = m := Entries.erase_eq_self ((Bool.not_eq_true _).mp hkey)
    simp only [hkey, if_false, Bool.false_eq_true, run_pure] at hrun
    obtain ⟨-, rfl⟩ := Prod.mk.inj hrun
    exact ⟨file', hsame.symm ▸ hw₁⟩

end Invariant

/-! ## Steps -/

section Steps

variable {path : Path} {w w' : Workspace} {log : List Event} {source : Path}
  {loading writing : Trouble}

namespace Remembers

/-- What lies elsewhere on the disk is of no concern to the cache. -/
theorem changed {disk : Disk} (h : Remembers path log w)
    (untouched : ∀ file, Shared path file w.disk → Shared path file disk) :
    Remembers path log { w with disk } := by
  obtain ⟨file, m, hconsistent, hshared, htells⟩ := h
  have hshared' := untouched file hshared
  exact ⟨file, m, ⟨hconsistent.path_eq, rfl, hshared' _, hconsistent.inFile, hconsistent.memory⟩,
    hshared', htells⟩

/-- Another program finds in the file what the cache has been told. -/
theorem reopened (number : Nat) (h : Remembers path log w) :
    Remembers path log { w with cache := .ofPath path number } := by
  obtain ⟨file, m, hconsistent, hshared, htells⟩ := h
  -- It has nothing in memory yet, so that all there is to know is in the file.
  refine ⟨file, m, ⟨rfl, rfl, hshared number, hconsistent.inFile, ?_⟩, hshared, htells⟩
  intro m' hm'
  cases hm'

theorem asked {skip : Bool} (h : Remembers path log w)
    (run : (shouldSkip source loading).run w = (skip, w')) : Remembers path log w' := by
  obtain ⟨file, m, hconsistent, hshared, htells⟩ := id h
  cases hdigest : w.disk.digest source with
  | error fault =>
    rw [shouldSkip_of_fault hdigest] at run
    cases run
    exact h
  | ok digest =>
    rw [shouldSkip_of_digest hdigest] at run
    have hreplacing := holds_replacing w (w.disk.key source) digest loading
    obtain ⟨w₁, hrun, file', -, hw₁⟩ := holds_run hconsistent (w.disk.key source) digest loading
    rw [run] at hreplacing hrun
    cases hrun
    exact .of_replacing hconsistent.path_eq hshared hreplacing hw₁ htells

theorem listed {m : Entries} (h : Remembers path log w)
    (run : (entries loading).run w = (m, w')) : Remembers path log w' := by
  obtain ⟨file, m, hconsistent, hshared, htells⟩ := h
  have hreplacing := loaded_replacing w loading
  obtain ⟨w₁, hrun, -, file', -, hw₁⟩ := loaded_run hconsistent loading
  have hloaded : (loaded loading).run w = (_, w') := run
  rw [hloaded] at hreplacing hrun
  cases hrun
  exact .of_replacing hconsistent.path_eq hshared hreplacing hw₁ htells

theorem recorded {content : List UInt8} (h : Remembers path log w)
    (read : w.disk.read source = .ok content)
    (run : (record source loading writing).run w = (.ok (), w')) :
    Remembers path (log ++ [.recorded (w.disk.key source) content]) w' := by
  obtain ⟨file, m, hconsistent, hshared, htells⟩ := h
  obtain ⟨digest, hdigest⟩ := Digest.exists_ofContent content
  rw [record_of_digest ((Disk.digest_of_read read).trans hdigest)] at run
  have hreplacing := insert_replacing w (w.disk.key source) digest loading writing
  obtain ⟨result, w₁, hrun, hw₁⟩ :=
    insert_run hconsistent (w.disk.key source) digest loading writing
  rw [run] at hreplacing hrun
  cases hrun
  obtain ⟨file', hw₁⟩ := hw₁
  exact .of_replacing hconsistent.path_eq hshared hreplacing hw₁ (htells.insert hdigest)

theorem notRecorded {e : CacheError} (h : Remembers path log w)
    (run : (record source loading writing).run w = (.error e, w')) : Remembers path log w' := by
  obtain ⟨file, m, hconsistent, hshared, htells⟩ := id h
  cases hdigest : w.disk.digest source with
  | error fault =>
    simp only [record, run_bind, run_ask, hdigest, run_pure] at run
    cases run
    exact h
  | ok digest =>
    rw [record_of_digest hdigest] at run
    have hreplacing := insert_replacing w (w.disk.key source) digest loading writing
    obtain ⟨result, w₁, hrun, hw₁⟩ :=
      insert_run hconsistent (w.disk.key source) digest loading writing
    rw [run] at hreplacing hrun
    cases hrun
    obtain ⟨file', -, hw₁⟩ := hw₁
    exact .of_replacing hconsistent.path_eq hshared hreplacing hw₁ htells

theorem forgotten {removed : Bool} (h : Remembers path log w)
    (run : (forget source loading writing).run w = (.ok removed, w')) :
    Remembers path (log ++ [.forgotten (w.disk.key source)]) w' := by
  obtain ⟨file, m, hconsistent, hshared, htells⟩ := h
  rw [forget_eq] at run
  have hreplacing := erase_replacing w (w.disk.key source) loading writing
  rw [run] at hreplacing
  obtain ⟨file', hw₁⟩ := erase_ok hconsistent run
  exact .of_replacing hconsistent.path_eq hshared hreplacing hw₁ htells.erase

theorem notForgotten {e : CacheError} (h : Remembers path log w)
    (run : (forget source loading writing).run w = (.error e, w')) : Remembers path log w' := by
  obtain ⟨file, m, hconsistent, hshared, htells⟩ := h
  rw [forget_eq] at run
  have hreplacing := erase_replacing w (w.disk.key source) loading writing
  obtain ⟨result, w₁, hrun, hw₁⟩ := erase_run hconsistent (w.disk.key source) loading writing
  rw [run] at hreplacing hrun
  cases hrun
  obtain ⟨file', -, hw₁⟩ := hw₁
  exact .of_replacing hconsistent.path_eq hshared hreplacing hw₁ htells

end Remembers

end Steps

/-! ## Skipping -/

section Skipping

variable {path : Path} {number : Nat} {w₀ w : Workspace} {log : List Event}

/-- From a cache that has no file on, nothing that has been told is lost. -/
theorem History.remembers (hstart : w₀.cache = .ofPath path number)
    (hfile : Shared path none w₀.disk) (h : History path w₀ w log) : Remembers path log w := by
  induction h with
  | start =>
    refine ⟨none, ∅, ⟨by rw [hstart]; rfl, rfl, hfile _, rfl, ?_⟩, hfile, tells_nil⟩
    intro m hm
    rw [hstart] at hm
    cases hm
  | changed _ untouched ih => exact ih.changed untouched
  | reopened number _ ih => exact ih.reopened number
  | asked _ run ih => exact ih.asked run
  | listed _ run ih => exact ih.listed run
  | recorded _ read run ih => exact ih.recorded read run
  | notRecorded _ run ih => exact ih.notRecorded run
  | forgotten _ run ih => exact ih.forgotten run
  | notForgotten _ run ih => exact ih.notForgotten run

/-- Digests tell what a source contains from whatever was recorded. -/
def Telling (log : List Event) (w : Workspace) (source : Path) : Prop :=
  ∀ key old new, .recorded key old ∈ log → w.disk.read source = .ok new →
    Digest.ofContent old = Digest.ofContent new → old = new

theorem Remembers.skip_iff {source : Path} (h : Remembers path log w) (htelling : Telling log w source)
    (loading : Trouble) : ((shouldSkip source loading).run w).1 = true
      ↔ ∃ content place, w.disk.read source = .ok content ∧
        w.disk.canonicalize source = .ok place ∧ Latest log place.shown content := by
  obtain ⟨file, m, hconsistent, -, htells⟩ := h
  cases hread : w.disk.read source with
  | error fault =>
    rw [shouldSkip_of_fault (Disk.digest_of_fault hread)]
    simp
  | ok content =>
    obtain ⟨digest, hdigest⟩ := Digest.exists_ofContent content
    obtain ⟨place, hplace⟩ := Disk.canonicalize_of_read hread
    obtain ⟨w₁, hrun, -⟩ := holds_run hconsistent place.shown digest loading
    rw [shouldSkip_of_digest ((Disk.digest_of_read hread).trans hdigest),
      Disk.key_of_canonicalize hplace, hrun, hplace]
    have hsame : (m[place.shown]? == some digest) = true ↔ m[place.shown]? = some digest := by simp
    rw [hsame, htells]
    constructor
    · -- The digest that is kept is one of a content that was recorded.
      rintro ⟨old, hlatest, hold⟩
      obtain rfl := htelling _ old content hlatest.mem hread (hold.trans hdigest.symm)
      exact ⟨old, place, rfl, rfl, hlatest⟩
    · rintro ⟨content', place', hcontent, hplace', hlatest⟩
      obtain rfl := Except.ok.inj hcontent
      obtain rfl := Except.ok.inj hplace'
      exact ⟨content, hlatest, hdigest⟩

/-- A source is skipped exactly if it can be read and contains what was recorded last for a path from the
root that is shown as its own, and that has not been forgotten. Once it is removed it is not skipped. -/
theorem shouldSkip_history {source : Path} (hstart : w₀.cache = .ofPath path number)
    (hfile : Shared path none w₀.disk) (h : History path w₀ w log)
    (htelling : Telling log w source) (loading : Trouble) :
    (((shouldSkip source loading).run w).1 = true
      ↔ ∃ content place, w.disk.read source = .ok content ∧
        w.disk.canonicalize source = .ok place ∧ Latest log place.shown content) ∧
    ∀ disk, w.disk.removeFile source = .ok disk →
      ((shouldSkip source loading).run { w with disk }).1 = false := by
  constructor
  · exact (h.remembers hstart hfile).skip_iff htelling loading
  · intro disk hremoved
    obtain ⟨fault, hread⟩ := Disk.read_of_removeFile hremoved
    have hdigest : { w with disk }.disk.digest source = .error fault := Disk.digest_of_fault hread
    rw [shouldSkip_of_fault hdigest]

/-! ### One history -/

/-- A disk with nothing but the directory of the cache. -/
def preparedDisk : Disk := (Disk.empty ["w"]).put "/w/.nativekit" .directory

theorem namesPlace_preparedDisk :
    preparedDisk.NamesPlace defaultPath "/w/.nativekit" "hash.json" :=
  ⟨by decide, by decide, [".", ".nativekit"], ⟨by decide, by decide, by decide, by decide⟩, by rfl⟩

theorem ne_link_preparedDisk (x : Location) (target : Path) :
    preparedDisk.nodes[x]? ≠ some (.link target) := by
  intro h
  have hempty : (Disk.empty ["w"]).nodes[x]? = some (.link target) := by
    rw [preparedDisk, Disk.nodes_put] at h
    split at h
    · cases h
    · exact h
  have hroot : ((Disk.mk ∅ Location.root).put "/w" .directory).nodes[x]?
      = some (.link target) := hempty
  rw [Disk.nodes_put] at hroot
  split at hroot <;> cases hroot

theorem shared_preparedDisk : Shared defaultPath none preparedDisk := fun _ =>
  .of_inert namesPlace_preparedDisk (by decide) fun target => ne_link_preparedDisk _ target

/-- A source lies on the disk, and nothing has been recorded for it. -/
def unrecorded : Workspace where
  disk := preparedDisk.put "/w/a.c" (.file [1])
  cache := .ofPath defaultPath 7

/-- The source has been recorded, and another program has opened the cache since. -/
def reopened : Workspace :=
  { ((record "a.c").run unrecorded).2 with cache := .ofPath defaultPath 8 }

/-- Recording is evaluated once, for all that is asked afterwards. -/
theorem run_unrecorded : ((record "a.c").run unrecorded).1.toOption = some () ∧
    (reopened.disk.read "./a.c").toOption = some [1] ∧
    (reopened.disk.canonicalize "./a.c").toOption = some "/w/a.c" ∧
    (reopened.disk.removeFile "./a.c").toOption.isSome = true := by
  decide +kernel

theorem history_reopened : History defaultPath ⟨preparedDisk, .ofPath defaultPath 7, []⟩ reopened
    [.recorded "/w/a.c" [1]] := by
  have hfile := namesPlace_preparedDisk.find_of_none (by decide)
  have hplace : preparedDisk.NamesPlace "a.c" "/w" "a.c" :=
    ⟨by decide, by decide, [], ⟨by decide, by decide, by decide, by decide⟩, by rfl⟩
  have hfree : preparedDisk.Inert (Location.child "/w" "a.c") := .inl (by decide)
  have hoff : (Disk.Found.absent "/w/.nativekit" "hash.json" false).Off (Location.child "/w" "a.c") := by
    simp only [Disk.Found.Off]
    decide
  have hwritten : History defaultPath ⟨preparedDisk, .ofPath defaultPath 7, []⟩ unrecorded [] :=
    .written .start namesPlace_preparedDisk hplace hfree hfile hoff
      (Disk.write_of_inert hplace hfree [1])
  have hread : unrecorded.disk.read "a.c" = .ok [1] := by rfl
  have hkey : unrecorded.disk.key "a.c" = "/w/a.c" := by rfl
  have hrecorded := hwritten.recorded hread (eq_of_toOption run_unrecorded.1)
  rw [hkey] at hrecorded
  exact hrecorded.reopened 8

/-- What one program has recorded is skipped by the next one, by whatever path the source is named, until it is
removed. -/
theorem shouldSkip_history_reopened : ∃ w log,
    History defaultPath ⟨preparedDisk, .ofPath defaultPath 7, []⟩ w log ∧
    w.cache = .ofPath defaultPath 8 ∧ ((shouldSkip "./a.c").run w).1 = true ∧
    ∃ disk, w.disk.removeFile "./a.c" = .ok disk ∧
      ((shouldSkip "./a.c").run { w with disk }).1 = false := by
  obtain ⟨-, hread, hkey, hremovable⟩ := run_unrecorded
  have htelling : Telling [.recorded "/w/a.c" [1]] reopened "./a.c" := by
    intro key old new hold hnew _
    obtain ⟨-, rfl⟩ := Event.recorded.inj (List.mem_singleton.1 hold)
    exact Except.ok.inj ((eq_ok_of_toOption hread).symm.trans hnew)
  obtain ⟨hskip, hremoved⟩ := shouldSkip_history rfl shared_preparedDisk history_reopened htelling {}
  obtain ⟨disk, hdisk⟩ := Option.isSome_iff_exists.1 hremovable
  refine ⟨reopened, _, history_reopened, rfl, hskip.2 ?_, disk, eq_ok_of_toOption hdisk,
    hremoved disk (eq_ok_of_toOption hdisk)⟩
  exact ⟨[1], "/w/a.c", eq_ok_of_toOption hread, eq_ok_of_toOption hkey, [], [], rfl, by simp⟩

/-! ### Where the cache says something else -/

open RawText (noText noTextEither)

/-- Another program opens the cache. -/
def next (w : Workspace) : Workspace :=
  { w with cache := .ofPath w.cache.path (w.cache.number + 1) }

/-- The source is recorded, but not skipped in the next program, though it contains what it did. -/
def Unremembered (w : Workspace) (source : Path) : Prop :=
  ∃ w', (record source).run w = (.ok (), w') ∧ w'.disk.digest source = w.disk.digest source ∧
    ((shouldSkip source).run (next w')).1 = false

/-- The path of the cache leads through the link that lies at its own end. -/
def beforeDetour : Workspace where
  disk := Entries.detour.put "/w/a.c" (.file [1])
  cache := .ofPath "x/hash.json/../hash.json" 7

/-- The path of the temporary file of the next program leads to the file of the cache. -/
def beforeLoop : Workspace where
  disk := ((Disk.empty ["w"]).put "/w/a.c" (.file [1])).put "/w/hash.json.8.tmp" (.link "hash.json")
  cache := .ofPath "hash.json" 7

/-- Two sources that are shown alike lie on the disk. -/
def shownAlike : Workspace where
  disk := ((Disk.empty ["w"]).put (Location.child "/w" noText) (.file [1])).put
    (Location.child "/w" noTextEither) (.file [1])
  cache := .ofPath "hash.json" 7

theorem unremembered {w : Workspace} {source : Path}
    (h : ((record source).run w).1.toOption = some () ∧ (w.disk.digest source).toOption.isSome ∧
      (((record source).run w).2.disk.digest source).toOption =
        (w.disk.digest source).toOption ∧
      ((shouldSkip source).run (next ((record source).run w).2)).1 = false) :
    Unremembered w source := by
  obtain ⟨hrecord, hdigest, hsame, hskip⟩ := h
  obtain ⟨digest, hdigest⟩ := Option.isSome_iff_exists.1 hdigest
  rw [hdigest] at hsame
  exact ⟨_, eq_of_toOption hrecord,
    (eq_ok_of_toOption hsame).trans (eq_ok_of_toOption hdigest).symm, hskip⟩

/-- Where there is no file of the cache at first, a source may be forgotten because the file is cut off when
it is replaced, and a source may be skipped because another one was recorded that is shown alike. -/
theorem shouldSkip_otherwise :
    (beforeDetour.disk.isFile beforeDetour.cache.path = false ∧ Unremembered beforeDetour "a.c") ∧
    (beforeLoop.disk.isFile beforeLoop.cache.path = false ∧
      ∃ w, (record "a.c").run beforeLoop = (.ok (), w) ∧ Unremembered (next w) "a.c") ∧
    (shownAlike.disk.isFile shownAlike.cache.path = false ∧
      ∃ w, (record noText).run shownAlike = (.ok (), w) ∧
        w.disk.canonicalize noText = .ok (Location.child "/w" noText) ∧
        w.disk.canonicalize noTextEither = .ok (Location.child "/w" noTextEither) ∧
        ((shouldSkip noTextEither).run w).1 = true) := by
  refine ⟨⟨by decide +kernel, ?_⟩, ⟨by decide +kernel, ?_⟩, by decide +kernel, ?_⟩
  · exact unremembered (by decide +kernel)
  · exact ⟨_, eq_of_toOption (by decide +kernel), unremembered (by decide +kernel)⟩
  · have hfacts : ((record noText).run shownAlike).1.toOption = some () ∧
        (((record noText).run shownAlike).2.disk.canonicalize noText).toOption
          = some (Location.child "/w" noText) ∧
        (((record noText).run shownAlike).2.disk.canonicalize noTextEither).toOption
          = some (Location.child "/w" noTextEither) ∧
        ((shouldSkip noTextEither).run ((record noText).run shownAlike).2).1 = true := by
      decide +kernel
    obtain ⟨hrecord, hplace, hplace', hskip⟩ := hfacts
    exact ⟨_, eq_of_toOption hrecord, eq_ok_of_toOption hplace, eq_ok_of_toOption hplace', hskip⟩

end Skipping

end Cache

end ForeignModule
