import ForeignModule.Proofs.Cache.Beside
import ForeignModule.Proofs.Cache.History
import ForeignModule.Proofs.Threads
import Mathlib.Logic.Function.Basic

/-!
# Programs that share the file of the cache

Any number of programs run at a time, and each has a cache of its own on one file. A program reads the
file when it first asks its cache, and never again; when it records, it writes all that it has in
memory to the file. No lock keeps programs apart: between any two steps of one on the disk, another one
may take some of its own.

* `Programs.Site` is what they work on. It also has notes of who has read and who has replaced the file,
  which no program looks at;
* `Programs.shouldSkip` and `Programs.record` are what a program does. Without the notes they are, step
  by step, `Cache.shouldSkip` and `Cache.record` without their lock (`erases_shouldSkip`,
  `erases_record`), and where nobody comes between the lock makes no difference (`run_shouldSkip`,
  `run_record`);
* `Programs.Step` is what happens: a program takes a step, or something that belongs to none of them is
  changed on the disk, as where a source is edited (`elsewhere_write`).
-/

namespace ForeignModule.Programs

open Routine Disk Entries Relation

/-! ## Notes -/

/-- A digest, behind the key under which it has been stored. -/
abbrev Stored := String × String

/-- What programs do to the file of the cache. -/
inductive Note where
  /-- A program has found a file with entries when it first asked its cache. -/
  | opened (number : Nat)
  /-- A program has replaced the file: by one without anything, where there was none at first, or to
  store a digest. -/
  | replaced (number : Nat) (stored? : Option Stored)
deriving DecidableEq, Repr

/-- What has been stored with this note. -/
def Note.stored? : Note → Option Stored
  | .opened _ => none
  | .replaced _ stored? => stored?

/-- All digests that have been stored, in order. -/
def recorded (notes : List Note) : List Stored := notes.filterMap Note.stored?

/-! ## Programs -/

/-- What programs work on: a disk, and the entries that each has in memory. -/
structure Site where
  disk : Disk
  memory : Nat → Option Entries := fun _ => none
  notes : List Note := []

namespace Site

/-- The workspace that a program sees. -/
def workspace (path : Path) (number : Nat) (s : Site) : Workspace where
  disk := s.disk
  cache := { path, number, entries? := s.memory number }

/-- Something done to the disk. -/
def onDisk {α : Type} (r : Routine Disk α) : Routine Site α :=
  r.within Site.disk fun s disk => { s with disk }

theorem onDisk_act {α : Type} (f : Disk → α × Disk) :
    onDisk (act f) = act fun s => ((f s.disk).1, { s with disk := (f s.disk).2 }) := rfl

/-- A program has these entries in memory from now on. -/
def keep (number : Nat) (m : Entries) (s : Site) : Site :=
  { s with memory := Function.update s.memory number (some m) }

/-- The site behind a routine that nobody disturbs. -/
def after {α : Type} (r : Routine Site α) (s : Site) : Site := (r.run s).2

/-- Something is noted. -/
def note (n : Note) (s : Site) : Site := { s with notes := s.notes ++ [n] }

end Site

section

variable (path : Path) (number : Nat)

/-- Moves the temporary file into place, and notes it. -/
def rename (stored? : Option Stored) (trouble : Option Fault) :
    Routine Site (Except CacheError Unit) :=
  act fun s =>
    match Trouble.instead trouble (·.rename (temporaryPath path number) path) s.disk with
    | .ok disk => (.ok (), { s with disk }.note (.replaced number stored?))
    | .error fault => (.error (.disk path fault), s)

/-- Moves the temporary file into place. If that fails the file is removed. -/
def moveInto (stored? : Option Stored) (trouble : Option Fault) :
    Routine Site (Except CacheError Unit) := do
  match ← rename path number stored? trouble with
  | .ok () => return .ok ()
  | .error e =>
    let _ ← Site.onDisk (attempt (·.removeFile (temporaryPath path number)))
    return .error e

/-- Replaces the file by one with these entries. -/
def replace (m : Entries) (stored? : Option Stored) (t : Trouble) :
    ExceptT CacheError (Routine Site) Unit := do
  .mk (Site.onDisk (makeDirectory path t.directory).run)
  let temporary := temporaryPath path number
  .mk (Site.onDisk (step temporary (Trouble.instead t.create (·.write temporary []))).run)
  .mk (Site.onDisk (writeContent temporary (Text.bytes m.text) t.write).run)
  .mk (Site.onDisk (step temporary (Trouble.instead t.sync .ok)).run)
  .mk (moveInto path number stored? t.rename)

/-- The entries in the file, and a note if there are any. -/
def opened : Routine Site (Except CacheError (Option Entries)) :=
  act fun s =>
    match Entries.load path s.disk with
    | .ok (some m) => (.ok (some m), s.note (.opened number))
    | result => (result, s)

/-- The entries of a program, from the file if it has not read them yet. -/
def loaded (loading : Trouble) : Routine Site Entries := do
  match ← ask (·.memory number) with
  | some m => return m
  | none =>
    let _ ← ask (Site.workspace path number)
    let m ← match ← opened path number with
      | .ok (some m) => pure m
      | .ok none =>
        let _ ← (replace path number ∅ none loading).run
        pure ∅
      | .error _ => pure ∅
    change (Site.keep number m)
    return m

/-- Stores a digest. -/
def insert (s : Stored) (loading writing : Trouble) : Routine Site (Except CacheError Unit) := do
  let m := (← loaded path number loading).insert s.1 s.2
  let _ ← ask (Site.workspace path number)
  match ← (replace path number m (some s) writing).run with
  | .error e => return .error e
  | .ok () =>
    change (Site.keep number m)
    return .ok ()

/-- Asks whether a source has the content that was recorded for it. -/
def shouldSkip (source : Path) (loading : Trouble) : Routine Site Bool := do
  match ← ask (·.disk.digest source) with
  | .error _ => return false
  | .ok digest =>
    let key ← ask (·.disk.key source)
    return (← loaded path number loading)[key]? == some digest

/-- Records the content of a source. -/
def record (source : Path) (loading writing : Trouble) :
    Routine Site (Except CacheError Unit) := do
  match ← ask (·.disk.digest source) with
  | .error fault => return .error (.disk source fault)
  | .ok digest =>
    let key ← ask (·.disk.key source)
    insert path number (key, digest) loading writing

/-- What a program uses its cache for. -/
inductive Use where
  | ask (source : Path) (loading : Trouble)
  | record (source : Path) (loading writing : Trouble)

/-- What a program does, one thing after another. -/
def program : List Use → Routine Site Unit
  | [] => pure ()
  | .ask source loading :: rest => do
    let _ ← shouldSkip path number source loading
    program rest
  | .record source loading writing :: rest => do
    let _ ← record path number source loading writing
    program rest

end

/-! ## What happens to programs -/

/-- Somebody changes the disk, but neither the file of the cache nor what a program has written beside
it. -/
structure Elsewhere (path : Path) (d e : Disk) : Prop where
  shared : ∀ file, Shared path file d → Shared path file e
  lies : ∀ number content, Lies path number content d → Lies path number content e

/-- A source is written. -/
theorem elsewhere_write {path source : Path} {parent there : Location} {name base : RawText}
    {r : Found} {content : List UInt8} {d e : Disk} (hplace : d.NamesPlace path parent name)
    (hr : d.find path = .ok r) (hoff : r.Off (there.child base))
    (hsource : d.NamesPlace source there base) (hfree : d.Inert (there.child base))
    (hbeside : ∀ number, parent.child (temporaryName name number) ≠ there.child base)
    (hwrite : d.write source content = .ok e) : Elsewhere path d e := by
  have hshared : ∀ file, Shared path file d → Shared path file e := fun file h =>
    h.write hplace hsource hfree hr hoff hwrite
  refine ⟨hshared, fun number written hlies => ?_⟩
  obtain ⟨file, h⟩ := hlies.shared
  obtain rfl := Except.ok.inj ((write_of_inert hsource hfree content).symm.trans hwrite)
  have hagree := agreeOff_put d (there.child base) (.file content)
  refine hlies.frame (hshared file h) hagree (fun _ _ hp => hp.frame hagree hfree)
    (fun _ _ hp => hp.frame hagree hfree) fun parent' name' hp => ?_
  obtain ⟨rfl, rfl⟩ := hplace.unique hp
  exact hbeside number

/-- A program takes a step, or something changes elsewhere on the disk, as where sources are edited. -/
inductive Step (path : Path) :
    List (Routine Site Unit) × Site → List (Routine Site Unit) × Site → Prop where
  | turn {p q : List (Routine Site Unit) × Site} (h : Turn p q) : Step path p q
  | edit {rs : List (Routine Site Unit)} {s : Site} {disk : Disk}
    (h : Elsewhere path s.disk disk) : Step path (rs, s) (rs, { s with disk })

theorem steps_of_turns (path : Path) {p q : List (Routine Site Unit) × Site}
    (h : ReflTransGen Turn p q) : ReflTransGen (Step path) p q :=
  h.lift id fun _ _ hturn => .turn hturn

/-- Programs that are about to start, with their numbers. -/
def programs (path : Path) (uses : List (List Use)) : List (Routine Site Unit) :=
  uses.mapIdx (program path)

/-- What comes of programs that start on a disk. -/
def Reaches (path : Path) (uses : List (List Use)) (d : Disk) (rs : List (Routine Site Unit))
    (s : Site) : Prop :=
  ReflTransGen (Step path) (programs path uses, { disk := d }) (rs, s)

/-! ## Without the notes -/

/-- Step by step the first routine does to what a program sees what the second one does, and it leaves
alone what the other programs have in memory. -/
inductive Erases (path : Path) (number : Nat) {α : Type} :
    Routine Site α → Routine Workspace α → Prop where
  | done (a : α) : Erases path number (.done a) (.done a)
  | step {update : Site → Site} {next : Site → Routine Site α} {update' : Workspace → Workspace}
    {next' : Workspace → Routine Workspace α}
    (own : ∀ s, (update s).workspace path number = update' (s.workspace path number))
    (others : ∀ s, ∀ other ≠ number, (update s).memory other = s.memory other)
    (rest : ∀ s, Erases path number (next s) (next' (s.workspace path number))) :
    Erases path number (.step update next) (.step update' next')

namespace Erases

variable {path : Path} {number : Nat} {α β γ δ : Type}

theorem bind {r : Routine Site α} {r' : Routine Workspace α} {k : α → Routine Site β}
    {k' : α → Routine Workspace β} (h : Erases path number r r')
    (hk : ∀ a, Erases path number (k a) (k' a)) : Erases path number (r >>= k) (r' >>= k') := by
  show Erases path number (r.bind k) (r'.bind k')
  induction h with
  | done a => exact hk a
  | step own others _ ih => exact .step own others ih

/-- Where nobody comes between, both bring the same, and leave the same for the program. -/
theorem run {r : Routine Site α} {r' : Routine Workspace α} (h : Erases path number r r') (s : Site) :
    (r.run s).1 = (r'.run (s.workspace path number)).1 ∧
      (r.run s).2.workspace path number = (r'.run (s.workspace path number)).2 := by
  induction h generalizing s with
  | done a => exact ⟨rfl, rfl⟩
  | step own _ _ ih =>
    simp only [Routine.run]
    rw [← own s]
    exact ih s _

theorem ask_bind {f : Site → γ} {f' : Workspace → δ} {k : γ → Routine Site α}
    {k' : δ → Routine Workspace α}
    (h : ∀ s, Erases path number (k (f s)) (k' (f' (s.workspace path number)))) :
    Erases path number (ask f >>= k) (ask f' >>= k') :=
  .step (fun _ => rfl) (fun _ _ _ => rfl) h

theorem act {f : Site → α × Site} {f' : Workspace → α × Workspace}
    (hresult : ∀ s, (f s).1 = (f' (s.workspace path number)).1)
    (hown : ∀ s, (f s).2.workspace path number = (f' (s.workspace path number)).2)
    (hothers : ∀ s, ∀ other ≠ number, (f s).2.memory other = s.memory other) :
    Erases path number (act f) (act f') := by
  refine .step hown hothers fun s => ?_
  rw [hresult s]
  exact .done _

theorem onDisk (r : Routine Disk α) : Erases path number (Site.onDisk r) (Workspace.onDisk r) := by
  induction r with
  | done a => exact .done a
  | step update next ih => exact .step (fun _ => rfl) (fun _ _ _ => rfl) fun s => ih s.disk

theorem keep (m : Entries) : Erases path number (change (Site.keep number m))
    (change fun w => { w with cache := { w.cache with entries? := some m } }) := by
  refine .step (fun s => ?_) (fun s other hother => Function.update_of_ne hother _ _) fun _ => .done ()
  show Workspace.mk s.disk ⟨path, number, Function.update s.memory number (some m) number⟩ [] = _
  rw [Function.update_self]
  rfl

/-- A routine that goes on behind one that succeeds. -/
theorem bind_except {ε : Type} {r : ExceptT ε (Routine Site) α}
    {r' : ExceptT ε (Routine Workspace) α} {k : α → ExceptT ε (Routine Site) β}
    {k' : α → ExceptT ε (Routine Workspace) β} (h : Erases path number r.run r'.run)
    (hk : ∀ a, Erases path number (k a).run (k' a).run) :
    Erases path number (r >>= k).run (r' >>= k').run := by
  rw [ExceptT.run_bind, ExceptT.run_bind]
  refine h.bind fun result => ?_
  cases result with
  | error e => exact .done _
  | ok a => exact hk a

end Erases

section

variable {path : Path} {number : Nat} {α β ε : Type}

theorem erases_rename (stored? : Option Stored) (trouble : Option Fault) :
    Erases path number (rename path number stored? trouble) (Workspace.onDisk
      (Entries.step path (Trouble.instead trouble (·.rename (temporaryPath path number) path))).run) := by
  show Erases path number (act _) (act fun w => ((_ : Except CacheError Unit), _))
  refine .act (fun s => ?_) (fun s => ?_) fun s other _ => ?_
  · dsimp only [Site.workspace]
    cases Trouble.instead trouble (·.rename (temporaryPath path number) path) s.disk <;> rfl
  · dsimp only [Site.workspace]
    cases Trouble.instead trouble (·.rename (temporaryPath path number) path) s.disk <;> rfl
  · cases Trouble.instead trouble (·.rename (temporaryPath path number) path) s.disk <;> rfl

theorem erases_moveInto (stored? : Option Stored) (trouble : Option Fault) :
    Erases path number (moveInto path number stored? trouble)
      (Workspace.onDisk (Entries.moveInto (temporaryPath path number) path trouble).run) := by
  show Erases path number (rename path number stored? trouble >>= _)
    (Workspace.onDisk ((Entries.step path _).run >>= _))
  rw [Workspace.onDisk, within_bind]
  refine .bind (erases_rename stored? trouble) fun result => ?_
  cases result with
  | ok _ => exact .done _
  | error e =>
    let failed : Except CacheError Unit := .error e
    let remove : Routine Disk (Except Fault Unit) :=
      attempt (·.removeFile (temporaryPath path number))
    show Erases path number _ (Workspace.onDisk (remove >>= fun _ => pure failed))
    rw [Workspace.onDisk, within_bind]
    exact .bind (.onDisk remove) fun _ => .done failed

theorem erases_replace (m : Entries) (stored? : Option Stored) (t : Trouble) :
    Erases path number (replace path number m stored? t).run
      (Workspace.onDisk (persist m path number t).run) := by
  unfold replace persist
  simp only [Workspace.onDisk, within_bind_except]
  refine .bind_except (.onDisk _) fun _ => ?_
  refine .bind_except (.onDisk _) fun _ => ?_
  refine .bind_except (.onDisk _) fun _ => ?_
  refine .bind_except (.onDisk _) fun _ => ?_
  exact erases_moveInto stored? t.rename

theorem erases_opened : Erases path number (opened path number)
    (ask fun w => Entries.load path w.disk) := by
  show Erases path number (act _) (act fun w => (Entries.load path w.disk, w))
  refine .act (fun s => ?_) (fun s => ?_) fun s other _ => ?_
  · show Prod.fst (match Entries.load path s.disk with
      | .ok (some m) => (.ok (some m), s.note (.opened number))
      | result => (result, s)) = Entries.load path s.disk
    split
    · simp_all
    · rfl
  · split <;> rfl
  · split <;> rfl

theorem erases_loaded (loading : Trouble) :
    Erases path number (loaded path number loading) (Cache.loaded loading) := by
  have hkept : ∀ m, Erases path number (change (Site.keep number m) >>= fun _ => pure m)
      ((change fun w => { w with cache := { w.cache with entries? := some m } }) >>= fun _ =>
        pure m) :=
    fun m => .bind (.keep m) fun _ => .done m
  unfold loaded Cache.loaded
  refine .ask_bind fun s => ?_
  show Erases path number (match s.memory number with | some m => _ | none => _)
    (match s.memory number with | some m => _ | none => _)
  cases s.memory number with
  | some m => exact .done m
  | none =>
    refine .ask_bind fun s => .bind erases_opened fun result => ?_
    match result with
    | .ok (some m) => exact hkept m
    | .ok none => exact .bind (erases_replace ∅ none loading) fun _ => hkept ∅
    | .error _ => exact hkept ∅

theorem erases_insert (stored : Stored) (loading writing : Trouble) :
    Erases path number (insert path number stored loading writing)
      (Cache.insert stored.1 stored.2 loading writing) := by
  unfold insert Cache.insert Cache.commit
  refine .bind (erases_loaded loading) fun m => .ask_bind fun s => ?_
  refine .bind (erases_replace _ (some stored) writing) fun result => ?_
  cases result with
  | error e => exact .done _
  | ok _ => exact .bind (.keep _) fun _ => .done _

/-! ### The whole operations -/

/-- `Cache.shouldSkip` without its lock, which other programs do not heed. -/
def unlockedShouldSkip (source : Path) (loading : Trouble) : Routine Workspace Bool := do
  match ← ask (·.disk.digest source) with
  | .error _ => return false
  | .ok digest =>
    let key ← ask (·.disk.key source)
    Cache.holds key digest loading

/-- `Cache.record` without its lock. -/
def unlockedRecord (source : Path) (loading writing : Trouble) :
    Routine Workspace (Except CacheError Unit) := do
  match ← ask (·.disk.digest source) with
  | .error fault => return .error (.disk source fault)
  | .ok digest =>
    let key ← ask (·.disk.key source)
    Cache.insert key digest loading writing

theorem run_unlockedShouldSkip (source : Path) (loading : Trouble) (w : Workspace) :
    (unlockedShouldSkip source loading).run w = (Cache.shouldSkip source loading).run w := by
  simp only [unlockedShouldSkip, Cache.shouldSkip, run_bind, run_ask]
  cases w.disk.digest source <;> rfl

theorem run_unlockedRecord (source : Path) (loading writing : Trouble) (w : Workspace) :
    (unlockedRecord source loading writing).run w
      = (Cache.record source loading writing).run w := by
  simp only [unlockedRecord, Cache.record, run_bind, run_ask]
  cases w.disk.digest source <;> rfl

theorem erases_shouldSkip (source : Path) (loading : Trouble) :
    Erases path number (shouldSkip path number source loading)
      (unlockedShouldSkip source loading) := by
  refine .ask_bind fun s => ?_
  show Erases path number (match s.disk.digest source with | .error _ => _ | .ok digest => _)
    (match s.disk.digest source with | .error _ => _ | .ok digest => _)
  cases s.disk.digest source with
  | error fault => exact .done false
  | ok digest => exact .ask_bind fun s => .bind (erases_loaded loading) fun m => .done _

theorem erases_record (source : Path) (loading writing : Trouble) :
    Erases path number (record path number source loading writing)
      (unlockedRecord source loading writing) := by
  refine .ask_bind fun s => ?_
  show Erases path number (match s.disk.digest source with | .error _ => _ | .ok digest => _)
    (match s.disk.digest source with | .error _ => _ | .ok digest => _)
  cases s.disk.digest source with
  | error fault => exact .done _
  | ok digest => exact .ask_bind fun s => erases_insert _ loading writing

/-- A program that nobody disturbs gets the answer that its cache gives. -/
theorem run_shouldSkip (source : Path) (loading : Trouble) (s : Site) :
    ((shouldSkip path number source loading).run s).1
        = ((Cache.shouldSkip source loading).run (s.workspace path number)).1 ∧
      ((shouldSkip path number source loading).run s).2.workspace path number
        = ((Cache.shouldSkip source loading).run (s.workspace path number)).2 := by
  rw [← run_unlockedShouldSkip]
  exact (erases_shouldSkip source loading).run s

theorem run_record (source : Path) (loading writing : Trouble) (s : Site) :
    ((record path number source loading writing).run s).1
        = ((Cache.record source loading writing).run (s.workspace path number)).1 ∧
      ((record path number source loading writing).run s).2.workspace path number
        = ((Cache.record source loading writing).run (s.workspace path number)).2 := by
  rw [← run_unlockedRecord]
  exact (erases_record source loading writing).run s

end

end ForeignModule.Programs
