import ForeignModule.Proofs.Cache.Programs
import ForeignModule.Proofs.Guarding

/-!
# What the file of the cache knows

What has been stored, as far as each program and the file know, follows from the notes of who has opened
and who has replaced the file (`Knowledge`): a program that opens the file learns what the file
knows, and the file knows what the program knows that has replaced it last.

* `Others` and `Own` say what a program relies on, and what the others rely on of its steps;
* `guards_program`: whatever the others do, a program does only what they expect, and has in memory
  what it knows;
* `Sound.step` and `Reaches.fine`: so the file holds what is known of it, whatever programs do;
* `shouldSkip_iff_known`: a program that starts then skips a source exactly if the latest recording that
  the file knows of under its key stored the digest of its content. What a program has recorded is lost on
  the others that have read the file before, and on the file when one of these replaces it, and sources
  that are shown alike have one key (`skipped_wrongly`).
-/

namespace ForeignModule.Programs

open Routine Disk Entries Relation

/-! ## What is known -/

/-- Entries with these digests, the last one on top. -/
def stored (m : Entries) (all : List Stored) : Entries := all.foldl (fun m s => m.insert s.1 s.2) m

/-- The digest that has been stored last under a key. -/
def latest? (all : List Stored) (key : String) : Option String :=
  (all.reverse.find? (·.1 == key)).map Prod.snd

/-- What has been stored, as far as the file and each program know, in order. -/
structure Knowledge where
  file : List Stored := []
  of : Nat → List Stored := fun _ => []

namespace Knowledge

/-- A program that opens the file knows what the file knows; a file knows what the program knows that
has replaced it. -/
def after (k : Knowledge) : Note → Knowledge
  | .opened number => { k with of := Function.update k.of number k.file }
  | .replaced number stored? =>
    { file := k.of number ++ stored?.toList
      of := Function.update k.of number (k.of number ++ stored?.toList) }

/-- What can be known from all notes. -/
def ofNotes (notes : List Note) : Knowledge := notes.foldl after {}

theorem ofNotes_concat (notes : List Note) (note : Note) :
    ofNotes (notes ++ [note]) = (ofNotes notes).after note := by
  rw [ofNotes, List.foldl_append]
  rfl

theorem of_opened (k : Knowledge) (number other : Nat) :
    (k.after (.opened number)).of other = if other = number then k.file else k.of other :=
  Function.update_apply k.of number k.file other

theorem of_replaced (k : Knowledge) (number other : Nat) (stored? : Option Stored) :
    (k.after (.replaced number stored?)).of other =
      if other = number then k.of number ++ stored?.toList else k.of other :=
  Function.update_apply k.of number (k.of number ++ stored?.toList) other

end Knowledge

theorem stored_concat (m : Entries) (all : List Stored) (s : Stored) :
    stored m (all ++ [s]) = (stored m all).insert s.1 s.2 := by
  rw [stored, List.foldl_append]
  rfl

/-- What has been stored last is what is kept, and else what was kept before. -/
theorem getElem?_stored (m : Entries) (all : List Stored) (key : String) :
    (stored m all)[key]? = (latest? all key).or m[key]? := by
  induction all using List.reverseRecOn with
  | nil => rfl
  | append_singleton all s ih =>
    rw [stored_concat, latest?, List.reverse_concat, List.find?_cons, Std.ExtTreeMap.getElem?_insert]
    by_cases hkey : s.1 = key
    · subst hkey
      simp
    · have hcompare : ¬compare s.1 key = .eq := by simpa using hkey
      rw [if_neg hcompare, ih, beq_false_of_ne hkey]
      rfl

/-- Only nothing is stored where there is nothing. -/
theorem eq_empty_of_stored {m : Entries} {all : List Stored} (h : stored m all = ∅) : m = ∅ := by
  cases all using List.reverseRecOn with
  | nil => exact h
  | append_singleton all s =>
    rw [stored_concat] at h
    have hkey : ((stored m all).insert s.1 s.2)[s.1]? = (∅ : Entries)[s.1]? := by rw [h]
    rw [Std.ExtTreeMap.getElem?_insert_self, Std.ExtTreeMap.getElem?_empty] at hkey
    cases hkey

/-! ## The file -/

/-- What a program finds in a file. One of no use counts as empty. -/
def entriesIn (file : Option (List UInt8)) : Entries := (inFile? file).getD ∅

theorem entriesIn_text (m : Entries) : entriesIn (some (Text.bytes m.text)) = m := by
  rw [entriesIn, inFile?_text]
  rfl

/-- What is read from the file. Nothing is found where there is no file, or where it is of no use. -/
theorem load_of_shared {path : Path} {file : Option (List UInt8)} {d : Disk}
    (h : Shared path file d) :
    Entries.load path d = .ok (some (entriesIn file)) ∨
      (Entries.load path d = .ok none ∨ ∃ e, Entries.load path d = .error e) ∧
        entriesIn file = ∅ := by
  have hreads := (h 0).reads
  cases file with
  | none =>
    refine .inr ⟨.inl ?_, rfl⟩
    rw [Entries.load, hreads]
    rfl
  | some content =>
    have hcontent : reading (some content) = .ok content := rfl
    rw [hcontent] at hreads
    rw [Entries.load, hreads, entriesIn, inFile?]
    dsimp only
    cases (Text.decode? content).bind ofText? with
    | some m => exact .inl rfl
    | none => exact .inr ⟨.inr ⟨_, rfl⟩, rfl⟩

/-- A program that has nothing in memory goes by what is in the file. -/
theorem mapping_of_shared {path : Path} {number : Nat} {file : Option (List UInt8)} {d : Disk}
    (h : Shared path file d) : Workspace.mapping ⟨d, .ofPath path number, []⟩ = entriesIn file := by
  have hnone : (Cache.ofPath path number).entries? = none := rfl
  have hpath : (Cache.ofPath path number).path = path := rfl
  unfold Workspace.mapping
  rw [hnone, hpath]
  rcases load_of_shared h with hload | ⟨hload | ⟨e, hload⟩, hempty⟩
  · rw [hload]
  · rw [hload, hempty]
  · rw [hload, hempty]

/-! ## What holds -/

section

variable (path : Path) (m₀ : Entries)

/-- The file is one for all programs, and holds what is known of it. -/
def Fine (s : Site) : Prop :=
  ∃ file, Shared path file s.disk ∧ entriesIn file = stored m₀ (Knowledge.ofNotes s.notes).file

/-- What a program relies on: the others leave alone what it has in memory, what it knows, and what it
has written beside the file. -/
structure Others (number : Nat) (s t : Site) : Prop where
  fine : Fine path m₀ s → Fine path m₀ t
  memory : t.memory number = s.memory number
  known : (Knowledge.ofNotes t.notes).of number = (Knowledge.ofNotes s.notes).of number
  lies : ∀ content, Lies path number content s.disk → Lies path number content t.disk

/-- What the steps of a program are for the others. -/
def Own (number : Nat) (s t : Site) : Prop := ∀ other ≠ number, Others path m₀ other s t

/-- The file is fine, and this is what a program knows and has in memory. -/
structure Sees (number : Nat) (known : List Stored) (memory : Option Entries) (s : Site) : Prop where
  fine : Fine path m₀ s
  known : (Knowledge.ofNotes s.notes).of number = known
  memory : s.memory number = memory

/-- And this content lies beside the file. -/
def SeesBeside (number : Nat) (known : List Stored) (memory : Option Entries) (content : List UInt8)
    (s : Site) : Prop :=
  Sees path m₀ number known memory s ∧ Lies path number content s.disk

/-- A program has these entries in memory, and they are what it knows. -/
def Holds (number : Nat) (m : Entries) (s : Site) : Prop :=
  ∃ known, Sees path m₀ number known (some m) s ∧ m = stored m₀ known

/-- A program has in memory what it knows, or has not asked its cache yet. -/
def Idle (number : Nat) (s : Site) : Prop :=
  Sees path m₀ number [] none s ∨ ∃ m, Holds path m₀ number m s

end

section

variable {path : Path} {m₀ m : Entries} {number : Nat} {known : List Stored}
  {memory : Option Entries} {content : List UInt8} {s t : Site} {disk : Disk}

theorem Sees.others (h : Sees path m₀ number known memory s) (hothers : Others path m₀ number s t) :
    Sees path m₀ number known memory t :=
  ⟨hothers.fine h.fine, hothers.known.trans h.known, hothers.memory.trans h.memory⟩

theorem stable_sees : Stable (Others path m₀ number) (Sees path m₀ number known memory) :=
  fun _ _ h hothers => h.others hothers

theorem stable_seesBeside :
    Stable (Others path m₀ number) (SeesBeside path m₀ number known memory content) :=
  fun _ _ h hothers => ⟨h.1.others hothers, hothers.lies content h.2⟩

theorem stable_holds : Stable (Others path m₀ number) (Holds path m₀ number m) :=
  fun _ _ ⟨known, h, hm⟩ hothers => ⟨known, h.others hothers, hm⟩

theorem stable_idle : Stable (Others path m₀ number) (Idle path m₀ number) := by
  rintro s t (h | ⟨m, h⟩) hothers
  · exact .inl (h.others hothers)
  · exact .inr ⟨m, stable_holds s t h hothers⟩

theorem Own.refl (s : Site) : Own path m₀ number s s := fun _ _ => ⟨id, rfl, rfl, fun _ h => h⟩

/-- A step that leaves the file as it is, and what other programs have written. -/
structure Aside (path : Path) (number : Nat) (d e : Disk) : Prop where
  shared : ∀ file, Shared path file d → Shared path file e
  lies : ∀ other ≠ number, ∀ content, Lies path other content d → Lies path other content e

theorem Fine.aside (h : Fine path m₀ s)
    (hshared : ∀ file, Shared path file s.disk → Shared path file disk) :
    Fine path m₀ { s with disk } := by
  obtain ⟨file, hfile, hentries⟩ := h
  exact ⟨file, hshared file hfile, hentries⟩

theorem Aside.own (h : Aside path number s.disk disk) : Own path m₀ number s { s with disk } :=
  fun other hother => ⟨fun hfine => hfine.aside h.shared, rfl, rfl, h.lies other hother⟩

theorem Aside.sees (h : Aside path number s.disk disk)
    (hsees : Sees path m₀ number known memory s) :
    Sees path m₀ number known memory { s with disk } :=
  ⟨hsees.fine.aside h.shared, hsees.known, hsees.memory⟩

/-! ### Steps on the disk -/

variable {before failed : Site → Prop} {after : Unit → Site → Prop}

/-- One step on the disk, which leaves it as it is if it fails. -/
theorem guards_step {blame : Path} {f : Disk → Except Fault Disk}
    (hbefore : Stable (Others path m₀ number) before)
    (hafter : ∀ a, Stable (Others path m₀ number) (after a))
    (hfailed : Stable (Others path m₀ number) failed) (hno : ∀ s, before s → failed s)
    (h : ∀ s disk, before s → f s.disk = .ok disk →
      Own path m₀ number s { s with disk } ∧ after () { s with disk }) :
    Guards (Others path m₀ number) (Own path m₀ number) before
      (Site.onDisk (Entries.step blame f).run) (Ends after failed) := by
  rw [Entries.step, ExceptT.run_mk, attempt, Site.onDisk_act]
  refine .act hbefore (Ends.stable hafter hfailed) fun s hs => ?_
  dsimp only
  cases hf : f s.disk with
  | error fault => exact ⟨.refl s, hno s hs⟩
  | ok disk => exact h s disk hs hf

theorem eq_ok_of_instead {trouble : Option Fault} {f : Disk → Except Fault Disk} {d e : Disk}
    (h : Trouble.instead trouble f d = .ok e) : f d = .ok e := by
  cases trouble with
  | some fault => cases h
  | none => exact h

theorem guards_makeDirectory (trouble : Option Fault) :
    Guards (Others path m₀ number) (Own path m₀ number) (Sees path m₀ number known memory)
      (Site.onDisk (makeDirectory path trouble).run)
      (Ends (fun _ => Sees path m₀ number known memory) (Sees path m₀ number known memory)) := by
  have hstable : ∀ result : Except CacheError Unit, Stable (Others path m₀ number)
      (Ends (fun _ => Sees path m₀ number known memory) (Sees path m₀ number known memory) result) :=
    Ends.stable (fun _ => stable_sees) stable_sees
  unfold Entries.makeDirectory
  cases hdirectory : path.directory? with
  | none => exact .pure (hstable (.ok ())) fun _ hs => hs
  | some directory =>
    cases trouble with
    | some fault => exact .pure (hstable (.error _)) fun _ hs => hs
    | none =>
      show Guards _ _ _ (act fun s : Site =>
        ((s.disk.makeDirectories directory).1.mapError (CacheError.disk directory),
          { s with disk := (s.disk.makeDirectories directory).2 })) _
      refine .act stable_sees hstable fun s hs => ?_
      have haside : Aside path number s.disk (s.disk.makeDirectories directory).2 :=
        ⟨fun _ h => h.makeDirectories hdirectory, fun _ _ _ h => h.makeDirectories hdirectory⟩
      refine ⟨haside.own, ?_⟩
      have hsees := haside.sees hs
      dsimp only
      cases (s.disk.makeDirectories directory).1 <;> exact hsees

/-- What is written to the temporary path lies beside the file. -/
theorem Sees.write (hsees : Sees path m₀ number known memory s)
    (hwrite : s.disk.write (temporaryPath path number) content = .ok disk) :
    Own path m₀ number s { s with disk } ∧
      SeesBeside path m₀ number known memory content { s with disk } := by
  obtain ⟨file, hshared, -⟩ := hsees.fine
  obtain ⟨hshared', hbeside, hlies⟩ := hshared.writeTemporary hwrite
  have haside : Aside path number s.disk disk :=
    ⟨fun file' h' => (h'.writeTemporary hwrite).1, hlies⟩
  exact ⟨haside.own, haside.sees hsees, file, hshared', hbeside⟩

theorem guards_create (trouble : Option Fault) :
    Guards (Others path m₀ number) (Own path m₀ number) (Sees path m₀ number known memory)
      (Site.onDisk (Entries.step (temporaryPath path number)
        (Trouble.instead trouble (·.write (temporaryPath path number) []))).run)
      (Ends (fun _ => SeesBeside path m₀ number known memory [])
        (Sees path m₀ number known memory)) := by
  refine guards_step stable_sees (fun _ => stable_seesBeside) stable_sees (fun _ hs => hs) ?_
  intro s disk hs hwrite
  exact hs.write (eq_ok_of_instead hwrite)

theorem guards_write (content : List UInt8) :
    Guards (Others path m₀ number) (Own path m₀ number)
      (SeesBeside path m₀ number known memory [])
      (Site.onDisk (Entries.step (temporaryPath path number)
        (·.write (temporaryPath path number) content)).run)
      (Ends (fun _ => SeesBeside path m₀ number known memory content)
        (Sees path m₀ number known memory)) := by
  refine guards_step stable_seesBeside (fun _ => stable_seesBeside) stable_sees (fun _ hs => hs.1) ?_
  intro s disk hs hwrite
  exact hs.1.write hwrite

theorem guards_writeContent (trouble : Option (Nat × Fault)) :
    Guards (Others path m₀ number) (Own path m₀ number)
      (SeesBeside path m₀ number known memory [])
      (Site.onDisk (writeContent (temporaryPath path number) content trouble).run)
      (Ends (fun _ => SeesBeside path m₀ number known memory content)
        (Sees path m₀ number known memory)) := by
  cases trouble with
  | none => exact guards_write content
  | some trouble =>
    -- What has been written of the content is left behind.
    rw [writeContent, Site.onDisk, within_bind_except]
    exact (guards_write _).bind_except stable_sees fun _ => .pure stable_sees fun _ hs => hs.1

theorem guards_sync (trouble : Option Fault) :
    Guards (Others path m₀ number) (Own path m₀ number)
      (SeesBeside path m₀ number known memory content)
      (Site.onDisk (Entries.step (temporaryPath path number) (Trouble.instead trouble .ok)).run)
      (Ends (fun _ => SeesBeside path m₀ number known memory content)
        (Sees path m₀ number known memory)) := by
  refine guards_step stable_seesBeside (fun _ => stable_seesBeside) stable_sees (fun _ hs => hs.1) ?_
  intro s disk hs hok
  obtain rfl := Except.ok.inj (eq_ok_of_instead hok)
  exact ⟨.refl s, hs⟩

/-! ### Replacing the file -/

/-- The file is what a program has written, and knows what the program knows. -/
theorem SeesBeside.rename {stored? : Option Stored}
    (h : SeesBeside path m₀ number known memory (Text.bytes m.text) s)
    (hm : m = stored m₀ (known ++ stored?.toList))
    (hrename : s.disk.rename (temporaryPath path number) path = .ok disk) :
    Own path m₀ number s ({ s with disk }.note (.replaced number stored?)) ∧
      Sees path m₀ number (known ++ stored?.toList) memory
        ({ s with disk }.note (.replaced number stored?)) := by
  obtain ⟨hsees, hlies⟩ := h
  obtain ⟨hshared, hothers⟩ := hlies.rename hrename
  -- What the file knew before is not asked for: only the program's own knowledge counts from now on.
  have hknown : Knowledge.ofNotes (s.notes ++ [.replaced number stored?]) =
      (Knowledge.ofNotes s.notes).after (.replaced number stored?) := Knowledge.ofNotes_concat _ _
  have hfine : Fine path m₀ ({ s with disk }.note (.replaced number stored?)) := by
    refine ⟨_, hshared, ?_⟩
    show _ = stored m₀ (Knowledge.ofNotes (s.notes ++ [.replaced number stored?])).file
    rw [entriesIn_text, hm, hknown, Knowledge.after, hsees.known]
  refine ⟨fun other hother => ⟨fun _ => hfine, rfl, ?_, hothers other hother⟩, hfine, ?_, hsees.memory⟩
  · show (Knowledge.ofNotes (s.notes ++ [.replaced number stored?])).of other = _
    rw [hknown, Knowledge.of_replaced, if_neg hother]
  · show (Knowledge.ofNotes (s.notes ++ [.replaced number stored?])).of number = _
    rw [hknown, Knowledge.of_replaced, if_pos rfl, hsees.known]

theorem SeesBeside.removeFile (h : SeesBeside path m₀ number known memory content s)
    (hremove : s.disk.removeFile (temporaryPath path number) = .ok disk) :
    Own path m₀ number s { s with disk } ∧ Sees path m₀ number known memory { s with disk } := by
  obtain ⟨hshared, hlies⟩ := h.2.removeFile hremove
  have haside : Aside path number s.disk disk := ⟨hshared, hlies⟩
  exact ⟨haside.own, haside.sees h.1⟩

theorem guards_rename {stored? : Option Stored} (hm : m = stored m₀ (known ++ stored?.toList))
    (trouble : Option Fault) :
    Guards (Others path m₀ number) (Own path m₀ number)
      (SeesBeside path m₀ number known memory (Text.bytes m.text))
      (rename path number stored? trouble)
      (Ends (fun _ => Sees path m₀ number (known ++ stored?.toList) memory)
        (SeesBeside path m₀ number known memory (Text.bytes m.text))) := by
  refine .act stable_seesBeside (Ends.stable (fun _ => stable_sees) stable_seesBeside) fun s hs => ?_
  cases hmoved : Trouble.instead trouble (·.rename (temporaryPath path number) path) s.disk with
  | error fault => exact ⟨.refl s, hs⟩
  | ok disk => exact hs.rename hm (eq_ok_of_instead hmoved)

theorem guards_removeFile :
    Guards (Others path m₀ number) (Own path m₀ number)
      (SeesBeside path m₀ number known memory content)
      (Site.onDisk (attempt (·.removeFile (temporaryPath path number))))
      (fun _ => Sees path m₀ number known memory) := by
  rw [attempt, Site.onDisk_act]
  refine .act stable_seesBeside (fun _ => stable_sees) fun s hs => ?_
  cases hremoved : s.disk.removeFile (temporaryPath path number) with
  | error fault => exact ⟨.refl s, hs.1⟩
  | ok disk => exact hs.removeFile hremoved

theorem guards_moveInto {stored? : Option Stored} (hm : m = stored m₀ (known ++ stored?.toList))
    (trouble : Option Fault) :
    Guards (Others path m₀ number) (Own path m₀ number)
      (SeesBeside path m₀ number known memory (Text.bytes m.text))
      (moveInto path number stored? trouble)
      (Ends (fun _ => Sees path m₀ number (known ++ stored?.toList) memory)
        (Sees path m₀ number known memory)) := by
  refine (guards_rename hm trouble).bind fun result => ?_
  cases result with
  | ok _ => exact .pure stable_sees fun _ hs => hs
  | error e => exact guards_removeFile.bind fun _ => .pure stable_sees fun _ hs => hs

theorem guards_replace {stored? : Option Stored} (hm : m = stored m₀ (known ++ stored?.toList))
    (t : Trouble) :
    Guards (Others path m₀ number) (Own path m₀ number) (Sees path m₀ number known memory)
      (replace path number m stored? t).run
      (Ends (fun _ => Sees path m₀ number (known ++ stored?.toList) memory)
        (Sees path m₀ number known memory)) := by
  -- Up to the last step the program only writes beside the file, so that it may fail anywhere.
  refine (guards_makeDirectory t.directory).bind_except stable_sees fun _ => ?_
  refine (guards_create t.create).bind_except stable_sees fun _ => ?_
  refine (guards_writeContent t.write).bind_except stable_sees fun _ => ?_
  refine (guards_sync t.sync).bind_except stable_sees fun _ => ?_
  exact guards_moveInto hm t.rename

/-! ## Programs -/

/-- What a program has found when it has opened the file. -/
def Found (path : Path) (m₀ : Entries) (number : Nat) (result : Except CacheError (Option Entries))
    (s : Site) : Prop :=
  match result with
  | .ok (some m) => ∃ known, Sees path m₀ number known none s ∧ m = stored m₀ known
  | _ => Sees path m₀ number [] none s ∧ m₀ = ∅

theorem stable_found (result : Except CacheError (Option Entries)) :
    Stable (Others path m₀ number) (Found path m₀ number result) := by
  intro s t h hothers
  match result with
  | .ok (some m) =>
    obtain ⟨known, hsees, hm⟩ := h
    exact ⟨known, hsees.others hothers, hm⟩
  | .ok none => exact ⟨h.1.others hothers, h.2⟩
  | .error _ => exact ⟨h.1.others hothers, h.2⟩

/-- A program that opens the file knows what the file knows. -/
theorem Sees.open (h : Sees path m₀ number known memory s) :
    Own path m₀ number s (s.note (.opened number)) ∧
      Sees path m₀ number (Knowledge.ofNotes s.notes).file memory (s.note (.opened number)) := by
  have hknown : Knowledge.ofNotes (s.notes ++ [.opened number]) =
      (Knowledge.ofNotes s.notes).after (.opened number) := Knowledge.ofNotes_concat _ _
  have hfine : Fine path m₀ s → Fine path m₀ (s.note (.opened number)) := by
    rintro ⟨file, hshared, hentries⟩
    refine ⟨file, hshared, ?_⟩
    show _ = stored m₀ (Knowledge.ofNotes (s.notes ++ [.opened number])).file
    rw [hknown]
    exact hentries
  refine ⟨fun other hother => ⟨hfine, rfl, ?_, fun _ h => h⟩, hfine h.fine, ?_, h.memory⟩
  · show (Knowledge.ofNotes (s.notes ++ [.opened number])).of other = _
    rw [hknown, Knowledge.of_opened, if_neg hother]
  · show (Knowledge.ofNotes (s.notes ++ [.opened number])).of number = _
    rw [hknown, Knowledge.of_opened, if_pos rfl]

theorem guards_opened : Guards (Others path m₀ number) (Own path m₀ number)
    (Sees path m₀ number [] none) (opened path number) (Found path m₀ number) := by
  refine .act stable_sees stable_found fun s hs => ?_
  obtain ⟨file, hshared, hentries⟩ := hs.fine
  rcases load_of_shared hshared with hload | ⟨hload | ⟨e, hload⟩, hempty⟩
  · rw [hload]
    obtain ⟨hown, hsees⟩ := hs.open
    exact ⟨hown, _, hsees, hentries⟩
  -- Where nothing is found, nothing has ever been there.
  · rw [hload]
    exact ⟨.refl s, hs, eq_empty_of_stored (hentries.symm.trans hempty)⟩
  · rw [hload]
    exact ⟨.refl s, hs, eq_empty_of_stored (hentries.symm.trans hempty)⟩

theorem guards_keep (hm : m = stored m₀ known) : Guards (Others path m₀ number) (Own path m₀ number)
    (Sees path m₀ number known memory) (change (Site.keep number m))
    (fun _ => Holds path m₀ number m) := by
  refine .change stable_sees stable_holds fun s hs => ?_
  constructor
  · intro other hother
    exact ⟨fun h => h, Function.update_of_ne hother _ _, rfl, fun _ h => h⟩
  · exact ⟨known, ⟨hs.fine, hs.known, Function.update_self _ _ _⟩, hm⟩

/-- A program that looks at its memory finds what it knows there, or nothing. -/
theorem guards_memory : Guards (Others path m₀ number) (Own path m₀ number) (Idle path m₀ number)
    (ask (·.memory number)) fun memory s =>
      match memory with
      | some m => Holds path m₀ number m s
      | none => Sees path m₀ number [] none s := by
  refine .ask stable_idle (fun memory => ?_) fun s hs => ⟨.refl s, ?_⟩
  · cases memory with
    | some m => exact stable_holds
    | none => exact stable_sees
  · rcases hs with hsees | ⟨m, known, hsees, hm⟩
    · rw [hsees.memory]
      exact hsees
    · rw [hsees.memory]
      exact ⟨known, hsees, hm⟩

/-- Looking at the state changes nothing. -/
theorem guards_ask {α : Type} {f : Site → α} {before : Site → Prop}
    (hbefore : Stable (Others path m₀ number) before) :
    Guards (Others path m₀ number) (Own path m₀ number) before (ask f) fun _ => before :=
  .ask hbefore (fun _ => hbefore) fun s hs => ⟨.refl s, hs⟩

theorem guards_loaded (loading : Trouble) : Guards (Others path m₀ number) (Own path m₀ number)
    (Idle path m₀ number) (loaded path number loading) (Holds path m₀ number) := by
  have hkept : ∀ known m, m = stored m₀ known → Guards (Others path m₀ number) (Own path m₀ number)
      (Sees path m₀ number known none) (change (Site.keep number m) >>= fun _ => pure m)
      (Holds path m₀ number) := by
    intro known m hm
    exact (guards_keep hm).bind fun _ => .pure stable_holds fun _ hs => hs
  unfold loaded
  refine guards_memory.bind fun memory => ?_
  cases memory with
  | some m => exact .pure stable_holds fun _ hs => hs
  | none =>
    refine (guards_ask stable_sees).bind fun _ => guards_opened.bind fun result => ?_
    match result with
    | .ok (some m) => exact .exists_before fun known => .of_fact fun hm => hkept known m hm
    | .ok none =>
      -- A file without entries is made, or not: the program goes on with what it knows, nothing.
      refine .of_fact fun hempty => ?_
      have hm : ∅ = stored m₀ ([] ++ (none : Option Stored).toList) := by
        rw [hempty]
        rfl
      refine (guards_replace hm loading).bind fun result => ?_
      refine (hkept [] ∅ hm).imp (fun s hs => ?_) fun _ _ hs => hs
      cases result <;> exact hs
    | .error _ => exact .of_fact fun hempty => hkept [] ∅ hempty.symm

theorem guards_insert (s : Stored) (loading writing : Trouble) :
    Guards (Others path m₀ number) (Own path m₀ number) (Idle path m₀ number)
      (insert path number s loading writing) fun _ => Idle path m₀ number := by
  unfold insert
  refine (guards_loaded loading).bind fun m => ?_
  refine (guards_ask stable_holds).bind fun _ => .exists_before fun known => .of_fact fun hm => ?_
  have hinsert : m.insert s.1 s.2 = stored m₀ (known ++ (some s).toList) := by
    rw [hm]
    exact (stored_concat m₀ known s).symm
  refine (guards_replace hinsert writing).bind fun result => ?_
  cases result with
  | error e => exact .pure stable_idle fun _ hs => .inr ⟨m, known, hs, hm⟩
  | ok _ => exact (guards_keep hinsert).bind fun _ => .pure stable_idle fun _ hs => .inr ⟨_, hs⟩

theorem guards_shouldSkip (source : Path) (loading : Trouble) :
    Guards (Others path m₀ number) (Own path m₀ number) (Idle path m₀ number)
      (shouldSkip path number source loading) fun _ => Idle path m₀ number := by
  unfold shouldSkip
  refine (guards_ask stable_idle).bind fun result => ?_
  cases result with
  | error fault => exact .pure stable_idle fun _ hs => hs
  | ok digest =>
    refine (guards_ask stable_idle).bind fun key => (guards_loaded loading).bind fun m => ?_
    exact .pure stable_idle fun _ hs => .inr ⟨m, hs⟩

theorem guards_record (source : Path) (loading writing : Trouble) :
    Guards (Others path m₀ number) (Own path m₀ number) (Idle path m₀ number)
      (record path number source loading writing) fun _ => Idle path m₀ number := by
  unfold record
  refine (guards_ask stable_idle).bind fun result => ?_
  cases result with
  | error fault => exact .pure stable_idle fun _ hs => hs
  | ok digest => exact (guards_ask stable_idle).bind fun key => guards_insert _ loading writing

/-- Whatever the others do, a program does nothing to them that they do not expect. -/
theorem guards_program (uses : List Use) : Guards (Others path m₀ number) (Own path m₀ number)
    (Idle path m₀ number) (program path number uses) fun _ => Idle path m₀ number := by
  induction uses with
  | nil => exact .pure stable_idle fun _ hs => hs
  | cons use rest ih =>
    cases use with
    | ask source loading => exact (guards_shouldSkip source loading).bind fun _ => ih
    | record source loading writing => exact (guards_record source loading writing).bind fun _ => ih

/-! ## All programs -/

/-- The file is fine, and each program does only what the others expect. -/
structure Sound (path : Path) (m₀ : Entries) (rs : List (Routine Site Unit)) (s : Site) : Prop where
  fine : Fine path m₀ s
  safe : AllSafe (Others path m₀) (Own path m₀) rs s

variable {uses : List (List Use)} {rs rs' : List (Routine Site Unit)} {file : Option (List UInt8)}
  {d : Disk}

theorem Sound.start (h : Shared path file d) (uses : List (List Use)) :
    Sound path (entriesIn file) (programs path uses) { disk := d } := by
  have hfine : Fine path (entriesIn file) { disk := d } := ⟨file, h, rfl⟩
  refine ⟨hfine, ?_⟩
  intro i r hr
  rw [programs, List.getElem?_mapIdx] at hr
  obtain ⟨use, -, rfl⟩ := Option.map_eq_some_iff.1 hr
  exact (guards_program use _ (.inl ⟨hfine, rfl, rfl⟩)).1

theorem Elsewhere.others (h : Elsewhere path s.disk disk) (number : Nat) :
    Others path m₀ number s { s with disk } :=
  ⟨fun hfine => hfine.aside h.shared, rfl, rfl, h.lies number⟩

theorem Sound.step (h : Sound path m₀ rs s) (hstep : Step path (rs, s) (rs', t)) :
    Sound path m₀ rs' t := by
  generalize hp : (rs, s) = p at hstep
  generalize hq : (rs', t) = q at hstep
  cases hstep with
  | turn hturn =>
    subst hp hq
    have hothers : ∀ i j s t, i ≠ j → Own path m₀ j s t → Others path m₀ i s t :=
      fun i j s t hij hown => hown i hij
    obtain ⟨hsafe, j, hown, -⟩ := h.safe.turn hothers hturn
    -- What one program does is fine for the next one, whether or not that is running.
    exact ⟨(hown (j + 1) (Nat.succ_ne_self j)).fine h.fine, hsafe⟩
  | edit helsewhere =>
    cases hp
    cases hq
    refine ⟨(helsewhere.others 0).fine h.fine, ?_⟩
    intro i r hr
    exact (h.safe i r hr).head (.single (helsewhere.others i))

theorem Reaches.sound (hfile : Shared path file d) (h : Reaches path uses d rs s) :
    Sound path (entriesIn file) rs s := by
  unfold Reaches at h
  generalize hq : (rs, s) = q at h
  induction h generalizing rs s with
  | refl =>
    cases hq
    exact .start hfile uses
  | @tail p q _ hstep ih =>
    obtain ⟨rs₁, s₁⟩ := p
    subst hq
    exact (ih rfl).step hstep

/-- The file holds what is known of it, whatever programs do. -/
theorem Reaches.fine (hfile : Shared path file d) (h : Reaches path uses d rs s) :
    Fine path (entriesIn file) s := (h.sound hfile).fine

/-- Of a source that is asked about by a program that starts, the file knows what has been recorded last
under its key, or it had something there at first. -/
theorem Fine.skip_iff (h : Fine path m₀ s) (source : Path) (number : Nat) (loading : Trouble) :
    ((Cache.shouldSkip source loading).run ⟨s.disk, .ofPath path number, []⟩).1 = true ↔
      ∃ digest, s.disk.digest source = .ok digest ∧
        (latest? (Knowledge.ofNotes s.notes).file (s.disk.key source)).or
          m₀[s.disk.key source]? = some digest := by
  obtain ⟨file, hshared, hentries⟩ := h
  rw [Cache.shouldSkip_iff_mapping, mapping_of_shared hshared, hentries]
  simp only [getElem?_stored]

/-- A program that starts then skips a source exactly if the latest recording under its key that the file
knows of stored the digest of what the source contains, or there is none of these and the file had that
digest at first. -/
theorem shouldSkip_iff_known (source : Path) (number : Nat) (loading : Trouble)
    (hfile : Shared path file d) (hreaches : Reaches path uses d rs s) :
    ((Cache.shouldSkip source loading).run ⟨s.disk, .ofPath path number, []⟩).1 = true ↔
      ∃ digest, s.disk.digest source = .ok digest ∧
        (latest? (Knowledge.ofNotes s.notes).file (s.disk.key source)).or
          (entriesIn file)[s.disk.key source]? = some digest :=
  (hreaches.fine hfile).skip_iff source number loading

end

/-! ### Two programs -/

/-- Two sources, and the directory of the cache. -/
def twoSources : Disk := (Cache.preparedDisk.put "/w/a.c" (.file [1])).put "/w/b.c" (.file [3])

/-- The first program records both sources. The second one asks about the first source, and records
it. -/
def overwriting : List (List Use) :=
  [[.record "a.c" {} {}, .record "b.c" {} {}], [.ask "a.c" {}, .record "a.c" {} {}]]

/-- The first source is edited. -/
def edited (s : Site) (content : List UInt8) : Site :=
  { s with disk := (s.disk.write "a.c" content).toOption.getD s.disk }

/-- The second program has asked, and the first one has recorded the first source. -/
def recordedOnce : Site :=
  .after (record Cache.defaultPath 0 "a.c" {} {})
    (.after (shouldSkip Cache.defaultPath 1 "a.c" {}) { disk := twoSources })

/-- That source has been edited, and the second program has recorded it. -/
def recordedTwice : Site :=
  .after (program Cache.defaultPath 1 [.record "a.c" {} {}]) (edited recordedOnce [2])

/-- The first program has recorded the other source. -/
def recordedAll : Site :=
  .after (program Cache.defaultPath 0 [.record "b.c" {} {}]) recordedTwice

/-- The edit has been undone. -/
def undone : Site := edited recordedAll [1]

theorem shared_twoSources : Shared Cache.defaultPath none twoSources := by
  intro number
  have hplace : twoSources.NamesPlace Cache.defaultPath "/w/.nativekit" "hash.json" :=
    ⟨by decide, by decide, [".", ".nativekit"], ⟨by decide, by decide, by decide, by decide⟩,
      by rfl⟩
  refine .of_inert hplace (by decide) fun target h => ?_
  rw [twoSources, nodes_put] at h
  split at h
  · cases h
  rw [nodes_put] at h
  split at h
  · cases h
  exact Cache.ne_link_preparedDisk _ target h

/-- Does a file lie there? -/
def isFileAt (d : Disk) (x : Location) : Bool :=
  match d.nodes[x]? with
  | some (.file _) => true
  | _ => false

theorem exists_of_isFileAt {d : Disk} {x : Location} (h : isFileAt d x = true) :
    ∃ content, d.nodes[x]? = some (.file content) := by
  unfold isFileAt at h
  split at h
  · exact ⟨_, ‹_›⟩
  · cases h

/-- The first source can be edited without touching what belongs to the cache. -/
def Editable (s : Site) : Prop :=
  (s.disk.follow "a.c" []).toOption = some (.present "/w" .directory) ∧
    (s.disk.follow Cache.defaultPath [".", ".nativekit"]).toOption
      = some (.present "/w/.nativekit" .directory) ∧
    isFileAt s.disk "/w/.nativekit/hash.json" = true ∧ isFileAt s.disk "/w/a.c" = true

instance (s : Site) : Decidable (Editable s) := by
  unfold Editable
  infer_instance

theorem Editable.step {s : Site} (h : Editable s) (content : List UInt8)
    (rs : List (Routine Site Unit)) :
    Step Cache.defaultPath (rs, s) (rs, edited s content) := by
  obtain ⟨hfront, hcache, hfile, hsource⟩ := h
  obtain ⟨old, hfile⟩ := exists_of_isFileAt hfile
  obtain ⟨before, hsource⟩ := exists_of_isFileAt hsource
  have hplace : s.disk.NamesPlace Cache.defaultPath "/w/.nativekit" "hash.json" :=
    ⟨by decide, by decide, [".", ".nativekit"], ⟨by decide, by decide, by decide, by decide⟩,
      eq_ok_of_toOption hcache⟩
  have hthere : s.disk.NamesPlace "a.c" "/w" "a.c" :=
    ⟨by decide, by decide, [], ⟨by decide, by decide, by decide, by decide⟩,
      eq_ok_of_toOption hfront⟩
  have hwrite := write_of_inert hthere (.inr ⟨before, hsource⟩) content
  have hbeside : ∀ number, Location.child "/w/.nativekit" (temporaryName "hash.json" number)
      ≠ Location.child "/w" "a.c" := by
    intro number heq
    have hparent := Location.child_inj (slash_not_mem_temporaryName number (by decide)) (by decide) heq
    exact absurd hparent.1 (by decide)
  have hoff : Location.child "/w/.nativekit" "hash.json" ≠ Location.child "/w" "a.c" := by decide
  rw [edited, hwrite]
  exact .edit (elsewhere_write hplace (hplace.find_of_file hfile) (.inr hoff) hthere
    (.inr ⟨before, hsource⟩) hbeside hwrite)

theorem facts_overwriting : Editable recordedOnce ∧ Editable recordedAll ∧
    (undone.disk.digest "a.c").toOption.isSome = true ∧
    latest? (Knowledge.ofNotes undone.notes).file (undone.disk.key "a.c")
      = (undone.disk.digest "a.c").toOption ∧
    (latest? (recorded undone.notes) (undone.disk.key "a.c")).isSome = true ∧
    latest? (recorded undone.notes) (undone.disk.key "a.c")
      ≠ (undone.disk.digest "a.c").toOption := by
  decide +kernel

/-- Two programs each do one thing, and then the second one does all the rest before the first one does. -/
theorem reaches_in_turn {path : Path} {uses : List (List Use)} {d : Disk} {α β : Type}
    {first : Routine Site α} {second : Routine Site β} {rest rest' : Routine Site Unit}
    {once last : Site}
    (hstart : programs path uses = [first >>= fun _ => rest, second >>= fun _ => rest'])
    (honce : Step path ([rest, rest'], .after first (.after second { disk := d }))
      ([rest, rest'], once))
    (hlast : Step path ([.done (), .done ()], .after rest (.after rest' once))
      ([.done (), .done ()], last)) : Reaches path uses d [.done (), .done ()] last := by
  have hsecond := steps_of_turns path
    (turns_bind [first >>= fun _ => rest] [] second (fun _ => rest') { disk := d })
  have hfirst := steps_of_turns path
    (turns_bind [] [rest'] first (fun _ => rest) (.after second { disk := d }))
  have hrest' := steps_of_turns path (turns_run [rest] [] rest' once)
  have hrest := steps_of_turns path (turns_run [] [.done ()] rest (.after rest' once))
  unfold Reaches
  rw [hstart]
  exact ((((hsecond.trans hfirst).tail honce).trans hrest').trans hrest).tail hlast

theorem reaches_overwriting :
    Reaches Cache.defaultPath overwriting twoSources [.done (), .done ()] undone := by
  obtain ⟨honce, hall, -⟩ := facts_overwriting
  have hstart : programs Cache.defaultPath overwriting =
      [record Cache.defaultPath 0 "a.c" {} {} >>= fun _ =>
          program Cache.defaultPath 0 [.record "b.c" {} {}],
        shouldSkip Cache.defaultPath 1 "a.c" {} >>= fun _ =>
          program Cache.defaultPath 1 [.record "a.c" {} {}]] := rfl
  exact reaches_in_turn hstart (honce.step [2] _) (hall.step [1] _)

/-- The file knows a recording of what the source contains in the end. -/
theorem known_undone : ∃ digest, undone.disk.digest "a.c" = .ok digest ∧
    (latest? (Knowledge.ofNotes undone.notes).file (undone.disk.key "a.c")).or
      (entriesIn none)[undone.disk.key "a.c"]? = some digest := by
  obtain ⟨-, -, hread, hknown, -⟩ := facts_overwriting
  obtain ⟨digest, hdigest⟩ := Option.isSome_iff_exists.1 hread
  refine ⟨digest, eq_ok_of_toOption hdigest, ?_⟩
  rw [hknown, hdigest, Option.some_or]

/-- What the first program has recorded is skipped, for the file knows of that. -/
theorem shouldSkip_iff_known_undone : Shared Cache.defaultPath none twoSources ∧
    Reaches Cache.defaultPath overwriting twoSources [.done (), .done ()] undone ∧
    ((Cache.shouldSkip "a.c").run ⟨undone.disk, .ofPath Cache.defaultPath 7, []⟩).1 = true :=
  ⟨shared_twoSources, reaches_overwriting,
    (shouldSkip_iff_known "a.c" 7 {} shared_twoSources reaches_overwriting).2 known_undone⟩

/-! ### Two sources that are shown alike -/

/-- One program has recorded a source whose name is no text. -/
def recordedNoText : Site :=
  .after (program "hash.json" 0 [.record RawText.noText {} {}]) { disk := Cache.shownAlike.disk }

theorem reaches_recordedNoText :
    Reaches "hash.json" [[.record RawText.noText {} {}]] Cache.shownAlike.disk [.done ()]
      recordedNoText :=
  steps_of_turns "hash.json" (turns_run [] [] (program "hash.json" 0 [.record RawText.noText {} {}]) _)

/-- A source may be skipped though the second program has recorded something else for it since, and nobody
has recorded it afterwards. And one may be skipped that nobody has ever recorded. -/
theorem skipped_wrongly :
    (∃ s, Reaches Cache.defaultPath overwriting twoSources [.done (), .done ()] s ∧
      ((Cache.shouldSkip "a.c").run ⟨s.disk, .ofPath Cache.defaultPath 7, []⟩).1 = true ∧
      ∃ digest, latest? (recorded s.notes) (s.disk.key "a.c") = some digest ∧
        s.disk.digest "a.c" ≠ .ok digest) ∧
    ∃ s, Reaches "hash.json" [[.record RawText.noText {} {}]] Cache.shownAlike.disk [.done ()] s ∧
      s.disk.canonicalize RawText.noText = .ok (Location.child "/w" RawText.noText) ∧
      s.disk.canonicalize RawText.noTextEither = .ok (Location.child "/w" RawText.noTextEither) ∧
      ((Cache.shouldSkip RawText.noTextEither).run ⟨s.disk, .ofPath "hash.json" 7, []⟩).1 = true := by
  constructor
  · have hfine := reaches_overwriting.fine shared_twoSources
    obtain ⟨-, -, -, -, hrecorded, hother⟩ := facts_overwriting
    obtain ⟨digest, hdigest⟩ := Option.isSome_iff_exists.1 hrecorded
    refine ⟨undone, reaches_overwriting, (hfine.skip_iff "a.c" 7 {}).2 known_undone, digest,
      hdigest, ?_⟩
    intro hsame
    rw [hdigest, hsame] at hother
    exact hother rfl
  · have hfacts : (recordedNoText.disk.canonicalize RawText.noText).toOption
          = some (Location.child "/w" RawText.noText) ∧
        (recordedNoText.disk.canonicalize RawText.noTextEither).toOption
          = some (Location.child "/w" RawText.noTextEither) ∧
        ((Cache.shouldSkip RawText.noTextEither).run
          ⟨recordedNoText.disk, .ofPath "hash.json" 7, []⟩).1 = true := by
      decide +kernel
    obtain ⟨hplace, hplace', hskip⟩ := hfacts
    exact ⟨_, reaches_recordedNoText, eq_ok_of_toOption hplace, eq_ok_of_toOption hplace', hskip⟩

end ForeignModule.Programs
