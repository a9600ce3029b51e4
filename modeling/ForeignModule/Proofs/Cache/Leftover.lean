import ForeignModule.Proofs.Cache.RoundTrip

/-!
# What a failed replacement leaves behind

The temporary file is removed where it cannot be moved into place. Where it cannot be written, or not
brought to the disk, it stays.

* `leftover` says what a failed replacement leaves in the temporary file, if it leaves one;
* `Remains` says of two disks that they differ by this file at most, and is preserved by each step of the
  replacement (`Remains.write`, `Remains.removeFile`);
* `stages_leave` follows the replacement from the temporary file on;
* `Remains.read_iff`: a path that does not lead to the temporary file leads to the content that it led
  to before;
* `persist_leftover` puts these together, and `persist_leaves_file` shows the two ways in which a file is
  left behind: a temporary file that could not be written, and a link at its path, which is removed in
  place of the file that has been made through it.
-/

namespace ForeignModule.Entries

open Disk Routine

variable {m : Entries} {path temporary : Path} {number : Nat} {t : Trouble} {d e ready : Disk}
  {left : Option (List UInt8)} {content : List UInt8}

/-! ## The temporary file -/

/-- The temporary path names something in a directory, whatever the path is. -/
theorem exists_endsIn_temporaryPath (path : Path) (number : Nat) :
    ∃ front name, (temporaryPath path number).EndsIn front name := by
  have hname : Path.IsName (path.fileName?.getD "hash.json") ∧
      Path.slash ∉ path.fileName?.getD "hash.json" := by
    cases hfile : path.fileName? with
    | none => exact ⟨⟨by decide, by decide, by decide⟩, by decide⟩
    | some name => exact Path.isName_of_fileName? hfile
  have hslash := slash_not_mem_temporaryName number hname.2
  have hjoin : ∃ directory, temporaryPath path number
      = Path.join directory (temporaryName (path.fileName?.getD "hash.json") number) := by
    rw [temporaryPath, Path.withFileName]
    split
    · exact ⟨_, rfl⟩
    · exact ⟨_, rfl⟩
  rcases hjoin with ⟨directory, hjoin⟩
  rcases Path.exists_endsIn_join directory with ⟨front, hfront⟩
  exact ⟨front, _, hjoin ▸ hfront _ (isName_temporaryName number) hslash⟩

/-- Where nothing lies no link lies. -/
theorem unlinked_of_none {parent : Location} {name : RawText} (hplace : d.NamesPlace path parent name)
    (hnone : d.nodes[parent.child name]? = none) : Unlinked d path := by
  intro parent' name' target hplace'
  rcases hplace.unique hplace' with ⟨rfl, rfl⟩
  rw [hnone]
  exact Option.some_ne_none _ ∘ Eq.symm

/-- The disks differ at most at the place that the temporary path names. No way led on from there, and
now this file lies there, or nothing. -/
def Remains (temporary : Path) (left : Option (List UInt8)) (d e : Disk) : Prop :=
  ∃ parent name, d.NamesPlace temporary parent name ∧ d.Inert (parent.child name) ∧
    AgreeOff (parent.child name) d e ∧ e.nodes[parent.child name]? = left.map .file

namespace Remains

/-- To open the file is to make an empty one, if no link lies at its path. -/
theorem create {front : List RawText} {name : RawText} (hends : temporary.EndsIn front name)
    (hlink : Unlinked d temporary) (hwrite : d.write temporary [] = .ok e) :
    Remains temporary (some []) d e := by
  rcases exists_of_write hends hwrite fun parent target hplace => hlink parent name target hplace with
    ⟨parent, hplace, hinert, rfl⟩
  exact ⟨parent, name, hplace, hinert, agreeOff_put _ _ _, by simp [nodes_put]⟩

/-- No way leads on from the file that is left. -/
theorem inert {place : Location} (h : e.nodes[place]? = left.map .file) : e.Inert place := by
  cases left with
  | none => exact .inl h
  | some content => exact .inr ⟨content, h⟩

/-- The file can be written. -/
theorem write (h : Remains temporary left d e) (content : List UInt8) :
    ∃ e', e.write temporary content = .ok e' ∧ Remains temporary (some content) d e' := by
  rcases h with ⟨parent, name, hplace, hinert, hagree, hnode⟩
  have hwrite := write_of_inert (hplace.frame hagree hinert) (inert hnode) content
  exact ⟨_, hwrite, parent, name, hplace, hinert, hagree.trans (agreeOff_put _ _ _),
    by simp [nodes_put]⟩

/-- The file can be removed. -/
theorem removeFile (h : Remains temporary (some content) d e) :
    ∃ e', e.removeFile temporary = .ok e' ∧ Remains temporary none d e' := by
  rcases h with ⟨parent, name, hplace, hinert, hagree, hnode⟩
  have hremove := removeFile_of_file (hplace.frame hagree hinert) hnode
  exact ⟨_, hremove, parent, name, hplace, hinert, hagree.trans (agreeOff_drop _ _),
    by simp [nodes_drop]⟩

/-- Does something lie at the temporary path? -/
theorem exists?_eq (h : Remains temporary left d e) : e.exists? temporary = left.isSome := by
  rcases h with ⟨parent, name, hplace, hinert, hagree, hnode⟩
  have hplace' := hplace.frame hagree hinert
  cases left with
  | none => simp [exists?, stat?, hplace'.find_of_none hnode]
  | some content => simp [exists?, stat?, hplace'.find_of_file hnode]

/-- A path that does not lead to the temporary file leads to the content that it led to before, or still
leads to none. -/
theorem read_iff (h : Remains temporary left d e)
    (haside : ∀ parent name r, d.NamesPlace temporary parent name → d.find path = .ok r →
      r.Off (parent.child name)) :
    e.read path = .ok content ↔ d.read path = .ok content := by
  rcases h with ⟨parent, name, hplace, hinert, hagree, hnode⟩
  have hinert' : e.Inert (parent.child name) := inert hnode
  constructor
  · intro hread
    rcases find_of_read hread with ⟨place, hfind⟩
    have hne : place ≠ parent.child name := by
      rintro rfl
      rcases find_reach hagree.symm hinert' hinert hfind with ⟨r, hr, hat⟩
      exact hat (haside parent name r hplace hr)
    exact read_of_find (find_frame hagree.symm hinert' hfind (.inr hne))
  · intro hread
    rcases find_of_read hread with ⟨place, hfind⟩
    exact read_of_find (find_frame hagree hinert hfind (haside parent name _ hplace hfind))

end Remains

/-! ## The steps -/

/-- What a replacement that fails leaves in the temporary file once it has made it. -/
def leftover (m : Entries) (t : Trouble) : Option (List UInt8) :=
  match t.write, t.sync with
  | some (count, _), _ => some ((Text.bytes m.text).take count)
  | none, some _ => some (Text.bytes m.text)
  | none, none => none

theorem leftover_eq_none : leftover m t = none ↔ t.write = none ∧ t.sync = none := by
  unfold leftover
  cases t.write with
  | some trouble => simp
  | none => cases t.sync <;> simp

namespace Remains

/-- What can be written is written, up to the trouble. -/
theorem writeContent (content : List UInt8) (trouble : Option (Nat × Fault)) :
    Leaves (Remains temporary (some []) d) (writeContent temporary content trouble)
      (fun _ e => Remains temporary (some content) d e ∧ trouble = none)
      (fun e => ∃ count fault, trouble = some (count, fault) ∧
        Remains temporary (some (content.take count)) d e) := by
  have hstep : ∀ (part : List UInt8) (failed : Disk → Prop), Leaves (Remains temporary (some []) d)
      (step temporary (·.write temporary part)) (fun _ => Remains temporary (some part) d) failed := by
    intro part failed
    refine .attempt_ok fun e he => ?_
    rcases he.write part with ⟨e', hwrite, he'⟩
    exact ⟨e', congrArg (Except.mapError _) hwrite, he'⟩
  cases trouble with
  | none => exact (hstep content _).imp_after fun _ _ he => ⟨he, rfl⟩
  | some trouble =>
    rcases trouble with ⟨count, fault⟩
    exact .bind (hstep (content.take count) _) fun _ =>
      .throw _ fun e he => ⟨count, fault, rfl, he⟩

/-- What is not brought to the disk still lies there. -/
theorem sync (trouble : Option Fault) :
    Leaves (Remains temporary left d) (step temporary (Trouble.instead trouble .ok))
      (fun _ e => Remains temporary left d e ∧ trouble = none)
      (fun e => Remains temporary left d e ∧ trouble ≠ none) := by
  cases trouble with
  | none => exact .attempt_ok fun e he => ⟨e, rfl, he, rfl⟩
  | some fault =>
    refine step_leaves _ (fun e he => ⟨he, Option.some_ne_none fault⟩) fun e e' he hok => ?_
    cases hok

/-- A file that cannot be moved is removed. -/
theorem moveInto (trouble : Option Fault) :
    Leaves (Remains temporary (some content) d) (moveInto temporary path trouble)
      (fun _ _ => trouble = none) (Remains temporary none d) := by
  have hmove : Leaves (Remains temporary (some content) d)
      (step path (Trouble.instead trouble (·.rename temporary path)))
      (fun _ _ => trouble = none) (Remains temporary (some content) d) := by
    refine step_leaves _ (fun e he => he) fun e e' he hok => ?_
    cases trouble with
    | none => rfl
    | some fault => cases hok
  have hremove : Leaves (ε := CacheError) (Remains temporary (some content) d)
      (liftM (Routine.attempt (·.removeFile temporary) : Routine Disk (Except Fault Unit)))
      (fun _ => Remains temporary none d) (Remains temporary none d) := by
    refine .lift fun e he => ?_
    rcases he.removeFile with ⟨e', hremoved, he'⟩
    rw [Routine.attempt, run_act, hremoved]
    exact he'
  exact .tryCatch hmove fun cause => .bind hremove fun _ => .throw cause fun _ he => he

end Remains

/-- Once the temporary file is there, nothing goes wrong without trouble until it is moved. -/
theorem stages_leave (m : Entries) (path : Path) (t : Trouble) :
    Leaves (Remains temporary (some []) d)
      (do
        writeContent temporary (Text.bytes m.text) t.write
        step temporary (Trouble.instead t.sync .ok)
        moveInto temporary path t.rename)
      (fun _ _ => t.write = none ∧ t.sync = none ∧ t.rename = none)
      (Remains temporary (leftover m t) d) := by
  have hwrite : Leaves (Remains temporary (some []) d)
      (writeContent temporary (Text.bytes m.text) t.write)
      (fun _ e => Remains temporary (some (Text.bytes m.text)) d e ∧ t.write = none)
      (Remains temporary (leftover m t) d) := by
    refine (Remains.writeContent _ _).imp_failed ?_
    rintro e ⟨count, fault, htrouble, he⟩
    rwa [leftover, htrouble]
  refine .bind hwrite fun _ => .of_fact fun hwritten => ?_
  have hsync : Leaves (Remains temporary (some (Text.bytes m.text)) d)
      (step temporary (Trouble.instead t.sync .ok))
      (fun _ e => Remains temporary (some (Text.bytes m.text)) d e ∧ t.sync = none)
      (Remains temporary (leftover m t) d) := by
    refine (Remains.sync _).imp_failed ?_
    rintro e ⟨he, htrouble⟩
    rcases Option.ne_none_iff_exists'.1 htrouble with ⟨fault, hfault⟩
    rwa [leftover, hwritten, hfault]
  refine .bind hsync fun _ => .of_fact fun hsynced => ?_
  have hnone : leftover m t = none := by
    rw [leftover, hwritten, hsynced]
  rw [hnone]
  exact (Remains.moveInto t.rename).imp_after fun _ _ hmoved => ⟨hwritten, hsynced, hmoved⟩

/-! ## The whole replacement -/

theorem run_step_ok {f : Disk → Except Fault Disk} (blame : Path) (h : f d = .ok e) :
    (step blame f).run.run d = (.ok (), e) := by
  rw [step, ExceptT.run_mk, Routine.attempt, run_act, h]
  rfl

theorem run_step_error {f : Disk → Except Fault Disk} {fault : Fault} (blame : Path)
    (h : f d = .error fault) : (step blame f).run.run d = (.error (.disk blame fault), d) := by
  rw [step, ExceptT.run_mk, Routine.attempt, run_act, h]
  rfl

/-- Makes the temporary file, unless that goes wrong. -/
def makeTemporary (path : Path) (number : Nat) (t : Trouble) : Disk → Except Fault Disk :=
  Trouble.instead t.create (·.write (temporaryPath path number) [])

theorem Remains.of_make {created : Disk} (hlink : Unlinked ready (temporaryPath path number))
    (h : makeTemporary path number t ready = .ok created) :
    t.create = none ∧ Remains (temporaryPath path number) (some []) ready created := by
  rw [makeTemporary] at h
  cases htrouble : t.create with
  | some fault =>
    rw [htrouble] at h
    cases h
  | none =>
    rw [htrouble] at h
    rcases exists_endsIn_temporaryPath path number with ⟨front, name, hends⟩
    exact ⟨rfl, .create hends hlink h⟩

/-- The path does not lead to where the temporary file lies. -/
def Beyond (temporary path : Path) (d : Disk) : Prop :=
  ∀ parent name r, d.NamesPlace temporary parent name → d.find path = .ok r →
    r.Off (parent.child name)

/-- Once the directory is there, a replacement that goes well has met no trouble, and has moved what it
wrote. One that fails leaves the disk as it was if it could not make the temporary file, and otherwise
what `leftover` says: nothing exactly if the file could be written and brought to the disk. The path
leads to the content that it led to before, or still to none. Here no link lies at the temporary path:
what is made through a link is not removed with it. -/
theorem persist_leftover (m : Entries) (path : Path) (number : Nat) (t : Trouble) {d ready : Disk}
    (hready : (makeDirectory path t.directory).run.run d = (.ok (), ready))
    (hlink : Unlinked ready (temporaryPath path number)) :
    (∀ e, (persist m path number t).run.run d = (.ok (), e) →
      t.create = none ∧ t.write = none ∧ t.sync = none ∧ t.rename = none ∧
        ∃ w, written m path number d = .ok w ∧
          w.rename (temporaryPath path number) path = .ok e) ∧
    ∀ cause e, (persist m path number t).run.run d = (.error cause, e) →
      (∀ fault, makeTemporary path number t ready = .error fault → e = ready) ∧
      (∀ created, makeTemporary path number t ready = .ok created →
        Remains (temporaryPath path number) (leftover m t) ready e ∧
          (e.exists? (temporaryPath path number) = false ↔ t.write = none ∧ t.sync = none)) ∧
      (Beyond (temporaryPath path number) path ready →
        ∀ content, e.read path = .ok content ↔ ready.read path = .ok content) := by
  have hpersist : (persist m path number t).run.run d = _ := run_bind_ok hready
  cases hmake : makeTemporary path number t ready with
  | error fault =>
    have hrun := hpersist.trans (run_bind_error (run_step_error _ hmake))
    rw [hrun]
    constructor
    · intro e hok
      cases hok
    · intro cause e herror
      cases herror
      refine ⟨fun _ _ => rfl, ?_, fun _ _ => Iff.rfl⟩
      intro created hok
      cases hok
  | ok created =>
    rcases Remains.of_make hlink hmake with ⟨hcreate, hcreated⟩
    have hrun := hpersist.trans (run_bind_ok (run_step_ok _ hmake))
    have hend := stages_leave m path t created hcreated
    rw [← hrun] at hend
    constructor
    · intro e hok
      have hwritten := exists_written hok
      rw [hok] at hend
      exact ⟨hcreate, hend.1, hend.2.1, hend.2.2, hwritten⟩
    · intro cause e herror
      rw [herror] at hend
      have hexists : e.exists? (temporaryPath path number) = false ↔ t.write = none ∧ t.sync = none := by
        rw [hend.exists?_eq, Option.isSome_eq_false_iff, Option.isNone_iff_eq_none, leftover_eq_none]
      refine ⟨?_, fun _ _ => ⟨hend, hexists⟩, fun hbeyond _ => hend.read_iff hbeyond⟩
      intro fault hfault
      cases hfault

/-- A file that is there. -/
def old : Disk := (Disk.empty ["w"]).put "/w/hash.json" (.file [0x7b, 0x7d])

theorem namesPlace_old :
    old.NamesPlace "hash.json" "/w" "hash.json" ∧
    old.NamesPlace "hash.json.7.tmp" "/w" "hash.json.7.tmp" := by
  refine ⟨⟨by decide, by decide, [], ⟨by decide, by decide, by decide, by decide⟩, ?_⟩,
    by decide, by decide, [], ⟨by decide, by decide, by decide, by decide⟩, ?_⟩
  all_goals decide +kernel

/-- What cannot be moved into place is removed, and the file that was there is kept. -/
theorem persist_leftover_old :
    ∃ cause e, (persist odd "hash.json" 7 { rename := some .busy }).run.run old = (.error cause, e) ∧
      e.exists? "hash.json.7.tmp" = false ∧ e.read "hash.json" = .ok [0x7b, 0x7d] := by
  rcases namesPlace_old with ⟨hplace, htemporary⟩
  have hfree : old.nodes[Location.child "/w" "hash.json.7.tmp"]? = none := by
    decide +kernel
  have hfile : old.nodes[Location.child "/w" "hash.json"]? = some (.file [0x7b, 0x7d]) := by
    decide +kernel
  have hlink : Unlinked old (temporaryPath "hash.json" 7) := unlinked_of_none htemporary hfree
  have hbeyond : Beyond (temporaryPath "hash.json" 7) "hash.json" old := by
    intro parent name r hnames hr
    rcases htemporary.unique hnames with ⟨rfl, rfl⟩
    cases hr.symm.trans (hplace.find_of_file hfile)
    exact .inr (by decide)
  have hfails : ((persist odd "hash.json" 7 { rename := some .busy }).run.run old).1.toOption = none := by
    decide +kernel
  have hmakes : (makeTemporary "hash.json" 7 { rename := some .busy } old).toOption.isSome = true := by
    decide +kernel
  rcases exists_error_of_toOption hfails with ⟨cause, hrun⟩
  rcases Option.isSome_iff_exists.1 hmakes with ⟨created, hcreated⟩
  have hready : (makeDirectory "hash.json" none).run.run old = (.ok (), old) := by rfl
  have hend := (persist_leftover odd "hash.json" 7 { rename := some .busy } hready hlink).2 cause _ hrun
  refine ⟨cause, _, hrun, (hend.2.1 created (eq_ok_of_toOption hcreated)).2.2 ⟨rfl, rfl⟩, ?_⟩
  exact (hend.2.2 hbeyond _).2 (read_of_find (hplace.find_of_file hfile))

/-- A directory at the path, and a link at the temporary path that leads to nothing yet. -/
def blocked : Disk :=
  ((Disk.empty ["w"]).put "/w/h" .directory).put "/w/h.7.tmp" (.link "t")

/-- A temporary file that could not be written stays, and so does one that has been made through a
link. -/
theorem persist_leaves_file :
    (∃ cause e, (persist odd "hash.json" 7 { write := some (1, .busy) }).run.run (Disk.empty ["w"])
        = (.error cause, e) ∧
      (Disk.empty ["w"]).exists? "hash.json.7.tmp" = false ∧ e.exists? "hash.json.7.tmp" = true) ∧
    ∃ cause e, (persist odd "h" 7).run.run blocked = (.error cause, e) ∧
      blocked.exists? "t" = false ∧ e.exists? "t" = true := by
  constructor
  · have hfails : ((persist odd "hash.json" 7 { write := some (1, .busy) }).run.run
        (Disk.empty ["w"])).1.toOption = none := by
      decide +kernel
    rcases exists_error_of_toOption hfails with ⟨cause, hrun⟩
    exact ⟨cause, _, hrun, by decide +kernel, by decide +kernel⟩
  · have hfails : ((persist odd "h" 7).run.run blocked).1.toOption = none := by
      decide +kernel
    rcases exists_error_of_toOption hfails with ⟨cause, hrun⟩
    exact ⟨cause, _, hrun, by decide +kernel, by decide +kernel⟩

end ForeignModule.Entries
