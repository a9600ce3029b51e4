import ForeignModule.Proofs.Cache.Entries
import ForeignModule.Proofs.Files.Moving

/-!
# Replacing the file of the cache and reading it

* `exists_written`: what has been replaced has been written to the temporary file, which then has
  been moved;
* `load_of_persist`: whatever was there before, what has been replaced is read as the entries that
  were written, unless the move has cut the way to them. This takes a symbolic link, at the path or
  at the temporary path, whose place is on the way;
* `not_load_of_persist`: such a way.
-/

namespace ForeignModule

namespace Entries

open Disk Routine

variable {m : Entries} {path : Path} {number : Nat} {t : Trouble} {d e w : Disk}

/-! ## What has been written -/

/-- The disk with the directory of a path. -/
def withDirectory (path : Path) (d : Disk) : Disk :=
  path.directory?.elim d fun directory => (d.makeDirectories directory).2

/-- The disk with the new content in the temporary file, before that is moved. -/
def written (m : Entries) (path : Path) (number : Nat) (d : Disk) : Except Fault Disk := do
  let created ← (withDirectory path d).write (temporaryPath path number) []
  created.write (temporaryPath path number) (Text.bytes m.text)

theorem ok_of_step {blame : Path} {f : Disk → Except Fault Disk} {u : Unit}
    (h : (step blame f).run.run d = (.ok u, e)) : f d = .ok e := by
  rw [step, ExceptT.run_mk, attempt, run_act] at h
  cases hf : f d with
  | error fault =>
    rw [hf] at h
    cases h
  | ok e' =>
    rw [hf] at h
    exact congrArg Except.ok (Prod.mk.inj h).2

theorem ok_of_instead {blame : Path} {trouble : Option Fault} {f : Disk → Except Fault Disk}
    {u : Unit} (h : (step blame (Trouble.instead trouble f)).run.run d = (.ok u, e)) :
    f d = .ok e := by
  have hstep := ok_of_step h
  cases trouble with
  | some fault => cases hstep
  | none => exact hstep

theorem withDirectory_of_run {trouble : Option Fault} {u : Unit}
    (h : (makeDirectory path trouble).run.run d = (.ok u, e)) : e = withDirectory path d := by
  unfold makeDirectory at h
  unfold withDirectory
  cases hdirectory : path.directory? with
  | none =>
    rw [hdirectory] at h
    exact (Prod.mk.inj h).2.symm
  | some directory =>
    rw [hdirectory] at h
    cases trouble with
    | some fault => cases h
    | none =>
      dsimp only at h
      rw [ExceptT.run_mk, run_act] at h
      exact (Prod.mk.inj h).2.symm

theorem write_of_run {content : List UInt8} {trouble : Option (Nat × Fault)} {u : Unit}
    (h : (writeContent path content trouble).run.run d = (.ok u, e)) :
    d.write path content = .ok e := by
  unfold writeContent at h
  cases trouble with
  | none => exact ok_of_step h
  | some trouble =>
    obtain ⟨_, _, -, hthrow⟩ := exists_of_run_bind h
    cases hthrow

theorem rename_of_run {temporary : Path} {trouble : Option Fault} {u : Unit}
    (h : (moveInto temporary path trouble).run.run d = (.ok u, e)) :
    d.rename temporary path = .ok e := by
  rw [moveInto, run_tryCatch] at h
  generalize hmove : (step path (Trouble.instead trouble (·.rename temporary path))).run.run d
    = outcome at h
  obtain ⟨fault | _, e'⟩ := outcome
  · -- Whether the temporary file can be removed or not, the fault comes back.
    obtain ⟨_, _, -, hthrow⟩ := exists_of_run_bind h
    cases hthrow
  · obtain rfl : e' = e := (Prod.mk.inj h).2
    exact ok_of_instead hmove

/-- The file has been replaced by moving the temporary file, with the content in it. -/
theorem exists_written (h : (persist m path number t).run.run d = (.ok (), e)) :
    ∃ w, written m path number d = .ok w ∧ w.rename (temporaryPath path number) path = .ok e := by
  obtain ⟨_, made, hmade, h⟩ := exists_of_run_bind h
  obtain ⟨_, created, hcreated, h⟩ := exists_of_run_bind h
  obtain ⟨_, w, hw, h⟩ := exists_of_run_bind h
  obtain ⟨_, synced, hsynced, h⟩ := exists_of_run_bind h
  obtain rfl := withDirectory_of_run hmade
  obtain rfl := Except.ok.inj (ok_of_instead hsynced)
  exact ⟨w, bind_eq_ok.2 ⟨created, ok_of_instead hcreated, write_of_run hw⟩, rename_of_run h⟩

/-! ## What is read -/

theorem load_eq_some : load path d = .ok (some m) ↔
    ∃ content, d.read path = .ok content ∧ (Text.decode? content).bind ofText? = some m := by
  unfold load
  constructor
  · intro h
    split at h
    · cases h
    · cases h
    · rename_i content hread
      split at h
      · rename_i m' hm
        cases h
        exact ⟨content, hread, hm⟩
      · cases h
  · rintro ⟨content, hread, hm⟩
    simp only [hread, hm]

theorem load_of_read (h : d.read path = .ok (Text.bytes m.text)) : load path d = .ok (some m) :=
  load_eq_some.2 ⟨_, h, inFile?_text m⟩

/-- The temporary file lies beside the file. -/
theorem siblings {front : List RawText} {name : RawText} (number : Nat) (h : path.EndsIn front name) :
    Siblings (temporaryPath path number) path (Path.kept front) front (temporaryName name number)
      name where
  first := endsIn_temporaryPath number h
  second := h
  kept := Path.kept_kept front
  isAbsolute := by
    rw [temporaryPath_eq number h]
    exact Path.isAbsolute_withFileName h (slash_not_mem_temporaryName number h.slash_not_mem)

/-- What is moved into place has lain beside it. -/
theorem exists_places (h : w.rename (temporaryPath path number) path = .ok e) :
    ∃ front name parent node, path.EndsIn front name ∧ w.NamesPlace path parent name ∧
      w.NamesPlace (temporaryPath path number) parent (temporaryName name number) ∧
      w.nodes[parent.child (temporaryName name number)]? = some node ∧ node ≠ .directory ∧
      w.nodes[parent.child name]? ≠ some .directory ∧
      e = (w.drop (parent.child (temporaryName name number))).put (parent.child name) node := by
  obtain ⟨front, name, hends⟩ := endsIn_of_rename h
  have hsiblings := siblings number hends
  obtain ⟨inner, parent, node, htemporary, hplace, hnode, hdir, hown, he⟩ :=
    exists_of_rename hsiblings.first hends h
  have hsame := (htemporary.follow_front hsiblings.first).symm.trans
    (hsiblings.symm.follow (hplace.follow_front hends))
  obtain ⟨rfl, -⟩ := Found.present.inj (Except.ok.inj hsame)
  exact ⟨front, name, inner, node, hends, hplace, htemporary, hnode, hdir, hown, he⟩

/-- The file is read like the temporary file if that is looked at without the place of the file. -/
theorem load_of_rename (hwritten : written m path number d = .ok w)
    (h : w.rename (temporaryPath path number) path = .ok e) :
    ∃ parent name, w.NamesPlace path parent name ∧ ∀ m',
      load path e = .ok (some m') ↔
        load (temporaryPath path number) (w.drop (parent.child name)) = .ok (some m') := by
  obtain ⟨front, name, parent, node, hends, hplace, htemporary, hnode, hdir, -, rfl⟩ :=
    exists_places h
  refine ⟨parent, name, hplace, fun m' => ?_⟩
  obtain ⟨created, -, hwrite⟩ := bind_eq_ok.1 hwritten
  simp only [load_eq_some, read_of_rename (siblings number hends) htemporary hplace
    (temporaryName_ne number) hnode hdir (deadEnd_of_write hwrite htemporary)]

/-- No symbolic link lies at the place that the path names. -/
def Unlinked (d : Disk) (path : Path) : Prop :=
  ∀ parent name target, d.NamesPlace path parent name →
    d.nodes[parent.child name]? ≠ some (.link target)

/-- Where no link lies at the temporary path the content lies there. -/
theorem exists_of_written {front : List RawText} {name : RawText} (hends : path.EndsIn front name)
    (h : written m path number d = .ok w)
    (hlink : Unlinked (withDirectory path d) (temporaryPath path number)) :
    ∃ parent, AgreeOff (parent.child (temporaryName name number)) (withDirectory path d) w ∧
      (withDirectory path d).Inert (parent.child (temporaryName name number)) ∧
      w.nodes[parent.child (temporaryName name number)]? = some (.file (Text.bytes m.text)) ∧
      w.NamesPlace (temporaryPath path number) parent (temporaryName name number) := by
  have htemporary := endsIn_temporaryPath number hends
  obtain ⟨created, hcreate, hwrite⟩ := bind_eq_ok.1 h
  obtain ⟨parent, hplace, hinert, rfl⟩ := exists_of_write htemporary hcreate
    fun parent target hplace => hlink parent _ target hplace
  have hagree := agreeOff_put (withDirectory path d)
    (parent.child (temporaryName name number)) (.file [])
  have hinert' : ((withDirectory path d).put (parent.child (temporaryName name number))
      (.file [])).Inert (parent.child (temporaryName name number)) :=
    .inr ⟨[], by simp [nodes_put]⟩
  have hplace' := hplace.frame hagree hinert
  obtain rfl := Except.ok.inj ((write_of_inert hplace' hinert' _).symm.trans hwrite)
  refine ⟨parent, ⟨by simp only [workingDirectory_put], fun x hx => ?_⟩, hinert,
    by simp [nodes_put], hplace'.frame (agreeOff_put _ _ _) hinert'⟩
  simp [nodes_put, hx]

/-- The directory of the path is reached without what lies at the path itself: nothing does that
leads on, or the way does not pass there. -/
def Straight (d : Disk) (path : Path) : Prop :=
  ∀ parent name, d.NamesPlace path parent name →
    (d.drop (parent.child name)).NamesPlace path parent name

theorem Unlinked.straight (h : Unlinked d path)
    (hdir : ∀ parent name, d.NamesPlace path parent name →
      d.nodes[parent.child name]? ≠ some .directory) : Straight d path := by
  intro parent name hplace
  have hinert : d.Inert (parent.child name) := by
    cases hfound : d.nodes[parent.child name]? with
    | none => exact .inl hfound
    | some found =>
      cases found with
      | directory => exact absurd hfound (hdir _ _ hplace)
      | file content => exact .inr ⟨content, hfound⟩
      | link target => exact absurd hfound (h _ _ target hplace)
  exact hplace.frame (agreeOff_drop d _) hinert

/-- The entries are read back wherever no link lies at the temporary path, and what lies at the path
is not on the way there. -/
theorem load_of_straight (hwritten : written m path number d = .ok w)
    (h : w.rename (temporaryPath path number) path = .ok e)
    (hown : Unlinked (withDirectory path d) path ∨ Straight (withDirectory path d) path)
    (hlink : Unlinked (withDirectory path d) (temporaryPath path number)) :
    load path e = .ok (some m) := by
  obtain ⟨parent, name, hplace, hload⟩ := load_of_rename hwritten h
  obtain ⟨front, name', parent', node, hends, hplace', htemporary, -, -, hdir, -⟩ :=
    exists_places h
  obtain ⟨rfl, rfl⟩ := hplace.unique hplace'
  obtain ⟨inner, hagree, hfree, hnode, htemporary'⟩ := exists_of_written hends hwritten hlink
  obtain ⟨rfl, -⟩ := htemporary.unique htemporary'
  have hfile : w.Inert (inner.child (temporaryName name' number)) := .inr ⟨_, hnode⟩
  have hapart : inner.child (temporaryName name' number) ≠ inner.child name' := fun heq =>
    temporaryName_ne number (Location.child_inj
      (slash_not_mem_temporaryName number hends.slash_not_mem) hends.slash_not_mem heq).2
  have hmade := hplace.frame hagree.symm hfile
  have hown' : ((withDirectory path d).drop (inner.child name')).NamesPlace path inner name' := by
    rcases hown with hunlinked | hstraight
    · refine hunlinked.straight (fun _ _ hany => ?_) _ _ hmade
      obtain ⟨rfl, rfl⟩ := hmade.unique hany
      rwa [← hagree.nodes _ hapart.symm]
    · exact hstraight _ _ hmade
  -- The temporary file does not stand in the way of anything either.
  have hstays : (w.drop (inner.child name')).NamesPlace path inner name' := by
    have hagree' : AgreeOff (inner.child (temporaryName name' number))
        ((withDirectory path d).drop (inner.child name')) (w.drop (inner.child name')) := by
      refine ⟨?_, fun x hx => ?_⟩
      · simp only [workingDirectory_drop, hagree.workingDirectory]
      · simp only [nodes_drop, hagree.nodes x hx]
    apply hown'.frame hagree'
    rw [Inert, nodes_drop, if_neg hapart]
    exact hfree
  have hbeside : (w.drop (inner.child name')).NamesPlace (temporaryPath path number) inner
      (temporaryName name' number) :=
    ⟨htemporary.fit, htemporary.short, _, endsIn_temporaryPath number hends,
      (siblings number hends).symm.follow (hstays.follow_front hends)⟩
  have hcontent : (w.drop (inner.child name')).nodes[
      inner.child (temporaryName name' number)]? = some (.file (Text.bytes m.text)) := by
    rw [nodes_drop, if_neg hapart, hnode]
  rw [hload]
  exact load_of_read (read_of_find (hbeside.find_of_file hcontent))

/-! ## The round trip -/

/-- Whatever was there before, a file that has been replaced is read as the entries that were written,
unless the move has cut the way to them: they are read back exactly if the temporary file can be read
without what lies at the path. This is so wherever neither of the two is a symbolic link, and also
where one lies at the path that is not on the way there. -/
theorem load_of_persist (h : (persist m path number t).run.run d = (.ok (), e)) :
    (∃ w parent name, written m path number d = .ok w ∧ w.NamesPlace path parent name ∧
      (load path e = .ok (some m) ↔
        load (temporaryPath path number) (w.drop (parent.child name)) = .ok (some m))) ∧
    (Unlinked (withDirectory path d) path ∨ Straight (withDirectory path d) path →
      Unlinked (withDirectory path d) (temporaryPath path number) →
      load path e = .ok (some m)) := by
  obtain ⟨w, hwritten, hrename⟩ := exists_written h
  obtain ⟨parent, name, hplace, hload⟩ := load_of_rename hwritten hrename
  exact ⟨⟨w, parent, name, hwritten, hplace, hload m⟩, load_of_straight hwritten hrename⟩

/-- A link to the file that is kept elsewhere. -/
def linked : Disk :=
  ((Disk.empty ["w"]).put "/w/kept.json" (.file [0x7b, 0x7d])).put "/w/hash.json" (.link "kept.json")

theorem namesPlace_linked :
    linked.NamesPlace "hash.json" "/w" "hash.json" ∧
    linked.NamesPlace "hash.json.7.tmp" "/w" "hash.json.7.tmp" ∧
    (linked.drop "/w/hash.json").NamesPlace "hash.json" "/w" "hash.json" := by
  refine ⟨⟨by decide, by decide, [], ⟨by decide, by decide, by decide, by decide⟩, ?_⟩,
    ⟨by decide, by decide, [], ⟨by decide, by decide, by decide, by decide⟩, ?_⟩,
    by decide, by decide, [], ⟨by decide, by decide, by decide, by decide⟩, ?_⟩
  all_goals decide +kernel

/-- Entries whose texts have to be escaped, or are empty. -/
def odd : Entries := ((∅ : Entries).insert "" "\"\\\n").insert "\u0001é😀" ""

/-- The link is replaced by a file, and odd texts are read back from it. -/
theorem load_of_persist_linked :
    ∃ e, (persist odd "hash.json" 7).run.run linked = (.ok (), e) ∧
      load "hash.json" e = .ok (some odd) := by
  obtain ⟨hplace, htemporary, hdropped⟩ := namesPlace_linked
  have hrun := eq_of_toOption
    (by decide +kernel : ((persist odd "hash.json" 7).run.run linked).1.toOption = some ())
  have hfree : (withDirectory "hash.json" linked).nodes[
      Location.child "/w" "hash.json.7.tmp"]? = none := by
    decide +kernel
  refine ⟨_, hrun, (load_of_persist hrun).2 (.inr fun parent name hnames => ?_)
    fun parent name target hnames => ?_⟩
  · obtain ⟨rfl, rfl⟩ := hplace.unique hnames
    exact hdropped
  · obtain ⟨rfl, rfl⟩ := htemporary.unique hnames
    rw [hfree]
    exact Option.some_ne_none _ ∘ Eq.symm

/-- The link at the path is on the way to it, and the move puts a file in its place. -/
def detour : Disk :=
  (((Disk.empty ["w"]).put "/w/x" .directory).put "/w/x/sub" .directory).put "/w/x/hash.json"
    (.link "sub")

/-- What has been replaced cannot always be read. -/
theorem not_load_of_persist :
    ¬∀ (m : Entries) (path : Path) (number : Nat) (d e : Disk),
      (persist m path number).run.run d = (.ok (), e) → load path e = .ok (some m) := by
  intro h
  have hload := h ∅ "x/hash.json/../hash.json" 7 detour _ (eq_of_toOption (by decide +kernel))
  have hok := congrArg Except.isOk hload
  exact absurd hok (by decide +kernel)

end Entries

end ForeignModule
