import ForeignModule.Proofs.Cache.Entries
import ForeignModule.Proofs.Files.Keeping

/-!
# What replacing the file of the cache leaves alone

Only two places change, that of the file and that of the temporary file beside it (`persist_keeps`). Once
the file has been replaced it can always be replaced again (`Ready`, `persist_ready`): nothing but other
files lies in the way then.
-/

namespace ForeignModule

open Entries Routine Disk

/-- The directory of the file is there, and nothing but files lies at the place of the file and of the
temporary one. -/
def Ready (path : Path) (number : Nat) (d : Disk) : Prop :=
  ∃ parent name, d.NamesPlace path parent name ∧
    d.NamesPlace (temporaryPath path number) parent (temporaryName name number) ∧
    d.Inert (parent.child name) ∧ d.Inert (parent.child (temporaryName name number))

/-- No name on the path is one of those of the cache. -/
def Apart (path : Path) (number : Nat) (p : Path) : Prop :=
  ∀ front name, path.EndsIn front name → name ∉ p.names ∧ temporaryName name number ∉ p.names

section

variable {path : Path} {number : Nat} {front : List RawText} {name : RawText} {names : RawText → Prop}
  {d₀ d e : Disk} {content : List UInt8}

theorem Apart.ne_of_mem {p : Path} {other : RawText} (h : Apart path number p)
    (hends : path.EndsIn front name) (hother : other ∈ p.names) :
    other ≠ name ∧ other ≠ temporaryName name number := by
  obtain ⟨hname, htemporary⟩ := h front name hends
  constructor
  · rintro rfl
    exact hname hother
  · rintro rfl
    exact htemporary hother

theorem Apart.not_endsIn {p : Path} (h : Apart path number p) (hends : path.EndsIn front name)
    (front' : List RawText) :
    ¬p.EndsIn front' name ∧ ¬p.EndsIn front' (temporaryName name number) := by
  obtain ⟨hname, htemporary⟩ := h front name hends
  exact ⟨fun hp => hname hp.mem_names, fun hp => htemporary hp.mem_names⟩

theorem Apart.of_endsIn {p : Path} (hends : path.EndsIn front name)
    (hname : name ∉ p.names ∧ temporaryName name number ∉ p.names) : Apart path number p := by
  intro front' name' hends'
  obtain ⟨-, rfl⟩ := hends.unique hends'
  exact hname

/-- What happens under other names does not get in the way. -/
theorem Ready.frame {parent : Location} {other : RawText} (h : Ready path number d)
    (hagree : AgreeOff (parent.child other) d e) (hinert : d.Inert (parent.child other))
    (hslash : Path.slash ∉ other)
    (hother : ∀ front name, path.EndsIn front name → other ≠ name ∧ other ≠ temporaryName name number) :
    Ready path number e := by
  obtain ⟨parent', name', hplace, htemporary, hfile, hfile'⟩ := h
  obtain ⟨front', hends, -⟩ := hplace.front
  obtain ⟨hne, hne'⟩ := hother front' name' hends
  have hslash' := hends.slash_not_mem
  refine ⟨parent', name', hplace.frame hagree hinert, htemporary.frame hagree hinert, ?_, ?_⟩
  · unfold Inert
    rw [hagree.nodes _ fun heq => hne (Location.child_inj hslash' hslash heq).2.symm]
    exact hfile
  · unfold Inert
    rw [hagree.nodes _ fun heq => hne' (Location.child_inj
      (slash_not_mem_temporaryName number hslash') hslash heq).2.symm]
    exact hfile'

theorem Ready.made {p : Path} (h : Ready path number d) (hp : Apart path number p)
    (hmade : Made (· ∈ p.names) d e) : Ready path number e := by
  induction hmade with
  | refl => exact h
  | @more e parent other _ hother hslash hnone ih =>
    exact ih.frame (agreeOff_put e _ .directory) (.inl hnone) hslash fun front name hends =>
      hp.ne_of_mem hends hother

/-! ## What is kept -/

/-- No link bears a name of the cache, and the paths that have other names are kept. -/
structure KeepsOthers (path : Path) (number : Nat) (names : RawText → Prop) (d₀ d : Disk) : Prop where
  noLinks : d.NoLinks names
  keeps : ∀ p, Apart path number p → d₀.Keeps d p

theorem KeepsOthers.made {made : RawText → Prop} (h : KeepsOthers path number names d₀ d)
    (hmade : Made made d e) : KeepsOthers path number names d₀ e :=
  ⟨hmade.noLinks h.noLinks, fun p hp => (h.keeps p hp).trans (hmade.keeps p)⟩

/-- The temporary file has been written. -/
structure Written (path : Path) (number : Nat) (names : RawText → Prop) (name : RawText) (d₀ d : Disk) :
    Prop where
  keepsOthers : KeepsOthers path number names d₀ d
  file : ∃ parent content, d.NamesPlace (temporaryPath path number) parent (temporaryName name number) ∧
    d.nodes[parent.child (temporaryName name number)]? = some (.file content)

theorem KeepsOthers.write (hends : path.EndsIn front name)
    (hnames : names (temporaryName name number)) (h : KeepsOthers path number names d₀ d)
    (hwrite : d.write (temporaryPath path number) content = .ok e) :
    Written path number names name d₀ e := by
  have htemporary := endsIn_temporaryPath number hends
  obtain ⟨parent, hplace, hinert, rfl⟩ := exists_of_write htemporary hwrite
    fun parent target hp => h.noLinks.ne_link hp hnames target
  have hagree := agreeOff_put d (parent.child (temporaryName name number)) (.file content)
  refine ⟨⟨h.noLinks.put (fun _ hnode => nomatch hnode), fun p hp => ?_⟩, parent, content,
    hplace.frame hagree hinert, by simp [nodes_put]⟩
  exact (h.keeps p hp).trans (hagree.keeps hinert hplace.slash_not_mem fun front' =>
    (hp.not_endsIn hends front').2)

theorem Written.removeFile (hends : path.EndsIn front name) (h : Written path number names name d₀ d)
    (hremove : d.removeFile (temporaryPath path number) = .ok e) :
    KeepsOthers path number names d₀ e := by
  obtain ⟨parent, content, hplace, hnode⟩ := h.file
  rw [removeFile_of_file hplace hnode] at hremove
  obtain rfl := Except.ok.inj hremove
  refine ⟨h.keepsOthers.noLinks.drop _, fun p hp => (h.keepsOthers.keeps p hp).trans ?_⟩
  exact (agreeOff_drop d _).keeps (.inr ⟨content, hnode⟩) hplace.slash_not_mem fun front' =>
    (hp.not_endsIn hends front').2

theorem Written.rename (hends : path.EndsIn front name) (hname : names name)
    (h : Written path number names name d₀ d)
    (hrename : d.rename (temporaryPath path number) path = .ok e) :
    KeepsOthers path number names d₀ e ∧ Ready path number e := by
  obtain ⟨parent, content, htemporary, hnode⟩ := h.file
  obtain ⟨parent', parent'', node, hplace', hplace, hnode', -, hdir, rfl⟩ :=
    exists_of_rename (endsIn_temporaryPath number hends) hends hrename
  obtain ⟨rfl, -⟩ := htemporary.unique hplace'
  obtain rfl := Option.some.inj (hnode.symm.trans hnode')
  have hslash := hplace.slash_not_mem
  have hslash' := slash_not_mem_temporaryName number hslash
  -- Both paths lead through the same directory.
  obtain rfl : parent'' = parent' := by
    have hfront := NamesPlace.follow_sibling hends hslash' (temporaryPath_eq number hends ▸ htemporary)
    have hfound := (hplace.follow_front hends).symm.trans hfront
    injection hfound with hfound
    injection hfound
  have hne : parent''.child (temporaryName name number) ≠ parent''.child name := fun heq =>
    temporaryName_ne number (Location.child_inj hslash' hslash heq).2
  have hinert : d.Inert (parent''.child (temporaryName name number)) := .inr ⟨content, hnode⟩
  have hinert' : (d.drop (parent''.child (temporaryName name number))).Inert (parent''.child name) := by
    unfold Inert
    rw [nodes_drop, if_neg hne.symm]
    cases hold : d.nodes[parent''.child name]? with
    | none => exact .inl rfl
    | some old =>
      cases old with
      | directory => exact absurd hold hdir
      | file bytes => exact .inr ⟨bytes, rfl⟩
      | link target => exact absurd hold (h.keepsOthers.noLinks.ne_link hplace hname target)
  have hdrop := agreeOff_drop d (parent''.child (temporaryName name number))
  have hput := agreeOff_put (d.drop (parent''.child (temporaryName name number)))
    (parent''.child name) (.file content)
  refine ⟨⟨(h.keepsOthers.noLinks.drop _).put (fun _ hn => nomatch hn), fun p hp => ?_⟩, parent'', name,
    (hplace.frame hdrop hinert).frame hput hinert',
    (htemporary.frame hdrop hinert).frame hput hinert', .inr ⟨content, by simp [nodes_put]⟩,
    .inl (by rw [nodes_put, if_neg hne, nodes_drop, if_pos rfl])⟩
  have hkeep := hdrop.keeps hinert hslash' fun front' => (hp.not_endsIn hends front').2
  have hkeep' := hput.keeps hinert' hslash fun front' => (hp.not_endsIn hends front').1
  exact ((h.keepsOthers.keeps p hp).trans hkeep).trans hkeep'

/-! ## Replacing the file -/

/-- At no stage of replacing the file another path is touched. -/
theorem stages_keepsOthers (hends : path.EndsIn front name) (hname : names name)
    (hnames : names (temporaryName name number)) :
    Stages path number (KeepsOthers path number names d₀)
      (fun _ => Written path number names name d₀)
      fun _ d => KeepsOthers path number names d₀ d ∧ Ready path number d where
  directory d _ hd hdirectory := hd.made (made_makeDirectories d hdirectory)
  write _ _ _ hd he := hd.write hends hnames he
  unwritten _ _ hd := hd.keepsOthers
  remove _ _ _ hd he := hd.removeFile hends he
  rename _ _ _ hd he := hd.rename hends hname he

/-- Replacing the file of the cache keeps the paths that have other names, and nothing is in the way of
doing so again if it succeeds. -/
theorem persist_keeps (hends : path.EndsIn front name) (hname : names name)
    (hnames : names (temporaryName name number)) (m : Entries) (t : Trouble) :
    Leaves (KeepsOthers path number names d₀) (persist m path number t)
      (fun _ d => KeepsOthers path number names d₀ d ∧ Ready path number d)
      (KeepsOthers path number names d₀) :=
  (stages_keepsOthers hends hname hnames).persist_leaves m t

/-! ## Success -/

/-- Everything is ready, and the temporary file is there. -/
def Opened (path : Path) (number : Nat) (d : Disk) : Prop :=
  ∃ parent name content, d.NamesPlace path parent name ∧
    d.NamesPlace (temporaryPath path number) parent (temporaryName name number) ∧
    d.Inert (parent.child name) ∧
    d.nodes[parent.child (temporaryName name number)]? = some (.file content)

theorem Opened.ready (h : Opened path number d) : Ready path number d := by
  obtain ⟨parent, name, content, hplace, htemporary, hfile, hnode⟩ := h
  exact ⟨parent, name, hplace, htemporary, hfile, .inr ⟨content, hnode⟩⟩

theorem Ready.write (h : Ready path number d) (content : List UInt8) :
    ∃ e, d.write (temporaryPath path number) content = .ok e ∧ Opened path number e := by
  obtain ⟨parent, name, hplace, htemporary, hfile, hinert⟩ := h
  have hagree := agreeOff_put d (parent.child (temporaryName name number)) (.file content)
  have hslash := hplace.slash_not_mem
  refine ⟨_, write_of_inert htemporary hinert content, parent, name, content,
    hplace.frame hagree hinert, htemporary.frame hagree hinert, ?_, by simp [nodes_put]⟩
  unfold Inert
  rw [hagree.nodes]
  · exact hfile
  · intro heq
    exact temporaryName_ne number (Location.child_inj hslash
      (slash_not_mem_temporaryName number hslash) heq).2.symm

theorem Opened.rename (h : Opened path number d) :
    ∃ e, d.rename (temporaryPath path number) path = .ok e := by
  obtain ⟨parent, name, content, hplace, htemporary, hfile, hnode⟩ := h
  exact ⟨_, rename_of_file htemporary hplace hnode hfile.ne_directory⟩

-- What the steps do to the disk is known from the lemmas above, and need not be run.
attribute [local irreducible] Disk.write Disk.rename Disk.removeFile Disk.makeDirectories

theorem step_succeeds {before failed : Disk → Prop} {after : Unit → Disk → Prop} (blame : Path)
    {f : Disk → Except Fault Disk} (h : ∀ d, before d → ∃ e, f d = .ok e ∧ after () e) :
    Leaves before (Entries.step blame f) after failed := by
  refine .attempt_ok fun d hd => ?_
  obtain ⟨e, hf, he⟩ := h d hd
  exact ⟨e, by rw [hf]; rfl, he⟩

/-- Where nothing is in the way, replacing the file succeeds. -/
theorem persist_ready (m : Entries) :
    Leaves (Ready path number) (persist m path number) (fun _ _ => True) (fun _ => False) := by
  have hdirectory : Leaves (Ready path number) (Entries.makeDirectory path none)
      (fun _ => Ready path number) (fun _ => False) := by
    unfold Entries.makeDirectory
    cases hdir : path.directory? with
    | none => exact .pure fun _ h => h
    | some directory =>
      intro d hd
      obtain ⟨parent, name, hplace, -⟩ := id hd
      rw [ExceptT.run_mk, run_act, hplace.makeDirectories hdir]
      exact hd
  have hwrite : ∀ content, Leaves (Ready path number)
      (Entries.step (temporaryPath path number) (·.write (temporaryPath path number) content))
      (fun _ => Opened path number) (fun _ => False) := fun content =>
    step_succeeds _ fun d hd => hd.write content
  have hsync : Leaves (Opened path number) (Entries.step (temporaryPath path number) .ok)
      (fun _ => Opened path number) (fun _ => False) :=
    step_succeeds _ fun d hd => ⟨d, rfl, hd⟩
  have hrename : Leaves (Opened path number)
      (Entries.step path (Trouble.instead none (·.rename (temporaryPath path number) path)))
      (fun _ _ => True) (fun _ => False) := by
    refine step_succeeds _ fun d hd => ?_
    obtain ⟨e, hrename⟩ := hd.rename
    exact ⟨e, hrename, trivial⟩
  have hmove : Leaves (Opened path number) (moveInto (temporaryPath path number) path none)
      (fun _ _ => True) (fun _ => False) := .tryCatch hrename fun e d hd => hd.elim
  refine .bind hdirectory fun _ => .bind (hwrite []) fun _ => .bind ?_ fun _ => .bind hsync fun _ =>
    hmove
  intro d hd
  exact hwrite _ d hd.ready

end

end ForeignModule
