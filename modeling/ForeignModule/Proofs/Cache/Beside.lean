import ForeignModule.Proofs.Cache.Shared

/-!
# Several programs beside one file

Programs that share the file of a cache write beside it, each under its own name (`temporaryName_inj`).
`Lies path number content d` says that what a program has written lies there and that the file is one
for all programs; whatever the others do to replace the file, it goes on to lie there
(`Lies.makeDirectories`, `Lies.write`, `Lies.removeFile`, `Lies.rename`).
-/

namespace ForeignModule

open Entries Disk

/-- Programs with different numbers use different files. -/
theorem Entries.temporaryName_inj {name : RawText} {number other : Nat}
    (h : temporaryName name number = temporaryName name other) : number = other := by
  have hdigits := List.append_cancel_right (List.append_cancel_left h)
  exact Text.toString_nat_inj (Text.bytes_inj (List.append_cancel_left hdigits))

/-- What a program has written lies beside the file, and the file is one for all programs. -/
def Lies (path : Path) (number : Nat) (content : List UInt8) (d : Disk) : Prop :=
  ∃ file, Shared path file d ∧ Beside path number file content d

section

variable {path : Path} {number other : Nat} {file : Option (List UInt8)}
  {content written : List UInt8} {d e : Disk}

/-- What another program has written stays where something changes that is not its file. -/
theorem Lies.frame {place : Location} (h : Lies path other content d) (hshared : Shared path file e)
    (hagree : AgreeOff place d e)
    (hplaces : ∀ parent name, d.NamesPlace path parent name → e.NamesPlace path parent name)
    (htemporaries : ∀ parent name, d.NamesPlace (temporaryPath path other) parent name →
      e.NamesPlace (temporaryPath path other) parent name)
    (hne : ∀ parent name, d.NamesPlace path parent name →
      parent.child (temporaryName name other) ≠ place) :
    Lies path other content e := by
  obtain ⟨_, -, hbeside⟩ := h
  obtain ⟨parent, name, hplace, htemporary, hnode⟩ := hbeside.places
  refine ⟨file, hshared, (hshared other).held e .refl, parent, name, hplaces _ _ hplace,
    htemporaries _ _ htemporary, ?_⟩
  rw [hagree.nodes _ (hne _ _ hplace)]
  exact hnode

theorem Lies.shared (h : Lies path number content d) : ∃ file, Shared path file d :=
  let ⟨file, hshared, _⟩ := h
  ⟨file, hshared⟩

/-- The directory is there, and is not made again. -/
theorem Lies.makeDirectories {directory : Path} (h : Lies path other content d)
    (hdirectory : path.directory? = some directory) :
    Lies path other content (d.makeDirectories directory).2 := by
  obtain ⟨_, -, hbeside⟩ := id h
  obtain ⟨parent, name, hplace, -⟩ := hbeside.places
  rw [hplace.makeDirectories hdirectory]
  exact h

theorem Shared.makeDirectories {directory : Path} (h : Shared path file d)
    (hdirectory : path.directory? = some directory) :
    Shared path file (d.makeDirectories directory).2 :=
  fun number => (h number).prepared (.more .refl hdirectory)

/-- A program that writes beside the file leaves the file alone, and what others have written. -/
theorem Shared.writeTemporary (h : Shared path file d)
    (hwrite : d.write (temporaryPath path number) written = .ok e) :
    Shared path file e ∧ Beside path number file written e ∧
      ∀ other ≠ number, ∀ content, Lies path other content d → Lies path other content e := by
  obtain ⟨hbeside, hkept⟩ := (h number).write hwrite
  have hshared : Shared path file e := fun n => hkept n (h n)
  refine ⟨hshared, hbeside, fun other hother content hlies => ?_⟩
  obtain ⟨front, name, hends⟩ := (h number).named
  obtain ⟨parent, htemporary, hinert, rfl⟩ := exists_of_write (endsIn_temporaryPath number hends)
    hwrite fun parent target => ((h number).held d .refl).unlinked parent _ target
  have hagree := agreeOff_put d (parent.child (temporaryName name number)) (.file written)
  refine hlies.frame hshared hagree (fun _ _ hplace => hplace.frame hagree hinert)
    (fun _ _ hplace => hplace.frame hagree hinert) fun parent' name' hplace heq => ?_
  obtain ⟨front', hends', -⟩ := hplace.front
  obtain ⟨-, rfl⟩ := hends.unique hends'
  have hslash := hends.slash_not_mem
  exact hother (temporaryName_inj (Location.child_inj (slash_not_mem_temporaryName other hslash)
    (slash_not_mem_temporaryName number hslash) heq).2)

/-- Taking away the temporary file of another program. -/
theorem Lies.drop {parent : Location} {name : RawText} (h : Lies path other content d)
    (hother : other ≠ number) (hplace : d.NamesPlace path parent name)
    (hnode : d.Inert (parent.child (temporaryName name number)))
    (hshared : Shared path file (d.drop (parent.child (temporaryName name number)))) :
    Lies path other content (d.drop (parent.child (temporaryName name number))) := by
  have hagree := agreeOff_drop d (parent.child (temporaryName name number))
  refine h.frame hshared hagree (fun _ _ hp => hp.frame hagree hnode)
    (fun _ _ hp => hp.frame hagree hnode) fun parent' name' hplace' heq => ?_
  obtain ⟨rfl, rfl⟩ := hplace.unique hplace'
  have hslash := hplace.slash_not_mem
  exact hother (temporaryName_inj (Location.child_inj (slash_not_mem_temporaryName other hslash)
    (slash_not_mem_temporaryName number hslash) heq).2)

/-- A program that removes what it has written leaves the rest alone. -/
theorem Lies.removeFile (h : Lies path number written d)
    (hremove : d.removeFile (temporaryPath path number) = .ok e) :
    (∀ file, Shared path file d → Shared path file e) ∧
      ∀ other ≠ number, ∀ content, Lies path other content d → Lies path other content e := by
  obtain ⟨file, hshared, hbeside⟩ := h
  obtain ⟨parent, name, hplace, htemporary, hnode, -, -, -, hkept⟩ := hbeside.drop
  obtain rfl := Except.ok.inj ((removeFile_of_file htemporary hnode).symm.trans hremove)
  have hall : Shared path file _ := fun n => hkept n (hshared n)
  refine ⟨fun file' h' => ?_, fun other hother content hlies => ?_⟩
  · obtain rfl := hshared.unique (h' 0)
    exact hall
  · exact hlies.drop hother hplace (.inr ⟨written, hnode⟩) hall

/-- A program that moves what it has written into place gives all programs a new file, and leaves
alone what the others have written. -/
theorem Lies.rename (h : Lies path number written d)
    (hrename : d.rename (temporaryPath path number) path = .ok e) :
    Shared path (some written) e ∧
      ∀ other ≠ number, ∀ content, Lies path other content d → Lies path other content e := by
  obtain ⟨file, hshared, hbeside⟩ := h
  obtain ⟨parent, name, hplace, htemporary, hnode, hdir, hplace', hdead, hkept⟩ := hbeside.drop
  obtain rfl := Except.ok.inj ((rename_of_file htemporary hplace hnode hdir).symm.trans hrename)
  have hall : Shared path file (d.drop (parent.child (temporaryName name number))) := fun n =>
    hkept n (hshared n)
  have hnew : Shared path (some written) _ := fun n => (hall n).replace written hplace' hdead
  refine ⟨hnew, fun other hother content hlies => ?_⟩
  have hdropped := hlies.drop hother hplace (.inr ⟨written, hnode⟩) hall
  have hagree := agreeOff_put (d.drop (parent.child (temporaryName name number)))
    (parent.child name) (.file written)
  have hslash := hplace.slash_not_mem
  refine hdropped.frame hnew hagree (fun _ _ hp => hp.frame_deadEnd hagree hdead hslash)
    (fun _ _ hp => hp.frame_deadEnd hagree hdead hslash) fun parent' name' hp heq => ?_
  obtain ⟨rfl, rfl⟩ := hplace'.unique hp
  exact temporaryName_ne other (Location.child_inj (slash_not_mem_temporaryName other hslash) hslash
    heq).2

end

end ForeignModule
