import ForeignModule.Cache.Entries
import ForeignModule.Proofs.Files.Change
import ForeignModule.Proofs.Json.TextMap
import ForeignModule.Proofs.Routine
import ForeignModule.Proofs.Text.Search
import ForeignModule.Proofs.Text.Utf8

/-!
# The file of the cache

* `ofText?_text`, `inFile?_text`: the entries that are written are read back;
* `CacheFile path number file d`: the file of a cache holds this content, or is not there, and no
  writing to the temporary file beside it changes that;
* `persist_leaves`: replacing the file succeeds with the new content, or fails with the old one,
  whatever trouble it meets.
-/

namespace ForeignModule

namespace Entries

/-! ## Keys -/

theorem erase_eq_self {m : Entries} {key : String} (h : m.contains key = false) :
    m.erase key = m := by
  refine Std.ExtTreeMap.ext_getElem? fun key' => ?_
  rw [Std.ExtTreeMap.getElem?_erase]
  split
  · rename_i heq
    obtain rfl := Std.LawfulEqCmp.compare_eq_iff_eq.1 heq
    exact (Std.ExtTreeMap.getElem?_eq_none_of_contains_eq_false h).symm
  · rfl

/-- What has been put under a key is dropped with it. -/
theorem erase_insert (m : Entries) (key digest : String) :
    (m.insert key digest).erase key = m.erase key := by
  refine Std.ExtTreeMap.ext_getElem? fun key' => ?_
  rw [Std.ExtTreeMap.getElem?_erase, Std.ExtTreeMap.getElem?_erase,
    Std.ExtTreeMap.getElem?_insert]
  split <;> rfl

/-! ## The format -/

/-- The text of entries is read as these entries. -/
theorem ofText?_text (m : Entries) : ofText? m.text = some m := by
  have hfold : m.toList.foldl (fun (t : Entries) p => t.insert p.1 p.2) ∅
      = (∅ : Entries).insertMany m.toList := Std.ExtTreeMap.insertMany_list_eq_foldl.symm
  have hsame : (∅ : Entries).insertMany m.toList = m := by
    refine Std.ExtTreeMap.ext_getElem? fun key => ?_
    cases hkey : m[key]? with
    | some digest =>
      exact Std.ExtTreeMap.getElem?_insertMany_list_of_mem (Std.LawfulEqCmp.compare_eq_iff_eq.2 rfl)
        Std.ExtTreeMap.distinct_keys_toList
        (Std.ExtTreeMap.mem_toList_iff_getElem?_eq_some.2 hkey)
    | none =>
      have hfalse : (m.toList.map Prod.fst).contains key = false := by
        rw [List.contains_eq_mem, decide_eq_false_iff_not]
        intro hmem
        obtain ⟨⟨key', digest⟩, hpair, rfl⟩ := List.mem_map.1 hmem
        have := Std.ExtTreeMap.mem_toList_iff_getElem?_eq_some.1 hpair
        rw [hkey] at this
        cases this
      rw [Std.ExtTreeMap.getElem?_insertMany_list_of_contains_eq_false hfalse]
      exact Std.ExtTreeMap.getElem?_empty
  rw [ofText?, text, String.toList_ofList, Json.pairs?_render, Option.map_some]
  exact congrArg some (hfold.trans hsame)

/-- The entries in a file that may not be there: then there are none. -/
def inFile? : Option (List UInt8) → Option Entries
  | none => some ∅
  | some content => (Text.decode? content).bind ofText?

theorem inFile?_text (m : Entries) : inFile? (some (Text.bytes m.text)) = some m := by
  rw [inFile?, Text.decode?_bytes, Option.bind_some, ofText?_text]

end Entries

/-! ## The place of the file -/

namespace Entries

/-- The name of the temporary file. -/
def temporaryName (name : RawText) (number : Nat) : RawText :=
  name ++ ("." ++ toString number ++ ".tmp")

variable {path : Path} {front : List RawText} {name : RawText} (number : Nat)

theorem temporaryPath_eq (h : path.EndsIn front name) :
    temporaryPath path number = path.withFileName (temporaryName name number) := by
  rw [temporaryPath, h.fileName?_eq]
  rfl

theorem slash_not_mem_temporaryName (h : Path.slash ∉ name) :
    Path.slash ∉ temporaryName name number := by
  have hdigits : Path.slash ∉ Text.bytes (toString number) := by
    intro hmem
    have hdigit := Text.isDigit_of_mem_toString (Text.mem_of_mem_bytes hmem (by decide))
    exact absurd hdigit (by decide)
  have hpoint : Path.slash ∉ Text.bytes "." := by decide
  have hending : Path.slash ∉ Text.bytes ".tmp" := by decide
  simp only [temporaryName, List.mem_append, not_or]
  exact ⟨h, ⟨hpoint, hdigits⟩, hending⟩

theorem length_temporaryName : name.length + 5 ≤ (temporaryName name number).length := by
  have hpoint : (Text.bytes ".").length = 1 := by decide
  have hending : (Text.bytes ".tmp").length = 4 := by decide
  simp only [temporaryName, List.length_append, hpoint, hending]
  omega

theorem temporaryName_ne : temporaryName name number ≠ name := by
  intro h
  have : name.length + 5 ≤ (temporaryName name number).length := length_temporaryName number
  rw [h] at this
  omega

theorem isName_temporaryName : Path.IsName (temporaryName name number) := by
  have hlong : ∀ short : RawText, short.length < 5 → temporaryName name number ≠ short := by
    rintro short hshort rfl
    have : name.length + 5 ≤ (temporaryName name number).length := length_temporaryName number
    omega
  exact ⟨hlong [] (by decide), hlong Path.here (by decide), hlong Path.up (by decide)⟩

theorem endsIn_temporaryPath (h : path.EndsIn front name) :
    (temporaryPath path number).EndsIn (Path.kept front) (temporaryName name number) := by
  refine ⟨?_, isName_temporaryName number⟩
  rw [temporaryPath_eq number h, Path.names_withFileName h
    (slash_not_mem_temporaryName number h.slash_not_mem)]

end Entries

/-! ## The file -/

/-- What a file that may not be there gives when it is read. -/
def reading : Option (List UInt8) → Except Fault (List UInt8)
  | some content => .ok content
  | none => .error .notFound

/-- The file holds this content, or is not there, and what is written to the temporary path reaches
it neither through a link nor by leading to it. -/
structure Held (path temporary : Path) (file : Option (List UInt8)) (d : Disk) : Prop where
  reads : d.read path = reading file
  unlinked : ∀ parent name target, d.NamesPlace temporary parent name →
    d.nodes[parent.child name]? ≠ some (.link target)
  apart : ∀ parent name, d.NamesPlace temporary parent name →
    ∃ r, d.find path = .ok r ∧ r.Off (parent.child name)

/-- A disk comes from another one by making the directory of a path, however often. -/
inductive Prepared (path : Path) (d : Disk) : Disk → Prop where
  | refl : Prepared path d d
  | more {e : Disk} {directory : Path} (h : Prepared path d e)
    (hdirectory : path.directory? = some directory) : Prepared path d (e.makeDirectories directory).2

/-- The cache of this path and number has a file with this content, or none, and keeps it however
often its directory is made. -/
structure CacheFile (path : Path) (number : Nat) (file : Option (List UInt8)) (d : Disk) :
    Prop where
  named : ∃ front name, path.EndsIn front name
  held : ∀ e, Prepared path d e → Held path (Entries.temporaryPath path number) file e

theorem Prepared.trans {path : Path} {d e e' : Disk} (h : Prepared path d e)
    (h' : Prepared path e e') : Prepared path d e' := by
  induction h' with
  | refl => exact h
  | more _ hdirectory ih => exact .more ih hdirectory

/-- A directory that is there is not made again. -/
theorem Prepared.eq_of_namesPlace {path : Path} {d e : Disk} {parent : Location} {name : RawText}
    (h : Prepared path d e) (hplace : d.NamesPlace path parent name) : e = d := by
  induction h with
  | refl => rfl
  | more _ hdirectory ih => rw [ih, hplace.makeDirectories hdirectory]

namespace CacheFile

variable {path : Path} {number : Nat} {file : Option (List UInt8)} {d e : Disk}

theorem reads (h : CacheFile path number file d) : d.read path = reading file :=
  (h.held d .refl).reads

theorem prepared (h : CacheFile path number file d) (he : Prepared path d e) :
    CacheFile path number file e :=
  ⟨h.named, fun _ he' => h.held _ (he.trans he')⟩

/-- Where the directory is there, one look at the disk is enough. -/
theorem of_namesPlace {parent : Location} {name : RawText} (hplace : d.NamesPlace path parent name)
    (h : Held path (Entries.temporaryPath path number) file d) : CacheFile path number file d := by
  obtain ⟨front, hends, -⟩ := hplace.front
  exact ⟨⟨front, name, hends⟩, fun e he => he.eq_of_namesPlace hplace ▸ h⟩

end CacheFile

/-! ## Writing beside the file -/

/-- The temporary file lies beside the file, in a directory that is there, and holds this. -/
structure Beside (path : Path) (number : Nat) (file : Option (List UInt8)) (content : List UInt8)
    (d : Disk) : Prop where
  held : Held path (Entries.temporaryPath path number) file d
  places : ∃ parent name, d.NamesPlace path parent name ∧
    d.NamesPlace (Entries.temporaryPath path number) parent (Entries.temporaryName name number) ∧
    d.nodes[parent.child (Entries.temporaryName name number)]? = some (.file content)

namespace Beside

variable {path : Path} {number : Nat} {file : Option (List UInt8)} {content : List UInt8}
  {d e : Disk}

theorem cacheFile (h : Beside path number file content d) : CacheFile path number file d := by
  obtain ⟨parent, name, hplace, -, -⟩ := h.places
  exact .of_namesPlace hplace h.held

end Beside

/-- A file in a directory that is there, or nothing, is the file of a cache unless a link lies at the place
of the temporary file. -/
theorem CacheFile.of_inert {path : Path} {number : Nat} {file : Option (List UInt8)} {d : Disk}
    {parent : Location} {name : RawText} (hplace : d.NamesPlace path parent name)
    (hfile : d.nodes[parent.child name]? = file.map .file)
    (hlink : ∀ target,
      d.nodes[parent.child (Entries.temporaryName name number)]? ≠ some (.link target)) :
    CacheFile path number file d := by
  obtain ⟨front, hends, hfront⟩ := hplace.front
  have hslash := Entries.slash_not_mem_temporaryName number hends.slash_not_mem
  have hne : parent.child name ≠ parent.child (Entries.temporaryName name number) := fun heq =>
    Entries.temporaryName_ne number (Location.child_inj hends.slash_not_mem hslash heq).2.symm
  have hfind : ∃ r, d.find path = .ok r ∧ Disk.content r = reading file ∧
      r.Off (parent.child (Entries.temporaryName name number)) := by
    cases file with
    | none => exact ⟨_, hplace.find_of_none hfile, rfl, hne⟩
    | some content => exact ⟨_, hplace.find_of_file hfile, rfl, .inr hne⟩
  obtain ⟨r, hr, hread, hoff⟩ := hfind
  have hplaces : ∀ parent' name', d.NamesPlace (Entries.temporaryPath path number) parent' name' →
      parent' = parent ∧ name' = Entries.temporaryName name number := by
    intro parent' name' h'
    obtain ⟨front', hends', -⟩ := h'.front
    obtain ⟨-, rfl⟩ := (Entries.endsIn_temporaryPath number hends).unique hends'
    have hfront' := Disk.NamesPlace.follow_sibling hends hslash
      (Entries.temporaryPath_eq number hends ▸ h')
    rw [hfront] at hfront'
    injection hfront' with hfound
    injection hfound with hparent
    exact ⟨hparent.symm, rfl⟩
  refine .of_namesPlace hplace ⟨by rw [Disk.read_of_find hr, hread], ?_, ?_⟩
  · intro parent' name' target h'
    obtain ⟨rfl, rfl⟩ := hplaces parent' name' h'
    exact hlink target
  · intro parent' name' h'
    obtain ⟨rfl, rfl⟩ := hplaces parent' name' h'
    exact ⟨r, hr, hoff⟩

/-- A change at a place that leads nowhere, and that is not the place of the file, leaves the file alone. -/
theorem CacheFile.frame {path : Path} {number : Nat} {file : Option (List UInt8)} {d e : Disk}
    {place parent : Location} {name : RawText} {r : Disk.Found}
    (hplace : d.NamesPlace path parent name) (hagree : Disk.AgreeOff place d e)
    (hd : d.Inert place) (he : e.Inert place) (hr : d.find path = .ok r) (hoff : r.Off place)
    (h : CacheFile path number file d) : CacheFile path number file e := by
  have hheld := h.held d .refl
  have hfind : e.find path = .ok r := Disk.find_frame hagree hd hr hoff
  refine .of_namesPlace (hplace.frame hagree hd) ⟨?_, ?_, ?_⟩
  · rw [Disk.read_of_find hfind, ← Disk.read_of_find hr]
    exact hheld.reads
  · intro parent' name' target htemporary
    by_cases hat : parent'.child name' = place
    · rw [hat]
      rcases he with hnone | ⟨content, hfile⟩
      · simp [hnone]
      · simp [hfile]
    · rw [hagree.nodes _ hat]
      exact hheld.unlinked _ _ target (htemporary.frame hagree.symm he)
  · intro parent' name' htemporary
    obtain ⟨r', hr', hoff'⟩ := hheld.apart _ _ (htemporary.frame hagree.symm he)
    obtain rfl := Except.ok.inj (hr.symm.trans hr')
    exact ⟨r, hfind, hoff'⟩

/-- A file that is put at the place itself is the file. -/
theorem CacheFile.replace {path : Path} {number : Nat} {file : Option (List UInt8)} {d : Disk}
    {parent : Location} {name : RawText} (content : List UInt8)
    (hplace : d.NamesPlace path parent name) (hdead : d.DeadEnd parent name)
    (h : CacheFile path number file d) :
    CacheFile path number (some content) (d.put (parent.child name) (.file content)) := by
  obtain ⟨front, hends, -⟩ := id hplace.front
  have hagree := Disk.agreeOff_put d (parent.child name) (.file content)
  have hnode : (d.put (parent.child name) (.file content)).nodes[parent.child name]?
      = some (.file content) := by
    simp [Disk.nodes_put]
  have hplace' := hplace.frame_deadEnd hagree hdead hends.slash_not_mem
  have hfind := hplace'.find_of_file hnode
  refine .of_namesPlace hplace' ⟨by rw [Disk.read_of_find hfind]; rfl, ?_, ?_⟩
  · intro parent' name' target htemporary
    by_cases hat : parent'.child name' = parent.child name
    · rw [hat, hnode]
      simp
    · rw [hagree.nodes _ hat]
      exact (h.held d .refl).unlinked _ _ target
        (htemporary.frame hagree.symm (.inr ⟨content, hnode⟩))
  · intro parent' name' htemporary
    refine ⟨_, hfind, .inr fun heq => ?_⟩
    -- The temporary file has another name than the file.
    obtain ⟨front', hends', -⟩ := htemporary.front
    obtain ⟨-, rfl⟩ := (Entries.endsIn_temporaryPath number hends).unique hends'
    exact Entries.temporaryName_ne number (Location.child_inj hends.slash_not_mem
      hends'.slash_not_mem heq).2.symm

section Steps

variable {path : Path} {number : Nat} {file : Option (List UInt8)} {content : List UInt8}
  {d e : Disk}

/-- A path that can be read, or leads to nothing, names a place wherever its directory is there. -/
theorem namesPlace_of_reading {front : List RawText} {name : RawText} {parent : Location}
    (hends : path.EndsIn front name) (hfront : d.follow path front = .ok (.present parent .directory))
    (hread : d.read path = reading file) : d.NamesPlace path parent name := by
  have hfault : ∀ fault, d.find path = .error fault → fault = .notFound := by
    intro fault hfind
    rw [Disk.read, hfind] at hread
    cases file with
    | none =>
      injection hread
    | some content => cases hread
  have hne : path ≠ [] := by
    rintro rfl
    have hnames : front ++ [name] = [] ++ [[]] := hends.names.symm
    exact hends.isName.ne_empty (List.cons.inj (List.append_inj' hnames rfl).2).1
  have hfit : Disk.unfit? path = none := by
    cases hunfit : Disk.unfit? path with
    | none => rfl
    | some fault =>
      have hfind : d.find path = .error fault := by simp only [Disk.find, hunfit]
      rw [hfault fault hfind] at hunfit
      simp only [Disk.unfit?, Disk.malformed?, List.isEmpty_iff, hne, if_false] at hunfit
      split at hunfit
      · rename_i hzero
        split at hzero <;> simp_all
      · split at hunfit <;> cases hunfit
  refine ⟨hfit, Nat.le_of_not_lt fun hlong => ?_, front, hends, hfront⟩
  obtain ⟨left, hleft⟩ := Disk.exists_follow_append hfront
  have hfind : d.find path = .error .nameTooLong := by
    rw [Disk.find_of_fit hfit, hends.names, hleft]
    simp [Disk.walkNames, hends.isName.ne_empty, hends.isName.ne_dot, hends.isName.ne_up, hlong]
  cases hfault _ hfind

/-- What is written to the temporary path goes beside the file. -/
theorem CacheFile.write (h : CacheFile path number file d)
    (hwrite : d.write (Entries.temporaryPath path number) content = .ok e) :
    Beside path number file content e ∧
      ∀ n, CacheFile path n file d → CacheFile path n file e := by
  obtain ⟨front, name, hends⟩ := h.named
  have hheld := h.held d .refl
  obtain ⟨parent, htemporary, hinert, rfl⟩ := Disk.exists_of_write
    (Entries.endsIn_temporaryPath number hends) hwrite fun parent target => hheld.unlinked parent _ target
  have hfront : d.follow path front = .ok (.present parent .directory) :=
    Disk.NamesPlace.follow_sibling hends
      (Entries.slash_not_mem_temporaryName number hends.slash_not_mem)
      (Entries.temporaryPath_eq number hends ▸ htemporary)
  have hplace := namesPlace_of_reading hends hfront hheld.reads
  obtain ⟨r, hr, hoff⟩ := hheld.apart parent _ htemporary
  have hagree := Disk.agreeOff_put d (parent.child (Entries.temporaryName name number))
    (.file content)
  have hnode : (d.put (parent.child (Entries.temporaryName name number)) (.file content)).nodes[
      parent.child (Entries.temporaryName name number)]? = some (.file content) := by
    simp [Disk.nodes_put]
  have hkept : ∀ n, CacheFile path n file d → CacheFile path n file _ := fun n hn =>
    hn.frame hplace hagree hinert (.inr ⟨content, hnode⟩) hr hoff
  exact ⟨⟨(hkept number h).held _ .refl, parent, name, hplace.frame hagree hinert,
    htemporary.frame hagree hinert, hnode⟩, hkept⟩

/-- Without the temporary file the file is what it was, and no way to a directory leads through its
place. -/
theorem Beside.drop (h : Beside path number file content d) : ∃ parent name,
    d.NamesPlace path parent name ∧
    d.NamesPlace (Entries.temporaryPath path number) parent (Entries.temporaryName name number) ∧
    d.nodes[parent.child (Entries.temporaryName name number)]? = some (.file content) ∧
    d.nodes[parent.child name]? ≠ some .directory ∧
    (d.drop (parent.child (Entries.temporaryName name number))).NamesPlace path parent name ∧
    (d.drop (parent.child (Entries.temporaryName name number))).DeadEnd parent name ∧
    ∀ n, CacheFile path n file d →
      CacheFile path n file (d.drop (parent.child (Entries.temporaryName name number))) := by
  obtain ⟨parent, name, hplace, htemporary, hnode⟩ := h.places
  obtain ⟨r, hr, hoff⟩ := h.held.apart parent _ htemporary
  have hread : Disk.content r = reading file := (Disk.read_of_find hr).symm.trans h.held.reads
  have hfile : ∀ at', r ≠ .present at' .directory := by
    rintro at' rfl
    cases file <;> cases hread
  have hinert : d.Inert (parent.child (Entries.temporaryName name number)) := .inr ⟨content, hnode⟩
  have hagree := Disk.agreeOff_drop d (parent.child (Entries.temporaryName name number))
  have hplace' := hplace.frame hagree hinert
  refine ⟨parent, name, hplace, htemporary, hnode, (hplace.deadEnd hr hfile).ne_directory, hplace',
    hplace'.deadEnd (Disk.find_frame hagree hinert hr hoff) hfile, fun n hn => ?_⟩
  exact hn.frame hplace hagree hinert (.inl (by simp [Disk.nodes_drop])) hr hoff

/-- The temporary file can be taken away again. -/
theorem Beside.removeFile (h : Beside path number file content d) :
    ∃ e, d.removeFile (Entries.temporaryPath path number) = .ok e ∧
      ∀ n, CacheFile path n file d → CacheFile path n file e := by
  obtain ⟨parent, name, -, htemporary, hnode, -, -, -, hkept⟩ := h.drop
  exact ⟨_, Disk.removeFile_of_file htemporary hnode, hkept⟩

/-- The temporary file can be moved into place, and is then the file. -/
theorem Beside.rename (h : Beside path number file content d) :
    ∃ e, d.rename (Entries.temporaryPath path number) path = .ok e ∧
      ∀ n, CacheFile path n file d → CacheFile path n (some content) e := by
  obtain ⟨parent, name, hplace, htemporary, hnode, hdir, hplace', hdead, hkept⟩ := h.drop
  exact ⟨_, Disk.rename_of_file htemporary hplace hnode hdir, fun n hn =>
    (hkept n hn).replace content hplace' hdead⟩

end Steps

/-! ## Replacing the file -/

namespace Entries

open Routine

/-- What holds at the stages of replacing a file: at first, while the temporary file holds something,
and once that has been moved. A step that fails may leave the disk at the stage before. -/
structure Stages (path : Path) (number : Nat) (before : Disk → Prop)
    (written after : List UInt8 → Disk → Prop) : Prop where
  directory : ∀ d directory, before d → path.directory? = some directory →
    before (d.makeDirectories directory).2
  write : ∀ d e content, before d → d.write (temporaryPath path number) content = .ok e →
    written content e
  unwritten : ∀ d content, written content d → before d
  remove : ∀ d e content, written content d → d.removeFile (temporaryPath path number) = .ok e →
    before e
  rename : ∀ d e content, written content d → d.rename (temporaryPath path number) path = .ok e →
    after content e

section

variable {path : Path} {number : Nat} {before failed : Disk → Prop}
  {written after : List UInt8 → Disk → Prop} {content : List UInt8}

theorem step_leaves {ends : Unit → Disk → Prop} (blame : Path) {f : Disk → Except Fault Disk}
    (hbefore : ∀ d, before d → failed d) (h : ∀ d e, before d → f d = .ok e → ends () e) :
    Leaves before (step blame f) ends failed := by
  refine .attempt hbefore fun d e hd he => h d e hd ?_
  cases hf : f d with
  | error fault =>
    rw [hf] at he
    cases he
  | ok e' =>
    rw [hf] at he
    injection he with he
    rw [he]

/-- Trouble instead of a step changes nothing. -/
theorem instead_leaves {ends : Unit → Disk → Prop} (blame : Path) (trouble : Option Fault)
    {f : Disk → Except Fault Disk} (hbefore : ∀ d, before d → failed d)
    (h : ∀ d e, before d → f d = .ok e → ends () e) :
    Leaves before (step blame (Trouble.instead trouble f)) ends failed := by
  refine step_leaves blame hbefore fun d e hd he => ?_
  cases trouble with
  | some fault => cases he
  | none => exact h d e hd he

namespace Stages

theorem makeDirectory_leaves (h : Stages path number before written after)
    (trouble : Option Fault) :
    Leaves before (makeDirectory path trouble) (fun _ => before) before := by
  unfold makeDirectory
  cases hdirectory : path.directory? with
  | none => exact .pure fun _ hd => hd
  | some directory =>
    cases trouble with
    | some fault => exact .throw _ fun _ hd => hd
    | none =>
      intro d hd
      have hmade := h.directory d directory hd hdirectory
      rw [ExceptT.run_mk, run_act]
      generalize d.makeDirectories directory = made at hmade ⊢
      obtain ⟨_ | _, e⟩ := made <;> exact hmade

/-- The temporary file is there already, and may hold a part of the content in the end. -/
theorem writeContent_leaves (h : Stages path number before written after)
    (trouble : Option (Nat × Fault)) :
    Leaves (written []) (writeContent (temporaryPath path number) content trouble)
      (fun _ => written content) before := by
  have hwrite : ∀ part, Leaves (written [])
      (step (temporaryPath path number) (·.write (temporaryPath path number) part))
      (fun _ => written part) before := fun part =>
    step_leaves _ (fun d hd => h.unwritten d [] hd) fun d e hd he =>
      h.write d e part (h.unwritten d [] hd) he
  cases trouble with
  | none => exact hwrite content
  | some trouble =>
    exact .bind (hwrite (content.take trouble.1)) fun _ => .throw _ fun d hd =>
      h.unwritten d _ hd

/-- A temporary file that cannot be moved is removed, if that is possible. -/
theorem moveInto_leaves (h : Stages path number before written after) (trouble : Option Fault) :
    Leaves (written content) (moveInto (temporaryPath path number) path trouble)
      (fun _ => after content) before := by
  have hmove : Leaves (written content)
      (step path (Trouble.instead trouble (·.rename (temporaryPath path number) path)))
      (fun _ => after content) (written content) :=
    instead_leaves _ trouble (fun d hd => hd) fun d e hd he => h.rename d e content hd he
  have hremove : Leaves (ε := CacheError) (written content)
      (liftM (Routine.attempt (·.removeFile (temporaryPath path number)) :
        Routine Disk (Except Fault Unit)))
      (fun _ => before) before := by
    refine .lift fun d hd => ?_
    rw [Routine.attempt, run_act]
    cases hremoved : d.removeFile (temporaryPath path number) with
    | ok e => exact h.remove d e content hd hremoved
    | error fault => exact h.unwritten d content hd
  exact .tryCatch hmove fun e => .bind hremove fun _ => .throw e fun d hd => hd

/-- Replacing a file goes through all stages, or back to the first one, whatever trouble it meets. -/
theorem persist_leaves (h : Stages path number before written after) (m : Entries) (t : Trouble) :
    Leaves before (persist m path number t) (fun _ => after (Text.bytes m.text)) before := by
  have hcreate : Leaves before
      (step (temporaryPath path number)
        (Trouble.instead t.create (·.write (temporaryPath path number) [])))
      (fun _ => written []) before :=
    instead_leaves _ t.create (fun d hd => hd) fun d e hd he => h.write d e [] hd he
  have hsync : Leaves (written (Text.bytes m.text))
      (step (temporaryPath path number) (Trouble.instead t.sync .ok))
      (fun _ => written (Text.bytes m.text)) before := by
    refine instead_leaves _ t.sync (fun d hd => h.unwritten d _ hd) fun d e hd he => ?_
    obtain rfl := Except.ok.inj he
    exact hd
  exact .bind (h.makeDirectory_leaves t.directory) fun _ => .bind hcreate fun _ =>
    .bind (h.writeContent_leaves t.write) fun _ => .bind hsync fun _ => h.moveInto_leaves t.rename

end Stages

end

end Entries

/-- The file of a cache holds what it held until the temporary file is moved into its place. -/
theorem stages_cacheFile (path : Path) (number : Nat) (file : Option (List UInt8)) :
    Entries.Stages path number (CacheFile path number file) (Beside path number file)
      fun content => CacheFile path number (some content) where
  directory _ _ hd hdirectory := hd.prepared (.more .refl hdirectory)
  write _ _ _ hd he := (hd.write he).1
  unwritten _ _ hd := hd.cacheFile
  remove d e content hd he := by
    obtain ⟨e', hremove, he'⟩ := hd.removeFile
    obtain rfl : e' = e := Except.ok.inj (hremove.symm.trans he)
    exact he' number hd.cacheFile
  rename d e content hd he := by
    obtain ⟨e', hrename, he'⟩ := hd.rename
    obtain rfl : e' = e := Except.ok.inj (hrename.symm.trans he)
    exact he' number hd.cacheFile

/-- Replacing the file succeeds with these entries in it, or fails and leaves what was there. -/
theorem persist_leaves {path : Path} {number : Nat} {file : Option (List UInt8)} (m : Entries)
    (t : Trouble) :
    Routine.Leaves (CacheFile path number file) (Entries.persist m path number t)
      (fun _ => CacheFile path number (some (Text.bytes m.text))) (CacheFile path number file) :=
  (stages_cacheFile path number file).persist_leaves m t

end ForeignModule
