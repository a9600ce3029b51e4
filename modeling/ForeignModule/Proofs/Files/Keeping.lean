import ForeignModule.Proofs.Files.Change

/-!
# What is left alone on a disk

`Keeps d e p` says that the path names the same place on both disks, and that what lay there lies there
still; where nothing lay, at most a directory has come. Directories that are made keep every path
(`made_makeDirectories`, `Made.keeps`), and a file that is written keeps every path with another last name
(`AgreeOff.keeps`), as long as no link bears that name (`NoLinks`).
-/

namespace ForeignModule.Disk

/-- The path names the same place, and what lay there has stayed. -/
def Keeps (d e : Disk) (p : Path) : Prop :=
  ∀ parent name, d.NamesPlace p parent name → e.NamesPlace p parent name ∧
    (e.nodes[parent.child name]? = d.nodes[parent.child name]? ∨
      d.nodes[parent.child name]? = none ∧ e.nodes[parent.child name]? = some .directory)

/-- No link on the disk bears one of these names. -/
def NoLinks (names : RawText → Prop) (d : Disk) : Prop :=
  ∀ (x : Location) (target : Path), d.nodes[x]? = some (.link target) → ¬names (Location.name x)

/-- A file with this content lies at the place that the path names. -/
def HasFile (d : Disk) (p : Path) (content : List UInt8) : Prop :=
  ∃ parent name, d.NamesPlace p parent name ∧ d.nodes[parent.child name]? = some (.file content)

section

variable {d e f : Disk} {p : Path} {names : RawText → Prop} {parent : Location} {name : RawText}
  {content : List UInt8}

namespace Keeps

theorem refl (d : Disk) (p : Path) : d.Keeps d p := fun _ _ h => ⟨h, .inl rfl⟩

theorem trans (h : d.Keeps e p) (h' : e.Keeps f p) : d.Keeps f p := by
  intro parent name hplace
  obtain ⟨hplace', hnode⟩ := h parent name hplace
  obtain ⟨hplace'', hnode'⟩ := h' parent name hplace'
  refine ⟨hplace'', ?_⟩
  rcases hnode with hnode | ⟨hnone, hdir⟩
  · rw [← hnode]
    exact hnode'
  · rcases hnode' with hnode' | ⟨hnone', _⟩
    · exact .inr ⟨hnone, hnode'.trans hdir⟩
    · rw [hdir] at hnone'
      cases hnone'

theorem hasFile (h : d.Keeps e p) (hfile : d.HasFile p content) : e.HasFile p content := by
  obtain ⟨parent, name, hplace, hnode⟩ := hfile
  obtain ⟨hplace', hnode'⟩ := h parent name hplace
  refine ⟨parent, name, hplace', ?_⟩
  rcases hnode' with hnode' | ⟨hnone, _⟩
  · rw [hnode', hnode]
  · rw [hnode] at hnone
    cases hnone

/-- A file does not come from nothing. -/
theorem hasFile_back (h : d.Keeps e p) (hplace : d.NamesPlace p parent name)
    (hfile : e.HasFile p content) : d.HasFile p content := by
  obtain ⟨hplace', hnode⟩ := h parent name hplace
  obtain ⟨parent', name', hplace'', hfile⟩ := hfile
  obtain ⟨rfl, rfl⟩ := hplace'.unique hplace''
  refine ⟨_, _, hplace, ?_⟩
  rcases hnode with hnode | ⟨-, hdir⟩
  · rw [← hnode, hfile]
  · rw [hfile] at hdir
    cases hdir

end Keeps

theorem HasFile.read (h : d.HasFile p content) : d.read p = .ok content := by
  obtain ⟨parent, name, hplace, hnode⟩ := h
  exact read_of_find (hplace.find_of_file hnode)

theorem HasFile.unique {content' : List UInt8} (h : d.HasFile p content)
    (h' : d.HasFile p content') : content' = content := by
  have := h.read.symm.trans h'.read
  injection this with this
  exact this.symm

theorem NamesPlace.slash_not_mem (h : d.NamesPlace p parent name) : Path.slash ∉ name := by
  obtain ⟨front, hends, -⟩ := h.front
  exact hends.slash_not_mem

theorem NoLinks.ne_link (h : d.NoLinks names) (hplace : d.NamesPlace p parent name)
    (hname : names name) (target : Path) : d.nodes[parent.child name]? ≠ some (.link target) := by
  intro hlink
  have := h _ _ hlink
  rw [Location.name_child hplace.slash_not_mem] at this
  exact this hname

/-- A path that ends in a name which no link bears leads to the place that it names. -/
theorem NoLinks.hasFile_of_read {front : List RawText} (h : d.NoLinks names) (hends : p.EndsIn front name)
    (hname : names name) (hread : d.read p = .ok content) : d.HasFile p content := by
  unfold read at hread
  cases hfind : d.find p with
  | error fault =>
    rw [hfind] at hread
    cases hread
  | ok found =>
    obtain ⟨parent, hplace, -⟩ := exists_namesPlace hends hfind
    obtain ⟨left, hleads⟩ := hplace.find
    refine ⟨parent, name, hplace, ?_⟩
    cases hnode : d.nodes[parent.child name]? with
    | none =>
      rw [hleads, hnode] at hread
      cases hread
    | some node =>
      cases node with
      | link target => exact absurd hnode (h.ne_link hplace hname target)
      | directory =>
        rw [hleads, hnode] at hread
        cases hread
      | file bytes =>
        rw [hplace.find_of_file hnode] at hread
        obtain rfl := Except.ok.inj hread
        rfl

theorem NoLinks.put (h : d.NoLinks names) {x : Location} {node : Node}
    (hnode : ∀ target, node ≠ .link target) : (d.put x node).NoLinks names := by
  intro y target hlink
  rw [nodes_put] at hlink
  split at hlink
  · exact absurd (Option.some.inj hlink) (hnode target)
  · exact h y target hlink

theorem NoLinks.drop (h : d.NoLinks names) (x : Location) : (d.drop x).NoLinks names := by
  intro y target hlink
  rw [nodes_drop] at hlink
  split at hlink
  · cases hlink
  · exact h y target hlink

/-! ## One place -/

/-- What changes where nothing leads on keeps the paths that end in another name. -/
theorem AgreeOff.keeps (h : AgreeOff (parent.child name) d e) (hi : d.Inert (parent.child name))
    (hslash : Path.slash ∉ name) (hname : ∀ front, ¬p.EndsIn front name) : d.Keeps e p := by
  intro parent' name' hplace
  refine ⟨hplace.frame h hi, .inl (h.nodes _ ?_)⟩
  intro heq
  obtain ⟨-, rfl⟩ := Location.child_inj hplace.slash_not_mem hslash heq
  obtain ⟨front, hends, -⟩ := hplace.front
  exact hname front hends

/-- A directory that is made keeps every path. -/
theorem keeps_directory {x : Location} (hnone : d.nodes[x]? = none) :
    d.Keeps (d.put x .directory) p := by
  intro parent name hplace
  refine ⟨hplace.frame (agreeOff_put d x .directory) (.inl hnone), ?_⟩
  by_cases hx : parent.child name = x
  · exact .inr ⟨hx ▸ hnone, by rw [nodes_put, if_pos hx]⟩
  · exact .inl (by rw [nodes_put, if_neg hx])

/-! ## The place that a path names -/

/-- A step after another one succeeds only if both do. -/
theorem bind_eq_ok {ε α β : Type} {x : Except ε α} {k : α → Except ε β} {b : β} :
    x >>= k = .ok b ↔ ∃ a, x = .ok a ∧ k a = .ok b := by
  cases x with
  | error e =>
    constructor
    · intro h
      cases h
    · rintro ⟨a, h, -⟩
      cases h
  | ok a =>
    constructor
    · intro h
      exact ⟨a, rfl, h⟩
    · rintro ⟨_, ⟨⟩, h⟩
      exact h

/-- What the place that a path names says about the path. -/
theorem exists_of_spot {s : Spot} (h : d.spot p = .ok (some s)) :
    ∃ before, p.names.reverse.dropWhile List.isEmpty = s.name :: before ∧ unfit? p = none ∧
      d.follow p before.reverse = .ok (.present s.parent .directory) ∧
      s.name.length ≤ nameLimit ∧ s.slash = decide (before.length + 1 < p.names.length) := by
  unfold spot at h
  cases hunfit : unfit? p with
  | some fault =>
    rw [hunfit] at h
    cases h
  | none =>
    rw [hunfit] at h
    obtain ⟨found, hfollow, h⟩ := bind_eq_ok.1 h
    cases found with
    | absent => cases h
    | present parent node =>
      dsimp only at h
      split at h
      · cases h
      · rename_i hdir
        obtain rfl := Classical.not_not.1 hdir
        split at h
        · cases h
        · rename_i name hhead
          by_cases hname : name = Path.here ∨ name = Path.up
          · rw [if_pos hname] at h
            cases h
          · rw [if_neg hname] at h
            split at h
            · cases h
            · rename_i hshort
              obtain ⟨before, hlast⟩ := List.head?_eq_some_iff.1 hhead
              obtain rfl := Option.some.inj (Except.ok.inj h)
              rw [hlast] at hfollow
              exact ⟨before, hlast, rfl, hfollow, Nat.le_of_not_lt hshort, by simp [hlast]⟩

theorem namesPlace_of_spot {name : RawText} {front : List RawText} {s : Spot} (h : p.EndsIn front name)
    (hspot : d.spot p = .ok (some s)) :
    d.NamesPlace p s.parent name ∧ s = ⟨s.parent, name, false⟩ := by
  obtain ⟨before, hlast, hfit, hfollow, hshort, hslash⟩ := exists_of_spot hspot
  have hnames : p.names.reverse.dropWhile List.isEmpty = name :: front.reverse := by
    simp [h.names, h.isName.ne_empty]
  obtain ⟨hname, rfl⟩ := List.cons.inj (hlast.symm.trans hnames)
  rw [List.reverse_reverse] at hfollow
  have hs : s.slash = false := by
    rw [hslash, h.names]
    simp
  refine ⟨⟨hfit, hname ▸ hshort, front, h, hfollow⟩, ?_⟩
  rw [← hname, ← hs]

/-- A path that names a place with no slash behind it ends in a name. -/
theorem endsIn_of_spot {s : Spot} (h : d.spot p = .ok (some s)) (hslash : s.slash = false) :
    ∃ front, p.EndsIn front s.name := by
  obtain ⟨before, hlast, hfit, hfollow, hshort, hlength⟩ := exists_of_spot h
  have hsuffix : s.name :: before <:+ p.names.reverse := hlast ▸ List.dropWhile_suffix _
  have hnames : p.names.reverse = s.name :: before := by
    refine (hsuffix.eq_of_length_le ?_).symm
    have : ¬before.length + 1 < p.names.length := by simpa [hslash] using hlength
    simp only [List.length_reverse, List.length_cons]
    omega
  have hempty := List.head?_dropWhile_not List.isEmpty p.names.reverse
  have hspot := spot_of_last hfit hlast hfollow
  rw [h] at hspot
  refine ⟨before.reverse, by rw [← List.reverse_inj, hnames]; simp, ?_, ?_, ?_⟩
  · simpa [hlast] using hempty
  · intro hdot
    simp [hdot] at hspot
  · intro hup
    simp [hup] at hspot

theorem mem_names_of_spot {s : Spot} (h : d.spot p = .ok (some s)) :
    s.name ∈ p.names ∧ s.name ≠ [] := by
  obtain ⟨before, hlast, -⟩ := exists_of_spot h
  constructor
  · have hmem : s.name ∈ p.names.reverse.dropWhile List.isEmpty := by simp [hlast]
    exact List.mem_reverse.1 ((List.dropWhile_suffix _).subset hmem)
  · intro hempty
    have := List.head?_dropWhile_not List.isEmpty p.names.reverse
    simp [hlast, hempty] at this

/-! ## What a path leads to -/

theorem find_of_read (h : d.read p = .ok content) :
    ∃ place, d.find p = .ok (.present place (.file content)) := by
  unfold read at h
  split at h
  · rename_i hfind
    cases h
    exact ⟨_, hfind⟩
  all_goals cases h

theorem isFile_iff : d.isFile p = true ↔ ∃ content, d.read p = .ok content := by
  unfold Disk.isFile stat? read
  cases d.find p with
  | error fault => simp
  | ok found =>
    cases found with
    | absent => simp
    | present location node => cases node <;> simp

/-- What can be read has a path from the root. -/
theorem canonicalize_of_read (h : d.read p = .ok content) : ∃ path, d.canonicalize p = .ok path := by
  obtain ⟨place, hfind⟩ := find_of_read h
  have htrace : d.trace p = .ok (.present place (.file content)) := by
    unfold Disk.find at hfind
    split at hfind
    · cases hfind
    · exact hfind
  exact ⟨place.path, by rw [canonicalize, htrace]⟩

theorem find_of_exists (h : d.exists? p = true) :
    ∃ place node, d.find p = .ok (.present place node) := by
  unfold exists? stat? at h
  split at h
  · rename_i hfind
    exact ⟨_, _, hfind⟩
  · cases h

/-! ## Directories -/

/-- A disk comes from another one by making directories with these names where nothing lies. -/
inductive Made (names : RawText → Prop) (d : Disk) : Disk → Prop where
  | refl : Made names d d
  | more {e : Disk} {parent : Location} {name : RawText} (h : Made names d e) (hname : names name)
    (hslash : Path.slash ∉ name) (hnone : e.nodes[parent.child name]? = none) :
    Made names d (e.put (parent.child name) .directory)

namespace Made

theorem trans (h : Made names d e) (h' : Made names e f) : Made names d f := by
  induction h' with
  | refl => exact h
  | more _ hname hslash hnone ih => exact .more ih hname hslash hnone

theorem mono {names' : RawText → Prop} (h : Made names d e) (himp : ∀ name, names name → names' name) :
    Made names' d e := by
  induction h with
  | refl => exact .refl
  | more _ hname hslash hnone ih => exact .more ih (himp _ hname) hslash hnone

theorem keeps (h : Made names d e) (p : Path) : d.Keeps e p := by
  induction h with
  | refl => exact .refl d p
  | more _ _ _ hnone ih => exact ih.trans (keeps_directory hnone)

/-- What a path leads to is still there: a way that ends somewhere passes no free place. -/
theorem find_present (h : Made names d e) {place : Location} {node : Node}
    (hfind : d.find p = .ok (.present place node)) : e.find p = .ok (.present place node) := by
  induction h with
  | refl => exact hfind
  | @more e parent name _ _ _ hnone ih =>
    have hagree := agreeOff_put e (parent.child name) .directory
    have hfit := fit_of_find ih
    rw [find_of_fit hfit] at ih ⊢
    refine follow_transfer hagree (by simp [hnone]) (noSlashes_names p) ?_ ih
    intro at' name' rest links hplain _ hplace hleads
    rw [walkNames_plain hplain, hplace, hnone] at hleads
    dsimp only at hleads
    split at hleads <;> cases hleads

theorem read_ok (h : Made names d e) (hread : d.read p = .ok content) :
    e.read p = .ok content := by
  obtain ⟨place, hfind⟩ := find_of_read hread
  exact read_of_find (h.find_present hfind)

theorem exists_of_exists (h : Made names d e) (hexists : d.exists? p = true) :
    e.exists? p = true := by
  obtain ⟨place, node, hfind⟩ := find_of_exists hexists
  rw [exists?, stat?, h.find_present hfind]
  rfl

theorem noLinks {names' : RawText → Prop} (h : Made names d e) (hlinks : d.NoLinks names') :
    e.NoLinks names' := by
  induction h with
  | refl => exact hlinks
  | more _ _ _ _ ih => exact ih.put fun _ hnode => nomatch hnode

end Made

/-- What is vacant is the place that the path names, and nothing lies there. -/
theorem exists_of_vacant {s : Spot} (h : d.vacant p = .ok s) :
    d.spot p = .ok (some s) ∧ s.node? d = none := by
  unfold vacant at h
  obtain ⟨s?, hspot, h⟩ := bind_eq_ok.1 h
  cases s? with
  | none => cases h
  | some s' =>
    dsimp only at h
    split at h
    · cases h
    · rename_i hnone
      obtain rfl := Except.ok.inj h
      exact ⟨hspot, Option.not_isSome_iff_eq_none.1 hnone⟩

theorem made_makeDirectory (h : d.makeDirectory p = .ok e) :
    Made (fun name => name ∈ p.names ∧ name ≠ []) d e := by
  unfold makeDirectory at h
  obtain ⟨s, hvacant, h⟩ := bind_eq_ok.1 h
  obtain rfl := Except.ok.inj h
  obtain ⟨hspot, hnone⟩ := exists_of_vacant hvacant
  obtain ⟨hmem, hne⟩ := mem_names_of_spot hspot
  exact .more .refl ⟨hmem, hne⟩ (Path.slash_not_mem hmem) hnone

theorem made_ensureDirectory (d : Disk) (p : Path) :
    Made (fun name => name ∈ p.names ∧ name ≠ []) d (d.ensureDirectory p).2 := by
  unfold ensureDirectory
  cases hmade : d.makeDirectory p with
  | ok e => exact made_makeDirectory hmade
  | error fault => exact .refl

theorem made_makeFirst (d : Disk) (l : List Path)
    (h : ∀ q ∈ l, ∀ name ∈ q.names, name ≠ [] → names name) : Made names d (d.makeFirst l).2 := by
  induction l with
  | nil => exact .refl
  | cons path above ih =>
    cases above with
    | nil => exact .refl
    | cons next more =>
      have hensure : ∀ ready : Disk, Made names ready (ready.ensureDirectory path).2 := fun ready =>
        (made_ensureDirectory ready path).mono fun name hname =>
          h path List.mem_cons_self name hname.1 hname.2
      have habove := ih fun q hq => h q (List.mem_cons_of_mem _ hq)
      unfold makeFirst
      split
      · split
        · rename_i ready hready
          rw [hready] at habove
          exact habove.trans (hensure ready)
        · exact habove
      · exact hensure d

/-- The directories above a path that are made have names of that path. -/
theorem made_makeDirectories (d : Disk) {directory : Path} (h : p.directory? = some directory) :
    Made (· ∈ p.names) d (d.makeDirectories directory).2 := by
  have habove : directory ∈ p.parents := List.mem_of_head? (Option.filter_eq_some_iff.1 h).1
  refine made_makeFirst d _ fun q hq name hname hne => ?_
  rcases List.mem_cons.1 hq with rfl | hq
  · exact Path.mem_names_of_mem_parents habove hname hne
  · exact Path.mem_names_of_mem_parents habove (Path.mem_names_of_mem_parents hq hname hne) hne

/-! ## Moving and removing -/

/-- What is moved goes from the place of the one path to that of the other. -/
theorem exists_of_rename {source : Path} {sourceFront front : List RawText} {sourceName : RawText}
    (hs : source.EndsIn sourceFront sourceName) (ht : p.EndsIn front name)
    (h : d.rename source p = .ok e) :
    ∃ sourceParent parent node, d.NamesPlace source sourceParent sourceName ∧
      d.NamesPlace p parent name ∧ d.nodes[sourceParent.child sourceName]? = some node ∧
      node ≠ .directory ∧ d.nodes[parent.child name]? ≠ some .directory ∧
      e = (d.drop (sourceParent.child sourceName)).put (parent.child name) node := by
  unfold rename at h
  obtain ⟨s?, hspot, h⟩ := bind_eq_ok.1 h
  obtain ⟨t?, hspot', h⟩ := bind_eq_ok.1 h
  cases s? with
  | none => cases h
  | some s =>
    cases t? with
    | none => cases h
    | some t =>
      obtain ⟨hplace, hsname⟩ := namesPlace_of_spot hs hspot
      obtain ⟨hplace', htname⟩ := namesPlace_of_spot ht hspot'
      rw [hsname, htname] at h
      dsimp only at h
      split at h
      · cases h
      · rename_i node hnode
        simp only [Bool.or_self, Bool.false_eq_true, if_false] at h
        split at h
        · cases h
        · rename_i hdir
          exact ⟨s.parent, t.parent, node, hplace, hplace', hnode, fun hn => hdir (.inl hn),
            fun hn => hdir (.inr hn), (Except.ok.inj h).symm⟩

/-- Something is moved only to a path that ends in a name. -/
theorem endsIn_of_rename {source : Path} (h : d.rename source p = .ok e) :
    ∃ front name, p.EndsIn front name := by
  unfold rename at h
  obtain ⟨s?, -, h⟩ := bind_eq_ok.1 h
  obtain ⟨t?, hspot, h⟩ := bind_eq_ok.1 h
  cases s? with
  | none => cases h
  | some s =>
    cases t? with
    | none => cases h
    | some t =>
      dsimp only at h
      split at h
      · cases h
      · split at h
        · cases h
        · rename_i hslash
          have hnot : t.slash = false := by
            cases hs : t.slash
            · rfl
            · simp [hs] at hslash
          obtain ⟨front, hends⟩ := endsIn_of_spot hspot hnot
          exact ⟨front, t.name, hends⟩

/-- What is removed lay at the place of the path. -/
theorem exists_of_removeFile {front : List RawText} (hends : p.EndsIn front name)
    (h : d.removeFile p = .ok e) :
    ∃ parent node, d.NamesPlace p parent name ∧ d.nodes[parent.child name]? = some node ∧
      node ≠ .directory ∧ e = d.drop (parent.child name) := by
  unfold removeFile at h
  obtain ⟨s?, hspot, h⟩ := bind_eq_ok.1 h
  cases s? with
  | none => cases h
  | some s =>
    obtain ⟨hplace, hname⟩ := namesPlace_of_spot hends hspot
    rw [hname] at h
    dsimp only at h
    split at h
    · cases h
    · cases h
    · rename_i node hdir hnode
      refine ⟨s.parent, node, hplace, hnode, ?_, (Except.ok.inj h).symm⟩
      rintro rfl
      exact hdir rfl

/-- What has been removed cannot be read, even if it was a link to something else. -/
theorem read_of_removeFile (h : d.removeFile p = .ok e) : ∃ fault, e.read p = .error fault := by
  unfold removeFile at h
  obtain ⟨s?, hspot, h⟩ := bind_eq_ok.1 h
  cases s? with
  | none => cases h
  | some s =>
    have hdropped : s.slash = false ∧ e = d.drop s.location := by
      dsimp only at h
      split at h
      · cases h
      · cases h
      · split at h
        · cases h
        · rename_i hslash
          exact ⟨by simpa using hslash, (Except.ok.inj h).symm⟩
    obtain ⟨hs, rfl⟩ := hdropped
    obtain ⟨before, hlast, hfit, hfollow, -, hslash⟩ := exists_of_spot hspot
    have hnames : p.names = before.reverse ++ [s.name] := by
      obtain ⟨blanks, hblanks⟩ := exists_blanks p.names
      rw [hlast] at hblanks
      rw [hs, hblanks] at hslash
      have hnil : blanks = [] := by simpa using hslash
      simpa [hnil] using hblanks
    cases hread : (d.drop s.location).read p with
    | error fault => exact ⟨fault, rfl⟩
    | ok content =>
      obtain ⟨at', hfind⟩ := find_of_read hread
      rw [find_of_fit hfit] at hfind
      obtain ⟨left, parent, hfront, hwalk⟩ :=
        exists_follow_front hnames (mem_names_of_spot hspot).2 hfind
      -- The way to the directory is the one on which the place was found, and nothing is there now.
      have hnone : (d.drop s.location).nodes[s.parent.child s.name]? = none := by
        simp [nodes_drop, Spot.location]
      have hslashes : NoSlashes before.reverse := fun name hname =>
        noSlashes_names p name (by simp [hnames, hname])
      have hback := follow_frame (agreeOff_drop d s.location).symm (.inl hnone) hslashes hfront
        (.inl rfl)
      rw [hfollow] at hback
      obtain ⟨hparent, -⟩ := Found.present.inj (Except.ok.inj hback)
      subst hparent
      by_cases hplain : IsPlain s.name
      · rw [walkNames_plain hplain, hnone] at hwalk
        cases hwalk
      · rcases walkNames_of_not_plain hplain s.parent with ⟨there, hsame⟩ | hlong
        · rw [hsame] at hwalk
          cases hwalk
        · rw [hlong] at hwalk
          cases hwalk

end

end ForeignModule.Disk
