import ForeignModule.Files.Change
import ForeignModule.Proofs.Files.Disk

/-!
# What changes a disk, by the places that paths name

Each operation on a path that names a place (`Disk.NamesPlace`) is a change at that place. A
directory that is there is not made again (`makeDirectories_of_directory`), and a path with another
last name names a place in the same directory (`follow_sibling`).
-/

namespace ForeignModule.Disk

variable {d e : Disk} {path : Path} {parent : Location} {name : RawText}

/-! ## Files -/

section Files

theorem write_of_inert (h : d.NamesPlace path parent name) (hi : d.Inert (parent.child name))
    (content : List UInt8) :
    d.write path content = .ok (d.put (parent.child name) (.file content)) := by
  rcases hi with hnone | ⟨old, hfile⟩
  · rw [write, h.find_of_none hnone]
    rfl
  · rw [write, h.find_of_file hfile]

/-- A written file lies at the place that the path names, unless a link lies there. -/
theorem exists_of_write {front : List RawText} {content : List UInt8} (h : path.EndsIn front name)
    (hwrite : d.write path content = .ok e)
    (hlink : ∀ parent target, d.NamesPlace path parent name →
      d.nodes[parent.child name]? ≠ some (.link target)) :
    ∃ parent, d.NamesPlace path parent name ∧ d.Inert (parent.child name) ∧
      e = d.put (parent.child name) (.file content) := by
  cases hfind : d.find path with
  | error fault => simp [write, hfind] at hwrite
  | ok r =>
    obtain ⟨parent, hplace, _⟩ := exists_namesPlace h hfind
    obtain ⟨left, hleft⟩ := hplace.find
    have hinert : d.Inert (parent.child name) := by
      cases hnode : d.nodes[parent.child name]? with
      | none => exact .inl hnode
      | some node =>
        rw [hnode] at hleft
        cases node with
        | directory => simp [write, hleft] at hwrite
        | file old => exact .inr ⟨old, hnode⟩
        | link target => exact absurd hnode (hlink parent target hplace)
    refine ⟨parent, hplace, hinert, ?_⟩
    rw [write_of_inert hplace hinert] at hwrite
    exact (Except.ok.inj hwrite).symm

theorem rename_of_file {source : Path} {sourceParent : Location} {sourceName : RawText}
    {content : List UInt8} (hs : d.NamesPlace source sourceParent sourceName)
    (h : d.NamesPlace path parent name)
    (hnode : d.nodes[sourceParent.child sourceName]? = some (.file content))
    (hdir : d.nodes[parent.child name]? ≠ some .directory) :
    d.rename source path = .ok
      ((d.drop (sourceParent.child sourceName)).put (parent.child name) (.file content)) := by
  have hsource : (Spot.mk sourceParent sourceName false).node? d = some (.file content) := hnode
  have htarget : (Spot.mk parent name false).node? d ≠ some .directory := hdir
  simp only [rename, hs.spot, h.spot, bind, Except.bind, hsource]
  simp [htarget, Spot.location, pure, Except.pure]

theorem removeFile_of_file {content : List UInt8} (h : d.NamesPlace path parent name)
    (hnode : d.nodes[parent.child name]? = some (.file content)) :
    d.removeFile path = .ok (d.drop (parent.child name)) := by
  have hfile : (Spot.mk parent name false).node? d = some (.file content) := hnode
  simp only [removeFile, h.spot, bind, Except.bind, hfile]
  rfl

end Files

/-! ## Directories -/

/-- Names and the empty names behind them. -/
theorem exists_blanks (names : List RawText) : ∃ blanks,
    names = (names.reverse.dropWhile List.isEmpty).reverse ++ blanks := by
  refine ⟨(names.reverse.takeWhile List.isEmpty).reverse, ?_⟩
  rw [← List.reverse_append, List.takeWhile_append_dropWhile, List.reverse_reverse]

/-- A way goes on to a directory only through something that is there. -/
theorem isSome_of_walkNames {link : Location → Path → List RawText → Except Fault Found}
    {inner at' : Location} {rest : List RawText} (h : Path.IsName name)
    (hwalk : d.walkNames link inner .directory (name :: rest) = .ok (.present at' .directory)) :
    name.length ≤ nameLimit ∧ (d.nodes[inner.child name]?).isSome := by
  by_cases hlong : nameLimit < name.length
  · simp [walkNames, h.ne_empty, h.ne_dot, h.ne_up, hlong] at hwalk
  · have hshort := Nat.le_of_not_lt hlong
    rw [walkNames_plain ⟨h, hshort⟩] at hwalk
    refine ⟨hshort, ?_⟩
    cases hnode : d.nodes[inner.child name]? with
    | none =>
      rw [hnode] at hwalk
      by_cases hblank : rest.all List.isEmpty = true <;> simp [hblank] at hwalk
    | some node => rfl

/-- The place of a directory is taken, if its path names a place at all. -/
theorem exists_spot_of_directory {at' : Location} (h : d.find path = .ok (.present at' .directory)) :
    ∃ s?, d.spot path = .ok s? ∧ ∀ s ∈ s?, (s.node? d).isSome := by
  have hfit := fit_of_find h
  rw [find_of_fit hfit] at h
  obtain ⟨blanks, hnames⟩ := exists_blanks path.names
  cases hlast : path.names.reverse.dropWhile List.isEmpty with
  | nil =>
    have hstart : d.node? (start path d.workingDirectory) = some .directory := by
      rw [follow_eq] at h
      split at h
      · assumption
      · cases h
    have hfront : d.follow path [] = .ok (.present (start path d.workingDirectory) .directory) := by
      rw [follow_eq, if_pos hstart, walkNames]
    refine ⟨none, ?_, by simp⟩
    unfold Disk.spot
    simp [hfit, hlast, hfront, bind, Except.bind, pure, Except.pure]
  | cons last before =>
    have hne : last ≠ [] := by
      have := List.head?_dropWhile_not List.isEmpty path.names.reverse
      simpa [hlast] using this
    have hcut : path.names = before.reverse ++ last :: blanks := by
      rw [hlast] at hnames
      simpa using hnames
    obtain ⟨left, inner, hfront, hwalk⟩ := exists_follow_front hcut hne h
    rw [spot_of_last hfit hlast hfront]
    by_cases hdots : last = Path.here ∨ last = Path.up
    · exact ⟨none, by rw [if_pos hdots], by simp⟩
    · obtain ⟨hshort, hsome⟩ := isSome_of_walkNames
        ⟨hne, (not_or.1 hdots).1, (not_or.1 hdots).2⟩ hwalk
      rw [if_neg hdots, if_neg (Nat.not_lt.2 hshort)]
      refine ⟨_, rfl, fun s hs => ?_⟩
      obtain rfl := Option.some.inj hs
      exact hsome

theorem vacant_of_directory {at' : Location} (h : d.find path = .ok (.present at' .directory)) :
    d.vacant path = .error .alreadyExists := by
  obtain ⟨s?, hs, hsome⟩ := exists_spot_of_directory h
  cases s? with
  | none => simp [vacant, hs, bind, Except.bind, throw, throwThe, MonadExceptOf.throw]
  | some s =>
    have := hsome s rfl
    simp [vacant, hs, bind, Except.bind, throw, throwThe, MonadExceptOf.throw, this]

/-- A directory that is there is not made again. -/
theorem ensureDirectory_of_directory {at' : Location}
    (h : d.find path = .ok (.present at' .directory)) : d.ensureDirectory path = (.ok (), d) := by
  simp [ensureDirectory, makeDirectory, vacant_of_directory h, isDirectory, stat?, h, bind,
    Except.bind]

theorem makeDirectories_of_directory {at' : Location}
    (h : d.find path = .ok (.present at' .directory)) : d.makeDirectories path = (.ok (), d) := by
  unfold makeDirectories
  cases path.parents with
  | nil => rfl
  | cons above more =>
    rw [makeFirst, ensureDirectory_of_directory h]
    exact List.cons_ne_nil above more

/-! ## Another name in the same directory -/

/-- Names that say nothing stay in the directory. -/
theorem walkNames_fillers (link : Location → Path → List RawText → Except Fault Found)
    (at' : Location) {fillers : List RawText} (h : ∀ f ∈ fillers, Path.isFiller f = true) :
    d.walkNames link at' .directory fillers = .ok (.present at' .directory) := by
  induction fillers with
  | nil => rfl
  | cons f rest ih =>
    have hf : f = [] ∨ f = Path.here := by simpa [Path.isFiller] using h f List.mem_cons_self
    rw [walkNames]
    simp only [ne_eq, not_true_eq_false, if_false, hf, if_true]
    exact ih fun f hf => h f (List.mem_cons_of_mem _ hf)

/-- The names that are kept lead to the same directory. -/
theorem follow_kept (d : Disk) (path : Path) (front : List RawText) (there : Location) :
    d.follow path (Path.kept front) = .ok (.present there .directory) ↔
      d.follow path front = .ok (.present there .directory) := by
  obtain ⟨fillers, hsplit, hfillers⟩ := Path.exists_kept front
  rw [follow_eq, follow_eq]
  split
  case isFalse => simp
  obtain ⟨left, hleft⟩ := d.walkNames_append linkLimit (start path d.workingDirectory) .directory
    (Path.kept front)
  have happend := hleft fillers
  rw [← hsplit] at happend
  rw [happend]
  constructor
  · intro h
    rw [h]
    exact walkNames_fillers _ _ hfillers
  · intro h
    cases hkept : d.walkNames (d.jump linkLimit) (start path d.workingDirectory) .directory
        (Path.kept front) with
    | error fault =>
      rw [hkept] at h
      cases h
    | ok found =>
      rw [hkept] at h
      cases found with
      | absent inner name slash =>
        by_cases hblank : fillers.all List.isEmpty = true <;> simp [Except.bind, goesOn, hblank] at h
      | present inner node =>
        have hwalk : d.walkNames (d.jump left) inner node fillers = .ok (.present there .directory) := h
        by_cases hdir : node = .directory
        · subst hdir
          rw [walkNames_fillers _ _ hfillers] at hwalk
          exact hwalk
        · cases fillers with
          | nil => exact hwalk
          | cons f rest =>
            rw [walkNames_of_not_directory hdir] at hwalk
            cases hwalk

theorem follow_congr {p q : Path} (h : p.isAbsolute = q.isAbsolute) (d : Disk)
    (names : List RawText) : d.follow p names = d.follow q names := by
  have hstart : start p d.workingDirectory = start q d.workingDirectory := by simp only [start, h]
  unfold follow
  rw [hstart]

theorem unfit?_eq_none : unfit? path = none ↔
    0 ∉ path ∧ path ≠ [] ∧ path.length < pathLimit := by
  unfold unfit? malformed?
  by_cases hzero : 0 ∈ path
  · simp [hzero]
  · by_cases hempty : path = []
    · simp [hempty]
    · simp [hzero, hempty]

/-- A beginning of a path can be handed over if the path can. -/
theorem unfit?_beginning {dir : Path} {rest : RawText} (h : unfit? (dir ++ rest) = none)
    (hne : dir ≠ []) : unfit? dir = none := by
  obtain ⟨hzero, -, hsize⟩ := unfit?_eq_none.1 h
  rw [List.mem_append, not_or] at hzero
  rw [List.length_append] at hsize
  exact unfit?_eq_none.2 ⟨hzero.1, hne, by omega⟩

/-- The path of a directory leads where the path leads, up to its last name. -/
theorem find_directory {dir : Path} {front : List RawText} (h : dir.IsDirectoryOf path front)
    (hfit : unfit? path = none) (hfront : d.follow path front = .ok (.present parent .directory)) :
    d.find dir = .ok (.present parent .directory) := by
  have hfit' : unfit? dir = none := by
    obtain ⟨rest, hpath⟩ := h.beginning
    exact unfit?_beginning (hpath ▸ hfit) h.ne_empty
  have hfollow : d.follow dir (Path.kept front) = .ok (.present parent .directory) := by
    rw [follow_congr h.isAbsolute_eq, follow_kept]
    exact hfront
  rw [find_of_fit hfit']
  rcases h.names with hnames | ⟨hkept, hnames⟩
  · rw [hnames]
    exact hfollow
  · -- The root has one more empty name than its directory keeps.
    rw [hkept] at hfollow
    rw [hnames]
    exact hfollow

namespace NamesPlace

variable {front : List RawText} {other : RawText}

theorem follow_front (h : d.NamesPlace path parent name) (hends : path.EndsIn front name) :
    d.follow path front = .ok (.present parent .directory) := by
  obtain ⟨front', hends', hfront⟩ := h.front
  obtain ⟨rfl, -⟩ := hends.unique hends'
  exact hfront

/-- The path with another last name leads where the path leads, up to that name. -/
theorem follow_sibling (hends : path.EndsIn front name) (hslash : Path.slash ∉ other)
    (h : d.NamesPlace (path.withFileName other) parent other) :
    d.follow path front = .ok (.present parent .directory) := by
  obtain ⟨front', hends', hfront⟩ := h.front
  have hnames := hends'.names
  rw [Path.names_withFileName hends hslash] at hnames
  obtain ⟨hkept, -⟩ := List.append_inj' hnames rfl
  rw [← hkept, follow_congr (Path.isAbsolute_withFileName hends hslash), follow_kept] at hfront
  exact hfront

/-- A directory that a path names a place in is not made again. -/
theorem makeDirectories {dir : Path} (h : d.NamesPlace path parent name)
    (hdir : path.directory? = some dir) : d.makeDirectories dir = (.ok (), d) := by
  obtain ⟨front, hends, hfront⟩ := h.front
  exact makeDirectories_of_directory (find_directory (Path.isDirectoryOf hends hdir) h.fit hfront)

end NamesPlace

end ForeignModule.Disk
