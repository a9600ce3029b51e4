import ForeignModule.Proofs.Files.Making

/-!
# Ground that is divided up

Several modules write to one disk at once. A `Ground` says who writes where: each module owns the places
of some files, the cache keeps those of its own files, and there are places at which anybody may make a
directory, where it is missing.

* `Ground.Allows` are the disks that this can lead to, `Ground.Changes places` what can be done to them
  by someone who writes at these places;
* `Changes.follow`: a way to a directory, or to a place at which nobody else writes, stays the same;
* `Changes.makeFirst`: a directory that can be made on one of these disks can be made on another
  one on which others have made some already, and then the same directories are there.
-/

namespace ForeignModule

/-- Where a way ends. -/
def Disk.Found.place : Disk.Found → Location
  | .present at' _ => at'
  | .absent parent name _ => parent.child name

namespace Disk

variable {d e : Disk} {path : Path}

/-- A file is written at the place where the way ends. -/
theorem exists_place_of_write {content : List UInt8} (h : d.write path content = .ok e) :
    ∃ r, d.find path = .ok r ∧ (∀ at', r ≠ .present at' .directory) ∧
      e = d.put r.place (.file content) := by
  unfold write at h
  split at h
  · rename_i hfind
    exact ⟨_, hfind, nofun, (Except.ok.inj h).symm⟩
  · cases h
  · rename_i hfind
    split at h
    · cases h
    · exact ⟨_, hfind, nofun, (Except.ok.inj h).symm⟩
  · cases h

/-- A file is removed at the place that the path names. -/
theorem exists_spot_of_removeFile (h : d.removeFile path = .ok e) :
    ∃ s, d.spot path = .ok (some s) ∧ e = d.drop s.location := by
  unfold removeFile at h
  obtain ⟨s?, hspot, h⟩ := bind_eq_ok.1 h
  cases s? with
  | none => cases h
  | some s =>
    refine ⟨s, hspot, ?_⟩
    dsimp only at h
    split at h
    · cases h
    · cases h
    · split at h
      · cases h
      · exact (Except.ok.inj h).symm

/-- What is moved goes from the place that one path names to that of the other. -/
theorem exists_spots_of_rename {source : Path} (h : d.rename source path = .ok e) :
    ∃ s t node, d.spot source = .ok (some s) ∧ d.spot path = .ok (some t) ∧
      d.nodes[s.location]? = some node ∧ e = (d.drop s.location).put t.location node := by
  unfold rename at h
  obtain ⟨s?, hspot, h⟩ := bind_eq_ok.1 h
  obtain ⟨t?, hspot', h⟩ := bind_eq_ok.1 h
  cases s? with
  | none => cases h
  | some s =>
    cases t? with
    | none => cases h
    | some t =>
      dsimp only at h
      split at h
      · cases h
      · rename_i node hnode
        split at h
        · cases h
        · split at h
          · cases h
          · exact ⟨s, t, node, hspot, hspot', hnode, (Except.ok.inj h).symm⟩

end Disk

open Disk

/-- A disk on which modules are built at once, and who writes where. -/
structure Ground where
  /-- The disk at first. -/
  disk : Disk
  /-- The places of the files that the module of a source writes. -/
  owns : Path → Location → Prop
  /-- The places of the files of the cache. -/
  kept : Location → Prop
  /-- The places at which directories are made. -/
  made : Location → Prop
  owned_once : ∀ s t x, owns s x → owns t x → s = t
  owns_not_kept : ∀ s x, owns s x → ¬kept x
  owns_not_made : ∀ s x, owns s x → ¬made x
  kept_not_made : ∀ x, kept x → ¬made x
  disk_files : ∀ x, kept x ∨ (∃ s, owns s x) → disk.Inert x
  disk_made : ∀ x, made x → disk.nodes[x]? = none ∨ disk.nodes[x]? = some .directory

namespace Ground

variable {G : Ground} {places places' : Location → Prop} {d e f d' e' : Disk} {path : Path}
  {x : Location}

/-- A file may come to lie at this place. -/
def File (G : Ground) (x : Location) : Prop := G.kept x ∨ ∃ s, G.owns s x

theorem File.not_made (h : G.File x) : ¬G.made x := by
  rcases h with hkept | ⟨s, howns⟩
  · exact G.kept_not_made x hkept
  · exact G.owns_not_made s x howns

theorem File.ne_made {y : Location} (h : G.File x) (hy : G.made y) : x ≠ y := by
  rintro rfl
  exact h.not_made hy

/-- What the disk can become. -/
structure Allows (G : Ground) (e : Disk) : Prop where
  workingDirectory : e.workingDirectory = G.disk.workingDirectory
  elsewhere : ∀ x, ¬G.made x → ¬G.File x → e.nodes[x]? = G.disk.nodes[x]?
  made : ∀ x, G.made x → e.nodes[x]? = none ∨ e.nodes[x]? = some .directory
  stays : ∀ x, G.made x → G.disk.nodes[x]? = some .directory → e.nodes[x]? = some .directory
  files : ∀ x, G.File x → e.Inert x

/-- Something is written at some of these places, and directories are made. -/
structure Changes (G : Ground) (places : Location → Prop) (d e : Disk) : Prop where
  before : G.Allows d
  after : G.Allows e
  directories : ∀ x, G.made x → d.nodes[x]? = some .directory → e.nodes[x]? = some .directory
  others : ∀ x, ¬G.made x → ¬places x → e.nodes[x]? = d.nodes[x]?

theorem allows_disk (G : Ground) : G.Allows G.disk :=
  ⟨rfl, fun _ _ _ => rfl, G.disk_made, fun _ _ hdir => hdir, G.disk_files⟩

theorem Allows.put_file (h : G.Allows d) (hx : G.File x) (content : List UInt8) :
    G.Allows (d.put x (.file content)) where
  workingDirectory := h.workingDirectory
  elsewhere y hmade hfile := by
    have hne : y ≠ x := by
      rintro rfl
      exact hfile hx
    rw [nodes_put, if_neg hne]
    exact h.elsewhere y hmade hfile
  made y hmade := by
    rw [nodes_put, if_neg (hx.ne_made hmade).symm]
    exact h.made y hmade
  stays y hmade hdir := by
    rw [nodes_put, if_neg (hx.ne_made hmade).symm]
    exact h.stays y hmade hdir
  files y hfile := by
    unfold Inert
    rw [nodes_put]
    split
    · exact .inr ⟨content, rfl⟩
    · exact h.files y hfile

theorem Allows.drop (h : G.Allows d) (hx : G.File x) : G.Allows (d.drop x) where
  workingDirectory := h.workingDirectory
  elsewhere y hmade hfile := by
    have hne : y ≠ x := by
      rintro rfl
      exact hfile hx
    rw [nodes_drop, if_neg hne]
    exact h.elsewhere y hmade hfile
  made y hmade := by
    rw [nodes_drop, if_neg (hx.ne_made hmade).symm]
    exact h.made y hmade
  stays y hmade hdir := by
    rw [nodes_drop, if_neg (hx.ne_made hmade).symm]
    exact h.stays y hmade hdir
  files y hfile := by
    unfold Inert
    rw [nodes_drop]
    split
    · exact .inl rfl
    · exact h.files y hfile

theorem Allows.put_directory (h : G.Allows d) (hx : G.made x) :
    G.Allows (d.put x .directory) where
  workingDirectory := h.workingDirectory
  elsewhere y hmade hfile := by
    have hne : y ≠ x := by
      rintro rfl
      exact hmade hx
    rw [nodes_put, if_neg hne]
    exact h.elsewhere y hmade hfile
  made y hmade := by
    rw [nodes_put]
    split
    · exact .inr rfl
    · exact h.made y hmade
  stays y hmade hdir := by
    rw [nodes_put]
    split
    · rfl
    · exact h.stays y hmade hdir
  files y hfile := by
    unfold Inert
    rw [nodes_put, if_neg (hfile.ne_made hx)]
    exact h.files y hfile

/-- What the disk has become since the beginning. -/
theorem Allows.changes (h : G.Allows e) : G.Changes G.File G.disk e where
  before := G.allows_disk
  after := h
  directories := h.stays
  others := h.elsewhere

namespace Changes

theorem refl (h : G.Allows d) : G.Changes places d d :=
  ⟨h, h, fun _ _ hdir => hdir, fun _ _ _ => rfl⟩

theorem trans (h : G.Changes places d e) (h' : G.Changes places e f) : G.Changes places d f where
  before := h.before
  after := h'.after
  directories x hmade hdir := h'.directories x hmade (h.directories x hmade hdir)
  others x hmade hx := (h'.others x hmade hx).trans (h.others x hmade hx)

theorem imp (h : G.Changes places d e) (himp : ∀ x, G.File x → places x → places' x) :
    G.Changes places' d e where
  before := h.before
  after := h.after
  directories := h.directories
  others x hmade hx := by
    by_cases hfile : G.File x
    · exact h.others x hmade fun hplaces => hx (himp x hfile hplaces)
    · exact (h.after.elsewhere x hmade hfile).trans (h.before.elsewhere x hmade hfile).symm

theorem put_file (h : G.Allows d) (hx : G.File x) (hplace : places x) (content : List UInt8) :
    G.Changes places d (d.put x (.file content)) where
  before := h
  after := h.put_file hx content
  directories y hmade hdir := by
    rw [nodes_put, if_neg (hx.ne_made hmade).symm]
    exact hdir
  others y _ hy := by
    have hne : y ≠ x := by
      rintro rfl
      exact hy hplace
    rw [nodes_put, if_neg hne]

theorem put_directory (h : G.Allows d) (hx : G.made x) :
    G.Changes places d (d.put x .directory) where
  before := h
  after := h.put_directory hx
  directories y _ hdir := by
    rw [nodes_put]
    split
    · rfl
    · exact hdir
  others y hmade _ := by
    have hne : y ≠ x := by
      rintro rfl
      exact hmade hx
    rw [nodes_put, if_neg hne]

theorem workingDirectory (h : G.Changes places d e) : e.workingDirectory = d.workingDirectory :=
  h.after.workingDirectory.trans h.before.workingDirectory.symm

/-! ## Ways -/

/-- Directories stay. -/
theorem directory (h : G.Changes places d e) (hdir : d.nodes[x]? = some .directory) :
    e.nodes[x]? = some .directory := by
  by_cases hmade : G.made x
  · exact h.directories x hmade hdir
  · by_cases hfile : G.File x
    · exact absurd hdir (h.before.files x hfile).ne_directory
    · rw [h.after.elsewhere x hmade hfile, ← h.before.elsewhere x hmade hfile]
      exact hdir

theorem node?_directory (h : G.Changes places d e) (hdir : d.node? x = some .directory) :
    e.node? x = some .directory := by
  unfold node? at hdir ⊢
  split at hdir
  · rename_i hroot
    rw [if_pos hroot]
  · rename_i hroot
    rw [if_neg hroot]
    exact h.directory hdir

/-- The disks differ at a place where a directory has been made, or where files may come and go. -/
theorem node (h : G.Changes places d e) (x : Location) :
    e.nodes[x]? = d.nodes[x]? ∨
      (G.made x ∧ d.nodes[x]? = none ∧ e.nodes[x]? = some .directory) ∨ G.File x ∧ places x := by
  by_cases hmade : G.made x
  · rcases h.before.made x hmade with hnone | hdir
    · rcases h.after.made x hmade with hnone' | hdir'
      · exact .inl (hnone'.trans hnone.symm)
      · exact .inr (.inl ⟨hmade, hnone, hdir'⟩)
    · exact .inl ((h.directories x hmade hdir).trans hdir.symm)
  · by_cases hplace : places x
    · by_cases hfile : G.File x
      · exact .inr (.inr ⟨hfile, hplace⟩)
      · exact .inl ((h.after.elsewhere x hmade hfile).trans (h.before.elsewhere x hmade hfile).symm)
    · exact .inl (h.others x hmade hplace)

/-- A way that ends in a directory, or at a place where nothing is changed, is the same. -/
theorem follow (h : G.Changes places d e) {names : List RawText} (hnames : NoSlashes names) {r : Found}
    (hr : d.follow path names = .ok r)
    (haside : (∃ at', r = .present at' .directory) ∨ ¬places r.place ∧ ¬G.made r.place) :
    e.follow path names = .ok r := by
  have hoff : ∀ x, G.made x ∨ places x → r.Off x := by
    intro x hx
    rcases haside with ⟨at', rfl⟩ | ⟨hplace, hmade⟩
    · exact .inl rfl
    · have hne : r.place ≠ x := by
        rintro rfl
        rcases hx with hx | hx
        · exact hmade hx
        · exact hplace hx
      cases r with
      | present at' node => exact .inr hne
      | absent parent name slash => exact hne
  rw [follow_eq] at hr ⊢
  rw [h.workingDirectory]
  split at hr
  case isFalse => cases hr
  rename_i hstart
  rw [if_pos (h.node?_directory hstart)]
  refine walkNames_transfer ?_ (Nat.le_refl _) _ _ _ hnames hr
  intro at' name rest links hplain _
  rcases h.node (at'.child name) with hsame | ⟨hmade, hnone, -⟩ | ⟨hfile, hplace⟩
  · exact .inl hsame
  · exact .inr (walkNames_inert (.inl hnone) links hplain rfl rest (hoff _ (.inl hmade)))
  · exact .inr (walkNames_inert (h.before.files _ hfile) links hplain rfl rest (hoff _ (.inr hplace)))

theorem trace (h : G.Changes places d e) {r : Found} (hr : d.trace path = .ok r)
    (haside : (∃ at', r = .present at' .directory) ∨ ¬places r.place ∧ ¬G.made r.place) :
    e.trace path = .ok r := by
  unfold Disk.trace at hr ⊢
  split at hr
  · cases hr
  · exact h.follow (noSlashes_names path) hr haside

theorem find_directory (h : G.Changes places d e) {at' : Location}
    (hr : d.find path = .ok (.present at' .directory)) :
    e.find path = .ok (.present at' .directory) := by
  have hfit := fit_of_find hr
  rw [find_of_fit hfit] at hr ⊢
  exact h.follow (noSlashes_names path) hr (.inl ⟨at', rfl⟩)

/-- A way to a directory that is there now has led there before, or something has been missing on it. -/
theorem follow_back (h : G.Changes places d e) {names : List RawText} (hnames : NoSlashes names)
    {at' : Location} (hr : e.follow path names = .ok (.present at' .directory)) :
    d.follow path names = .ok (.present at' .directory) ∨ Missing (d.follow path names) := by
  refine Disk.follow_back hnames h.workingDirectory ?_ hr
  intro at' name rest links hplain _
  rcases h.node (at'.child name) with hsame | ⟨-, hnone, -⟩ | ⟨hfile, -⟩
  · exact .inl hsame
  · exact .inr (.inl hnone)
  · exact .inr (.inr (walkNames_inert (h.after.files _ hfile) links hplain rfl rest (.inl rfl)))

end Changes

/-! ## Files -/

/-- The same file comes to lie on both disks. -/
theorem Changes.put_both (h : G.Changes places d e) (hx : G.File x) (content : List UInt8) :
    G.Changes places (d.put x (.file content)) (e.put x (.file content)) where
  before := h.before.put_file hx content
  after := h.after.put_file hx content
  directories y hmade hdir := by
    rw [nodes_put, if_neg (hx.ne_made hmade).symm] at hdir ⊢
    exact h.directories y hmade hdir
  others y hmade hy := by
    rw [nodes_put, nodes_put]
    split
    · rfl
    · exact h.others y hmade hy

/-! ## Directories -/

/-- Where a directory is made for the path, it is at one of the places for directories. -/
def Makes (G : Ground) (path : Path) : Prop :=
  ∀ e, G.Allows e → ∀ s, e.vacant path = .ok s → G.made s.location

theorem Makes.ensureDirectory (hmakes : G.Makes path) (h : G.Allows d) :
    G.Changes places d (d.ensureDirectory path).2 := by
  unfold Disk.ensureDirectory Disk.makeDirectory
  cases hvacant : d.vacant path with
  | ok s => exact .put_directory h (hmakes d h s hvacant)
  | error fault => exact .refl h

theorem makeFirst_changes (places : Location → Prop) {l : List Path} (hmakes : ∀ q ∈ l, G.Makes q) (h : G.Allows d) :
    G.Changes places d (d.makeFirst l).2 := by
  induction l with
  | nil => exact .refl h
  | cons path above ih =>
    cases above with
    | nil => exact .refl h
    | cons next more =>
      have hensure : ∀ ready : Disk, G.Allows ready →
          G.Changes places ready (ready.ensureDirectory path).2 := fun ready hready =>
        (hmakes path List.mem_cons_self).ensureDirectory hready
      have habove := ih fun q hq => hmakes q (List.mem_cons_of_mem _ hq)
      unfold Disk.makeFirst
      split
      · split
        · rename_i ready hready
          rw [hready] at habove
          exact habove.trans (hensure ready habove.after)
        · exact habove
      · exact hensure d h

namespace Changes

theorem put_directory_both (h : G.Changes places d e) (hmade : G.made x) :
    G.Changes places (d.put x .directory) (e.put x .directory) where
  before := h.before.put_directory hmade
  after := h.after.put_directory hmade
  directories y hy hdir := by
    rw [nodes_put] at hdir ⊢
    split at hdir
    · rw [if_pos ‹_›]
    · rw [if_neg ‹_›]
      exact h.directories y hy hdir
  others y hy hplace := by
    have hne : y ≠ x := by
      rintro rfl
      exact hy hmade
    rw [nodes_put, nodes_put, if_neg hne, if_neg hne]
    exact h.others y hy hplace

theorem put_directory_there (h : G.Changes places d e) (hmade : G.made x)
    (hdir : e.nodes[x]? = some .directory) : G.Changes places (d.put x .directory) e where
  before := h.before.put_directory hmade
  after := h.after
  directories y hy hold := by
    rw [nodes_put] at hold
    split at hold
    · rename_i heq
      rw [heq]
      exact hdir
    · exact h.directories y hy hold
  others y hy hplace := by
    have hne : y ≠ x := by
      rintro rfl
      exact hy hmade
    rw [nodes_put, if_neg hne]
    exact h.others y hy hplace

/-- A directory that is made on one disk is made on the other one too, unless it is there already. -/
theorem ensureDirectory (h : G.Changes places d e) (hmakes : G.Makes path)
    (hd : d.ensureDirectory path = (.ok (), d')) :
    ∃ e', e.ensureDirectory path = (.ok (), e') ∧ G.Changes places d' e' := by
  rcases ensureDirectory_cases hd with ⟨s, hvacant, rfl⟩ | ⟨rfl, at', hfind⟩
  case inr => exact ⟨e, ensureDirectory_of_directory (h.find_directory hfind), h⟩
  have hmade := hmakes d h.before s hvacant
  obtain ⟨hspot, hnone⟩ := exists_of_vacant hvacant
  have hspot' : e.spot path = .ok (some s) := by
    obtain ⟨before, hlast, hfit, hfront, -⟩ := exists_of_spot hspot
    have hfront' := h.follow (noSlashes_before hlast) hfront (.inl ⟨_, rfl⟩)
    rw [spot_of_last hfit hlast hfront] at hspot
    rw [spot_of_last hfit hlast hfront']
    exact hspot
  rcases h.after.made _ hmade with hnone' | hdir
  · -- Nobody has made it yet.
    have hvacant' : e.vacant path = .ok s := by
      have hfree : s.node? e = none := hnone'
      simp [Disk.vacant, hspot', bind, Except.bind, hfree, pure, Except.pure]
    refine ⟨e.put s.location .directory, ?_, h.put_directory_both hmade⟩
    simp [Disk.ensureDirectory, Disk.makeDirectory, hvacant', bind, Except.bind, pure, Except.pure]
  · exact ⟨e, ensureDirectory_of_directory (find_of_spot hspot' hdir), h.put_directory_there hmade hdir⟩

/-- If the directory of a path can be made, those above it are there behind it, and making them again does
nothing. -/
theorem makeFirst_above {above : Path} {more : List Path} {ready : Disk} (h : G.Changes places e ready)
    (hup : Path.Upwards (path :: above :: more))
    (hready : e.makeFirst (above :: more) = (.ok (), ready))
    (hensure : ready.ensureDirectory path = (.ok (), e'))
    (hfound : (e.ensureDirectory path).1 ≠ .error .notFound) : ready = e := by
  cases more with
  | nil => exact (Prod.ext_iff.1 hready).2.symm
  | cons next more =>
    obtain ⟨last, before, hlast, hwithin⟩ := hup.1 (List.cons_ne_nil next more)
    obtain ⟨hfit, parent, hfront⟩ := exists_front hensure hlast
    rcases h.follow_back (noSlashes_before hlast) hfront with hfront' | hmissing
    · have hthere := Disk.find_directory hwithin hfit hfront'
      have hsame : e.makeFirst (above :: next :: more) = (.ok (), e) := by
        rw [Disk.makeFirst, ensureDirectory_of_directory hthere]
        exact List.cons_ne_nil next more
      rw [hsame] at hready
      exact (Prod.ext_iff.1 hready).2.symm
    · exact absurd (ensureDirectory_of_missing hfit hlast hmissing) hfound

/-- What can be made on one disk can be made on the other one, and leads to the same directories. -/
theorem makeFirst (h : G.Changes places d e) {l : List Path} (hup : Path.Upwards l)
    (hmakes : ∀ q ∈ l, G.Makes q) (hd : d.makeFirst l = (.ok (), d')) :
    ∃ e', e.makeFirst l = (.ok (), e') ∧ G.Changes places d' e' := by
  induction l generalizing d' with
  | nil =>
    obtain rfl := (Prod.ext_iff.1 hd).2
    exact ⟨e, rfl, h⟩
  | cons path above ih =>
    cases above with
    | nil =>
      obtain rfl := (Prod.ext_iff.1 hd).2
      exact ⟨e, rfl, h⟩
    | cons above more =>
      have hpath := hmakes path List.mem_cons_self
      have habove : ∀ q ∈ above :: more, G.Makes q := fun q hq =>
        hmakes q (List.mem_cons_of_mem _ hq)
      rcases makeFirst_cases hd with hensure | ⟨-, ready, hready, hensure⟩
      · obtain ⟨e', hensure', hchanges⟩ := h.ensureDirectory hpath hensure
        refine ⟨e', ?_, hchanges⟩
        rw [Disk.makeFirst, hensure']
        exact List.cons_ne_nil above more
      · obtain ⟨ready', hready', hbetween⟩ := ih hup.2 habove hready
        obtain ⟨e', hensure', hchanges⟩ := hbetween.ensureDirectory hpath hensure
        refine ⟨e', ?_, hchanges⟩
        -- On the other disk the row may start further down, as others have made a part of it.
        by_cases hfound : (e.ensureDirectory path).1 = .error .notFound
        · rw [Disk.makeFirst]
          · generalize e.ensureDirectory path = made at hfound
            obtain ⟨result, disk⟩ := made
            obtain rfl : result = .error .notFound := hfound
            dsimp only
            rw [hready']
            exact hensure'
          · exact List.cons_ne_nil above more
        · have hgrown : G.Changes places e (e.makeFirst (above :: more)).2 :=
            makeFirst_changes places habove h.after
          rw [hready'] at hgrown
          obtain rfl := hgrown.makeFirst_above hup hready' hensure' hfound
          rw [Disk.makeFirst, hensure']
          exact List.cons_ne_nil above more

end Changes

/-! ## Paths that name places -/

/-- A path that names a place at first names it for ever. -/
theorem Changes.namesPlace (h : G.Changes places d e) {parent : Location} {name : RawText}
    (hplace : d.NamesPlace path parent name) : e.NamesPlace path parent name := by
  obtain ⟨front, hends, hfront⟩ := hplace.front
  exact ⟨hplace.fit, hplace.short, front, hends, h.follow hends.slash_not_mem_front hfront (.inl ⟨_, rfl⟩)⟩

/-- At a place for a file the path leads to that place. -/
theorem place_of_find {parent : Location} {name : RawText} (hplace : d.NamesPlace path parent name)
    (hinert : d.Inert (parent.child name)) {r : Found} (h : d.find path = .ok r) :
    r.place = parent.child name := by
  rcases hinert with hnone | ⟨content, hfile⟩
  · rw [hplace.find_of_none hnone] at h
    obtain rfl := Except.ok.inj h
    rfl
  · rw [hplace.find_of_file hfile] at h
    obtain rfl := Except.ok.inj h
    rfl

/-- A directory that is there is not made. -/
theorem makes_of_directory {at' : Location} (h : G.disk.find path = .ok (.present at' .directory)) :
    G.Makes path := by
  intro e he s hvacant
  rw [vacant_of_directory (he.changes.find_directory h)] at hvacant
  cases hvacant

theorem makes_of_namesPlace {parent : Location} {name : RawText}
    (hplace : G.disk.NamesPlace path parent name) (hmade : G.made (parent.child name)) :
    G.Makes path := by
  intro e he s hvacant
  obtain ⟨hspot, -⟩ := exists_of_vacant hvacant
  rw [(he.changes.namesPlace hplace).spot] at hspot
  obtain rfl := Option.some.inj (Except.ok.inj hspot)
  exact hmade

theorem makes_empty : G.Makes [] := by
  intro e _ s hvacant
  obtain ⟨hspot, -⟩ := exists_of_vacant hvacant
  obtain ⟨-, -, hfit, -⟩ := exists_of_spot hspot
  cases hfit

end Ground

end ForeignModule
