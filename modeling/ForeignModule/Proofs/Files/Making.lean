import ForeignModule.Proofs.Files.Keeping

/-!
# Directories that are made in a row

To make a directory is to make those above it first, as far as they are missing. This starts where it
finds the first one that is there, and so depends on the directories that are there already.

* `follow_back` compares a disk with one on which there is more: a way to a directory that leads there
  on the larger disk leads there on the smaller one too, or something on it is missing;
* `exists_front` says that behind a directory that has been made there are those above it;
* `Path.Upwards` is what `makeFirst` needs of its list, and the paths above a directory have it
  (`upwards_parents`).
-/

namespace ForeignModule

namespace Disk

variable {d e : Disk} {path : Path} {parent : Location} {r : Found}

/-! ## Ways on a smaller disk -/

/-- Something is missing on the way. -/
inductive Missing : Except Fault Found → Prop where
  | nowhere : Missing (.error .notFound)
  | absent (parent : Location) (name : RawText) (slash : Bool) :
    Missing (.ok (.absent parent name slash))

theorem missing_of_none {at' : Location} {name : RawText} {rest : List RawText} {links : Nat}
    (hplain : IsPlain name) (hnone : d.nodes[at'.child name]? = none) :
    Missing (d.walkNames (d.jump links) at' .directory (name :: rest)) := by
  rw [walkNames_plain hplain, hnone]
  by_cases hblank : rest.all List.isEmpty = true
  · simp only [hblank, if_true]
    exact .absent _ _ _
  · simp only [hblank, Bool.false_eq_true, if_false]
    exact .nowhere

/-- A walk that leads somewhere on one disk goes the same way on another one, if wherever the disks
differ nothing lies there on the other, or no way leads to what the walk finds. -/
theorem walkNames_back
    (hsame : ∀ at' name rest links, IsPlain name → Path.slash ∉ name →
      e.nodes[at'.child name]? = d.nodes[at'.child name]? ∨ d.nodes[at'.child name]? = none ∨
        e.walkNames (e.jump links) at' .directory (name :: rest) ≠ .ok r)
    (links : Nat) (at' : Location) (node : Node) (names : List RawText) (hnames : NoSlashes names)
    (hr : e.walkNames (e.jump links) at' node names = .ok r) :
    d.walkNames (d.jump links) at' node names = .ok r ∨
      Missing (d.walkNames (d.jump links) at' node names) := by
  induction links using Nat.strongRecOn generalizing at' node names with
  | ind links ihl =>
    induction names generalizing at' node with
    | nil => exact .inl hr
    | cons name rest ih =>
      have hrest : NoSlashes rest := fun n hn => hnames n (List.mem_cons_of_mem _ hn)
      by_cases hdir : node = .directory
      case neg =>
        rw [walkNames_of_not_directory hdir] at hr
        cases hr
      subst hdir
      by_cases hplain : IsPlain name
      case neg =>
        rcases walkNames_of_not_plain hplain at' with ⟨there, hthere⟩ | hlong
        · rw [hthere] at hr ⊢
          exact ih there .directory hrest hr
        · rw [hlong] at hr
          cases hr
      rcases hsame at' name rest links hplain (hnames name List.mem_cons_self) with
        hnode | hnone | hnot
      · rw [walkNames_plain hplain] at hr ⊢
        rw [hnode] at hr
        cases hfound : d.nodes[at'.child name]? with
        | none =>
          rw [hfound] at hr
          exact .inl hr
        | some found =>
          rw [hfound] at hr
          cases found with
          | directory => exact ih _ _ hrest hr
          | file content => exact ih _ _ hrest hr
          | link target =>
            cases links with
            | zero => cases hr
            | succ links =>
              by_cases hempty : target.isEmpty = true
              · simp [jump, hempty] at hr
              · simp only [jump, hempty, Bool.false_eq_true, if_false, walk_eq] at hr ⊢
                exact ihl links (Nat.lt_succ_self links) _ _ _ (hrest.target target) hr
      · exact .inr (missing_of_none hplain hnone)
      · exact absurd hr hnot

theorem follow_back {names : List RawText} (hnames : NoSlashes names)
    (hworking : e.workingDirectory = d.workingDirectory)
    (hsame : ∀ at' name rest links, IsPlain name → Path.slash ∉ name →
      e.nodes[at'.child name]? = d.nodes[at'.child name]? ∨ d.nodes[at'.child name]? = none ∨
        e.walkNames (e.jump links) at' .directory (name :: rest) ≠ .ok r)
    (hr : e.follow path names = .ok r) :
    d.follow path names = .ok r ∨ Missing (d.follow path names) := by
  rw [follow_eq] at hr ⊢
  rw [hworking] at hr
  split at hr
  · split
    · exact walkNames_back hsame _ _ _ _ hnames hr
    · exact .inr .nowhere
  · cases hr

/-! ## What has been made -/

/-- A directory is made, or has been there. -/
theorem ensureDirectory_cases (h : d.ensureDirectory path = (.ok (), e)) :
    (∃ s, d.vacant path = .ok s ∧ e = d.put s.location .directory) ∨
      e = d ∧ ∃ at', d.find path = .ok (.present at' .directory) := by
  unfold ensureDirectory makeDirectory at h
  cases hvacant : d.vacant path with
  | ok s =>
    rw [hvacant] at h
    exact .inl ⟨s, rfl, (Prod.ext_iff.1 h).2.symm⟩
  | error fault =>
    rw [hvacant] at h
    obtain ⟨hresult, hdisk⟩ := Prod.ext_iff.1 h
    refine .inr ⟨hdisk.symm, ?_⟩
    dsimp only [bind, Except.bind] at hresult
    split at hresult
    · rename_i hthere
      obtain ⟨-, hthere⟩ := hthere
      unfold isDirectory stat? at hthere
      split at hthere
      · rename_i at' node hfind
        obtain rfl : node = .directory := by simpa using hthere
        exact ⟨at', hfind⟩
      · simp at hthere
    · cases hresult

/-- The last name that is not empty, and those before it. -/
theorem exists_last (names : List RawText) :
    names.reverse.dropWhile List.isEmpty = [] ∨ ∃ last before blanks,
      names.reverse.dropWhile List.isEmpty = last :: before ∧ last ≠ [] ∧
        (∀ b ∈ blanks, b = []) ∧ names = before.reverse ++ last :: blanks := by
  cases hlast : names.reverse.dropWhile List.isEmpty with
  | nil => exact .inl rfl
  | cons last before =>
    refine .inr ⟨last, before, (names.reverse.takeWhile List.isEmpty).reverse, rfl, ?_, ?_, ?_⟩
    · have := List.head?_dropWhile_not List.isEmpty names.reverse
      simpa [hlast] using this
    · intro b hb
      have hall := List.all_takeWhile (p := List.isEmpty) (l := names.reverse)
      simpa using List.all_eq_true.1 hall b (List.mem_reverse.1 hb)
    · have hall : names.reverse.takeWhile List.isEmpty ++ last :: before = names.reverse := by
        rw [← hlast, List.takeWhile_append_dropWhile]
      have := congrArg List.reverse hall
      simpa using this.symm

theorem noSlashes_before {last : RawText} {before : List RawText}
    (hlast : path.names.reverse.dropWhile List.isEmpty = last :: before) : NoSlashes before.reverse := by
  intro name hname
  have hmem : name ∈ path.names.reverse.dropWhile List.isEmpty := by
    rw [hlast]
    exact List.mem_cons_of_mem _ (List.mem_reverse.1 hname)
  exact noSlashes_names path name (List.mem_reverse.1 ((List.dropWhile_suffix _).subset hmem))

/-- Where something is missing above it, a directory is not made. -/
theorem ensureDirectory_of_missing {last : RawText} {before : List RawText} (hfit : unfit? path = none)
    (hlast : path.names.reverse.dropWhile List.isEmpty = last :: before)
    (h : Missing (d.follow path before.reverse)) : (d.ensureDirectory path).1 = .error .notFound := by
  have hspot : d.spot path = .error .notFound := by
    unfold Disk.spot
    simp only [hfit, hlast, List.tail_cons]
    generalize d.follow path before.reverse = found at h
    cases h <;> rfl
  simp [ensureDirectory, makeDirectory, vacant, hspot, bind, Except.bind]

/-- A place where a directory lies is where the path leads. -/
theorem find_of_spot {s : Spot} (hspot : d.spot path = .ok (some s))
    (hnode : d.nodes[s.location]? = some .directory) :
    d.find path = .ok (.present s.location .directory) := by
  obtain ⟨before, hlast, hfit, hfront, hshort, -⟩ := exists_of_spot hspot
  obtain hnil | ⟨last, before', blanks, hcut, hne, hblanks, hnames⟩ := exists_last path.names
  · rw [hlast] at hnil
    cases hnil
  obtain ⟨rfl, rfl⟩ := List.cons.inj (hcut.symm.trans hlast)
  have hplain : IsPlain s.name := by
    rw [spot_of_last hfit hlast hfront] at hspot
    split at hspot
    · cases hspot
    · rename_i hdots
      exact ⟨⟨hne, (not_or.1 hdots).1, (not_or.1 hdots).2⟩, hshort⟩
  obtain ⟨left, hleft⟩ := exists_follow_append hfront
  rw [find_of_fit hfit, hnames, hleft, walkNames_plain hplain,
    show d.nodes[s.parent.child s.name]? = some .directory from hnode]
  exact walkNames_fillers _ _ fun b hb => by simp [hblanks b hb, Path.isFiller]

/-- Behind a directory that has been made, or has been there, is the one above it. -/
theorem exists_front (h : d.ensureDirectory path = (.ok (), e)) {last : RawText}
    {before : List RawText} (hlast : path.names.reverse.dropWhile List.isEmpty = last :: before) :
    unfit? path = none ∧
      ∃ parent, d.follow path before.reverse = .ok (.present parent .directory) := by
  rcases ensureDirectory_cases h with ⟨s, hvacant, -⟩ | ⟨-, at', hfind⟩
  · obtain ⟨hspot, -⟩ := exists_of_vacant hvacant
    obtain ⟨before', hlast', hfit, hfront, -⟩ := exists_of_spot hspot
    obtain ⟨-, rfl⟩ := List.cons.inj (hlast'.symm.trans hlast)
    exact ⟨hfit, _, hfront⟩
  · have hfit := fit_of_find hfind
    obtain hnil | ⟨last', before', blanks, hcut, hne, -, hnames⟩ := exists_last path.names
    · rw [hlast] at hnil
      cases hnil
    obtain ⟨rfl, rfl⟩ := List.cons.inj (hcut.symm.trans hlast)
    rw [find_of_fit hfit] at hfind
    obtain ⟨-, parent, hfront, -⟩ := exists_follow_front hnames hne hfind
    exact ⟨hfit, parent, hfront⟩

/-- What has been made is there. -/
theorem find_of_ensureDirectory (h : d.ensureDirectory path = (.ok (), e)) :
    ∃ at', e.find path = .ok (.present at' .directory) := by
  rcases ensureDirectory_cases h with ⟨s, hvacant, rfl⟩ | ⟨rfl, at', hfind⟩
  · obtain ⟨hspot, hnone⟩ := exists_of_vacant hvacant
    obtain ⟨before, hlast, hfit, hfront, -⟩ := exists_of_spot hspot
    have hfront' := follow_frame (agreeOff_put d s.location .directory) (.inl hnone)
      (noSlashes_before hlast) hfront (.inl rfl)
    refine ⟨s.location, find_of_spot ?_ (by rw [nodes_put, if_pos rfl])⟩
    rw [spot_of_last hfit hlast hfront']
    rw [spot_of_last hfit hlast hfront] at hspot
    exact hspot
  · exact ⟨at', hfind⟩

end Disk

/-! ## The paths above a path -/

namespace Path

/-- The second path is that of the directory that the first one names a place in. -/
def Within (path above : Path) : Prop :=
  ∃ last before, path.names.reverse.dropWhile List.isEmpty = last :: before ∧
    above.IsDirectoryOf path before.reverse

/-- Each path lies in the next one. This is not asked of the path before the last one, as the last one
needs no making. -/
def Upwards : List Path → Prop
  | path :: above :: more => (more ≠ [] → path.Within above) ∧ Upwards (above :: more)
  | _ => True

theorem parentsOf_dropFiller (l : List RawText) : parentsOf (dropFiller l) = parentsOf l := by
  fun_induction dropFiller l with
  | case1 name before more hfill ih =>
    rw [ih, parentsOf, if_pos hfill]
  | case2 name before more hfill => rfl
  | case3 l _ => rfl

theorem upwards_parentsOf (l : List RawText) (hslash : ∀ name ∈ l, Path.slash ∉ name) :
    Upwards (ofReversed (dropFiller l) :: parentsOf l) := by
  fun_induction parentsOf l with
  | case1 => exact trivial
  | case2 => exact trivial
  | case3 first hfirst => exact ⟨fun h => absurd rfl h, trivial⟩
  | case4 name before more hfill ih =>
    rw [dropFiller, if_pos hfill]
    exact ih fun n hn => hslash n (List.mem_cons_of_mem _ hn)
  | case5 name before more hfill ih =>
    refine ⟨fun _ => ?_, ih fun n hn => hslash n (List.mem_cons_of_mem _ hn)⟩
    have hkept : dropFiller (name :: before :: more) = name :: before :: more := by
      rw [dropFiller, if_neg hfill]
    have hne : name ≠ [] := by
      rintro rfl
      exact hfill rfl
    have hpath : ofReversed (name :: before :: more)
        = [Path.slash].intercalate (name :: before :: more).reverse := by
      unfold ofReversed
      split
      · rename_i h
        cases h
      · rfl
    have hnames : (ofReversed (name :: before :: more)).names = (before :: more).reverse ++ [name] := by
      rw [hpath, names_intercalate (by simp) fun n hn => hslash n (List.mem_reverse.1 hn)]
      simp
    rw [hkept]
    refine ⟨name, before :: more, by rw [hnames]; simp [hne], ?_⟩
    have := isDirectoryOf_ofReversed hnames (by simp)
    rwa [List.reverse_reverse] at this

/-- The paths above the directory of some names are those above the names. -/
theorem parents_ofReversed {l : List RawText} (hl : l ≠ []) (hslash : ∀ name ∈ l, Path.slash ∉ name) :
    parents (ofReversed (dropFiller l)) = parentsOf l := by
  have hcases := ofReversed_dropFiller l.reverse
  rw [List.reverse_reverse] at hcases
  rw [← parentsOf_dropFiller l]
  rcases hcases with ⟨hroot, hkept⟩ | ⟨hdir, -⟩
  · have hdrop : dropFiller l = [[]] := by simpa [kept] using congrArg List.reverse hkept
    rw [hroot, hdrop]
    decide
  · have hnames : ∀ name ∈ kept l.reverse, Path.slash ∉ name := fun name hname =>
      hslash name (List.mem_reverse.1 (mem_of_mem_kept hname))
    rw [hdir, parents, names_intercalate (kept_ne_nil (by simpa using hl)) hnames]
    simp [kept]

/-- What stands first above some names, if it is not the empty path. -/
theorem exists_of_parentsOf {l : List RawText} {dir : Path} (h : (parentsOf l).head? = some dir)
    (hne : dir ≠ []) : ∃ l', l' ≠ [] ∧ l' ⊆ l ∧ dir = ofReversed (dropFiller l') := by
  fun_induction parentsOf l with
  | case1 => cases h
  | case2 => cases h
  | case3 first hfirst => exact absurd (Option.some.inj h).symm hne
  | case4 name before more hfill ih =>
    obtain ⟨l', hl', hsub, heq⟩ := ih h
    exact ⟨l', hl', fun n hn => List.mem_cons_of_mem _ (hsub hn), heq⟩
  | case5 name before more hfill ih =>
    exact ⟨before :: more, by simp, List.subset_cons_self _ _, (Option.some.inj h).symm⟩

/-- The directory of a path and the paths above it. -/
theorem upwards_parents {p dir : Path} (h : p.directory? = some dir) :
    Upwards (dir :: dir.parents) := by
  obtain ⟨hparent, hnonempty⟩ := Option.filter_eq_some_iff.1 h
  have hne : dir ≠ [] := fun he => by simp [he] at hnonempty
  obtain ⟨l, hl, hsub, rfl⟩ := exists_of_parentsOf hparent hne
  have hslash : ∀ name ∈ l, Path.slash ∉ name := fun name hname =>
    slash_not_mem (List.mem_reverse.1 (hsub hname))
  rw [parents_ofReversed hl hslash]
  exact upwards_parentsOf l hslash

theorem dropFiller_of_parentsOf {l : List RawText} (h : parentsOf l = []) (hl : l ≠ []) :
    dropFiller l = [[]] := by
  fun_induction parentsOf l with
  | case1 => exact absurd rfl hl
  | case2 => rfl
  | case3 first hfirst => cases h
  | case4 name before more hfill ih =>
    rw [dropFiller, if_pos hfill]
    exact ih h (by simp)
  | case5 name before more hfill ih => cases h

end Path

namespace Disk

variable {d e : Disk}

theorem find_root (d : Disk) : d.find [Path.slash] = .ok (.present Location.root .directory) := by
  have hfit : unfit? [Path.slash] = none := by decide
  have hstart : start [Path.slash] d.workingDirectory = Location.root := rfl
  have hroot : d.node? Location.root = some .directory := by simp [node?]
  rw [find_of_fit hfit, follow_eq, hstart, if_pos hroot]
  exact walkNames_fillers _ _ (by decide)

/-- One step in a row of directories. -/
theorem makeFirst_cases {path above : Path} {more : List Path}
    (h : d.makeFirst (path :: above :: more) = (.ok (), e)) :
    d.ensureDirectory path = (.ok (), e) ∨
      (d.ensureDirectory path).1 = .error .notFound ∧ ∃ ready,
        d.makeFirst (above :: more) = (.ok (), ready) ∧ ready.ensureDirectory path = (.ok (), e) := by
  rw [makeFirst] at h
  · split at h
    · rename_i fault hensure
      refine .inr ⟨by rw [hensure], ?_⟩
      split at h
      · rename_i ready hready
        exact ⟨ready, hready, h⟩
      · rename_i hfailed
        exact absurd h (hfailed e)
    · exact .inl h
  · exact List.cons_ne_nil above more

/-- The directory of a path is there when it has been made. -/
theorem find_of_makeDirectories {p dir : Path} (hdir : p.directory? = some dir)
    (h : d.makeDirectories dir = (.ok (), e)) : ∃ at', e.find dir = .ok (.present at' .directory) := by
  unfold makeDirectories at h
  cases hparents : dir.parents with
  | nil =>
    obtain ⟨hparent, hnonempty⟩ := Option.filter_eq_some_iff.1 hdir
    have hne : dir ≠ [] := fun he => by simp [he] at hnonempty
    obtain ⟨l, hl, hsub, rfl⟩ := Path.exists_of_parentsOf hparent hne
    have hslash : ∀ name ∈ l, Path.slash ∉ name := fun name hname =>
      Path.slash_not_mem (List.mem_reverse.1 (hsub hname))
    rw [Path.parents_ofReversed hl hslash] at hparents
    rw [Path.dropFiller_of_parentsOf hparents hl]
    exact ⟨_, find_root e⟩
  | cons above more =>
    rw [hparents] at h
    rcases makeFirst_cases h with hensure | ⟨-, ready, -, hensure⟩
    · exact find_of_ensureDirectory hensure
    · exact find_of_ensureDirectory hensure

end Disk

end ForeignModule
