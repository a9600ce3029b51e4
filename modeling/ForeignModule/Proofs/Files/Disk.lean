import ForeignModule.Files.Disk
import ForeignModule.Proofs.Files.Path

/-!
# Walks through a disk

* `walkNames_append` cuts a walk in two: the second stretch starts where the first one leads, with
  the links that are left;
* `find_frame`: what lies at a place matters only to the paths that lead there, as long as it is
  neither a directory nor a link. Everything that is written or made changes a disk at such a place
  only;
* `follow_deadEnd` says the same of the ways to directories, where a link may lie at the place
  too, if it leads to no directory;
* `NamesPlace` is what the operations ask of a path whose last name they change, and
  `exists_namesPlace` says that every path that leads somewhere does name a place.
-/

namespace ForeignModule

/-! ## Places -/

namespace Location

variable {l l' : Location} {name name' : RawText}

theorem ne_slash_of_mem (h : Path.slash ∉ name) :
    ∀ b ∈ name.reverse, (b ≠ Path.slash : Bool) := by
  intro b hb
  have : b ≠ Path.slash := by
    rintro rfl
    exact h (List.mem_reverse.1 hb)
  simpa using this

theorem reverse_child : (l.child name).reverse = name.reverse ++ Path.slash :: l.reverse := by
  simp [child]

theorem name_child (h : Path.slash ∉ name) : (l.child name).name = name := by
  rw [Location.name, reverse_child, List.takeWhile_append_of_pos (by simpa using ne_slash_of_mem h)]
  simp

theorem parent_child (h : Path.slash ∉ name) : (l.child name).parent = l := by
  rw [parent, reverse_child, List.dropWhile_append_of_pos (by simpa using ne_slash_of_mem h)]
  simp

/-- A place lies in one directory, under one name. -/
theorem child_inj (h : Path.slash ∉ name) (h' : Path.slash ∉ name')
    (heq : l.child name = l'.child name') : l = l' ∧ name = name' := by
  have hparent := congrArg parent heq
  have hname := congrArg Location.name heq
  rw [parent_child h, parent_child h'] at hparent
  rw [name_child h, name_child h'] at hname
  exact ⟨hparent, hname⟩

end Location

namespace Disk

/-! ## Changed places -/

section Places

variable {d : Disk} {at' x : Location} {node : Node}

theorem nodes_put : (d.put at' node).nodes[x]? = if x = at' then some node else d.nodes[x]? := by
  rw [put, Std.ExtTreeMap.getElem?_insert]
  by_cases h : x = at'
  · simp [h]
  · have : ¬compare at' x = .eq := by simpa using Ne.symm h
    simp [h, this]

theorem nodes_drop : (d.drop at').nodes[x]? = if x = at' then none else d.nodes[x]? := by
  rw [drop, Std.ExtTreeMap.getElem?_erase]
  by_cases h : x = at'
  · simp [h]
  · have : ¬compare at' x = .eq := by simpa using Ne.symm h
    simp [h, this]

@[simp] theorem workingDirectory_put : (d.put at' node).workingDirectory = d.workingDirectory := rfl

@[simp] theorem workingDirectory_drop : (d.drop at').workingDirectory = d.workingDirectory := rfl

end Places

/-- The disks differ at one place at most. -/
structure AgreeOff (place : Location) (d e : Disk) : Prop where
  workingDirectory : e.workingDirectory = d.workingDirectory
  nodes : ∀ x, x ≠ place → e.nodes[x]? = d.nodes[x]?

theorem AgreeOff.symm {place : Location} {d e : Disk} (h : AgreeOff place d e) :
    AgreeOff place e d :=
  ⟨h.workingDirectory.symm, fun x hx => (h.nodes x hx).symm⟩

theorem AgreeOff.trans {place : Location} {d e f : Disk} (h : AgreeOff place d e)
    (h' : AgreeOff place e f) : AgreeOff place d f :=
  ⟨h'.workingDirectory.trans h.workingDirectory, fun x hx => (h'.nodes x hx).trans (h.nodes x hx)⟩

theorem agreeOff_put (d : Disk) (at' : Location) (node : Node) : AgreeOff at' d (d.put at' node) :=
  ⟨rfl, fun x hx => by rw [nodes_put, if_neg hx]⟩

theorem agreeOff_drop (d : Disk) (at' : Location) : AgreeOff at' d (d.drop at') :=
  ⟨rfl, fun x hx => by rw [nodes_drop, if_neg hx]⟩

/-- No way leads on from a place: nothing lies there, or a file. -/
def Inert (d : Disk) (place : Location) : Prop :=
  d.nodes[place]? = none ∨ ∃ content, d.nodes[place]? = some (.file content)

/-! ## Walks -/

/-- The name stands for a place in a directory. -/
structure IsPlain (name : RawText) : Prop extends Path.IsName name where
  short : name.length ≤ nameLimit

section Steps

variable {d : Disk} {link : Location → Path → List RawText → Except Fault Found} {at' : Location}
  {node : Node} {name : RawText}

theorem walkNames_of_not_directory (h : node ≠ .directory) (rest : List RawText) :
    d.walkNames link at' node (name :: rest) = .error .notDirectory := by
  simp [walkNames, h]

theorem walkNames_plain (h : IsPlain name) (rest : List RawText) :
    d.walkNames link at' .directory (name :: rest) =
      match d.nodes[at'.child name]? with
      | none =>
        if rest.all List.isEmpty then .ok (.absent at' name !rest.isEmpty) else .error .notFound
      | some (.link target) => link at' target rest
      | some node => d.walkNames link (at'.child name) node rest := by
  have hlong : ¬nameLimit < name.length := Nat.not_lt.2 h.short
  have hfill : ¬(name = [] ∨ name = Path.here) := not_or.2 ⟨h.ne_empty, h.ne_dot⟩
  rewrite [walkNames, if_neg (not_not_intro rfl), if_neg hfill, if_neg h.ne_up, if_neg hlong]
  rfl

/-- A name that stands for no place leads to a directory that does not depend on the disk, or is
too long. -/
theorem walkNames_of_not_plain (h : ¬IsPlain name) (at' : Location) :
    (∃ there, ∀ (e : Disk) link rest,
        e.walkNames link at' .directory (name :: rest) = e.walkNames link there .directory rest) ∨
      ∀ (e : Disk) link rest,
        e.walkNames link at' .directory (name :: rest) = .error .nameTooLong := by
  by_cases hfill : name = [] ∨ name = Path.here
  · exact .inl ⟨at', fun e link rest => by simp [walkNames, hfill]⟩
  · by_cases hup : name = Path.up
    · refine .inl ⟨at'.parent, fun e link rest => ?_⟩
      rw [walkNames, if_neg (not_not_intro rfl), if_neg hfill, if_pos hup]
    · have hlong : nameLimit < name.length := by
        refine Nat.lt_of_not_le fun hshort => h ⟨⟨?_, ?_, hup⟩, hshort⟩
        · exact fun he => hfill (.inl he)
        · exact fun he => hfill (.inr he)
      exact .inr fun e link rest => by simp [walkNames, hfill, hup, hlong]

end Steps

/-- What becomes of a link while so many more may be followed. -/
def jump (d : Disk) : Nat → Location → Path → List RawText → Except Fault Found
  | 0, _, _, _ => .error .tooManyLinks
  | links + 1, at', target, rest =>
    if target.isEmpty then .error .notFound
    else d.walk links (start target at') (target.names ++ rest)

theorem walk_eq (d : Disk) (links : Nat) (at' : Location) (names : List RawText) :
    d.walk links at' names = d.walkNames (d.jump links) at' .directory names := by
  cases links <;> rfl

theorem follow_eq (d : Disk) (path : Path) (names : List RawText) :
    d.follow path names =
      if d.node? (start path d.workingDirectory) = some .directory then
        d.walkNames (d.jump linkLimit) (start path d.workingDirectory) .directory names
      else .error .notFound := by
  unfold follow
  simp only [walk_eq]

theorem find_of_fit {path : Path} (h : unfit? path = none) (d : Disk) :
    d.find path = d.follow path path.names := by
  have hformed : malformed? path = none := by
    unfold unfit? at h
    split at h
    · cases h
    · assumption
  simp only [find, h, trace, hformed]

theorem fit_of_find {d : Disk} {path : Path} {r : Found} (h : d.find path = .ok r) :
    unfit? path = none := by
  unfold find at h
  split at h
  · cases h
  · assumption

/-- The way goes on behind what a first stretch of names leads to. -/
def goesOn (d : Disk) (links : Nat) (names : List RawText) : Found → Except Fault Found
  | .present at' node => d.walkNames (d.jump links) at' node names
  | .absent parent name slash =>
    if names.all List.isEmpty then .ok (.absent parent name (slash || !names.isEmpty))
    else .error .notFound

/-- A walk can be cut in two anywhere. -/
theorem walkNames_append (d : Disk) (links : Nat) (at' : Location) (node : Node)
    (names : List RawText) :
    ∃ left, ∀ more, d.walkNames (d.jump links) at' node (names ++ more)
      = (d.walkNames (d.jump links) at' node names).bind (d.goesOn left more) := by
  induction links using Nat.strongRecOn generalizing at' node names with
  | ind links ihl =>
    induction names generalizing at' node with
    | nil => exact ⟨links, fun more => rfl⟩
    | cons name rest ih =>
      by_cases hdir : node = .directory
      case neg => exact ⟨links, fun more => by
        rw [List.cons_append, walkNames_of_not_directory hdir, walkNames_of_not_directory hdir]
        rfl⟩
      subst hdir
      by_cases hplain : IsPlain name
      case neg =>
        rcases walkNames_of_not_plain hplain at' with ⟨there, hthere⟩ | hlong
        · obtain ⟨left, hleft⟩ := ih there .directory
          exact ⟨left, fun more => by rw [List.cons_append, hthere, hthere, hleft]⟩
        · exact ⟨links, fun more => by
            rw [List.cons_append, hlong, hlong]
            rfl⟩
      cases hnode : d.nodes[at'.child name]? with
      | none =>
        refine ⟨links, fun more => ?_⟩
        rw [List.cons_append, walkNames_plain hplain, walkNames_plain hplain, hnode]
        by_cases hrest : rest.all List.isEmpty = true
        · have hempty : (rest ++ more).isEmpty = (rest.isEmpty && more.isEmpty) := by
            cases rest <;> rfl
          simp [hrest, Except.bind, goesOn, hempty, Bool.not_and]
        · simp [hrest, Except.bind]
      | some found =>
        cases found with
        | link target =>
          -- A link takes the way to its target; what is left of the links is less.
          cases links with
          | zero =>
            refine ⟨0, fun more => ?_⟩
            rw [List.cons_append, walkNames_plain hplain, walkNames_plain hplain, hnode]
            rfl
          | succ links =>
            obtain ⟨left, hleft⟩ := ihl links (Nat.lt_succ_self links) (start target at') .directory
              (target.names ++ rest)
            refine ⟨left, fun more => ?_⟩
            rw [List.cons_append, walkNames_plain hplain, walkNames_plain hplain, hnode]
            by_cases hempty : target.isEmpty = true
            · simp [jump, hempty, Except.bind]
            · simp only [jump, hempty, Bool.false_eq_true, if_false, walk_eq]
              rw [← List.append_assoc, hleft]
        | directory =>
          obtain ⟨left, hleft⟩ := ih (at'.child name) .directory
          refine ⟨left, fun more => ?_⟩
          rw [List.cons_append, walkNames_plain hplain, walkNames_plain hplain, hnode]
          exact hleft more
        | file content =>
          obtain ⟨left, hleft⟩ := ih (at'.child name) (.file content)
          refine ⟨left, fun more => ?_⟩
          rw [List.cons_append, walkNames_plain hplain, walkNames_plain hplain, hnode]
          exact hleft more

/-- No name in the list holds a slash, as none of a path does. -/
def NoSlashes (names : List RawText) : Prop := ∀ name ∈ names, Path.slash ∉ name

theorem noSlashes_names (path : Path) : NoSlashes path.names := fun _ => Path.slash_not_mem

theorem NoSlashes.target {names : List RawText} (h : NoSlashes names) (target : Path) :
    NoSlashes (target.names ++ names) := by
  intro name hname
  rcases List.mem_append.1 hname with hname | hname
  · exact Path.slash_not_mem hname
  · exact h name hname

/-- A walk that leads to one end on a disk leads to such an end on another disk, and with more links, if
it does so from wherever the disks differ. -/
theorem walkNames_reach {d e : Disk} {r : Found} {ends : Found → Prop} (hends : ends r)
    (hsame : ∀ at' name rest links more, links ≤ more → IsPlain name → Path.slash ∉ name →
      e.nodes[at'.child name]? = d.nodes[at'.child name]? ∨
        (d.walkNames (d.jump links) at' .directory (name :: rest) = .ok r →
          ∃ r', e.walkNames (e.jump more) at' .directory (name :: rest) = .ok r' ∧ ends r'))
    {links more : Nat} (hmore : links ≤ more) (at' : Location) (node : Node) (names : List RawText)
    (hnames : NoSlashes names) (hr : d.walkNames (d.jump links) at' node names = .ok r) :
    ∃ r', e.walkNames (e.jump more) at' node names = .ok r' ∧ ends r' := by
  induction links using Nat.strongRecOn generalizing more at' node names with
  | ind links ihl =>
    induction names generalizing at' node with
    | nil => exact ⟨r, hr, hends⟩
    | cons name rest ih =>
      have hrest : NoSlashes rest := fun n hn => hnames n (List.mem_cons_of_mem _ hn)
      by_cases hdir : node = .directory
      case neg =>
        rw [walkNames_of_not_directory hdir] at hr
        cases hr
      subst hdir
      by_cases hplain : IsPlain name
      case neg =>
        rcases walkNames_of_not_plain hplain at' with ⟨there, hthere⟩ | hlong
        · rw [hthere] at hr ⊢
          exact ih there .directory hrest hr
        · rw [hlong] at hr
          cases hr
      rcases hsame at' name rest links more hmore hplain (hnames name List.mem_cons_self) with
        hnode | hreach
      case inr => exact hreach hr
      rw [walkNames_plain hplain] at hr ⊢
      rw [hnode]
      cases hfound : d.nodes[at'.child name]? with
      | none =>
        rw [hfound] at hr
        exact ⟨r, hr, hends⟩
      | some found =>
        rw [hfound] at hr
        cases found with
        | directory => exact ih _ _ hrest hr
        | file content => exact ih _ _ hrest hr
        | link target =>
          cases links with
          | zero => cases hr
          | succ links =>
            obtain ⟨more, rfl⟩ : ∃ k, more = k + 1 := ⟨more - 1, by omega⟩
            by_cases hempty : target.isEmpty = true
            · simp [jump, hempty] at hr
            · simp only [jump, hempty, Bool.false_eq_true, if_false, walk_eq] at hr ⊢
              exact ihl links (Nat.lt_succ_self links) (by omega) _ _ _ (hrest.target target) hr

/-- A walk goes the same way on another disk, and with more links, if wherever the disks differ no
way leads to what it finds. -/
theorem walkNames_transfer {d e : Disk} {r : Found}
    (hsame : ∀ at' name rest links, IsPlain name → Path.slash ∉ name →
      e.nodes[at'.child name]? = d.nodes[at'.child name]? ∨
        d.walkNames (d.jump links) at' .directory (name :: rest) ≠ .ok r)
    {links more : Nat} (hmore : links ≤ more) (at' : Location) (node : Node) (names : List RawText)
    (hnames : NoSlashes names) (hr : d.walkNames (d.jump links) at' node names = .ok r) :
    e.walkNames (e.jump more) at' node names = .ok r := by
  have hreach : ∃ r', e.walkNames (e.jump more) at' node names = .ok r' ∧ r = r' :=
    walkNames_reach rfl (fun at' name rest links _ _ hplain hslash =>
      (hsame at' name rest links hplain hslash).imp_right fun hne h => absurd h hne)
      hmore at' node names hnames hr
  rcases hreach with ⟨r', hr', rfl⟩
  exact hr'

/-- What a link leads to it still leads to if more links may be followed. -/
theorem jump_more {d : Disk} {links more : Nat} (hmore : links ≤ more) {at' : Location}
    {target : Path} {r : Found} (h : d.jump links at' target [] = .ok r) :
    d.jump more at' target [] = .ok r := by
  cases links with
  | zero => cases h
  | succ links =>
    obtain ⟨more, rfl⟩ : ∃ k, more = k + 1 := ⟨more - 1, by omega⟩
    by_cases hempty : target.isEmpty = true
    · simp [jump, hempty] at h
    · simp only [jump, hempty, Bool.false_eq_true, if_false, walk_eq] at h ⊢
      exact walkNames_transfer (fun _ _ _ _ _ _ => .inl rfl) (by omega) _ _ _
        (NoSlashes.target (fun _ hn => absurd hn List.not_mem_nil) target) h

/-- What a link leads to is where the names behind it go on. -/
theorem jump_append (d : Disk) (links : Nat) (at' : Location) (target : Path) :
    ∃ left, ∀ rest, d.jump links at' target rest
      = (d.jump links at' target []).bind (d.goesOn left rest) := by
  cases links with
  | zero => exact ⟨0, fun rest => rfl⟩
  | succ links =>
    by_cases hempty : target.isEmpty = true
    · exact ⟨0, fun rest => by simp [jump, hempty, Except.bind]⟩
    · obtain ⟨left, hleft⟩ := d.walkNames_append links (start target at') .directory target.names
      refine ⟨left, fun rest => ?_⟩
      simp only [jump, hempty, Bool.false_eq_true, if_false, walk_eq, List.append_nil]
      exact hleft rest

/-- Behind a directory the way goes on from there. -/
theorem exists_follow_append {d : Disk} {path : Path} {front : List RawText} {parent : Location}
    (h : d.follow path front = .ok (.present parent .directory)) : ∃ left, ∀ more,
      d.follow path (front ++ more) = d.walkNames (d.jump left) parent .directory more := by
  rw [follow_eq] at h
  split at h
  case isFalse => cases h
  rename_i hstart
  obtain ⟨left, hleft⟩ := d.walkNames_append linkLimit (start path d.workingDirectory) .directory
    front
  refine ⟨left, fun more => ?_⟩
  rw [follow_eq, if_pos hstart, hleft, h]
  rfl

/-- Before each name on its way a path leads to a directory. -/
theorem exists_follow_front {d : Disk} {path : Path} {front more : List RawText} {last : RawText}
    {r : Found} (hnames : path.names = front ++ last :: more) (hlast : last ≠ [])
    (hr : d.follow path path.names = .ok r) :
    ∃ left parent, d.follow path front = .ok (.present parent .directory) ∧
      d.walkNames (d.jump left) parent .directory (last :: more) = .ok r := by
  rw [follow_eq, hnames] at hr
  split at hr
  case isFalse => cases hr
  rename_i hstart
  obtain ⟨left, hleft⟩ := d.walkNames_append linkLimit (start path d.workingDirectory) .directory
    front
  rw [follow_eq, if_pos hstart]
  rw [hleft] at hr
  cases hfront : d.walkNames (d.jump linkLimit) (start path d.workingDirectory) .directory front with
  | error fault =>
    rw [hfront] at hr
    cases hr
  | ok found =>
    rw [hfront] at hr
    cases found with
    | absent parent name slash => simp [Except.bind, goesOn, hlast] at hr
    | present parent node =>
      have hrest : d.walkNames (d.jump left) parent node (last :: more) = .ok r := hr
      by_cases hdir : node = .directory
      · subst hdir
        exact ⟨left, parent, rfl, hrest⟩
      · rw [walkNames_of_not_directory hdir] at hrest
        cases hrest

/-! ## Changes that a walk does not see -/

/-- The way does not end at a file or a free place that lies there. -/
def Found.Off (place : Location) : Found → Prop
  | .present at' node => node = .directory ∨ at' ≠ place
  | .absent parent name _ => parent.child name ≠ place

section Frame

variable {d e : Disk} {place : Location}

theorem Inert.ne_directory (hi : d.Inert place) : d.nodes[place]? ≠ some .directory := by
  rcases hi with h | ⟨content, h⟩ <;> simp [h]

theorem node?_directory (h : AgreeOff place d e) (hplace : d.nodes[place]? ≠ some .directory)
    {x : Location} (hx : d.node? x = some .directory) : e.node? x = some .directory := by
  unfold node? at hx ⊢
  split at hx
  · rename_i hroot
    rw [if_pos hroot]
  · rename_i hroot
    have hne : x ≠ place := by
      rintro rfl
      exact hplace hx
    rw [if_neg hroot, h.nodes _ hne, hx]

/-- A path is followed to the same end if the place that changed is none on the way. -/
theorem follow_transfer (h : AgreeOff place d e) (hplace : d.nodes[place]? ≠ some .directory)
    {path : Path} {names : List RawText} (hnames : NoSlashes names) {r : Found}
    (haside : ∀ at' name rest links, IsPlain name → Path.slash ∉ name → at'.child name = place →
      d.walkNames (d.jump links) at' .directory (name :: rest) ≠ .ok r)
    (hr : d.follow path names = .ok r) : e.follow path names = .ok r := by
  rw [follow_eq] at hr ⊢
  rw [h.workingDirectory]
  split at hr
  · rename_i hstart
    rw [if_pos (node?_directory h hplace hstart)]
    refine walkNames_transfer ?_ (Nat.le_refl _) _ _ _ hnames hr
    intro at' name rest links hplain hslash
    by_cases hat : at'.child name = place
    · exact .inr (haside at' name rest links hplain hslash hat)
    · exact .inl (h.nodes _ hat)
  · cases hr

/-- A way through the place ends there, or nowhere. -/
theorem walkNames_inert (hi : d.Inert place) (links : Nat) {at' : Location} {name : RawText}
    (hplain : IsPlain name) (hplace : at'.child name = place) (rest : List RawText) {r : Found}
    (hoff : r.Off place) :
    d.walkNames (d.jump links) at' .directory (name :: rest) ≠ .ok r := by
  intro hr
  rw [walkNames_plain hplain] at hr
  rcases hi with hnone | ⟨content, hfile⟩
  · rw [hplace, hnone] at hr
    by_cases hrest : rest.all List.isEmpty = true
    · simp only [hrest, if_true, Except.ok.injEq] at hr
      rw [← hr] at hoff
      exact hoff hplace
    · simp [hrest] at hr
  · rw [hplace, hfile] at hr
    cases rest with
    | nil =>
      injection hr with hr
      rw [← hr] at hoff
      rcases hoff with hoff | hoff
      · cases hoff
      · exact hoff rfl
    | cons a more => simp [walkNames] at hr

theorem follow_frame (h : AgreeOff place d e) (hi : d.Inert place) {path : Path}
    {names : List RawText} (hnames : NoSlashes names) {r : Found}
    (hr : d.follow path names = .ok r) (hoff : r.Off place) : e.follow path names = .ok r :=
  follow_transfer h hi.ne_directory hnames
    (fun _ _ rest links hplain _ hplace => walkNames_inert hi links hplain hplace rest hoff) hr

theorem trace_frame (h : AgreeOff place d e) (hi : d.Inert place) {path : Path} {r : Found}
    (hr : d.trace path = .ok r) (hoff : r.Off place) : e.trace path = .ok r := by
  unfold trace at hr ⊢
  split at hr
  · cases hr
  · exact follow_frame h hi (noSlashes_names path) hr hoff

/-- A path leads where it did before, unless that is the place that changed. -/
theorem find_frame (h : AgreeOff place d e) (hi : d.Inert place) {path : Path} {r : Found}
    (hr : d.find path = .ok r) (hoff : r.Off place) : e.find path = .ok r := by
  unfold find at hr ⊢
  split at hr
  · cases hr
  · exact trace_frame h hi hr hoff

/-- A path that leads to a file leads to its place whatever lies there, if no way leads on from it. -/
theorem find_reach (h : AgreeOff place d e) (hi : d.Inert place) (hi' : e.Inert place) {path : Path}
    {content : List UInt8} (hr : d.find path = .ok (.present place (.file content))) :
    ∃ r, e.find path = .ok r ∧ ¬r.Off place := by
  have hends : ¬Found.Off place (.present place (.file content)) := by simp [Found.Off]
  have hfit := fit_of_find hr
  rw [find_of_fit hfit, follow_eq] at hr ⊢
  rw [h.workingDirectory]
  split at hr
  case isFalse => cases hr
  rename_i hstart
  rw [if_pos (node?_directory h hi.ne_directory hstart)]
  refine walkNames_reach hends ?_ (Nat.le_refl _) _ _ _ (noSlashes_names path) hr
  intro at' name rest links more _ hplain _
  by_cases hat : at'.child name = place
  case neg => exact .inl (h.nodes _ hat)
  -- The file lies behind no further names, so nothing is asked of what lies at its place now.
  refine .inr fun hwalk => ?_
  have hrest : rest = [] := by
    rw [walkNames_plain hplain, hat] at hwalk
    rcases hi with hnone | ⟨old, hfile⟩
    · rw [hnone] at hwalk
      by_cases hblank : rest.all List.isEmpty = true <;> simp [hblank] at hwalk
    · rw [hfile] at hwalk
      cases rest with
      | nil => rfl
      | cons a more => simp [walkNames] at hwalk
  subst hrest
  rw [walkNames_plain hplain, hat]
  rcases hi' with hnone | ⟨new, hfile⟩
  · rw [hnone]
    exact ⟨_, rfl, fun hoff => hoff hat⟩
  · rw [hfile]
    exact ⟨_, rfl, by simp [Found.Off]⟩

/-- What is read at the end of a path. -/
def content : Found → Except Fault (List UInt8)
  | .present _ (.file content) => .ok content
  | .present _ _ => .error .isDirectory
  | .absent _ _ _ => .error .notFound

theorem read_of_find {path : Path} {r : Found} (hr : d.find path = .ok r) :
    d.read path = content r := by
  rw [read, hr]
  cases r with
  | present at' node => cases node <;> rfl
  | absent parent name slash => rfl

end Frame

/-! ## Changes that a way to a directory does not see -/

/-- No way to a directory leads through this place. -/
inductive DeadEnd (d : Disk) (parent : Location) (name : RawText) : Prop where
  | inert (h : d.Inert (parent.child name))
  | link (target : Path) (h : d.nodes[parent.child name]? = some (.link target))
    (nowhere : ∀ links at', d.jump links parent target [] ≠ .ok (.present at' .directory))

/-- A way that ends in a directory has not gone through a link that leads to none. -/
theorem jump_ne_directory {d : Disk} {parent : Location} {target : Path}
    (nowhere : ∀ links at', d.jump links parent target [] ≠ .ok (.present at' .directory))
    (links : Nat) (rest : List RawText) (at' : Location) :
    d.jump links parent target rest ≠ .ok (.present at' .directory) := by
  intro h
  obtain ⟨left, hleft⟩ := d.jump_append links parent target
  rw [hleft] at h
  cases hfound : d.jump links parent target [] with
  | error fault =>
    rw [hfound] at h
    cases h
  | ok found =>
    rw [hfound] at h
    cases found with
    | absent inner name slash =>
      by_cases hrest : rest.all List.isEmpty = true <;> simp [Except.bind, goesOn, hrest] at h
    | present inner node =>
      have hdir : node ≠ .directory := by
        rintro rfl
        exact nowhere links inner hfound
      cases rest with
      | nil =>
        injection h with h
        injection h with _ hnode
        exact hdir hnode
      | cons name more =>
        have hblocked : d.walkNames (d.jump left) inner node (name :: more) = .error .notDirectory :=
          walkNames_of_not_directory hdir more
        simp [Except.bind, goesOn, hblocked] at h

section DirectoryFrame

variable {d e : Disk} {parent : Location} {name : RawText}

theorem DeadEnd.ne_directory (hi : d.DeadEnd parent name) :
    d.nodes[parent.child name]? ≠ some .directory := by
  rcases hi with hinert | ⟨target, hlink, _⟩
  · exact hinert.ne_directory
  · simp [hlink]

/-- A way through the place ends at no directory. -/
theorem DeadEnd.walkNames_ne (hi : d.DeadEnd parent name) (hslash : Path.slash ∉ name)
    {at' : Location} {first : RawText} (hplain : IsPlain first) (hfirst : Path.slash ∉ first)
    (hplace : at'.child first = parent.child name) (links : Nat) (rest : List RawText)
    (there : Location) :
    d.walkNames (d.jump links) at' .directory (first :: rest) ≠ .ok (.present there .directory) := by
  rcases hi with hinert | ⟨target, hlink, nowhere⟩
  · exact walkNames_inert hinert links hplain hplace rest (.inl rfl)
  · obtain ⟨rfl, rfl⟩ := Location.child_inj hfirst hslash hplace
    rw [walkNames_plain hplain, hlink]
    exact jump_ne_directory nowhere links rest there

/-- A way to a directory is the same whatever lies at a place that leads to none. -/
theorem follow_deadEnd (h : AgreeOff (parent.child name) d e) (hi : d.DeadEnd parent name)
    (hslash : Path.slash ∉ name) {path : Path} {names : List RawText} (hnames : NoSlashes names)
    {there : Location} (hr : d.follow path names = .ok (.present there .directory)) :
    e.follow path names = .ok (.present there .directory) :=
  follow_transfer h hi.ne_directory hnames
    (fun _ _ rest links hplain hfirst hplace =>
      hi.walkNames_ne hslash hplain hfirst hplace links rest there) hr

end DirectoryFrame

/-! ## The place that a path names -/

/-- The place that a path names, by its last name that is not empty. -/
theorem spot_of_last {d : Disk} {path : Path} {parent : Location} {last : RawText}
    {before : List RawText} (hfit : unfit? path = none)
    (hlast : path.names.reverse.dropWhile List.isEmpty = last :: before)
    (hfront : d.follow path before.reverse = .ok (.present parent .directory)) :
    d.spot path =
      if last = Path.here ∨ last = Path.up then .ok none
      else if nameLimit < last.length then .error .nameTooLong
      else .ok (some ⟨parent, last, before.length + 1 < path.names.length⟩) := by
  unfold Disk.spot
  simp only [hfit, hlast, List.tail_cons, hfront, List.head?_cons, bind, Except.bind, ne_eq,
    not_true_eq_false, if_false]
  by_cases hname : last = Path.here ∨ last = Path.up
  · rw [if_pos hname, if_pos hname]
    rfl
  · rw [if_neg hname, if_neg hname]
    by_cases hlong : nameLimit < last.length
    · simp [hlong, throw, throwThe, MonadExceptOf.throw]
    · simp [hlong, pure, Except.pure]

/-- The path names this place in a directory that is there. -/
structure NamesPlace (d : Disk) (path : Path) (parent : Location) (name : RawText) : Prop where
  fit : unfit? path = none
  short : name.length ≤ nameLimit
  front : ∃ front, path.EndsIn front name ∧
    d.follow path front = .ok (.present parent .directory)

namespace NamesPlace

variable {d e : Disk} {path : Path} {parent : Location} {name : RawText}

theorem plain (h : d.NamesPlace path parent name) : IsPlain name :=
  let ⟨_, hends, _⟩ := h.front
  ⟨hends.isName, h.short⟩

theorem spot (h : d.NamesPlace path parent name) :
    d.spot path = .ok (some ⟨parent, name, false⟩) := by
  obtain ⟨front, hends, hfront⟩ := h.front
  have hlast : path.names.reverse.dropWhile List.isEmpty = name :: front.reverse := by
    simp [hends.names, hends.isName.ne_empty]
  have hlong : ¬nameLimit < name.length := Nat.not_lt.2 h.short
  rw [spot_of_last h.fit hlast (by rw [List.reverse_reverse]; exact hfront)]
  simp [hends.isName.ne_dot, hends.isName.ne_up, hlong, hends.names]

/-- Where no link lies at its place, the path leads there. -/
theorem find (h : d.NamesPlace path parent name) :
    ∃ left, d.find path =
      match d.nodes[parent.child name]? with
      | none => .ok (.absent parent name false)
      | some (.link target) => d.jump left parent target []
      | some node => .ok (.present (parent.child name) node) := by
  obtain ⟨front, hends, hfront⟩ := h.front
  obtain ⟨left, hleft⟩ := exists_follow_append hfront
  refine ⟨left, ?_⟩
  rw [find_of_fit h.fit, hends.names, hleft, walkNames_plain h.plain]
  cases d.nodes[parent.child name]? with
  | none => rfl
  | some node => cases node <;> rfl

theorem find_of_none (h : d.NamesPlace path parent name)
    (hnode : d.nodes[parent.child name]? = none) :
    d.find path = .ok (.absent parent name false) := by
  obtain ⟨left, hfind⟩ := h.find
  rw [hfind, hnode]

theorem find_of_file (h : d.NamesPlace path parent name) {content : List UInt8}
    (hnode : d.nodes[parent.child name]? = some (.file content)) :
    d.find path = .ok (.present (parent.child name) (.file content)) := by
  obtain ⟨left, hfind⟩ := h.find
  rw [hfind, hnode]

/-- Changes at a place that leads nowhere do not concern the directory. -/
theorem frame {place : Location} (h : d.NamesPlace path parent name) (ha : AgreeOff place d e)
    (hi : d.Inert place) : e.NamesPlace path parent name := by
  obtain ⟨front, hends, hfront⟩ := h.front
  exact ⟨h.fit, h.short, front, hends,
    follow_frame ha hi hends.slash_not_mem_front hfront (.inl rfl)⟩

/-- A path that leads to no directory is none on the way to its own place. -/
theorem deadEnd (h : d.NamesPlace path parent name) {r : Found} (hr : d.find path = .ok r)
    (hdir : ∀ at', r ≠ .present at' .directory) : d.DeadEnd parent name := by
  obtain ⟨left, hfind⟩ := h.find
  rw [hr] at hfind
  cases hnode : d.nodes[parent.child name]? with
  | none => exact .inert (.inl hnode)
  | some node =>
    rw [hnode] at hfind
    cases node with
    | directory =>
      injection hfind with hfind
      exact absurd hfind (hdir _)
    | file content => exact .inert (.inr ⟨content, hnode⟩)
    | link target =>
      refine .link target hnode fun links at' hjump => ?_
      have hleft := jump_more (Nat.le_max_left left links) hfind.symm
      have hlinks := jump_more (Nat.le_max_right left links) hjump
      rw [hleft] at hlinks
      injection hlinks with hlinks
      exact hdir at' hlinks

/-- Nor do those at a place that leads to no directory, such as that of the path itself. -/
theorem frame_deadEnd {parent' : Location} {name' : RawText} (h : d.NamesPlace path parent name)
    (ha : AgreeOff (parent'.child name') d e) (hi : d.DeadEnd parent' name')
    (hslash : Path.slash ∉ name') : e.NamesPlace path parent name := by
  obtain ⟨front, hends, hfront⟩ := h.front
  exact ⟨h.fit, h.short, front, hends,
    follow_deadEnd ha hi hslash hends.slash_not_mem_front hfront⟩

/-- A path names one place. -/
theorem unique {parent' : Location} {name' : RawText} (h : d.NamesPlace path parent name)
    (h' : d.NamesPlace path parent' name') : parent' = parent ∧ name' = name := by
  have hspot := h.spot.symm.trans h'.spot
  injection hspot with hspot
  injection hspot with hspot
  injection hspot with hparent hname
  exact ⟨hparent.symm, hname.symm⟩

end NamesPlace

/-- A path that leads anywhere, or to a place that is free, names a place in a directory. -/
theorem exists_namesPlace {d : Disk} {path : Path} {front : List RawText} {name : RawText} {r : Found}
    (h : path.EndsIn front name) (hr : d.find path = .ok r) :
    ∃ parent, d.NamesPlace path parent name ∧
      d.follow path front = .ok (.present parent .directory) := by
  have hfit := fit_of_find hr
  rw [find_of_fit hfit] at hr
  obtain ⟨left, parent, hfront, hlast⟩ := exists_follow_front h.names h.isName.ne_empty hr
  have hshort : name.length ≤ nameLimit := by
    refine Nat.le_of_not_lt fun hlong => ?_
    simp [walkNames, h.isName.ne_empty, h.isName.ne_dot, h.isName.ne_up, hlong] at hlast
  exact ⟨parent, ⟨hfit, hshort, front, h, hfront⟩, hfront⟩

end Disk

end ForeignModule
