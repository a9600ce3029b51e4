import ForeignModule.Proofs.Files.Ground

/-!
# Something that is moved within its directory

A file or a link that gets another name in its directory is read under the new name exactly as under
the old one, once the other name stands for nothing.

* `walkNames_both`: ways that lead to the same place on two disks go on from there alike, with as
  many links left;
* `jump_beside`: what a link leads to does not depend on what lies at the place of the link itself;
* `read_put_beside`: what can be read under one of two free names, once something is put there, can
  be read under the other one when it is put there instead;
* `read_of_rename` says this of the move, where something may have lain at the new name before.
-/

namespace ForeignModule.Disk

/-- Disks are the same if the same lies everywhere on them. -/
theorem ext_nodes {d e : Disk} (hworking : d.workingDirectory = e.workingDirectory)
    (hnodes : ∀ x : Location, d.nodes[x]? = e.nodes[x]?) : d = e := by
  obtain ⟨nodes, working⟩ := d
  obtain ⟨nodes', working'⟩ := e
  have hsame : nodes = nodes' := Std.ExtTreeMap.ext_getElem? fun {x} => hnodes x
  subst hsame
  exact congrArg _ hworking

/-! ## Two disks -/

/-- Where the disks differ no way with so many links leads to what this stretch of names leads to on
the first one: then it leads there on the second one too, and both go on with as many links left. -/
theorem walkNames_both {d e : Disk} {r : Found} {links : Nat}
    (hsame : ∀ at' name rest fewer, fewer ≤ links → IsPlain name → Path.slash ∉ name →
      e.nodes[at'.child name]? = d.nodes[at'.child name]? ∨
        d.walkNames (d.jump fewer) at' .directory (name :: rest) ≠ .ok r)
    (at' : Location) (node : Node) (names : List RawText) (hnames : NoSlashes names)
    (hr : d.walkNames (d.jump links) at' node names = .ok r) :
    ∃ left, ∀ more,
      d.walkNames (d.jump links) at' node (names ++ more) = d.goesOn left more r ∧
        e.walkNames (e.jump links) at' node (names ++ more) = e.goesOn left more r := by
  induction links using Nat.strongRecOn generalizing at' node names with
  | ind links ihl =>
    induction names generalizing at' node with
    | nil =>
      cases hr
      exact ⟨links, fun more => ⟨rfl, rfl⟩⟩
    | cons name rest ih =>
      have hrest : NoSlashes rest := fun n hn => hnames n (List.mem_cons_of_mem _ hn)
      by_cases hdir : node = .directory
      case neg =>
        rw [walkNames_of_not_directory hdir] at hr
        cases hr
      subst hdir
      by_cases hplain : IsPlain name
      case neg =>
        rcases walkNames_of_not_plain hplain at' with ⟨there, hthere⟩ | hlong
        · rw [hthere] at hr
          obtain ⟨left, hleft⟩ := ih there .directory hrest hr
          refine ⟨left, fun more => ?_⟩
          rw [List.cons_append, hthere, hthere]
          exact hleft more
        · rw [hlong] at hr
          cases hr
      have hnode : e.nodes[at'.child name]? = d.nodes[at'.child name]? :=
        (hsame at' name rest links (Nat.le_refl _) hplain
          (hnames name List.mem_cons_self)).resolve_right (not_not_intro hr)
      simp only [List.cons_append, walkNames_plain hplain, hnode] at hr ⊢
      cases hfound : d.nodes[at'.child name]? with
      | none =>
        simp only [hfound] at hr
        split at hr
        case isFalse => cases hr
        rename_i hblank
        cases hr
        have hempty : ∀ more : List RawText,
            (rest ++ more).isEmpty = (rest.isEmpty && more.isEmpty) := by
          intro more
          cases rest <;> rfl
        exact ⟨links, fun more => by simp [goesOn, hblank, hempty, Bool.not_and]⟩
      | some found =>
        simp only [hfound] at hr
        cases found with
        | directory => exact ih _ _ hrest hr
        | file content => exact ih _ _ hrest hr
        | link target =>
          cases links with
          | zero => cases hr
          | succ links =>
            by_cases hempty : target.isEmpty = true
            · simp [jump, hempty] at hr
            · simp only [jump, hempty, Bool.false_eq_true, if_false, walk_eq, ← List.append_assoc]
                at hr ⊢
              exact ihl links (Nat.lt_succ_self links)
                (fun at' name rest fewer hfewer => hsame at' name rest fewer (by omega))
                _ _ _ (hrest.target target) hr

/-- The way to a directory is the same on both disks, with as many links left behind it. -/
theorem follow_both {d e : Disk} {path : Path} {front : List RawText} {parent : Location}
    (hworking : e.workingDirectory = d.workingDirectory)
    (hstart : ∀ x, d.node? x = some .directory → e.node? x = some .directory)
    (hsame : ∀ at' name rest links, IsPlain name → Path.slash ∉ name →
      e.nodes[at'.child name]? = d.nodes[at'.child name]? ∨
        d.walkNames (d.jump links) at' .directory (name :: rest)
          ≠ .ok (.present parent .directory))
    (hnames : NoSlashes front) (h : d.follow path front = .ok (.present parent .directory)) :
    ∃ left, ∀ more,
      d.follow path (front ++ more) = d.walkNames (d.jump left) parent .directory more ∧
        e.follow path (front ++ more) = e.walkNames (e.jump left) parent .directory more := by
  simp only [follow_eq, hworking] at h ⊢
  split at h
  case isFalse => cases h
  rename_i hdir
  obtain ⟨left, hleft⟩ := walkNames_both
    (fun at' name rest fewer _ => hsame at' name rest fewer) _ _ _ hnames h
  refine ⟨left, fun more => ?_⟩
  rw [if_pos hdir, if_pos (hstart _ hdir)]
  exact hleft more

/-! ## Links -/

section Links

variable {d e : Disk} {parent at' : Location} {name : RawText} {target : Path} {r : Found}
  {links : Nat}

/-- What a link leads to it leads to on another disk, if no way there meets what differs. -/
theorem jump_transfer
    (hsame : ∀ at' name rest fewer, fewer < links → IsPlain name → Path.slash ∉ name →
      e.nodes[at'.child name]? = d.nodes[at'.child name]? ∨
        d.walkNames (d.jump fewer) at' .directory (name :: rest) ≠ .ok r)
    (hr : d.jump links at' target [] = .ok r) : e.jump links at' target [] = .ok r := by
  cases links with
  | zero => cases hr
  | succ links =>
    by_cases hempty : target.isEmpty = true
    · simp [jump, hempty] at hr
    · simp only [jump, hempty, Bool.false_eq_true, if_false, walk_eq, List.append_nil] at hr ⊢
      obtain ⟨left, hleft⟩ := walkNames_both
        (fun at' name rest fewer hfewer => hsame at' name rest fewer (by omega))
        _ _ _ (noSlashes_names target) hr
      have hboth := hleft []
      rw [List.append_nil] at hboth
      rw [hboth.2, ← hr, hboth.1]
      cases r <;> rfl

/-- What is found at the end of a link does not depend on what lies at a free place. -/
theorem jump_fill {place : Location} {node : Node} (h : AgreeOff place d e)
    (hfree : d.nodes[place]? = none) {there : Location}
    (hr : d.jump links at' target [] = .ok (.present there node)) :
    e.jump links at' target [] = .ok (.present there node) := by
  refine jump_transfer (fun inner name rest fewer _ hplain _ => ?_) hr
  by_cases hplace : inner.child name = place
  · right
    intro hleads
    rw [walkNames_plain hplain, hplace, hfree] at hleads
    dsimp only at hleads
    split at hleads <;> cases hleads
  · exact .inl (h.nodes _ hplace)

/-- Nor does a directory there depend on what lies at a place that leads nowhere. -/
theorem jump_inert {place there : Location} (h : AgreeOff place d e) (hi : d.Inert place)
    (hr : d.jump links at' target [] = .ok (.present there .directory)) :
    e.jump links at' target [] = .ok (.present there .directory) := by
  refine jump_transfer (fun inner name rest fewer _ hplain _ => ?_) hr
  by_cases hplace : inner.child name = place
  · exact .inr (walkNames_inert hi fewer hplain hplace rest (.inl rfl))
  · exact .inl (h.nodes _ hplace)

/-- What a link leads to does not depend on the link: a way that comes back to it goes on for ever. -/
theorem jump_beside (h : AgreeOff (parent.child name) d e) (hslash : Path.slash ∉ name)
    (hlink : d.nodes[parent.child name]? = some (.link target))
    (hr : d.jump links parent target [] = .ok r) : e.jump links parent target [] = .ok r := by
  induction links using Nat.strongRecOn with
  | ind links ih =>
    by_cases hfewer : ∃ fewer < links, d.jump fewer parent target [] = .ok r
    · obtain ⟨fewer, hlt, hleads⟩ := hfewer
      exact jump_more (by omega) (ih fewer hlt hleads)
    -- With the fewest links possible the way does not come back.
    refine jump_transfer (fun inner first rest fewer hlt hplain hfirst => ?_) hr
    by_cases hplace : inner.child first = parent.child name
    case neg => exact .inl (h.nodes _ hplace)
    right
    intro hleads
    obtain ⟨rfl, rfl⟩ := Location.child_inj hfirst hslash hplace
    rw [walkNames_plain hplain, hlink] at hleads
    obtain ⟨left, hleft⟩ := d.jump_append fewer inner target
    have hgoes := (hleft rest).symm.trans hleads
    cases hfound : d.jump fewer inner target [] with
    | error fault =>
      rw [hfound] at hgoes
      cases hgoes
    | ok found =>
      have hmore := jump_more (by omega : fewer ≤ links) hfound
      rw [hr] at hmore
      exact hfewer ⟨fewer, hlt, hfound.trans hmore.symm⟩

/-- A place that leads to no directory leads to none when other things are put or taken where no way
leads on. -/
theorem DeadEnd.back {place : Location} (hd : d.DeadEnd parent name) (h : AgreeOff place d e)
    (hi : e.Inert place) : e.DeadEnd parent name := by
  by_cases hplace : parent.child name = place
  · exact .inert (hplace ▸ hi)
  have hnode : e.nodes[parent.child name]? = d.nodes[parent.child name]? := h.nodes _ hplace
  rcases hd with hinert | ⟨target, hlink, nowhere⟩
  · refine .inert ?_
    rw [Inert, hnode]
    exact hinert
  · exact .link target (hnode.trans hlink) fun links at' hjump =>
      nowhere links at' (jump_inert h.symm hi hjump)

end Links

/-- A path to which a file has been written leads to no directory. -/
theorem deadEnd_of_write {d e : Disk} {path : Path} {content : List UInt8} {parent : Location}
    {name : RawText} (h : d.write path content = .ok e) (hplace : e.NamesPlace path parent name) :
    e.DeadEnd parent name := by
  obtain ⟨r, hfind, hdir, rfl⟩ := exists_place_of_write h
  have hagree := agreeOff_put d r.place (.file content)
  have hinert : (d.put r.place (.file content)).Inert r.place :=
    .inr ⟨content, by simp [nodes_put]⟩
  have hplace' := hplace.frame hagree.symm hinert
  exact (hplace'.deadEnd hfind hdir).back hagree hinert

/-! ## Two names in one directory -/

/-- Names that say nothing may stand before others. -/
theorem walkNames_fillers_append (d : Disk)
    (link : Location → Path → List RawText → Except Fault Found) (at' : Location)
    {fillers : List RawText} (h : ∀ f ∈ fillers, Path.isFiller f = true) (more : List RawText) :
    d.walkNames link at' .directory (fillers ++ more) = d.walkNames link at' .directory more := by
  induction fillers with
  | nil => rfl
  | cons f rest ih =>
    have hf : f = [] ∨ f = Path.here := by simpa [Path.isFiller] using h f List.mem_cons_self
    rw [List.cons_append, walkNames]
    simp only [ne_eq, not_true_eq_false, if_false, hf, if_true]
    exact ih fun f hf => h f (List.mem_cons_of_mem _ hf)

/-- The paths name things in one directory, by these names. -/
structure Siblings (p q : Path) (front front' : List RawText) (a b : RawText) : Prop where
  first : p.EndsIn front a
  second : q.EndsIn front' b
  kept : Path.kept front = Path.kept front'
  isAbsolute : p.isAbsolute = q.isAbsolute

section Siblings

variable {c d e : Disk} {p q : Path} {front front' : List RawText} {a b : RawText}
  {parent : Location} {node : Node} {content : List UInt8}

theorem Siblings.symm (h : Siblings p q front front' a b) : Siblings q p front' front b a :=
  ⟨h.second, h.first, h.kept.symm, h.isAbsolute.symm⟩

/-- Both paths lead through the same directory. -/
theorem Siblings.follow (h : Siblings p q front front' a b)
    (hp : d.follow p front = .ok (.present parent .directory)) :
    d.follow q front' = .ok (.present parent .directory) := by
  rw [← follow_kept, ← h.kept, ← follow_congr h.isAbsolute, follow_kept]
  exact hp

/-- A path leads where its last name leads from its directory on. -/
theorem find_of_goesOn {left : Nat} (h : p.EndsIn front a) (hfit : unfit? p = none)
    (hgoes : ∀ more, d.follow p (Path.kept front ++ more)
      = d.walkNames (d.jump left) parent .directory more) :
    d.find p = d.walkNames (d.jump left) parent .directory [a] := by
  obtain ⟨fillers, hsplit, hfillers⟩ := Path.exists_kept front
  have hnames : p.names = Path.kept front ++ (fillers ++ [a]) := by
    rw [h.names, ← List.append_assoc, ← hsplit]
  rw [find_of_fit hfit, hnames, hgoes, walkNames_fillers_append _ _ _ hfillers]

/-- What can be read under one name in a directory can be read under another one if it is put there
instead, as long as nothing lies under either. -/
theorem read_put_beside (h : Siblings p q front front' a b) (ha : c.nodes[parent.child a]? = none)
    (hb : c.nodes[parent.child b]? = none) (hne : a ≠ b) (hnode : node ≠ .directory)
    (hfit : unfit? q = none) (hshort : b.length ≤ nameLimit)
    (hdead : (c.put (parent.child a) node).DeadEnd parent a)
    (hhome : ∀ at', c.follow p front = .ok (.present at' .directory) → at' = parent)
    (hread : (c.put (parent.child a) node).read p = .ok content) :
    (c.put (parent.child b) node).read q = .ok content := by
  obtain ⟨there, hfind⟩ := find_of_read hread
  obtain ⟨inner, hplace, hfront⟩ := exists_namesPlace h.first hfind
  have hslash := h.first.slash_not_mem
  have hslash' := h.second.slash_not_mem
  have hagree := agreeOff_put c (parent.child a) node
  have hagree' := agreeOff_put c (parent.child b) node
  have hapart : parent.child b ≠ parent.child a := fun heq =>
    hne (Location.child_inj hslash' hslash heq).2.symm
  have hfree : (c.put (parent.child a) node).nodes[parent.child b]? = none := by
    rw [hagree.nodes _ hapart, hb]
  -- The directory is the same without the two names.
  obtain rfl : inner = parent := hhome inner
    (follow_deadEnd hagree.symm hdead hslash h.first.slash_not_mem_front hfront)
  obtain ⟨left, hleft⟩ := follow_both (d := c.put (inner.child a) node)
    (e := c.put (inner.child b) node) rfl
    (fun x hx => node?_directory hagree' (by simp [hb])
      (node?_directory hagree.symm hdead.ne_directory hx))
    (fun at' name rest links hplain hname => by
      by_cases hata : at'.child name = inner.child a
      · exact .inr (hdead.walkNames_ne hslash hplain hname hata links rest inner)
      · by_cases hatb : at'.child name = inner.child b
        · exact .inr (walkNames_inert (.inl hfree) links hplain hatb rest (.inl rfl))
        · exact .inl ((hagree'.nodes _ hatb).trans (hagree.nodes _ hata).symm))
    (fun f hf => h.first.slash_not_mem_front f (Path.mem_of_mem_kept hf))
    ((follow_kept _ p front inner).2 hfront)
  have hfind' := find_of_goesOn h.second hfit fun more => by
    rw [← h.kept, ← follow_congr h.isAbsolute]
    exact (hleft more).2
  rw [find_of_goesOn h.first hplace.fit fun more => (hleft more).1,
    walkNames_plain hplace.plain] at hfind
  rw [walkNames_plain ⟨h.second.isName, hshort⟩] at hfind'
  simp only [nodes_put, if_true] at hfind hfind'
  cases node with
  | directory => exact absurd rfl hnode
  | file old =>
    cases hfind
    exact read_of_find hfind'
  | link target =>
    have hjump := jump_beside hagree.symm hslash (by simp [nodes_put]) hfind
    exact read_of_find (hfind'.trans (jump_fill hagree' hb hjump))

end Siblings

/-! ## Moving -/

section Rename

variable {w : Disk} {p q : Path} {front front' : List RawText} {a b : RawText} {parent : Location}
  {node : Node} {content : List UInt8}

/-- The disk without what is moved, and without what it replaces. -/
def without (w : Disk) (parent : Location) (a b : RawText) : Disk :=
  (w.drop (parent.child a)).drop (parent.child b)

theorem without_free : (w.without parent a b).nodes[parent.child a]? = none ∧
    (w.without parent a b).nodes[parent.child b]? = none := by
  constructor <;> simp [without, nodes_drop]

/-- What a way leads to without the two it leads to with them. -/
theorem follow_of_without {names : List RawText} (hnames : NoSlashes names) {there : Location}
    (h : (w.without parent a b).follow p names = .ok (.present there .directory)) :
    w.follow p names = .ok (.present there .directory) := by
  refine follow_frame (agreeOff_drop w (parent.child a)).symm (.inl (by simp [nodes_drop])) hnames
    ?_ (.inl rfl)
  exact follow_frame (agreeOff_drop (w.drop (parent.child a)) (parent.child b)).symm
    (.inl without_free.2) hnames h (.inl rfl)

theorem jump_of_without {links : Nat} {at' there : Location} {target : Path}
    (h : (w.without parent a b).jump links at' target [] = .ok (.present there node)) :
    w.jump links at' target [] = .ok (.present there node) :=
  jump_fill (agreeOff_drop w (parent.child a)).symm (by simp [nodes_drop])
    (jump_fill (agreeOff_drop (w.drop (parent.child a)) (parent.child b)).symm without_free.2 h)

/-- What leads to no directory leads to none under another name either. -/
theorem deadEnd_put_without {name : RawText} (hslash : Path.slash ∉ name)
    (hnode : w.nodes[parent.child a]? = some node) (hdead : w.DeadEnd parent a) :
    ((w.without parent a b).put (parent.child name) node).DeadEnd parent name := by
  have hput : ((w.without parent a b).put (parent.child name) node).nodes[parent.child name]?
      = some node := by
    simp [nodes_put]
  rcases hdead with (hnone | ⟨old, hfile⟩) | ⟨target, hlink, nowhere⟩
  · rw [hnone] at hnode
    cases hnode
  · obtain rfl := Option.some.inj (hfile.symm.trans hnode)
    exact .inert (.inr ⟨old, hput⟩)
  · obtain rfl := Option.some.inj (hlink.symm.trans hnode)
    refine .link target hput fun links there hjump => nowhere links there ?_
    have hwithout : (w.without parent a b).jump links parent target []
        = .ok (.present there .directory) :=
      jump_beside (agreeOff_put _ _ _).symm hslash hput hjump
    exact jump_of_without hwithout

/-- What is moved within a directory can be read under its new name exactly if it could be read under
the old one without what lay at the new one. -/
theorem read_of_rename (h : Siblings p q front front' a b) (hp : w.NamesPlace p parent a)
    (hq : w.NamesPlace q parent b) (hne : a ≠ b) (hnode : w.nodes[parent.child a]? = some node)
    (hdir : node ≠ .directory) (hdead : w.DeadEnd parent a) :
    ((w.drop (parent.child a)).put (parent.child b) node).read q = .ok content ↔
      (w.drop (parent.child b)).read p = .ok content := by
  have hslash := h.first.slash_not_mem
  have hslash' := h.second.slash_not_mem
  have hapart : parent.child b ≠ parent.child a := fun heq =>
    hne (Location.child_inj hslash' hslash heq).2.symm
  have hmoved : (w.drop (parent.child a)).put (parent.child b) node
      = (w.without parent a b).put (parent.child b) node := by
    refine ext_nodes rfl fun x => ?_
    by_cases hb : x = parent.child b <;> simp [without, nodes_put, nodes_drop, hb]
  have hbefore : w.drop (parent.child b) = (w.without parent a b).put (parent.child a) node := by
    refine ext_nodes rfl fun x => ?_
    by_cases ha : x = parent.child a
    · simp [nodes_put, nodes_drop, ha, hapart.symm, hnode]
    · simp [without, nodes_put, nodes_drop, ha]
  have hhome : ∀ {r : Path} {names : List RawText} {name : RawText}, r.EndsIn names name →
      w.NamesPlace r parent name → ∀ there,
      (w.without parent a b).follow r names = .ok (.present there .directory) → there = parent := by
    intro r names name hends hplace there hfollow
    have hsame := (follow_of_without hends.slash_not_mem_front hfollow).symm.trans
      (hplace.follow_front hends)
    exact (Found.present.inj (Except.ok.inj hsame)).1
  rw [hmoved, hbefore]
  constructor
  · exact read_put_beside h.symm without_free.2 without_free.1 hne.symm hdir hp.fit hp.short
      (deadEnd_put_without hslash' hnode hdead) (hhome h.second hq)
  · exact read_put_beside h without_free.1 without_free.2 hne hdir hq.fit hq.short
      (deadEnd_put_without hslash hnode hdead) (hhome h.first hp)

end Rename

end ForeignModule.Disk
