import ForeignModule.Proofs.Cache.Mapping
import ForeignModule.Proofs.Files.Ground

/-!
# The cache on ground that is divided up

`Ground.Keeps` says that the files of a cache lie at the places that are kept for it, and that they can be
replaced on all disks that the modules can make. Then replacing them makes directories at first, and changes
nothing but kept places behind that (`Keeps.persist_split`).
-/

namespace ForeignModule

open Disk Routine Entries

namespace Ground

variable {G : Ground} {places : Location → Prop} {d e f : Disk} {path : Path} {number : Nat}
  {x : Location}

/-- The files of the cache lie at the places that are kept for it, and replacing them succeeds. -/
structure Keeps (G : Ground) (path : Path) (number : Nat) : Prop where
  makes : ∀ dir, path.directory? = some dir → ∀ q ∈ dir :: dir.parents, G.Makes q
  find : ∀ e, G.Allows e → ∀ r, e.find (temporaryPath path number) = .ok r →
    (∃ at', r = .present at' .directory) ∨ G.kept r.place
  spot : ∀ e, G.Allows e → ∀ s,
    e.spot path = .ok (some s) ∨ e.spot (temporaryPath path number) = .ok (some s) →
      G.kept s.location
  succeeds : ∀ e, G.Allows e → ∀ m, ((persist m path number).run.run e).1 = .ok ()

/-- Nothing has changed but at kept places. -/
structure Kept (G : Ground) (d e : Disk) : Prop where
  after : G.Allows e
  others : ∀ x, ¬G.kept x → e.nodes[x]? = d.nodes[x]?

/-- The directory of a path is there. -/
def There (d : Disk) (path : Path) : Prop :=
  ∀ dir, path.directory? = some dir → ∃ at', d.find dir = .ok (.present at' .directory)

theorem There.changes (h : There d path) (hchanges : G.Changes places d e) : There e path := by
  intro dir hdir
  obtain ⟨at', hfind⟩ := h dir hdir
  exact ⟨at', hchanges.find_directory hfind⟩

namespace Kept

theorem refl (h : G.Allows d) : G.Kept d d := ⟨h, fun _ _ => rfl⟩

theorem changes (h : G.Kept d e) (hd : G.Allows d) : G.Changes G.kept d e where
  before := hd
  after := h.after
  directories x hmade hdir := by
    rw [h.others x fun hkept => G.kept_not_made x hkept hmade]
    exact hdir
  others x _ hkept := h.others x hkept

theorem put (h : G.Kept d e) (hx : G.kept x) (content : List UInt8) :
    G.Kept d (e.put x (.file content)) where
  after := h.after.put_file (.inl hx) content
  others y hy := by
    have hne : y ≠ x := by
      rintro rfl
      exact hy hx
    rw [nodes_put, if_neg hne]
    exact h.others y hy

theorem drop (h : G.Kept d e) (hx : G.kept x) : G.Kept d (e.drop x) where
  after := h.after.drop (.inl hx)
  others y hy := by
    have hne : y ≠ x := by
      rintro rfl
      exact hy hx
    rw [nodes_drop, if_neg hne]
    exact h.others y hy

end Kept

namespace Keeps

variable (hkeeps : G.Keeps path number)

include hkeeps

/-- Where its directory is there, replacing the file of the cache changes kept places only. -/
theorem stages_kept (hd : G.Allows d) (hthere : There d path) :
    Stages path number (G.Kept d) (fun _ => G.Kept d) (fun _ => G.Kept d) where
  directory e dir he hdir := by
    obtain ⟨at', hfind⟩ := hthere dir hdir
    rw [makeDirectories_of_directory ((he.changes hd).find_directory hfind)]
    exact he
  write e f content he hwrite := by
    obtain ⟨r, hfind, hdir, rfl⟩ := exists_place_of_write hwrite
    rcases hkeeps.find e he.after r hfind with ⟨at', rfl⟩ | hkept
    · exact absurd rfl (hdir at')
    · exact he.put hkept content
  unwritten _ _ he := he
  remove e f content he hremove := by
    obtain ⟨s, hspot, rfl⟩ := exists_spot_of_removeFile hremove
    exact he.drop (hkeeps.spot e he.after s (.inr hspot))
  rename e f content he hrename := by
    obtain ⟨s, t, node, hspot, hspot', hnode, rfl⟩ := exists_spots_of_rename hrename
    have hsource := hkeeps.spot e he.after s (.inr hspot)
    have htarget := hkeeps.spot e he.after t (.inl hspot')
    rcases he.after.files _ (.inl hsource) with hnone | ⟨bytes, hfile⟩
    · rw [hnode] at hnone
      cases hnone
    · obtain rfl := Option.some.inj (hnode.symm.trans hfile)
      exact (he.drop hsource).put htarget bytes

theorem persist_kept (hd : G.Allows d) (hthere : There d path) (m : Entries) :
    G.Kept d ((persist m path number).run.run d).2 := by
  have hleaves := (hkeeps.stages_kept hd hthere).persist_leaves m {} d (.refl hd)
  generalize (persist m path number).run.run d = outcome at hleaves ⊢
  obtain ⟨_ | _, e⟩ := outcome <;> exact hleaves

/-- First of all the directory of the cache is made. -/
theorem exists_prepared (hd : G.Allows d) (m : Entries) :
    ∃ e, (∀ dir, path.directory? = some dir → d.makeDirectories dir = (.ok (), e)) ∧
      (path.directory? = none → e = d) ∧
      (persist m path number).run.run d = (persist m path number).run.run e := by
  have hsucceeds := hkeeps.succeeds d hd m
  unfold persist at hsucceeds ⊢
  cases hdirectory : path.directory? with
  | none => exact ⟨d, nofun, fun _ => rfl, rfl⟩
  | some dir =>
    have hrun : ∀ e : Disk, (Entries.makeDirectory path none).run.run e
        = ((e.makeDirectories dir).1.mapError (CacheError.disk dir), (e.makeDirectories dir).2) := by
      intro e
      simp only [Entries.makeDirectory, hdirectory, ExceptT.run_mk, run_act]
      rfl
    cases hmade : d.makeDirectories dir with
    | mk result e =>
      cases result with
      | error fault =>
        rw [run_bind_error (by rw [hrun, hmade]; rfl)] at hsucceeds
        cases hsucceeds
      | ok _ =>
        refine ⟨e, fun _ heq => ?_, nofun, ?_⟩
        · obtain rfl := Option.some.inj heq
          exact hmade
        · obtain ⟨at', hfind⟩ := find_of_makeDirectories hdirectory hmade
          have hfirst : (Entries.makeDirectory path none).run.run d = (.ok (), e) := by
            rw [hrun, hmade]
            rfl
          have hagain : (Entries.makeDirectory path none).run.run e = (.ok (), e) := by
            rw [hrun, makeDirectories_of_directory hfind]
            rfl
          rw [run_bind_ok hfirst, run_bind_ok hagain]

/-- Replacing the file of the cache makes directories, and changes kept places behind that. -/
theorem persist_split (places : Location → Prop) (hd : G.Allows d) (m : Entries) :
    ∃ e, (∀ dir, path.directory? = some dir → d.makeDirectories dir = (.ok (), e)) ∧
      (path.directory? = none → e = d) ∧ G.Changes places d e ∧
      G.Kept e ((persist m path number).run.run d).2 := by
  obtain ⟨e, hmade, hnone, hrun⟩ := hkeeps.exists_prepared hd m
  have hchanges : G.Changes places d e := by
    cases hdirectory : path.directory? with
    | none =>
      rw [hnone hdirectory]
      exact .refl hd
    | some dir =>
      have hfirst : G.Changes places d (d.makeDirectories dir).2 :=
        makeFirst_changes places (hkeeps.makes dir hdirectory) hd
      rwa [hmade dir hdirectory] at hfirst
  have hthere : There e path := fun dir hdirectory =>
    find_of_makeDirectories hdirectory (hmade dir hdirectory)
  rw [hrun]
  exact ⟨e, hmade, hnone, hchanges, hkeeps.persist_kept hchanges.after hthere m⟩

theorem persist_changes (hd : G.Allows d) (m : Entries) :
    G.Changes G.kept d ((persist m path number).run.run d).2 := by
  obtain ⟨e, -, -, hchanges, hkept⟩ := hkeeps.persist_split G.kept hd m
  exact hchanges.trans (hkept.changes hchanges.after)

/-- If the file is replaced on two disks, the same directories are made. -/
theorem persist_both (h : G.Changes places d e) (hplaces : ∀ x, G.kept x → places x)
    (m m' : Entries) :
    G.Changes places ((persist m path number).run.run d).2
      ((persist m' path number).run.run e).2 := by
  obtain ⟨d', hmade, hnone, -, hkept⟩ := hkeeps.persist_split places h.before m
  obtain ⟨e', hmade', hnone', -, hkept'⟩ := hkeeps.persist_split places h.after m'
  have hbetween : G.Changes places d' e' := by
    cases hdirectory : path.directory? with
    | none =>
      rw [hnone hdirectory, hnone' hdirectory]
      exact h
    | some dir =>
      obtain ⟨e'', hmade'', hchanges⟩ := h.makeFirst (Path.upwards_parents hdirectory)
        (hkeeps.makes dir hdirectory) (hmade dir hdirectory)
      obtain rfl := (Prod.ext_iff.1 (hmade''.symm.trans (hmade' dir hdirectory))).2
      exact hchanges
  refine ⟨hkept.after, hkept'.after, fun x hx hdir => ?_, fun x hx hplace => ?_⟩
  · have hnot : ¬G.kept x := fun h => G.kept_not_made x h hx
    rw [hkept.others x hnot] at hdir
    rw [hkept'.others x hnot]
    exact hbetween.directories x hx hdir
  · have hnot : ¬G.kept x := fun h => hplace (hplaces x h)
    rw [hkept.others x hnot, hkept'.others x hnot]
    exact hbetween.others x hx hplace

end Keeps

/-- A cache whose directory is there, and at whose places there are no links. -/
theorem keeps_of_namesPlace {parent : Location} {name : RawText}
    (hplace : G.disk.NamesPlace path parent name)
    (htemporary : G.disk.NamesPlace (temporaryPath path number) parent (temporaryName name number))
    (hkept : G.kept (parent.child name)) (hkept' : G.kept (parent.child (temporaryName name number)))
    (hmakes : ∀ dir, path.directory? = some dir → ∀ q ∈ dir :: dir.parents, G.Makes q) :
    G.Keeps path number where
  makes := hmakes
  find e he r hfind :=
    .inr (place_of_find (he.changes.namesPlace htemporary) (he.files _ (.inl hkept')) hfind ▸ hkept')
  spot e he s hspot := by
    rw [(he.changes.namesPlace hplace).spot, (he.changes.namesPlace htemporary).spot] at hspot
    rcases hspot with h | h
    · obtain rfl := Option.some.inj (Except.ok.inj h)
      exact hkept
    · obtain rfl := Option.some.inj (Except.ok.inj h)
      exact hkept'
  succeeds e he m := by
    have hready : Ready path number e := ⟨parent, name, he.changes.namesPlace hplace,
      he.changes.namesPlace htemporary, he.files _ (.inl hkept), he.files _ (.inl hkept')⟩
    have hleaves := persist_ready m e hready
    generalize (persist m path number).run.run e = outcome at hleaves ⊢
    obtain ⟨_ | _, f⟩ := outcome
    · exact hleaves.elim
    · rfl

end Ground

end ForeignModule
