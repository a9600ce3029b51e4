import ForeignModule.Proofs.Build.Compiler
import ForeignModule.Proofs.Loading.Undisturbed

/-!
# Modules that have ground of their own

What `Ground.Houses` asks for holds of outputs in a directory that is made where one is there already
(`leads_of_owned`), and of a compiler that reads its source and writes one file (`confines_compiler`).
-/

namespace ForeignModule

open Disk Routine

namespace Ground

variable {G : Ground} {s path dir : Path} {o : Outputs} {d e : Disk} {x parent : Location}
  {name : RawText} {front : List RawText}

/-! ## Files in a directory -/

/-- Where the path leads to a directory, it is the one at this place. -/
def LiesAt (G : Ground) (dir : Path) (x : Location) : Prop :=
  ∀ e, G.Allows e → ∀ at', e.find dir = .ok (.present at' .directory) → at' = x

/-- A directory that is made lies where its path says. -/
theorem find_made (hplace : d.NamesPlace dir parent name) (h : G.Allows d)
    (hmade : G.made (parent.child name)) :
    d.find dir = .ok (.absent parent name false) ∨
      d.nodes[parent.child name]? = some .directory ∧
        d.find dir = .ok (.present (parent.child name) .directory) := by
  obtain ⟨left, hfind⟩ := hplace.find
  rcases h.made _ hmade with hnone | hdir
  · exact .inl (hplace.find_of_none hnone)
  · rw [hdir] at hfind
    exact .inr ⟨hdir, hfind⟩

theorem liesAt_of_namesPlace (hplace : G.disk.NamesPlace dir parent name)
    (hmade : G.made (parent.child name)) : G.LiesAt dir (parent.child name) := by
  intro e he at' hfind
  rcases find_made (he.changes.namesPlace hplace) he hmade with habsent | ⟨-, hpresent⟩
  · rw [habsent] at hfind
    cases hfind
  · rw [hpresent] at hfind
    injection hfind with hfind
    injection hfind with hat _
    exact hat.symm

/-- What one path to a place for a directory leads to, another one does too. -/
theorem find_made_again {dir' : Path} {at' : Location} (hplace : d.NamesPlace dir parent name)
    (hplace' : d.NamesPlace dir' parent name) (h : G.Allows d) (hmade : G.made (parent.child name))
    (hfind : d.find dir = .ok (.present at' .directory)) :
    d.find dir' = .ok (.present (parent.child name) .directory) := by
  rcases find_made hplace h hmade with habsent | ⟨hnode, -⟩
  · rw [habsent] at hfind
    cases hfind
  · rcases find_made hplace' h hmade with habsent | ⟨-, hpresent⟩
    · obtain ⟨left, hfound⟩ := hplace'.find
      rw [hnode, habsent] at hfound
      cases hfound
    · exact hpresent

/-- A path names a place in the directory that it names. -/
theorem namesPlace_of_directory (hends : path.EndsIn front name) (hdir : path.directory? = some dir)
    (hfit : unfit? path = none) (hshort : name.length ≤ nameLimit)
    (h : d.find dir = .ok (.present x .directory)) : d.NamesPlace path x name := by
  have hof := Path.isDirectoryOf hends hdir
  refine ⟨hfit, hshort, front, hends, ?_⟩
  rw [find_of_fit (fit_of_find h)] at h
  rw [← follow_kept, ← follow_congr hof.isAbsolute_eq]
  rcases hof.names with hnames | ⟨hkept, hnames⟩
  · rw [← hnames]
    exact h
  · rw [hnames] at h
    rw [hkept]
    exact (follow_kept d dir [[], []] x).2 h

section

variable (hends : path.EndsIn front name) (hdir : path.directory? = some dir)
  (hfit : unfit? path = none) (hshort : name.length ≤ nameLimit) (hlies : G.LiesAt dir x)
  (howns : G.owns s (x.child name))

include hends hdir hfit hshort hlies

theorem namesPlace_of_there (h : G.Allows d) (hthere : There d path) : d.NamesPlace path x name := by
  obtain ⟨at', hfind⟩ := hthere dir hdir
  obtain rfl := hlies d h at' hfind
  exact namesPlace_of_directory hends hdir hfit hshort hfind

include howns

/-- A path to a place of the module, in a directory that is there when the outputs are prepared. -/
theorem leads_of_owned (hthere : ∀ d, Prepared o d → There d path) : G.Leads s o path := by
  intro d h hprepared
  have hplace := namesPlace_of_there hends hdir hfit hshort hlies h (hthere d hprepared)
  rcases h.files _ (.inr ⟨s, howns⟩) with hnone | ⟨content, hfile⟩
  · exact .inl ⟨_, trace_of_find (hplace.find_of_none hnone), .inr howns⟩
  · exact .inl ⟨_, trace_of_find (hplace.find_of_file hfile), .inr howns⟩

/-- The place that a path leads to is found from the root, if its directory is. -/
theorem trace_from_root (h : G.Allows e) (hthere : There e path)
    (hroot : e.NamesPlace (x.child name).path x name) (at' : Location) (node : Node)
    (htrace : e.trace path = .ok (.present at' node)) :
    e.trace at'.path = .ok (.present at' node) := by
  have hplace := namesPlace_of_there hends hdir hfit hshort hlies h hthere
  rcases h.files _ (.inr ⟨s, howns⟩) with hnone | ⟨content, hfile⟩
  · have habsent := trace_of_find (hplace.find_of_none hnone)
    rw [htrace] at habsent
    cases habsent
  · have hpresent := trace_of_find (hplace.find_of_file hfile)
    rw [htrace] at hpresent
    injection hpresent with hpresent
    injection hpresent with hat hnode
    subst hat hnode
    exact trace_of_find (hroot.find_of_file hfile)

end

/-! ## A compiler that writes one file -/

theorem confines_attempt {ε : Type} {f : Disk → Except ε Disk} (h : G.WritesOwn s (Prepared o) f) :
    G.Confines s o (attempt f) := by
  refine ⟨fun d hd hprepared => ?_, fun d e hchanges hprepared => ?_, fun _ => trivial⟩
  · rcases h d d (.refl hd) hprepared with ⟨error, hfails, -⟩ | ⟨y, content, howns, hwrites, -⟩
    · simp only [hfails]
      exact .refl hd
    · simp only [hwrites]
      exact .put_file hd (.inr ⟨s, howns⟩) howns content
  · rcases h d e hchanges hprepared with ⟨error, hd, he⟩ | ⟨y, content, howns, hd, he⟩
    · simp only [hd, he]
      exact ⟨trivial, hchanges⟩
    · simp only [hd, he]
      exact ⟨trivial, hchanges.put_both (.inr ⟨s, howns⟩) content⟩

/-- A compiler that reads a source and writes one output keeps to the ground of the module. -/
theorem confines_compiler {compile : List UInt8 → List UInt8} {i : Invocation} {source out : Path}
    (hread : ∀ e, G.Allows e → e.read source = G.disk.read source) (hleads : G.Leads s o out)
    (harguments : [source, ("-o" : RawText), out] <:+ i.arguments) (ran : List Invocation) :
    G.Confines s o (Toolchain.compiler compile ran i) := by
  obtain ⟨before, harguments⟩ := harguments
  have hreverse : i.arguments.reverse = out :: ("-o" : RawText) :: source :: before.reverse := by
    simp [← harguments]
  simp only [Toolchain.compiler, hreverse]
  apply confines_attempt
  intro d e hchanges hprepared
  dsimp only
  rw [hread d hchanges.before, hread e hchanges.after]
  cases G.disk.read source with
  | error fault => exact .inl ⟨_, rfl, rfl⟩
  | ok content => exact (hleads.writesOwn (compile content)).mapError _ d e hchanges hprepared

end Ground

end ForeignModule
