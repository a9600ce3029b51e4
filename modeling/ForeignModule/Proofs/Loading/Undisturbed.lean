import ForeignModule.Loading.Loader
import ForeignModule.Proofs.Cache.Views

/-!
# A module that is loaded among others

`Ground.Houses` says what the module of a source needs of the ground: its source and its signatures lead to
the same whatever is written, the directories of its outputs can be made, its outputs lead to its own
places, and its tools keep to these. Then loading it is not disturbed by modules that keep to theirs
(`Houses.load_undisturbed`), part for part.
-/

namespace ForeignModule

open Disk Routine

/-- The outputs of a source with these settings. -/
def Loader.outputs (l : Loader) (source : Path) (settings : ModuleSettings) : Outputs :=
  Outputs.of l.builder.directory source settings

namespace Ground

variable {G : Ground} {w₀ w w' : Workspace} {s : Path} {d e : Disk} {places : Location → Prop}
  {l : Loader}

/-! ## What a module needs -/

/-- Both directories of the outputs are there. -/
def Prepared (o : Outputs) (d : Disk) : Prop := There d o.primary ∧ There d o.artifact

/-- The directory of a path is made at places for directories. It can be made on the disk at first, or
fails in one way whatever is written. -/
structure Prepares (G : Ground) (path : Path) : Prop where
  makes : ∀ dir, path.directory? = some dir → ∀ q ∈ dir :: dir.parents, G.Makes q
  outcome : ∀ dir, path.directory? = some dir →
    (G.disk.makeDirectories dir).1 = .ok () ∨
      ∃ fault, ∀ e, G.Allows e → (e.makeDirectories dir).1 = .error fault

/-- Where its directories are there, a path leads to a directory or to a place that the module owns, or
fails in one way whatever is written. -/
def Leads (G : Ground) (s : Path) (o : Outputs) (path : Path) : Prop :=
  ∀ d, G.Allows d → Prepared o d →
    (∃ r, d.trace path = .ok r ∧ ((∃ at', r = .present at' .directory) ∨ G.owns s r.place)) ∨
      ∃ fault, ∀ e, G.Allows e → Prepared o e → e.trace path = .error fault

/-- What is run writes to places that the module owns and makes directories, and behaves in the same way
if something is different elsewhere. -/
def Confines (G : Ground) (s : Path) (o : Outputs) {α : Type} : Routine Disk α → Prop
  | .done _ => True
  | .step update next =>
    (∀ d, G.Allows d → Prepared o d → G.Changes (G.owns s) d (update d)) ∧
    (∀ d e, G.Changes (fun x => ¬G.owns s x) d e → Prepared o d →
      next e = next d ∧ G.Changes (fun x => ¬G.owns s x) (update d) (update e)) ∧
    ∀ d, G.Confines s o (next d)

/-- What the module of a source needs, if these are its backend, its name and its settings. -/
structure Houses (G : Ground) (l : Loader) (s : Path) (b : Backend) (module : String)
    (settings : ModuleSettings) : Prop where
  signatures : ∀ e, G.Allows e →
    e.read (settings.signatureSource s) = G.disk.read (settings.signatureSource s)
  primary : G.Prepares (l.outputs s settings).primary
  artifact : G.Prepares (l.outputs s settings).artifact
  leads : G.Leads s (l.outputs s settings) (l.outputs s settings).artifact
  stub : G.Leads s (l.outputs s settings)
    (Declaration.path (l.outputs s settings).artifact module)
  /-- What the artifact leads to is found by its path from the root too. -/
  canonical : ∀ e, G.Allows e → Prepared (l.outputs s settings) e → ∀ at' node,
    e.trace (l.outputs s settings).artifact = .ok (.present at' node) →
      e.trace at'.path = .ok (.present at' node)
  tools : ∀ signatures, Signature.ofFile b (settings.signatureSource s) G.disk = .ok signatures →
    ∀ i ∈ (Plan.of l.builder.directory s settings signatures).steps, ∀ ran,
      l.builder.toolchain ran i = l.builder.toolchain [] i ∧
        G.Confines s (l.outputs s settings) (l.builder.toolchain ran i)

/-! ## Directories and paths -/

section

variable {o : Outputs} {path : Path}

theorem lasting_prepared (o : Outputs) : G.Lasting (Prepared o) :=
  fun _ _ _ hchanges h => ⟨h.1.changes hchanges, h.2.changes hchanges⟩

/-- An output leads to the same place on both disks. -/
theorem Leads.trace_eq (hleads : G.Leads s o path) (h : G.Changes (fun x => ¬G.owns s x) d e)
    (hprepared : Prepared o d) : e.trace path = d.trace path := by
  rcases hleads d h.before hprepared with ⟨r, hr, hplace⟩ | ⟨fault, hfault⟩
  · rw [hr]
    refine h.trace hr (hplace.imp_right fun howns => ⟨not_not_intro howns, ?_⟩)
    exact G.owns_not_made s _ howns
  · rw [hfault d h.before hprepared, hfault e h.after (lasting_prepared o _ _ _ h hprepared)]

theorem trace_of_find {r : Found} (h : d.find path = .ok r) : d.trace path = .ok r := by
  unfold Disk.find at h
  split at h
  · cases h
  · exact h

theorem find_of_trace_eq (h : e.trace path = d.trace path) : e.find path = d.find path := by
  unfold Disk.find
  rw [h]

end

/-! ## The parts of a build -/

theorem onDisk_act {α : Type} (f : Disk → α × Disk) :
    Workspace.onDisk (act f) = act fun w => ((f w.disk).1, { w with disk := (f w.disk).2 }) := rfl

/-- The entry of the module is the same in the end. -/
def SameEntry (G : Ground) (w₀ : Workspace) (s : Path) (w w' : Workspace) : Prop :=
  G.Sound w₀ w' ∧ w'.mapping[w₀.disk.key s]? = w.mapping[w₀.disk.key s]?

theorem stable_sameEntry (w : Workspace) : Stable (G.View w₀ s) (G.SameEntry w₀ s w) :=
  fun _ _ h hview => ⟨hview.after, hview.entry.trans h.2⟩

theorem View.sameEntry (h : G.View w₀ s w w') : G.SameEntry w₀ s w w' := ⟨h.after, h.entry⟩

section

variable {path : Path} {p : Disk → Prop}

/-- What is asked of the disk is the same on both. -/
theorem seen_look {α : Type} {f : Disk → α}
    (hsame : ∀ d e, G.Changes (fun x => ¬G.owns s x) d e → p d → f e = f d) :
    Undisturbed (G.View w₀ s) (G.Move w₀ s) (G.Seen w₀ s p) (Builder.look f).run
      (EndBoth (fun _ => G.Seen w₀ s p) (G.SameEntry w₀ s)) := by
  refine .lift (.ask stable_seen (fun _ => stable_seen) fun w w' h => ?_) fun _ => stable_seen
  exact ⟨.refl h.1.after, (hsame _ _ h.1.disk h.2.2).symm, h⟩

/-- The directory of an output is made, or cannot be made, alone or among others. -/
theorem Prepares.ensureParent_undisturbed (hprepares : G.Prepares path) (hlasting : G.Lasting p) :
    Undisturbed (G.View w₀ s) (G.Move w₀ s) (G.Seen w₀ s p) (Builder.ensureParent path).run
      (EndBoth (fun _ => G.Seen w₀ s fun d => p d ∧ There d path) (G.SameEntry w₀ s)) := by
  unfold Builder.ensureParent
  cases hdirectory : path.directory? with
  | none =>
    refine .pure (EndBoth.stable (fun _ => stable_seen) stable_sameEntry _) fun w w' h =>
      ⟨h.1, h.2.1, h.2.2, fun dir hdir => ?_⟩
    rw [hdirectory] at hdir
    cases hdir
  | some dir =>
    have hmakes := hprepares.makes dir hdirectory
    show Undisturbed _ _ _ (act fun w : Workspace =>
      ((w.disk.makeDirectories dir).1.mapError (BuildError.disk dir),
        { w with disk := (w.disk.makeDirectories dir).2 })) _
    refine .act stable_seen (EndBoth.stable (fun _ => stable_seen) stable_sameEntry) ?_
    rintro w w' ⟨h, hasked, hp⟩
    have hchanges := makeFirst_changes (fun x => G.owns s x ∨ G.kept x) hmakes
      h.before.allows
    have hchanges' := makeFirst_changes (fun x => G.owns s x ∨ G.kept x) hmakes
      h.after.allows
    have hmove := Move.on_disk h.after (h.asked hasked) hchanges'
    rcases hprepares.outcome dir hdirectory with hfirst | ⟨fault, hfault⟩
    · -- It can be made at first, so it can be made now, and also where others have made more.
      obtain ⟨d, hd, -⟩ := h.before.allows.changes.makeFirst
        (Path.upwards_parents hdirectory) hmakes (Prod.ext hfirst rfl)
      obtain ⟨e, he, hboth⟩ := h.disk.makeFirst (Path.upwards_parents hdirectory) hmakes hd
      have hd' : w.disk.makeDirectories dir = (.ok (), d) := hd
      have he' : w'.disk.makeDirectories dir = (.ok (), e) := he
      rw [hd] at hchanges
      rw [he] at hchanges' hmove
      simp only [he', hd']
      refine ⟨hmove, trivial, h.on_disk hasked hchanges hchanges' hboth, hasked, ?_, fun dir' hdir' => ?_⟩
      · exact hlasting _ _ _ hchanges hp
      · obtain rfl := Option.some.inj (hdirectory.symm.trans hdir')
        exact find_of_makeDirectories hdirectory hd'
    · have hsame : ∀ u : Workspace, G.Sound w₀ u →
          (u.disk.makeDirectories dir).1 = .error fault := fun u hu => hfault _ hu.allows
      refine ⟨hmove, ?_, ?_⟩
      · show Except.mapError _ _ = Except.mapError _ _
        rw [hsame w h.before, hsame w' h.after]
      · show EndBoth _ _ (Except.mapError _ (w'.disk.makeDirectories dir).1) _ _
        rw [hsame w' h.after]
        refine ⟨hmove.after, ?_⟩
        rw [mapping_disk hasked, mapping_disk (h.asked hasked)]
        exact h.entry

end

/-! ## Tools -/

theorem Sound.ran (h : G.Sound w₀ w) (ran : List Invocation) : G.Sound w₀ { w with ran } :=
  ⟨h.path_eq, h.number_eq, h.allows, h.unread, h.asked⟩

section

variable {o : Outputs} {b : Builder}

/-- What keeps to the places of the module is not disturbed by those who keep to theirs. -/
theorem onDisk_undisturbed {α : Type} {r : Routine Disk α} (hconfines : G.Confines s o r) :
    Undisturbed (G.View w₀ s) (G.Move w₀ s) (G.Seen w₀ s (Prepared o)) (Workspace.onDisk r)
      fun _ => G.Seen w₀ s (Prepared o) := by
  induction r with
  | done a => exact .pure stable_seen fun _ _ h => h
  | step update next ih =>
    obtain ⟨hwrites, hsame, hrest⟩ := hconfines
    refine .step stable_seen ?_
    rintro w w' ⟨h, hasked, hprepared⟩
    have hprepared' := lasting_prepared o _ _ _ h.disk hprepared
    obtain ⟨hnext, hboth⟩ := hsame _ _ h.disk hprepared
    have hw := hwrites _ h.before.allows hprepared
    have hw' := hwrites _ h.after.allows hprepared'
    refine ⟨.on_disk h.after (h.asked hasked) (hw'.imp fun _ _ hx => .inl hx), ?_,
      G.Seen w₀ s (Prepared o), ?_, ih _ (hrest _)⟩
    · show Routine.within _ _ _ = Routine.within _ _ _
      rw [hnext]
    · exact ⟨h.on_disk hasked hw hw' hboth, hasked, lasting_prepared o _ _ _ hw hprepared⟩

theorem runTool_undisturbed {i : Invocation}
    (htool : ∀ ran, b.toolchain ran i = b.toolchain [] i ∧ G.Confines s o (b.toolchain ran i)) :
    Undisturbed (G.View w₀ s) (G.Move w₀ s) (G.Seen w₀ s (Prepared o)) (b.runTool i).run
      (EndBoth (fun _ => G.Seen w₀ s (Prepared o)) (G.SameEntry w₀ s)) := by
  -- The tool does not look at what has been run before, so nor does the routine.
  have hrun : (b.runTool i).run = (ask fun _ => ()) >>= fun _ =>
      change (fun w => { w with ran := w.ran ++ [i] }) >>= fun _ =>
        Workspace.onDisk (b.toolchain [] i) := by
    show (ask (·.ran) >>= fun ran => _ >>= fun _ => Workspace.onDisk (b.toolchain ran i)) = _
    simp only [fun ran => (htool ran).1]
    rfl
  have hask : Undisturbed (G.View w₀ s) (G.Move w₀ s) (G.Seen w₀ s (Prepared o))
      (ask fun _ => ()) fun _ => G.Seen w₀ s (Prepared o) :=
    .ask stable_seen (fun _ => stable_seen) fun w w' h => ⟨.refl h.1.after, rfl, h⟩
  have hchange : Undisturbed (G.View w₀ s) (G.Move w₀ s) (G.Seen w₀ s (Prepared o))
      (change fun w => { w with ran := w.ran ++ [i] }) fun _ => G.Seen w₀ s (Prepared o) := by
    show Undisturbed _ _ _ (act fun w : Workspace => ((), { w with ran := w.ran ++ [i] })) _
    refine .act stable_seen (fun _ => stable_seen) fun w w' h => ?_
    have hafter := h.1.after.ran (w'.ran ++ [i])
    exact ⟨⟨h.1.after, hafter, .refl hafter.allows, fun _ _ => rfl, id⟩, rfl,
      ⟨h.1.before.ran _, hafter, h.1.disk, h.1.entry, h.1.asked⟩, h.2⟩
  rw [hrun]
  refine hask.bind fun _ => hchange.bind fun _ =>
    (onDisk_undisturbed (htool []).2).imp (fun _ _ h => h) fun result w w' h => ?_
  cases result with
  | ok _ => exact h
  | error e => exact h.1.sameEntry

theorem runTools_undisturbed {steps : List Invocation} (htools : ∀ i ∈ steps, ∀ ran,
      b.toolchain ran i = b.toolchain [] i ∧ G.Confines s o (b.toolchain ran i)) :
    Undisturbed (G.View w₀ s) (G.Move w₀ s) (G.Seen w₀ s (Prepared o)) (b.runTools steps).run
      (EndBoth (fun _ => G.Seen w₀ s (Prepared o)) (G.SameEntry w₀ s)) := by
  induction steps with
  | nil => exact .pure (EndBoth.stable (fun _ => stable_seen) stable_sameEntry _) fun _ _ h => h
  | cons i rest ih =>
    exact (runTool_undisturbed (htools i List.mem_cons_self)).bind_except fun _ =>
      ih fun i hi => htools i (List.mem_cons_of_mem _ hi)

end

/-! ## The whole -/

section

variable {b : Backend} {module : String} {settings : ModuleSettings}
  (hkeeps : G.Keeps w₀.cache.path w₀.cache.number) (hdisk : G.disk = w₀.disk) (hfix : G.Fixes s)
  (hhouses : G.Houses l s b module settings) (hcached : l.builder.cached = true)

include hhouses in
theorem exists_undisturbed :
    Undisturbed (G.View w₀ s) (G.Move w₀ s) (G.Seen w₀ s (Prepared (l.outputs s settings)))
      (Builder.look (·.exists? (l.outputs s settings).artifact)).run
      (EndBoth (fun _ => G.Seen w₀ s (Prepared (l.outputs s settings))) (G.SameEntry w₀ s)) := by
  refine seen_look fun d e hchanges hprepared => ?_
  unfold Disk.exists? Disk.stat?
  rw [find_of_trace_eq (hhouses.leads.trace_eq hchanges hprepared)]

include hkeeps hdisk hfix hhouses hcached

theorem rebuild_undisturbed {signatures : List Signature}
    (hsignatures : Signature.ofFile b (settings.signatureSource s) G.disk = .ok signatures) :
    Undisturbed (G.View w₀ s) (G.Move w₀ s) (G.Seen w₀ s (Prepared (l.outputs s settings)))
      (l.builder.rebuild s (Plan.of l.builder.directory s settings signatures)).run
      (EndBoth (fun artifact w w' => G.Seen w₀ s (Prepared (l.outputs s settings)) w w' ∧
        artifact = (l.outputs s settings).artifact) (G.SameEntry w₀ s)) := by
  have hrecord : Undisturbed (G.View w₀ s) (G.Move w₀ s)
      (G.Seen w₀ s (Prepared (l.outputs s settings))) (liftM (Cache.record s) : Builder.Build _).run
      (EndBoth (fun _ => G.Seen w₀ s (Prepared (l.outputs s settings))) (G.SameEntry w₀ s)) :=
    .lift (record_undisturbed hkeeps hdisk hfix (lasting_prepared _)) fun _ => stable_seen
  unfold Builder.rebuild
  refine (runTools_undisturbed (hhouses.tools signatures hsignatures)).bind_except fun _ =>
    (exists_undisturbed hhouses).bind_except fun there => ?_
  cases there with
  | false =>
    simp only [Bool.false_eq_true, if_false]
    exact .throw_bind (fun _ _ => stable_and (stable_seen _)) stable_sameEntry fun _ _ h =>
      h.1.sameEntry
  | true =>
    simp only [if_true, hcached]
    refine hrecord.bind_except fun _ => ?_
    exact .pure_except (fun _ _ => stable_and (stable_seen _)) stable_sameEntry fun _ _ h => ⟨h, rfl⟩

/-- The whole build. -/
theorem build_undisturbed {signatures : List Signature} (upToDate : Bool)
    (hsignatures : Signature.ofFile b (settings.signatureSource s) G.disk = .ok signatures) :
    Undisturbed (G.View w₀ s) (G.Move w₀ s)
      (fun w w' => G.View w₀ s w w' ∧ (w₀.disk.isFile s = true → w.cache.entries?.isSome))
      (l.builder.build ⟨s, settings, signatures, upToDate⟩).run
      (EndBoth (fun artifact w w' => G.Seen w₀ s (Prepared (l.outputs s settings)) w w' ∧
        artifact = (l.outputs s settings).artifact) (G.SameEntry w₀ s)) := by
  have hsource : Undisturbed (G.View w₀ s) (G.Move w₀ s)
      (fun w w' => G.View w₀ s w w' ∧ (w₀.disk.isFile s = true → w.cache.entries?.isSome))
      (Builder.look (·.isFile s)).run
      (EndBoth (fun there w w' => (G.View w₀ s w w' ∧
        (w₀.disk.isFile s = true → w.cache.entries?.isSome)) ∧ there = w₀.disk.isFile s)
        (G.SameEntry w₀ s)) :=
    .lift (look_undisturbed hdisk (f := (·.isFile s)) (fun _ _ h => h.1)
      (fun w => stable_and (stable_view w)) fun _ _ _ d hd => hfix.isFile_eq hd)
      fun _ _ => stable_and (stable_and (stable_view _))
  have hrebuild := rebuild_undisturbed hkeeps hdisk hfix hhouses hcached hsignatures
  unfold Builder.build
  refine hsource.bind_except fun there => ?_
  cases there with
  | false =>
    simp only [Bool.false_eq_true, if_false]
    exact .throw_bind (fun _ _ => stable_and (stable_seen _)) stable_sameEntry fun _ _ h =>
      h.1.1.sameEntry
  | true =>
    simp only [if_true]
    have hprimary : Undisturbed (G.View w₀ s) (G.Move w₀ s) _ _ _ :=
      hhouses.primary.ensureParent_undisturbed (p := fun _ => True) fun _ _ _ _ _ => trivial
    have hartifact : Undisturbed (G.View w₀ s) (G.Move w₀ s) _ _ _ :=
      hhouses.artifact.ensureParent_undisturbed
        (p := fun d => There d (l.outputs s settings).primary) fun _ _ _ hchanges h => h.changes hchanges
    refine (hprimary.imp (fun w w' h => ⟨h.1.1, h.1.2 h.2.symm, trivial⟩) fun _ _ _ h => h).bind_except
      fun _ => (hartifact.imp (fun w w' h => ⟨h.1, h.2.1, h.2.2.2⟩) fun _ _ _ h => h).bind_except
      fun _ => ?_
    cases upToDate with
    | false => exact hrebuild
    | true =>
      simp only [if_true]
      refine (exists_undisturbed hhouses).bind_except fun there => ?_
      cases there with
      | false => exact hrebuild
      | true =>
        simp only [if_true]
        exact .pure_except (fun _ _ => stable_and (stable_seen _)) stable_sameEntry fun _ _ h =>
          ⟨h, rfl⟩

end

/-! ## Binding and the declarations -/

/-- What is looked up in loading, and does not depend on what others write. -/
theorem seen_lookup {α : Type} {p : Disk → Prop} {f : Disk → Except LoadError α}
    (hsame : ∀ d e, G.Changes (fun x => ¬G.owns s x) d e → p d → f e = f d) :
    Undisturbed (G.View w₀ s) (G.Move w₀ s) (G.Seen w₀ s p) (Loader.look f).run
      (EndBoth (fun a => G.Seen w₀ s fun d => p d ∧ f d = .ok a) (G.SameEntry w₀ s)) := by
  refine .ask stable_seen (EndBoth.stable (fun _ => stable_seen) stable_sameEntry) fun w w' h => ?_
  have hf := hsame _ _ h.1.disk h.2.2
  refine ⟨.refl h.1.after, hf.symm, ?_⟩
  rw [hf]
  cases hresult : f w.disk with
  | error error => exact h.1.sameEntry
  | ok a => exact ⟨h.1, h.2.1, h.2.2, hresult⟩

/-- Errors that are told in other words are still errors. -/
theorem eq_ok_of_mapError {ε ε' α : Type} {x : Except ε α} {f : ε → ε'} {a : α}
    (h : x.mapError f = .ok a) : x = .ok a := by
  cases x with
  | error e => cases h
  | ok b => exact congrArg Except.ok (Except.ok.inj h)

theorem bind_module {b : Backend} {module : String} {loadable : Path} {signatures : List Signature}
    {strict : Bool} {library : Except Native.LibraryFault Native.Library} {m : Native.Binding}
    (h : Native.bind b module loadable signatures strict library = .ok m) : m.module = module := by
  unfold Native.bind at h
  dsimp only at h
  split at h
  · cases h
  · split at h
    · cases h
    · rename_i library
      cases hresolve : Native.resolve library (Signature.describe b signatures) with
      | error error =>
        rw [hresolve] at h
        cases h
      | ok functions =>
        rw [hresolve] at h
        obtain rfl := Except.ok.inj h
        rfl

/-- Alone and among others this fails in the same way, or writes the same file of the module. -/
def WritesOwn {ε : Type} (G : Ground) (s : Path) (p : Disk → Prop) (f : Disk → Except ε Disk) : Prop :=
  ∀ d e, G.Changes (fun x => ¬G.owns s x) d e → p d →
    (∃ error, f d = .error error ∧ f e = .error error) ∨ ∃ x content, G.owns s x ∧
      f d = .ok (d.put x (.file content)) ∧ f e = .ok (e.put x (.file content))

theorem WritesOwn.mapError {ε ε' : Type} {p : Disk → Prop} {f : Disk → Except ε Disk}
    (h : G.WritesOwn s p f) (g : ε → ε') : G.WritesOwn s p fun d => (f d).mapError g := by
  intro d e hchanges hp
  rcases h d e hchanges hp with ⟨error, hd, he⟩ | ⟨x, content, howns, hd, he⟩
  · exact .inl ⟨g error, congrArg (Except.mapError g) hd, congrArg (Except.mapError g) he⟩
  · exact .inr ⟨x, content, howns, congrArg (Except.mapError g) hd, congrArg (Except.mapError g) he⟩

theorem Leads.writesOwn {o : Outputs} {path : Path} (hleads : G.Leads s o path) (content : List UInt8) :
    G.WritesOwn s (Prepared o) (·.write path content) := by
  intro d e h hprepared
  have hfind := find_of_trace_eq (hleads.trace_eq h hprepared)
  simp only [Disk.write, hfind]
  cases hr : d.find path with
  | error fault => exact .inl ⟨fault, rfl, rfl⟩
  | ok r =>
    have hplace : (∃ at', r = .present at' .directory) ∨ G.owns s r.place := by
      rcases hleads d h.before hprepared with ⟨r', hr', hplace⟩ | ⟨fault, hfault⟩
      · obtain rfl := Except.ok.inj ((trace_of_find hr).symm.trans hr')
        exact hplace
      · have hfailed := (trace_of_find hr).symm.trans (hfault d h.before hprepared)
        cases hfailed
    cases r with
    | present at' node =>
      cases node with
      | file old =>
        rcases hplace with ⟨_, hdir⟩ | howns
        · cases hdir
        · exact .inr ⟨at', content, howns, rfl, rfl⟩
      | directory => exact .inl ⟨_, rfl, rfl⟩
      | link target => exact .inl ⟨_, rfl, rfl⟩
    | absent parent name slash =>
      cases slash with
      | true => exact .inl ⟨_, rfl, rfl⟩
      | false =>
        rcases hplace with ⟨_, hdir⟩ | howns
        · cases hdir
        · exact .inr ⟨parent.child name, content, howns, rfl, rfl⟩

theorem attempt_undisturbed {ε : Type} {p : Disk → Prop} {f : Disk → Except ε Disk}
    (h : G.WritesOwn s p f) :
    Undisturbed (G.View w₀ s) (G.Move w₀ s) (G.Seen w₀ s p) (Workspace.onDisk (attempt f))
      (EndBoth (fun _ => G.SameEntry w₀ s) (G.SameEntry w₀ s)) := by
  rw [attempt, onDisk_act]
  refine .act stable_seen (EndBoth.stable (fun _ => stable_sameEntry) stable_sameEntry) ?_
  rintro w w' ⟨hview, hasked, hp⟩
  rcases h _ _ hview.disk hp with ⟨error, hd, he⟩ | ⟨x, content, howns, hd, he⟩
  · simp only [hd, he]
    exact ⟨.refl hview.after, trivial, hview.sameEntry⟩
  · have hfile : G.File x := .inr ⟨s, howns⟩
    have hput : G.Changes (G.owns s) w.disk (w.disk.put x (.file content)) :=
      .put_file hview.before.allows hfile howns content
    have hput' : G.Changes (G.owns s) w'.disk (w'.disk.put x (.file content)) :=
      .put_file hview.after.allows hfile howns content
    simp only [hd, he]
    refine ⟨.on_disk hview.after (hview.asked hasked) (hput'.imp fun _ _ hx => .inl hx), trivial, ?_⟩
    exact (hview.on_disk hasked hput hput' (hview.disk.put_both hfile content)).sameEntry

section

variable {b : Backend} {module : String} {settings : ModuleSettings}
  (hhouses : G.Houses l s b module settings)

include hhouses

/-- The artifact is where it was, and its path from the root leads to the same place. -/
theorem Houses.read_loadable {loadable : Path} (hchanges : G.Changes (fun x => ¬G.owns s x) d e)
    (hprepared : Prepared (l.outputs s settings) d)
    (hcanonical : d.canonicalize (l.outputs s settings).artifact = .ok loadable) :
    e.read loadable = d.read loadable := by
  unfold Disk.canonicalize at hcanonical
  have htrace := hhouses.leads.trace_eq hchanges hprepared
  cases hfound : d.trace (l.outputs s settings).artifact with
  | error fault =>
    rw [hfound] at hcanonical
    cases hcanonical
  | ok r =>
    cases r with
    | absent parent name slash =>
      rw [hfound] at hcanonical
      cases hcanonical
    | present at' node =>
      rw [hfound] at hcanonical htrace
      obtain rfl := Except.ok.inj hcanonical
      have hd := hhouses.canonical d hchanges.before hprepared at' node hfound
      have he := hhouses.canonical e hchanges.after (lasting_prepared _ _ _ _ hchanges hprepared) at' node
        htrace
      unfold Disk.read
      rw [find_of_trace_eq (he.trans hd.symm)]

theorem bind_undisturbed {signatures : List Signature} :
    Undisturbed (G.View w₀ s) (G.Move w₀ s) (G.Seen w₀ s (Prepared (l.outputs s settings)))
      (l.bind b module (l.outputs s settings).artifact signatures).run
      (EndBoth (fun m w w' => G.Seen w₀ s (Prepared (l.outputs s settings)) w w' ∧ m.module = module)
        (G.SameEntry w₀ s)) := by
  unfold Loader.bind
  refine (seen_lookup fun d e hchanges hprepared => ?_).bind_except fun loadable => ?_
  · unfold Disk.canonicalize
    rw [hhouses.leads.trace_eq hchanges hprepared]
  · refine (seen_lookup fun d e hchanges hthere => ?_).imp (fun _ _ h => h) ?_
    · unfold Loader.libraryAt
      rw [hhouses.read_loadable hchanges hthere.1 (eq_ok_of_mapError hthere.2)]
    · intro result w w' h
      cases result with
      | error error => exact h
      | ok m =>
        exact ⟨⟨h.1, h.2.1, h.2.2.1.1⟩, bind_module (eq_ok_of_mapError h.2.2.2)⟩

/-- The end of loading a module: nothing is done behind this. -/
theorem writeStub_undisturbed {m : Native.Binding} :
    Undisturbed (G.View w₀ s) (G.Move w₀ s)
      (fun w w' => G.Seen w₀ s (Prepared (l.outputs s settings)) w w' ∧ m.module = module)
      (Loader.writeStub (l.outputs s settings).artifact m).run
      (EndBoth (fun _ => G.SameEntry w₀ s) (G.SameEntry w₀ s)) := by
  have hwrite : Undisturbed (G.View w₀ s) (G.Move w₀ s)
      (G.Seen w₀ s fun d => Prepared (l.outputs s settings) d ∧ m.module = module)
      (ExceptT.mk (Workspace.onDisk (attempt fun d =>
        (d.write (Declaration.path (l.outputs s settings).artifact m.module)
          (Text.bytes m.declarations)).mapError
          (LoadError.stub (Declaration.path (l.outputs s settings).artifact m.module)))) :
        Loader.Load Unit).run
      (EndBoth (fun _ => G.SameEntry w₀ s) (G.SameEntry w₀ s)) := by
    rw [ExceptT.run_mk]
    apply attempt_undisturbed
    rintro d e hchanges ⟨hprepared, rfl⟩
    exact (hhouses.stub.writesOwn _).mapError _ d e hchanges hprepared
  unfold Loader.writeStub
  refine (hwrite.imp (fun w w' h => ⟨h.1.1, h.1.2.1, h.1.2.2, h.2⟩) fun _ _ _ h => h).bind_except
    fun _ => ?_
  exact .pure_except (fun _ => stable_sameEntry) stable_sameEntry fun _ _ h => h

end

/-! ## The whole -/

theorem liftM_ok_bind {ε σ α β : Type} (a : α) (k : α → ExceptT ε (Routine σ) β) :
    (liftM (Except.ok a : Except ε α) : ExceptT ε (Routine σ) α) >>= k = k a := rfl

theorem liftM_error_bind {ε σ α β : Type} (e : ε) (k : α → ExceptT ε (Routine σ) β) :
    (liftM (Except.error e : Except ε α) : ExceptT ε (Routine σ) α) >>= k
      = ExceptT.mk (pure (.error e)) := rfl

/-- Either way the entry of the module is the same in the end. -/
theorem sameEntry_of_endBoth {ε α : Type} {after : α → Workspace → Workspace → Prop}
    {result : Except ε α} (hafter : ∀ a, after a w w' → G.SameEntry w₀ s w w')
    (h : EndBoth after (G.SameEntry w₀ s) result w w') : G.SameEntry w₀ s w w' := by
  cases result with
  | ok a => exact hafter a h
  | error error => exact h

section

variable {b : Backend} {module : String} {settings : ModuleSettings}
  (hkeeps : G.Keeps w₀.cache.path w₀.cache.number) (hdisk : G.disk = w₀.disk)
  (hcached : l.builder.cached = true) (hfix : G.Fixes s)

include hdisk

/-- The signatures are the same at any time. -/
theorem Houses.signatures_undisturbed (hhouses : G.Houses l s b module settings) :
    Undisturbed (G.View w₀ s) (G.Move w₀ s) (G.View w₀ s)
      (liftM (ask fun w => Signature.ofFile b (settings.signatureSource s) w.disk :
        Routine Workspace _) : Loader.Load _).run
      (EndBoth (fun read w w' => G.View w₀ s w w' ∧
        read = Signature.ofFile b (settings.signatureSource s) w₀.disk) (G.SameEntry w₀ s)) := by
  refine .lift (.ask stable_view (fun _ w => stable_and (stable_view w)) fun w w' h => ?_)
    fun _ _ => stable_and (stable_view _)
  have hsame : ∀ u, G.Sound w₀ u → Signature.ofFile b (settings.signatureSource s) u.disk
      = Signature.ofFile b (settings.signatureSource s) w₀.disk := by
    intro u hu
    unfold Signature.ofFile Disk.readText
    rw [hhouses.signatures u.disk hu.allows, hdisk]
  exact ⟨.refl h.after, (hsame w h.before).trans (hsame w' h.after).symm, h, hsame w' h.after⟩

include hkeeps hcached hfix

/-- The build as a part of loading, which has errors of its own. -/
theorem Houses.built_undisturbed (hhouses : G.Houses l s b module settings) (upToDate : Bool)
    {signatures : List Signature}
    (hsignatures : Signature.ofFile b (settings.signatureSource s) G.disk = .ok signatures) :
    Undisturbed (G.View w₀ s) (G.Move w₀ s)
      (fun w w' => G.View w₀ s w w' ∧ (w₀.disk.isFile s = true → w.cache.entries?.isSome))
      (ExceptT.mk do
        let built ← (l.builder.build ⟨s, settings, signatures, upToDate⟩).run
        return built.mapError (.build s) : Loader.Load Path).run
      (EndBoth (fun artifact w w' => G.Seen w₀ s (Prepared (l.outputs s settings)) w w' ∧
        artifact = (l.outputs s settings).artifact) (G.SameEntry w₀ s)) := by
  refine (build_undisturbed hkeeps hdisk hfix hhouses hcached upToDate hsignatures).bind fun result => ?_
  cases result with
  | ok artifact =>
    show Undisturbed _ _ _ (pure artifact : Loader.Load Path).run _
    exact .pure_except (fun _ _ => stable_and (stable_seen _)) stable_sameEntry fun _ _ h => h
  | error error =>
    show Undisturbed _ _ _ (pure (Except.error (LoadError.build s error)) : Routine Workspace _) _
    exact .result (fun _ _ => stable_and (stable_seen _)) stable_sameEntry nofun fun _ _ _ _ h => h

/-- Loading a module is not disturbed by those that keep to their own ground. -/
theorem Houses.load_undisturbed (hresolve : l.resolve s = .ok (b, module, settings))
    (hhouses : G.Houses l s b module settings) :
    Undisturbed (G.View w₀ s) (G.Move w₀ s) (G.View w₀ s) (l.load s).run
      fun _ => G.SameEntry w₀ s := by
  have hskip : Undisturbed (G.View w₀ s) (G.Move w₀ s) (G.View w₀ s)
      (liftM (Cache.shouldSkip s) : Loader.Load Bool).run
      (EndBoth (fun _ w w' => G.View w₀ s w w' ∧
        (w₀.disk.isFile s = true → w.cache.entries?.isSome)) (G.SameEntry w₀ s)) :=
    .lift (shouldSkip_undisturbed hkeeps hdisk hfix) fun _ _ => stable_and (stable_view _)
  suffices hload : Undisturbed (G.View w₀ s) (G.Move w₀ s) (G.View w₀ s) (l.load s).run
      (EndBoth (fun _ => G.SameEntry w₀ s) (G.SameEntry w₀ s)) from
    hload.imp (fun _ _ h => h) fun _ _ _ h => sameEntry_of_endBoth (fun _ h => h) h
  unfold Loader.load
  rw [hresolve, liftM_ok_bind]
  simp only [hcached, if_true]
  refine (hhouses.signatures_undisturbed hdisk).bind_except fun read => .of_fact fun hsame =>
    hskip.bind_except fun upToDate => ?_
  cases read with
  | error error =>
    simp only [Except.mapError, liftM_error_bind]
    exact .result (fun _ => stable_sameEntry) stable_sameEntry nofun fun _ _ _ _ h => h.1.sameEntry
  | ok signatures =>
    have hsignatures : Signature.ofFile b (settings.signatureSource s) G.disk = .ok signatures := by
      rw [hdisk, ← hsame]
    simp only [Except.mapError, liftM_ok_bind]
    refine (hhouses.built_undisturbed hkeeps hdisk hcached hfix upToDate hsignatures).bind_except
      fun artifact => .of_fact ?_
    rintro rfl
    exact (bind_undisturbed hhouses).bind_except fun m => (writeStub_undisturbed hhouses).bind_except
      fun _ => .pure_except (fun _ => stable_sameEntry) stable_sameEntry fun _ _ h => h

end

end Ground

end ForeignModule
