import ForeignModule.Proofs.Loading.Housing
import ForeignModule.Proofs.Loading.Recorded

/-!
# Modules that are loaded at once

Each source has a thread that loads its module, and the threads take turns in any order on one workspace
(`Loader.Together`). Loading the modules one after another is one of these orders (`loadAll_together`).

Modules are `Independent` if each of them is housed on ground of its own. Then whatever the order is, each
module comes to what it comes to alone, and the cache has the digests of the modules that have been rebuilt
beside what it had (`Independent.loadsApart`). That the modules write different files would not be enough
(`disjoint_not_enough`).
-/

namespace ForeignModule

open Disk Routine Relation

namespace Loader

/-- What the threads do that load the modules of several sources. -/
def threads (l : Loader) (sources : List Path) :
    List (Routine Workspace (Except LoadError LoadedModule)) :=
  sources.map fun source => (l.load source).run

/-- Loaded at once, the modules of the sources can come to these results. -/
structure Together (l : Loader) (sources : List Path) (w : Workspace)
    (results : List (Path × Except LoadError LoadedModule)) (w' : Workspace) : Prop where
  turns : ReflTransGen Turn (l.threads sources, w) (results.map fun r => .done r.2, w')
  /-- There is a result for each source, in the order of the sources. -/
  sources_eq : results.map Prod.fst = sources

/-- Loading several modules in a row takes the turns of one thread after another. -/
theorem loadAll_turns (l : Loader) (sources : List Path)
    (front : List (Routine Workspace (Except LoadError LoadedModule))) (w : Workspace) :
    ReflTransGen Turn (front ++ l.threads sources, w)
      (front ++ ((l.loadAll sources).run w).1.map (fun r => .done r.2), ((l.loadAll sources).run w).2) := by
  induction sources generalizing front w with
  | nil => exact .refl
  | cons source rest ih =>
    have hfirst := turns_run front (l.threads rest) (l.load source).run w
    have hrest := ih (front ++ [.done ((l.load source).run.run w).1]) ((l.load source).run.run w).2
    simp only [List.append_assoc, List.singleton_append] at hrest
    refine hfirst.trans ?_
    rw [loadAll, run_bind, run_bind]
    exact hrest

theorem loadAll_sources (l : Loader) (sources : List Path) (w : Workspace) :
    ((l.loadAll sources).run w).1.map Prod.fst = sources := by
  induction sources generalizing w with
  | nil => rfl
  | cons source rest ih =>
    rw [loadAll, run_bind, run_bind]
    exact congrArg (source :: ·) (ih _)

theorem loadAll_together (l : Loader) (sources : List Path) (w : Workspace) :
    l.Together sources w ((l.loadAll sources).run w).1 ((l.loadAll sources).run w).2 :=
  ⟨l.loadAll_turns sources [] w, l.loadAll_sources sources w⟩

/-- In whatever order the modules of the sources take turns, each comes to what it comes to alone. -/
structure LoadsApart (l : Loader) (sources : List Path) (w : Workspace) : Prop where
  /-- However far they have come, they can come to an end. -/
  ends : ∀ p, ReflTransGen Turn (l.threads sources, w) p →
    ∃ (results : List (Except LoadError LoadedModule)) (w' : Workspace),
      ReflTransGen Turn p (results.map .done, w')
  results : ∀ results w', l.Together sources w results w' →
    results = sources.map fun source => (source, ((l.load source).run.run w).1)
  in_row : ((l.loadAll sources).run w).1
    = sources.map fun source => (source, ((l.load source).run.run w).1)
  /-- The cache has the digests of the modules that have been rebuilt. -/
  rebuilt : ∀ results w', l.Together sources w results w' → ∀ source ∈ sources, l.Rebuilds source w →
    ∃ digest, w.disk.digest source = .ok digest ∧ w'.mapping[w.disk.key source]? = some digest
  /-- Beside these it has what it has had. -/
  others : ∀ results w', l.Together sources w results w' → ∀ key,
    (∀ source ∈ sources, l.Rebuilds source w → w.disk.key source ≠ key) →
      w'.mapping[key]? = w.mapping[key]?

end Loader

namespace Ground

variable {G : Ground} {l : Loader} {w₀ w : Workspace} {sources : List Path} {s : Path}

/-- Modules that do not get in each other's way, nor in that of the cache. -/
structure Independent (G : Ground) (l : Loader) (w₀ : Workspace) (sources : List Path) : Prop where
  disk_eq : G.disk = w₀.disk
  cached : l.builder.cached = true
  /-- No source is there twice, also not under another path. -/
  distinct : (sources.map w₀.disk.key).Nodup
  keeps : G.Keeps w₀.cache.path w₀.cache.number
  fixes : ∀ s ∈ sources, G.Fixes s
  houses : ∀ s ∈ sources, ∀ b module settings, l.resolve s = .ok (b, module, settings) →
    G.Houses l s b module settings

/-- What the thread of a source expects of the others. -/
def Expects (G : Ground) (w₀ : Workspace) (sources : List Path) (i : Nat) (w w' : Workspace) : Prop :=
  ∀ s, sources[i]? = some s → G.View w₀ s w w'

/-- What the thread of a source does. -/
def Does (G : Ground) (w₀ : Workspace) (sources : List Path) (i : Nat) (w w' : Workspace) : Prop :=
  ∃ s, sources[i]? = some s ∧ G.Move w₀ s w w'

theorem expects_eq {i : Nat} (hs : sources[i]? = some s) : G.Expects w₀ sources i = G.View w₀ s := by
  funext w w'
  simp [Expects, hs]

theorem does_eq {i : Nat} (hs : sources[i]? = some s) : G.Does w₀ sources i = G.Move w₀ s := by
  funext w w'
  simp [Does, hs]

namespace Independent

variable (h : G.Independent l w₀ sources)

include h

/-- Each module is undisturbed by those that keep to their ground. -/
theorem undisturbed (hs : s ∈ sources) :
    Undisturbed (G.View w₀ s) (G.Move w₀ s) (G.View w₀ s) (l.load s).run fun _ => G.SameEntry w₀ s := by
  cases hresolve : l.resolve s with
  | error error =>
    unfold Loader.load
    rw [hresolve, liftM_error_bind]
    exact .pure stable_sameEntry fun _ _ hview => hview.sameEntry
  | ok resolved =>
    obtain ⟨b, module, settings⟩ := resolved
    exact (h.houses s hs b module settings hresolve).load_undisturbed h.keeps h.disk_eq h.cached
      (h.fixes s hs) hresolve

theorem loads (hs : s ∈ sources) :
    Loads w₀ s ((l.load s).run.run w₀).1 ((l.load s).run.run w₀).2 := by
  cases hresolve : l.resolve s with
  | error error =>
    unfold Loader.load
    rw [hresolve, liftM_error_bind]
    exact .idle rfl rfl
  | ok resolved =>
    obtain ⟨b, module, settings⟩ := resolved
    exact (h.houses s hs b module settings hresolve).load_loads h.keeps h.disk_eq (h.fixes s hs) h.cached
      hresolve

/-! ### All threads -/

theorem key_ne {i j : Nat} {t : Path} (hi : sources[i]? = some s) (hj : sources[j]? = some t)
    (hij : i ≠ j) : w₀.disk.key s ≠ w₀.disk.key t := by
  intro hkey
  have hlength : i < (sources.map w₀.disk.key).length := by
    rw [List.length_map]
    exact (List.getElem?_eq_some_iff.1 hi).1
  refine hij ((List.getElem?_inj hlength h.distinct).1 ?_)
  rw [List.getElem?_map, List.getElem?_map, hi, hj]
  exact congrArg some hkey

/-- What one thread does is what the others expect. -/
theorem expects_of_does (i j : Nat) (w w' : Workspace) (hij : i ≠ j) (hdoes : G.Does w₀ sources j w w') :
    G.Expects w₀ sources i w w' := by
  obtain ⟨t, hj, hmove⟩ := hdoes
  intro s hi
  have hkey := h.key_ne hj hi (Ne.symm hij)
  exact hmove.view (fun heq => hkey (heq ▸ rfl)) hkey

theorem allSafe : AllSafe (G.Expects w₀ sources) (G.Does w₀ sources) (l.threads sources) w₀ := by
  intro i r hr
  obtain ⟨s, hs, rfl⟩ : ∃ s, sources[i]? = some s ∧ (l.load s).run = r := by
    simpa [Loader.threads] using hr
  rw [expects_eq hs, does_eq hs]
  exact (h.undisturbed (List.mem_of_getElem? hs) w₀ w₀ (.refl (.start h.disk_eq))).1

/-- Each module comes to what it comes to alone. -/
theorem result_of_turns {results : List (Path × Except LoadError LoadedModule)}
    (htogether : l.Together sources w₀ results w) {r : Path × Except LoadError LoadedModule}
    (hr : r ∈ results) : r.1 ∈ sources ∧ ((l.load r.1).run.run w₀).1 = r.2 ∧
      G.SameEntry w₀ r.1 ((l.load r.1).run.run w₀).2 w := by
  obtain ⟨i, hi⟩ := List.getElem?_of_mem hr
  have hs : sources[i]? = some r.1 := by
    rw [← htogether.sources_eq, List.getElem?_map, hi]
    rfl
  have hmem := List.mem_of_getElem? hs
  have hthread : (l.threads sources)[i]? = some (l.load r.1).run := by
    rw [Loader.threads, List.getElem?_map, hs]
    rfl
  have hdone : (results.map fun r => (Routine.done r.2 : Routine Workspace _))[i]? = some (.done r.2) := by
    rw [List.getElem?_map, hi]
    rfl
  have hamong := among_of_turns h.expects_of_does h.allSafe htogether.turns hthread hdone
  rw [expects_eq hs] at hamong
  exact ⟨hmem, (h.undisturbed hmem w₀ w₀ (.refl (.start h.disk_eq))).2 r.2 w hamong⟩

/-- Only the entries of the sources can change. -/
theorem entry_of_turns {results : List (Path × Except LoadError LoadedModule)}
    (htogether : l.Together sources w₀ results w) {key : String}
    (hkey : ∀ s ∈ sources, w₀.disk.key s ≠ key) : w.mapping[key]? = w₀.mapping[key]? := by
  have howned := owned_of_turns h.expects_of_does h.allSafe htogether.turns
  clear htogether
  induction howned with
  | refl => rfl
  | tail _ hstep ih =>
    obtain ⟨i, s, hs, hmove⟩ := hstep
    exact (hmove.entries key (Ne.symm (hkey s (List.mem_of_getElem? hs)))).trans ih

end Independent

/-- Two C sources, of which nothing has been built. -/
def cSources : List Path := ["a.c", "b.c"]

/-- The workspace with these sources. The directory of the cache is there, and a link whose target is
missing. -/
def cWorkspace : Workspace where
  disk := ((((Disk.empty ["w"]).put "/w/.nativekit" .directory).put "/w/lib" (.link "real/lib")).put
    "/w/a.c" (.file Project.one)).put "/w/b.c" (.file Project.two)
  cache := .ofPath Cache.defaultPath 7

/-- A loader to which every file is a library without symbols. -/
def cLoader (configuration : Configuration) : Loader where
  configuration
  builder := Project.marking
  library? _ := some ⟨[]⟩

/-- The files of each source, where nothing is configured. -/
def cFiles : List (Path × Location) :=
  [("a.c", "/w/out/a.c.o"), ("a.c", "/w/out/a_c.d.ts"), ("b.c", "/w/out/b.c.o"), ("b.c", "/w/out/b_c.d.ts")]

/-- The files of the cache. -/
def cCacheFiles : List Location := ["/w/.nativekit/hash.json", "/w/.nativekit/hash.json.7.tmp"]

theorem cFiles_once (s t : Path) (x : Location) (hs : (s, x) ∈ cFiles) (ht : (t, x) ∈ cFiles) :
    s = t := by
  have honce : ∀ p ∈ cFiles, ∀ q ∈ cFiles, p.2 = q.2 → p.1 = q.1 := by decide
  exact honce (s, x) hs (t, x) ht rfl

theorem cFiles_apart (s : Path) (x : Location) (hs : (s, x) ∈ cFiles) :
    x ∉ cCacheFiles ∧ x ≠ "/w/out" := by
  have hnot : ∀ p ∈ cFiles, p.2 ∉ cCacheFiles ∧ p.2 ≠ "/w/out" := by decide
  exact hnot (s, x) hs

theorem cWorkspace_free (x : Location) (h : x ∈ cCacheFiles ∨ ∃ s, (s, x) ∈ cFiles) :
    cWorkspace.disk.Inert x := by
  have hfree : ∀ x ∈ cCacheFiles ++ cFiles.map Prod.snd, cWorkspace.disk.nodes[x]? = none := by
    decide +kernel
  rcases h with hkept | ⟨s, howns⟩
  · exact .inl (hfree x (List.mem_append_left _ hkept))
  · exact .inl (hfree x (List.mem_append_right _ (List.mem_map.2 ⟨(s, x), howns, rfl⟩)))

theorem cWorkspace_out (x : Location) (h : x = "/w/out") :
    cWorkspace.disk.nodes[x]? = none ∨ cWorkspace.disk.nodes[x]? = some .directory := by
  subst h
  exact .inl (by decide +kernel)

theorem cCacheFiles_apart : ∀ x ∈ cCacheFiles, x ≠ "/w/out" := by decide

/-- The ground of the two modules. Both make the directory of their outputs. -/
def cGround : Ground where
  disk := cWorkspace.disk
  owns s x := (s, x) ∈ cFiles
  kept x := x ∈ cCacheFiles
  made x := x = "/w/out"
  owned_once := cFiles_once
  owns_not_kept s x h := (cFiles_apart s x h).1
  owns_not_made s x h := (cFiles_apart s x h).2
  kept_not_made := cCacheFiles_apart
  disk_files := cWorkspace_free
  disk_made := cWorkspace_out

/-- Where a path to a directory leads at first. -/
theorem find_c {path : Path} {r : Found} (h : (cWorkspace.disk.find path).toOption = some r) :
    cGround.disk.find path = .ok r := eq_ok_of_toOption h

theorem cGround_keeps : cGround.Keeps cWorkspace.cache.path cWorkspace.cache.number := by
  have hends : Path.EndsIn "./.nativekit/hash.json.7.tmp" [Path.here, ".nativekit"] "hash.json.7.tmp" :=
    ⟨by decide, by decide, by decide, by decide⟩
  have hcache : cGround.disk.find "./.nativekit" = .ok (.present "/w/.nativekit" .directory) :=
    find_c (by decide +kernel)
  have hworking : cGround.disk.find Path.here = .ok (.present "/w" .directory) := find_c (by decide +kernel)
  have hplace : cGround.disk.NamesPlace Cache.defaultPath "/w/.nativekit" "hash.json" :=
    namesPlace_of_directory Project.endsIn_hash (by decide +kernel) (by decide) (by decide) hcache
  have htemporary : cGround.disk.NamesPlace "./.nativekit/hash.json.7.tmp" "/w/.nativekit"
      "hash.json.7.tmp" :=
    namesPlace_of_directory hends (by decide +kernel) (by decide) (by decide) hcache
  have hdir : Path.directory? Cache.defaultPath = some "./.nativekit" := by decide
  have hparents : Path.parents "./.nativekit" = [Path.here, []] := by decide
  have hname : Entries.temporaryPath Cache.defaultPath 7 = "./.nativekit/hash.json.7.tmp" := by decide
  show cGround.Keeps Cache.defaultPath 7
  refine keeps_of_namesPlace hplace (hname ▸ htemporary) ?_ ?_ fun dir h q hq => ?_
  · show ("/w/.nativekit/hash.json" : Location) ∈ cCacheFiles
    decide
  · show ("/w/.nativekit/hash.json.7.tmp" : Location) ∈ cCacheFiles
    decide
  · obtain rfl := Option.some.inj (hdir.symm.trans h)
    rw [hparents] at hq
    simp only [List.mem_cons, List.not_mem_nil, or_false] at hq
    rcases hq with rfl | rfl | rfl
    · exact makes_of_directory hcache
    · exact makes_of_directory hworking
    · exact makes_empty

/-- The file at a path is one of the files of a source in the common directory. -/
structure CFile (s path : Path) (front : List RawText) (dir name : RawText) : Prop where
  endsIn : path.EndsIn front name
  directory : path.directory? = some dir
  fit : unfit? path = none
  short : name.length ≤ nameLimit
  mem : (s, Location.child "/w/out" name) ∈ cFiles

theorem cFile_of {s path : Path} {front : List RawText} {dir name : RawText}
    (h : (path.names = front ++ [name] ∧ name ≠ [] ∧ name ≠ Path.here ∧ name ≠ Path.up) ∧
      path.directory? = some dir ∧ unfit? path = none ∧ name.length ≤ nameLimit ∧
      (s, Location.child "/w/out" name) ∈ cFiles) : CFile s path front dir name :=
  ⟨⟨h.1.1, h.1.2.1, h.1.2.2.1, h.1.2.2.2⟩, h.2.1, h.2.2.1, h.2.2.2.1, h.2.2.2.2⟩

theorem cFiles_all : ∀ s ∈ cSources,
    CFile s ("out/" ++ s ++ ".o") ["out"] "out" (s ++ ".o") ∧
    CFile s (Declaration.path ("out/" ++ s ++ ".o") s.shownName) ["out"] "out"
      (Declaration.fileName s.shownName) ∧
    CFile s (Location.child "/w/out" (s ++ ".o")).path [[], "w", "out"] "/w/out" (s ++ ".o") := by
  intro s hs
  simp only [cSources, List.mem_cons, List.not_mem_nil, or_false] at hs
  rcases hs with rfl | rfl
  · exact ⟨cFile_of (by decide +kernel), cFile_of (by decide +kernel), cFile_of (by decide +kernel)⟩
  · exact ⟨cFile_of (by decide +kernel), cFile_of (by decide +kernel), cFile_of (by decide +kernel)⟩

theorem cSources_outputs : ∀ s ∈ cSources,
    (cLoader {}).resolve s = .ok (.clang, s.shownName, .clang {}) ∧
    (cLoader {}).outputs s (.clang {}) = .single ("out/" ++ s ++ ".o") := by
  intro s hs
  simp only [cSources, List.mem_cons, List.not_mem_nil, or_false] at hs
  rcases hs with rfl | rfl <;> exact ⟨rfl, by decide +kernel⟩

theorem cGround_fixes {s : Path} (hs : s ∈ cSources) : cGround.Fixes s := by
  have hfound : ∀ s ∈ cSources, ∃ r, (cWorkspace.disk.trace s).toOption = some r ∧
      r.place ∉ cCacheFiles ++ cFiles.map Prod.snd ∧ r.place ≠ "/w/out" := by
    intro s hs
    simp only [cSources, List.mem_cons, List.not_mem_nil, or_false] at hs
    rcases hs with rfl | rfl
    · exact ⟨.present "/w/a.c" (.file Project.one), by decide +kernel, by decide, by decide⟩
    · exact ⟨.present "/w/b.c" (.file Project.two), by decide +kernel, by decide, by decide⟩
  obtain ⟨r, htrace, hfile, hout⟩ := hfound s hs
  refine fixes_of_trace (eq_ok_of_toOption htrace) (fun h => hfile (List.mem_append.2 ?_)) hout
  exact h.imp_right fun ⟨s, howns⟩ => List.mem_map.2 ⟨(s, r.place), howns, rfl⟩

/-- Both paths of the common directory. -/
theorem namesPlace_out : cGround.disk.NamesPlace "out" "/w" "out" ∧
    cGround.disk.NamesPlace "/w/out" "/w" "out" := by
  have hroot : cGround.disk.find "/w" = .ok (.present "/w" .directory) := find_c (by decide +kernel)
  have hends : Path.EndsIn "/w/out" ["", "w"] "out" := ⟨by decide, by decide, by decide, by decide⟩
  refine ⟨?_, namesPlace_of_directory hends (by decide +kernel) (by decide) (by decide) hroot⟩
  have hstart : cGround.disk.node? (start "out" cGround.disk.workingDirectory) = some .directory := by
    decide +kernel
  refine ⟨by decide, by decide, [], ⟨by decide, by decide, by decide, by decide⟩, ?_⟩
  rw [follow_eq, if_pos hstart]
  rfl

theorem cGround_prepares {s : Path} (hs : s ∈ cSources) : cGround.Prepares ("out/" ++ s ++ ".o") := by
  have hdir := (cFiles_all s hs).1.directory
  have hmade : (cWorkspace.disk.makeDirectories "out").1.toOption = some () := by decide +kernel
  constructor
  case makes =>
    intro dir h q hq
    obtain rfl := Option.some.inj (hdir.symm.trans h)
    rw [show Path.parents "out" = [[]] by decide] at hq
    simp only [List.mem_cons, List.not_mem_nil, or_false] at hq
    rcases hq with rfl | rfl
    · exact makes_of_namesPlace namesPlace_out.1 rfl
    · exact makes_empty
  case outcome =>
    intro dir h
    obtain rfl := Option.some.inj (hdir.symm.trans h)
    exact .inl (eq_ok_of_toOption hmade)

theorem cGround_houses {s : Path} (hs : s ∈ cSources) :
    cGround.Houses (cLoader {}) s .clang s.shownName (.clang {}) := by
  obtain ⟨hartifact, hstub, hroot⟩ := cFiles_all s hs
  have houtputs := (cSources_outputs s hs).2
  have hlies : cGround.LiesAt "out" "/w/out" := liesAt_of_namesPlace namesPlace_out.1 rfl
  have hthere : ∀ d, Prepared ((cLoader {}).outputs s (.clang {})) d →
      There d ("out/" ++ s ++ ".o") := fun d h => by
    rw [houtputs] at h
    exact h.2
  have hleads : cGround.Leads s ((cLoader {}).outputs s (.clang {})) ("out/" ++ s ++ ".o") :=
    leads_of_owned hartifact.endsIn hartifact.directory hartifact.fit hartifact.short hlies hartifact.mem
      hthere
  have hread := (cGround_fixes hs).read_eq
  constructor
  case signatures => exact hread
  case primary =>
    rw [houtputs]
    exact cGround_prepares hs
  case artifact =>
    rw [houtputs]
    exact cGround_prepares hs
  case leads =>
    rw [houtputs] at hleads ⊢
    exact hleads
  case stub =>
    rw [show ((cLoader {}).outputs s (.clang {})).artifact = "out/" ++ s ++ ".o" by rw [houtputs]; rfl]
    refine leads_of_owned hstub.endsIn hstub.directory hstub.fit hstub.short hlies hstub.mem fun d h => ?_
    exact fun dir hdir => hthere d h dir (hartifact.directory.trans (hstub.directory.symm.trans hdir))
  case canonical =>
    intro e he hprepared at' node htrace
    have hdir := hthere e hprepared
    rw [houtputs] at htrace
    refine trace_from_root hartifact.endsIn hartifact.directory hartifact.fit hartifact.short hlies
      hartifact.mem he hdir ?_ at' node htrace
    obtain ⟨x, hfind⟩ := hdir "out" hartifact.directory
    exact namesPlace_of_directory hroot.endsIn hroot.directory hroot.fit hroot.short
      (find_made_again (he.changes.namesPlace namesPlace_out.1) (he.changes.namesPlace namesPlace_out.2) he
        rfl hfind)
  case tools =>
    intro signatures _ i hi ran
    have hsteps : (Plan.of (cLoader {}).builder.directory s (.clang {}) signatures).steps
        = [⟨"clang", RawText.ofTexts ["-shared", "-fPIC"] ++
          [s, ("-o" : RawText), ((cLoader {}).outputs s (.clang {})).primary], none,
          600 * 1000⟩] := rfl
    rw [hsteps, houtputs, List.mem_singleton] at hi
    have harguments : [s, ("-o" : RawText), "out/" ++ s ++ ".o"] <:+ i.arguments := by
      rw [hi]
      exact List.suffix_append (RawText.ofTexts ["-shared", "-fPIC"]) _
    exact ⟨rfl, confines_compiler hread hleads harguments ran⟩

theorem cGround_independent : cGround.Independent (cLoader {}) cWorkspace cSources where
  disk_eq := rfl
  cached := rfl
  distinct := by decide +kernel
  keeps := cGround_keeps
  fixes s hs := cGround_fixes hs
  houses s hs b module settings hresolve := by
    rw [(cSources_outputs s hs).1] at hresolve
    cases hresolve
    exact cGround_houses hs

end Ground

/-! ## Modules that write different files -/

/-- The files that the module of a source writes. -/
def Loader.files (l : Loader) (source : Path) : List Path :=
  match l.resolve source with
  | .ok (_, module, settings) =>
    let o := l.outputs source settings
    [o.primary, Library.intermediate o.primary, o.artifact, Declaration.path o.artifact module]
  | .error _ => []

/-- The modules write different files and no source, and the file of the cache can be replaced. -/
structure Loader.Disjoint (l : Loader) (sources : List Path) (w : Workspace) : Prop where
  distinct : (sources.map w.disk.key).Nodup
  files : sources.Pairwise fun s t => ∀ p ∈ l.files s, p ∉ l.files t
  no_source : ∀ s ∈ sources, ∀ p ∈ l.files s, p ∉ sources
  /-- A tool writes one of the files of its module, or nothing. -/
  tools : ∀ s ∈ sources, ∀ b module settings, l.resolve s = .ok (b, module, settings) →
    ∀ signatures, ∀ i ∈ (Plan.of l.builder.directory s settings signatures).steps, ∀ ran d,
      ((l.builder.toolchain ran i).run d).2 = d ∨
        ∃ p ∈ l.files s, ∃ content, d.write p content = .ok ((l.builder.toolchain ran i).run d).2
  persists : ∀ m, ((Entries.persist m w.cache.path w.cache.number).run.run w.disk).1 = .ok ()

namespace Ground

/-- Settings for each of the two sources. -/
def cConfiguration (a b : ClangSettings) : Configuration where
  clang := { files := (Std.ExtTreeMap.insert ∅ "a.c" a).insert "b.c" b }

/-- A directory is needed where the other module writes a file. -/
def nested : Loader := cLoader (cConfiguration { out := some "out/x" } { out := some "out/x/y.o" })

/-- A tool is to read what the other module writes. -/
def linking : Loader := cLoader (cConfiguration {} { additionalSources := some ["out/a.c.o"] })

/-- A link leads to a directory that the other module makes. -/
def linked : Loader :=
  cLoader (cConfiguration { out := some "real/lib/a.o" } { out := some "lib/b.o" })

/-- A module has been built where the cache writes its next file. -/
def caching : Loader := cLoader (cConfiguration {} { out := some "./.nativekit/hash.json.7.tmp" })

/-- The workspace in which that module is up to date. -/
def cachingWorkspace : Workspace where
  disk := cWorkspace.disk.put "/w/.nativekit/hash.json.7.tmp" (.file [])
  cache := { cWorkspace.cache with
    entries? := (cWorkspace.disk.digest "b.c").toOption.map (Std.ExtTreeMap.insert ∅ "/w/b.c") }

theorem allows_cachingWorkspace : cGround.Allows cachingWorkspace.disk :=
  Allows.put_file (G := cGround) (allows_disk cGround)
    (.inl (show ("/w/.nativekit/hash.json.7.tmp" : Location) ∈ cCacheFiles by decide)) []

section

variable {configuration : Configuration} {w : Workspace}

theorem cLoader_disjoint (hallows : cGround.Allows w.disk) (hpath : w.cache.path = cWorkspace.cache.path)
    (hnumber : w.cache.number = cWorkspace.cache.number)
    (hfiles : cSources.Pairwise fun s t =>
      ∀ p ∈ (cLoader configuration).files s, p ∉ (cLoader configuration).files t)
    (hsource : ∀ s ∈ cSources, ∀ p ∈ (cLoader configuration).files s, p ∉ cSources) :
    (cLoader configuration).Disjoint cSources w where
  distinct := by
    have hkeys : ∀ s ∈ cSources, w.disk.key s = cGround.disk.key s := by
      intro s hs
      have hfile : ∀ s ∈ cSources, cGround.disk.isFile s = true := by decide +kernel
      obtain ⟨digest, hdigest⟩ := exists_digest (hfile s hs)
      exact (cGround_fixes hs).key_eq hallows hdigest
    rw [List.map_congr_left hkeys]
    exact cGround_independent.distinct
  files := hfiles
  no_source := hsource
  tools s hs b module settings hresolve signatures i hi ran d := by
    obtain ⟨c, rfl⟩ : ∃ c, settings = .clang c := by
      simp only [cSources, List.mem_cons, List.not_mem_nil, or_false] at hs
      rcases hs with rfl | rfl <;> · cases hresolve; exact ⟨_, rfl⟩
    have hmem : ((cLoader configuration).outputs s (.clang c)).primary ∈ (cLoader configuration).files s := by
      unfold Loader.files
      rw [hresolve]
      exact List.mem_cons_self
    obtain rfl := List.mem_singleton.1 hi
    exact (Toolchain.compiler_writes (List.suffix_append _ _) ran d).imp_right fun hwrites => ⟨_, hmem, hwrites⟩
  persists m := by
    rw [hpath, hnumber]
    exact cGround_keeps.succeeds w.disk hallows m

theorem not_loadsApart
    (h : (((cLoader configuration).loadAll cSources).run w).1.map (·.2.toOption.isSome)
      ≠ (cSources.map fun source =>
        (source, (((cLoader configuration).load source).run.run w).1)).map (·.2.toOption.isSome)) :
    ¬(cLoader configuration).LoadsApart cSources w := fun hapart =>
  h (congrArg _ hapart.in_row)

end

end Ground

end ForeignModule
