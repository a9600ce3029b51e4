import ForeignModule.Files.Path

/-!
# Names and paths

A path is its names with slashes between them (`intercalate_names`), and a path with another last
name has the same names before it, less those at the end that say nothing (`names_withFileName`). The
directory of a path is a beginning of it (`isDirectoryOf`).
-/

namespace ForeignModule.Path

variable {p q : Path} {name : RawText}

/-- The names of a path are what its slashes leave. -/
theorem names_eq_splitOn (p : Path) : p.names = p.splitOn slash := by
  induction p with
  | nil => rfl
  | cons b rest ih =>
    rw [List.splitOn_cons_eq_if_modifyHead, names, ih]
    by_cases h : b = slash
    · simp [h]
    · have hne : (b == slash) = false := by simpa using h
      simp only [h, hne, if_false, Bool.false_eq_true]
      cases hrest : rest.splitOn slash with
      | nil => exact absurd hrest (List.splitOn_ne_nil _ _)
      | cons name more => rfl

/-- No name holds a slash. -/
theorem slash_not_mem (h : name ∈ p.names) : slash ∉ name := by
  induction p generalizing name with
  | nil =>
    rw [List.mem_singleton.1 h]
    exact List.not_mem_nil
  | cons b rest ih =>
    unfold names at h
    by_cases hb : b = slash
    · rw [if_pos hb] at h
      rcases List.mem_cons.1 h with rfl | h
      · exact List.not_mem_nil
      · exact ih h
    · rw [if_neg hb] at h
      cases hrest : names rest with
      | nil =>
        rw [hrest] at h
        rw [List.mem_singleton.1 h]
        simpa using Ne.symm hb
      | cons first more =>
        rw [hrest] at h
        rcases List.mem_cons.1 h with rfl | h
        · have hfirst : slash ∉ first := ih (by simp [hrest])
          simpa [Ne.symm hb] using hfirst
        · exact ih (by simp [hrest, h])

/-- A path without slashes is one name. -/
theorem names_of_slash_not_mem (h : slash ∉ p) : p.names = [p] := by
  rw [names_eq_splitOn, List.splitOn_eq_singleton h]

/-- The names of a path below another one. -/
theorem names_append_slash (p q : Path) : names (p ++ slash :: q) = p.names ++ q.names := by
  simp only [names_eq_splitOn, List.splitOn_append_cons_self]

theorem names_intercalate {l : List RawText} (hne : l ≠ []) (h : ∀ name ∈ l, slash ∉ name) :
    names ([slash].intercalate l) = l := by
  rw [names_eq_splitOn, List.splitOn_intercalate slash h hne]

/-- A path is its names with slashes between them. -/
theorem intercalate_names (p : Path) : [slash].intercalate p.names = p := by
  rw [names_eq_splitOn, List.intercalate_splitOn]

theorem intercalate_append {l m : List RawText} (hl : l ≠ []) (hm : m ≠ []) :
    [slash].intercalate (l ++ m) = [slash].intercalate l ++ slash :: [slash].intercalate m := by
  induction l with
  | nil => exact absurd rfl hl
  | cons first rest ih =>
    cases rest with
    | nil =>
      cases m with
      | nil => exact absurd rfl hm
      | cons second more => simp [List.intercalate_cons_cons]
    | cons second more =>
      have hrest := ih (List.cons_ne_nil _ _)
      simp only [List.cons_append, List.intercalate_cons_cons, List.append_assoc] at hrest ⊢
      rw [hrest]

/-! ## Another last name -/

theorem isAbsolute_of_slash_not_mem (h : slash ∉ p) : p.isAbsolute = false := by
  cases p with
  | nil => rfl
  | cons b rest =>
    have hb : b ≠ slash := by
      rintro rfl
      simp at h
    simpa [isAbsolute] using hb

theorem isAbsolute_iff {first second : RawText} {more : List RawText}
    (h : p.names = first :: second :: more) : p.isAbsolute = true ↔ first = [] := by
  have hp : p = first ++ slash :: [slash].intercalate (second :: more) := by
    rw [← intercalate_names p, h, List.intercalate_cons_cons, List.append_assoc]
    rfl
  constructor
  · intro habs
    rw [hp, isAbsolute] at habs
    cases first with
    | nil => rfl
    | cons b rest =>
      have hb : b = slash := by simpa using habs
      have hslash : slash ∉ b :: rest := slash_not_mem (p := p) (by simp [h])
      simp [hb] at hslash
  · rintro rfl
    simp [hp, isAbsolute]

/-- The names of a directory without those at their end that say nothing. -/
def kept (front : List RawText) : List RawText := (dropFiller front.reverse).reverse

theorem dropFiller_ne_nil {l : List RawText} (h : l ≠ []) : dropFiller l ≠ [] := by
  fun_induction dropFiller l with
  | case1 name before more hfill ih => exact ih (by simp)
  | case2 name before more hfill => simp
  | case3 l _ => exact h

theorem exists_fillers (l : List RawText) :
    ∃ fillers, l = fillers ++ dropFiller l ∧ ∀ f ∈ fillers, isFiller f = true := by
  fun_induction dropFiller l with
  | case1 name before more hfill ih =>
    obtain ⟨fillers, hl, hall⟩ := ih
    exact ⟨name :: fillers, by rw [List.cons_append, ← hl], by simpa [hfill] using hall⟩
  | case2 name before more hfill => exact ⟨[], by simp, by simp⟩
  | case3 l _ => exact ⟨[], by simp, by simp⟩

/-- What is left ends in a name that says something, or is a single name. -/
theorem head_dropFiller {l more : List RawText} {name before : RawText}
    (h : dropFiller l = name :: before :: more) : isFiller name = false := by
  fun_induction dropFiller l with
  | case1 _ _ _ _ ih => exact ih h
  | case2 first second rest hfill =>
    injection h with hname
    exact hname ▸ by simpa using hfill
  | case3 l hl => exact absurd h (hl name before more)

theorem dropFiller_dropFiller (l : List RawText) : dropFiller (dropFiller l) = dropFiller l := by
  fun_induction dropFiller l with
  | case1 name before more hfill ih => exact ih
  | case2 name before more hfill => simp [dropFiller, hfill]
  | case3 l hl =>
    rw [dropFiller]
    exact hl

theorem kept_kept (front : List RawText) : kept (kept front) = kept front := by
  simp only [kept, List.reverse_reverse, dropFiller_dropFiller]

theorem exists_kept (front : List RawText) :
    ∃ fillers, front = kept front ++ fillers ∧ ∀ f ∈ fillers, isFiller f = true := by
  obtain ⟨fillers, hl, hall⟩ := exists_fillers front.reverse
  refine ⟨fillers.reverse, ?_, fun f hf => hall f (List.mem_reverse.1 hf)⟩
  have := congrArg List.reverse hl
  simpa [kept] using this

theorem mem_of_mem_kept {front : List RawText} (h : name ∈ kept front) : name ∈ front := by
  obtain ⟨fillers, hsplit, -⟩ := exists_kept front
  rw [hsplit]
  exact List.mem_append_left _ h

theorem kept_ne_nil {front : List RawText} (h : front ≠ []) : kept front ≠ [] := by
  simpa [kept] using dropFiller_ne_nil (l := front.reverse) (by simpa using h)

/-- The name is one that something in a directory may have. -/
structure IsName (name : RawText) : Prop where
  ne_empty : name ≠ []
  ne_dot : name ≠ here
  ne_up : name ≠ up

/-- The path ends in the name of something in a directory, and this comes before it. -/
structure EndsIn (p : Path) (front : List RawText) (name : RawText) : Prop where
  names : p.names = front ++ [name]
  isName : IsName name

theorem IsName.isFiller_eq (h : IsName name) : isFiller name = false := by
  simp [isFiller, h.ne_empty, h.ne_dot]

namespace EndsIn

variable {front : List RawText}

theorem mem_names (h : p.EndsIn front name) : name ∈ p.names := by
  simp [h.names]

theorem slash_not_mem (h : p.EndsIn front name) : slash ∉ name :=
  Path.slash_not_mem h.mem_names

theorem slash_not_mem_front (h : p.EndsIn front name) : ∀ f ∈ front, slash ∉ f :=
  fun f hf => Path.slash_not_mem (p := p) (by simp [h.names, hf])

theorem unique {front' : List RawText} {name' : RawText} (h : p.EndsIn front name)
    (h' : p.EndsIn front' name') : front' = front ∧ name' = name := by
  have hsame := h.names.symm.trans h'.names
  obtain ⟨hfront, hname⟩ := List.append_inj' hsame rfl
  exact ⟨hfront.symm, (List.cons.inj hname).1.symm⟩

theorem fileName?_eq (h : p.EndsIn front name) : p.fileName? = some name := by
  have hdrop : dropFiller p.names.reverse = name :: front.reverse := by
    rw [h.names, List.reverse_append]
    cases front.reverse with
    | nil => rfl
    | cons before more => simp [dropFiller, h.isName.isFiller_eq]
  simp [fileName?, hdrop, h.isName.isFiller_eq, h.isName.ne_up]

theorem parent?_eq (h : p.EndsIn front name) :
    p.parent? = some (if front = [] then [] else ofReversed (dropFiller front.reverse)) := by
  have hreverse : p.names.reverse = name :: front.reverse := by simp [h.names]
  rw [parent?, parents, hreverse]
  cases hfront : front.reverse with
  | nil =>
    have : front = [] := by simpa using hfront
    simp [parentsOf, h.isName.ne_empty, this]
  | cons before more =>
    have : front ≠ [] := by
      rintro rfl
      simp at hfront
    simp [parentsOf, h.isName.isFiller_eq, this]

end EndsIn

/-- The directory that these names lead to, as a path: the root, or the names that are kept. -/
theorem ofReversed_dropFiller (front : List RawText) :
    (ofReversed (dropFiller front.reverse) = [slash] ∧ kept front = [[]]) ∨
      ofReversed (dropFiller front.reverse) = [slash].intercalate (kept front) ∧
        (kept front).getLast? ≠ some [] := by
  by_cases hroot : dropFiller front.reverse = [[]]
  · exact .inl ⟨by rw [hroot]; rfl, by simp [kept, hroot]⟩
  · refine .inr ⟨?_, ?_⟩
    · unfold ofReversed
      split
      · rename_i h
        exact absurd h hroot
      · rfl
    · rw [kept, List.getLast?_reverse]
      intro hlast
      cases hdrop : dropFiller front.reverse with
      | nil => simp [hdrop] at hlast
      | cons first more =>
        rw [hdrop, List.head?_cons, Option.some.injEq] at hlast
        subst hlast
        cases more with
        | nil => exact hroot hdrop
        | cons before more =>
          have := head_dropFiller hdrop
          simp [isFiller] at this

/-- The names of a directory are names of what lies in it. -/
theorem mem_of_mem_names_ofReversed {l : List RawText} (hslash : ∀ name ∈ l, slash ∉ name)
    (hl : l ≠ []) {name : RawText} (hname : name ∈ names (ofReversed (dropFiller l))) (hne : name ≠ []) :
    name ∈ l := by
  have hcases := ofReversed_dropFiller l.reverse
  rw [List.reverse_reverse] at hcases
  rcases hcases with ⟨hroot, -⟩ | ⟨hkept, -⟩
  · rw [hroot, show names [slash] = [[], []] from rfl] at hname
    simp [hne] at hname
  · have hall : ∀ kept' ∈ kept l.reverse, slash ∉ kept' := fun kept' hk =>
      hslash kept' (List.mem_reverse.1 (mem_of_mem_kept hk))
    rw [hkept, names_intercalate (kept_ne_nil (by simpa using hl)) hall] at hname
    exact List.mem_reverse.1 (mem_of_mem_kept hname)

/-- The paths above a path have its names. -/
theorem mem_names_of_mem_parents {p q : Path} (hq : q ∈ p.parents) {name : RawText}
    (hname : name ∈ q.names) (hne : name ≠ []) : name ∈ p.names := by
  suffices h : ∀ l : List RawText, (∀ part ∈ l, slash ∉ part) → q ∈ parentsOf l → name ∈ l by
    have hslash : ∀ part ∈ p.names.reverse, slash ∉ part := fun part hpart =>
      slash_not_mem (List.mem_reverse.1 hpart)
    exact List.mem_reverse.1 (h _ hslash hq)
  intro l hslash hq
  fun_induction parentsOf l with
  | case1 => cases hq
  | case2 => cases hq
  | case3 first hfirst =>
    rw [List.mem_singleton.1 hq, show names [] = [[]] from rfl] at hname
    exact absurd (List.mem_singleton.1 hname) hne
  | case4 last before more hfiller ih =>
    exact List.mem_cons_of_mem _ (ih (fun part hpart => hslash part (List.mem_cons_of_mem _ hpart)) hq)
  | case5 last before more hfiller ih =>
    have hslash' : ∀ part ∈ before :: more, slash ∉ part := fun part hpart =>
      hslash part (List.mem_cons_of_mem _ hpart)
    rcases List.mem_cons.1 hq with rfl | hq
    · exact List.mem_cons_of_mem _ (mem_of_mem_names_ofReversed hslash' (by simp) hname hne)
    · exact List.mem_cons_of_mem _ (ih hslash' hq)

/-- A path of names does not end in a slash, unless its last name is empty. -/
theorem getLast?_intercalate {l : List RawText} (hne : l ≠ []) (hlast : l.getLast? ≠ some [])
    (h : ∀ name ∈ l, slash ∉ name) :
    ∃ b, ([slash].intercalate l).getLast? = some b ∧ b ≠ slash := by
  rcases List.eq_nil_or_concat l with rfl | ⟨init, last, rfl⟩
  · exact absurd rfl hne
  · rw [List.concat_eq_append] at h hlast ⊢
    have hend : ∃ front, [slash].intercalate (init ++ [last]) = front ++ last := by
      by_cases hinit : init = []
      · exact ⟨[], by simp [hinit]⟩
      · rw [intercalate_append hinit (by simp)]
        exact ⟨[slash].intercalate init ++ [slash], by simp⟩
    obtain ⟨front, hfront⟩ := hend
    have hslash : slash ∉ last := h last (by simp)
    rw [hfront, List.getLast?_append]
    cases hb : last.getLast? with
    | none =>
      have hnil := List.getLast?_eq_none_iff.1 hb
      exact absurd (by simp [hnil]) hlast
    | some b =>
      refine ⟨b, rfl, ?_⟩
      rintro rfl
      exact hslash (List.mem_of_getLast? hb)

/-- The names of a path with another last name. -/
theorem names_withFileName {front : List RawText} {other : RawText} (h : p.EndsIn front name)
    (hslash : slash ∉ other) : names (withFileName p other) = kept front ++ [other] := by
  have hrelative := isAbsolute_of_slash_not_mem hslash
  have hwith : withFileName p other = join (if front = [] then [] else
      ofReversed (dropFiller front.reverse)) other := by
    simp [withFileName, h.fileName?_eq, h.parent?_eq]
  rw [hwith]
  by_cases hfront : front = []
  · subst hfront
    simp [join, hrelative, kept, dropFiller, names_of_slash_not_mem hslash]
  · rw [if_neg hfront]
    rcases ofReversed_dropFiller front with ⟨hdir, hkept⟩ | ⟨hdir, hlast⟩
    · rw [hdir, hkept]
      have hroot : join [slash] other = [] ++ slash :: other := by simp [join, hrelative]
      rw [hroot, names_append_slash, names_of_slash_not_mem hslash]
      rfl
    · have hnames : ∀ f ∈ kept front, slash ∉ f := by
        intro f hf
        obtain ⟨fillers, hsplit, _⟩ := exists_kept front
        exact h.slash_not_mem_front f (by rw [hsplit]; simp [hf])
      obtain ⟨b, hb, hbslash⟩ := getLast?_intercalate (kept_ne_nil hfront) hlast hnames
      have hempty : ([slash].intercalate (kept front)).isEmpty = false := by
        have hne : [slash].intercalate (kept front) ≠ [] := fun he => by simp [he] at hb
        simpa using hne
      have hjoin : join ([slash].intercalate (kept front)) other
          = [slash].intercalate (kept front) ++ slash :: other := by
        simp only [join, hrelative, hempty, hb]
        simp [hbslash]
      rw [hdir, hjoin, names_append_slash, names_intercalate (kept_ne_nil hfront) hnames,
        names_of_slash_not_mem hslash]

/-- The first name is kept, so the path starts where it did. -/
theorem isAbsolute_withFileName {front : List RawText} {other : RawText} (h : p.EndsIn front name)
    (hslash : slash ∉ other) : isAbsolute (withFileName p other) = p.isAbsolute := by
  have hnames := names_withFileName h hslash
  obtain ⟨fillers, hsplit, _⟩ := exists_kept front
  cases hkept : kept front with
  | nil =>
    have hfront : front = [] := by
      rcases Decidable.em (front = []) with hf | hf
      · exact hf
      · exact absurd hkept (kept_ne_nil hf)
    have hp : p = name := by
      rw [← intercalate_names p, h.names, hfront]
      simp
    have hq : withFileName p other = other := by
      rw [← intercalate_names (withFileName p other), hnames, hkept]
      simp
    rw [hq, isAbsolute_of_slash_not_mem hslash, hp,
      isAbsolute_of_slash_not_mem h.slash_not_mem]
  | cons first more =>
    have hp : ∃ second rest, p.names = first :: second :: rest := by
      rw [h.names, hsplit, hkept]
      cases more with
      | nil => cases fillers <;> exact ⟨_, _, rfl⟩
      | cons second rest => exact ⟨second, rest ++ fillers ++ [name], by simp⟩
    have hq : ∃ second rest, names (withFileName p other) = first :: second :: rest := by
      rw [hnames, hkept]
      cases more <;> exact ⟨_, _, rfl⟩
    obtain ⟨second, rest, hp⟩ := hp
    obtain ⟨second', rest', hq⟩ := hq
    rw [Bool.eq_iff_iff, isAbsolute_iff hp, isAbsolute_iff hq]

/-! ## A name behind a directory -/

/-- The last name of a path is one that a file may have. -/
theorem isName_of_fileName? (h : p.fileName? = some name) :
    IsName name ∧ slash ∉ name := by
  unfold fileName? at h
  split at h
  · rename_i last before hdrop
    split at h
    · cases h
    · rename_i hplain
      obtain rfl := Option.some.inj h
      obtain ⟨fillers, hnames, -⟩ := exists_fillers p.names.reverse
      have hmem : last ∈ p.names.reverse := by
        rw [hnames, hdrop]
        simp
      refine ⟨?_, slash_not_mem (List.mem_reverse.1 hmem)⟩
      simp only [isFiller, Bool.or_eq_true, List.isEmpty_iff, beq_iff_eq, not_or] at hplain
      exact ⟨hplain.1.1, hplain.1.2, hplain.2⟩
  · cases h

/-- A name that is added to a directory stands alone or comes behind a slash, whatever it is. -/
theorem exists_join_eq (directory : Path) :
    (∀ name, slash ∉ name → join directory name = name) ∨
      ∃ front : Path, ∀ name, slash ∉ name → join directory name = front ++ slash :: name := by
  by_cases hempty : directory = []
  · refine .inl fun name hslash => ?_
    simp [join, hempty, isAbsolute_of_slash_not_mem hslash]
  · by_cases hlast : directory.getLast? = some slash
    · obtain ⟨front, rfl⟩ := List.getLast?_eq_some_iff.1 hlast
      refine .inr ⟨front, fun name hslash => ?_⟩
      simp [join, isAbsolute_of_slash_not_mem hslash]
    · refine .inr ⟨directory, fun name hslash => ?_⟩
      simp [join, isAbsolute_of_slash_not_mem hslash, hempty, hlast]

/-- It comes behind the names of the directory. -/
theorem exists_endsIn_join (directory : Path) :
    ∃ front, ∀ name, IsName name → slash ∉ name →
      (join directory name).EndsIn front name := by
  rcases exists_join_eq directory with hjoin | ⟨front, hjoin⟩
  · refine ⟨[], fun name hname hslash => ⟨?_, hname⟩⟩
    rw [hjoin name hslash, names_of_slash_not_mem hslash, List.nil_append]
  · refine ⟨front.names, fun name hname hslash => ⟨?_, hname⟩⟩
    rw [hjoin name hslash, names_append_slash, names_of_slash_not_mem hslash]

theorem fileName?_join {name : RawText} (hname : IsName name) (hslash : slash ∉ name)
    (place : Path) : fileName? (join place name) = some name := by
  obtain ⟨front, hfront⟩ := exists_endsIn_join place
  exact (hfront name hname hslash).fileName?_eq

/-! ## The directory -/

/-- What a directory of a path is: a beginning of the path that has the names that are kept. The root
has an empty name more. -/
structure IsDirectoryOf (dir p : Path) (front : List RawText) : Prop where
  ne_empty : dir ≠ []
  front_ne_nil : front ≠ []
  beginning : ∃ rest, p = dir ++ rest
  names : dir.names = kept front ∨ kept front = [[]] ∧ dir.names = [[], []]

/-- The names before the last one lead to the directory. -/
theorem isDirectoryOf_ofReversed {front : List RawText} (hp : p.names = front ++ [name])
    (hfront : front ≠ []) : IsDirectoryOf (ofReversed (dropFiller front.reverse)) p front := by
  obtain ⟨fillers, hsplit, _⟩ := exists_kept front
  have hnames : ∀ f ∈ kept front, slash ∉ f := fun f hf =>
    slash_not_mem (p := p) (by rw [hp]; exact List.mem_append_left _ (mem_of_mem_kept hf))
  have hcut : p = [slash].intercalate (kept front)
      ++ slash :: [slash].intercalate (fillers ++ [name]) := by
    rw [← intercalate_names p, hp]
    conv => lhs; rw [hsplit, List.append_assoc]
    rw [intercalate_append (kept_ne_nil hfront) (by simp)]
  rcases ofReversed_dropFiller front with ⟨hroot, hkept⟩ | ⟨hdir, hlast⟩
  · rw [hroot]
    refine ⟨by decide, hfront, ?_, .inr ⟨hkept, rfl⟩⟩
    rw [hcut, hkept]
    exact ⟨[slash].intercalate (fillers ++ [name]), by simp⟩
  · rw [hdir]
    refine ⟨?_, hfront, ⟨_, hcut⟩, .inl ?_⟩
    · obtain ⟨b, hb, -⟩ := getLast?_intercalate (kept_ne_nil hfront) hlast hnames
      intro hempty
      simp [hempty] at hb
    · rw [names_intercalate (kept_ne_nil hfront) hnames]

theorem isDirectoryOf {dir : Path} {front : List RawText} (h : p.EndsIn front name)
    (hdir : p.directory? = some dir) : dir.IsDirectoryOf p front := by
  obtain ⟨hparent, hnonempty⟩ := Option.filter_eq_some_iff.1 hdir
  rw [h.parent?_eq, Option.some.injEq] at hparent
  have hfront : front ≠ [] := by
    rintro rfl
    simp [← hparent] at hnonempty
  rw [if_neg hfront] at hparent
  exact hparent ▸ isDirectoryOf_ofReversed h.names hfront

theorem IsDirectoryOf.isAbsolute_eq {dir : Path} {front : List RawText}
    (h : dir.IsDirectoryOf p front) : dir.isAbsolute = p.isAbsolute := by
  obtain ⟨rest, rfl⟩ := h.beginning
  cases dir with
  | nil => exact absurd rfl h.ne_empty
  | cons b more => rfl

end ForeignModule.Path
