import ForeignModule.Native.Declaration
import ForeignModule.Proofs.Signature.CHeader
import ForeignModule.Proofs.Token.Reading
import Mathlib.Data.List.Forall2

/-!
# What forwarding functions declare

The source of the forwarding functions is read back as a C source: it declares one function for each signature,
with its name and its parameters, and every type in it is passed as the Kotlin type that it stands for
(`ofC_forwarding`). The library is bound by the Kotlin types and called through these functions, so this is what
keeps the two together.

* The tables of Kotlin and C types agree (`passed_cType`);
* each line is a prototype and a body (`reads_line`), and the whole source a block of such lines
  (`reads_source`).
-/

namespace ForeignModule

namespace Abi

/-- How a value is passed: a function goes as its address. -/
def Tag.passed : Tag → Tag
  | function => pointer
  | tag => tag

namespace KotlinType

/-! ## The tables of types -/

theorem tag_konan (text : String) :
    (SlotType.ofText .konan text).tag = (table.lookup (simpleName text)).getD .void := by
  unfold SlotType.ofText tag?
  cases table.lookup (simpleName text) <;> rfl

/-- The C type of a forwarding function is passed as the Kotlin type for which it stands. -/
theorem passed_cType (text : String) : (SlotType.ofText .clang (cType text)).tag.passed
    = (SlotType.ofText .konan text).tag.passed := by
  rw [tag_konan, cType]
  generalize simpleName text = name
  by_cases hname : name ∈ table.map Prod.fst
  · have hknown : ∀ name ∈ table.map Prod.fst,
        (SlotType.ofText .clang ((cTable.lookup name).getD "void")).tag.passed
          = ((table.lookup name).getD .void).passed := by decide
    exact hknown name hname
  · -- A name that is in neither table stands for no value at all.
    have hsub : cTable.map Prod.fst ⊆ table.map Prod.fst := by decide
    have hnone : ∀ {β : Type} (l : List (String × β)), l.map Prod.fst ⊆ table.map Prod.fst →
        l.lookup name = none := by
      intro β l hl
      rw [List.lookup_eq_none_iff]
      intro row hrow
      simp only [bne_iff_ne, ne_eq]
      rintro rfl
      exact hname (hl (List.mem_map_of_mem hrow))
    rw [hnone cTable hsub, hnone table (List.Subset.refl _)]
    decide

/-! ## How the C types are written -/

/-- The C types of the forwarding functions. -/
def cTypes : List String := "void" :: cTable.map Prod.snd

theorem cType_mem (text : String) : cType text ∈ cTypes := by
  unfold cType cTypes
  cases hfound : cTable.lookup (simpleName text) with
  | none => exact List.mem_cons_self
  | some type =>
    obtain ⟨before, after, hsplit, -⟩ := List.lookup_eq_some_iff.1 hfound
    simp [hsplit]

/-- The words and stars of a C type. -/
def kinds (type : String) : List Token.Kind :=
  (CType.parts type.toList).map fun
    | .star => .star
    | .word w => .identifier (.ofList w)

/-- A C type is written with words and stars, and its first word starts no statement. -/
theorem exists_kinds (text : String) : ∃ word ks, Token.Kind.render (.identifier word :: ks) = cType text ∧
    (∀ k ∈ .identifier word :: ks, k.spellsType = true) ∧ word ∉ Signature.CHeader.otherStarts := by
  have hkinds : ∀ type ∈ cTypes, Token.Kind.render (kinds type) = type ∧
      (∀ k ∈ kinds type, k.spellsType = true) ∧
      ((kinds type).head?.bind Token.Kind.identifier?).any (· ∉ Signature.CHeader.otherStarts) = true := by
    decide
  obtain ⟨hrender, hspells, hfirst⟩ := hkinds _ (cType_mem text)
  generalize kinds (cType text) = ks at hrender hspells hfirst
  cases ks with
  | nil => cases hfirst
  | cons k ks =>
    cases k with
    | identifier word => exact ⟨word, ks, hrender, hspells, by simpa [Token.Kind.identifier?] using hfirst⟩
    | _ => cases hfirst

end KotlinType

end Abi

namespace Forwarding

open Abi Token Signature.CHeader

/-- What a forwarding function declares. -/
def declared (s : Signature) : Signature where
  name := s.name
  result := KotlinType.cType s.result
  parameters := s.parameters.map fun p => { p with type := KotlinType.cType p.type }

section

variable {fresh : Bool} {rest : List Char}

theorem endsWord_cons {c : Char} (h : Source.isWordPart c = false) : EndsWord (c :: rest) := by
  intro a ha
  cases ha
  exact h

theorem endsBlank_cons {c : Char} (h : Source.isBlank c = false) : EndsBlank (c :: rest) := by
  intro a ha
  cases ha
  exact h

/-! ## Parts between commas -/

theorem isTypePart_of_spells {ks : List Kind} {startsLine : Bool} {tokens : List Token}
    (h : ∀ k ∈ ks, k.spellsType = true) (hs : Spells ks startsLine tokens) :
    ∀ t ∈ tokens, isTypePart t = true := by
  intro t ht
  have hk := h t.kind (hs.1 ▸ List.mem_map_of_mem ht)
  rw [isTypePart_iff]
  cases hkind : t.kind with
  | identifier w => exact .inr ⟨w, rfl⟩
  | star => exact .inl rfl
  | _ =>
    rw [hkind] at hk
    cases hk

/-- A type that is read: its tokens spell it, and it may start a header. -/
structure IsType (text : String) (startsLine : Bool) (tokens : List Token) : Prop where
  exists_first : ∃ first more word, tokens = first :: more ∧ first.kind = .identifier word ∧
    word ∉ otherStarts ∧ first.startsLine = startsLine
  typed : ∀ t ∈ tokens, isTypePart t = true
  render_eq : Token.render tokens = KotlinType.cType text

theorem reads_type (text : String) (hrest : EndsWord rest) :
    Reads .c fresh false (KotlinType.cType text).toList rest (IsType text fresh) := by
  obtain ⟨word, ks, hrender, hspells, hword⟩ := KotlinType.exists_kinds text
  rw [← hrender]
  refine (reads_render hspells hrest).mono fun tokens hs => ?_
  refine ⟨?_, isTypePart_of_spells hspells hs, by rw [Token.render, hs.1, hrender]⟩
  obtain ⟨hkinds, hstarts⟩ := hs
  cases tokens with
  | nil => cases hkinds
  | cons first more => exact ⟨first, more, word, rfl, (List.cons.inj hkinds).1, hword, hstarts first rfl⟩

theorem endsBlank_type (text : String) : EndsBlank ((KotlinType.cType text).toList ++ rest) := by
  obtain ⟨word, ks, hrender, hspells, -⟩ := KotlinType.exists_kinds text
  rw [← hrender]
  exact endsBlank_render (hspells _ List.mem_cons_self)

theorem endsBlank_word {w : String} (h : IsWord w) : EndsBlank (w.toList ++ rest) := by
  have hspells : (Kind.identifier w).spellsType = true := decide_eq_true h
  have hblank : EndsBlank ((Kind.render [.identifier w]).toList ++ rest) := endsBlank_render hspells
  simpa [Kind.render, Kind.text] using hblank

/-- Parts between commas, one for each of these. -/
structure CommaList {α : Type} (Q : α → List Token → Prop) (xs : List α) (tokens : List Token) : Prop where
  exists_parts : ∃ parts, Separated .comma tokens parts ∧ List.Forall₂ Q xs parts
  typed : ∀ t ∈ tokens, isTypePart t = true ∨ t.kind = .comma

theorem reads_commaList {α : Type} {text : α → List Char} {Q : α → List Token → Prop} {xs : List α}
    (hread : ∀ x ∈ xs, ∀ rest, EndsWord rest → Reads .c false false (text x) rest (Q x))
    (hblank : ∀ x ∈ xs, ∀ rest, EndsBlank (text x ++ rest))
    (hpart : ∀ x ∈ xs, ∀ tokens, Q x tokens → tokens ≠ [] ∧ ∀ t ∈ tokens, isTypePart t = true)
    (hrest : EndsWord rest) :
    Reads .c false false ([',', ' '].intercalate (xs.map text)) rest (CommaList Q xs) := by
  have houter : ∀ x ∈ xs, ∀ tokens, Q x tokens → Outer (·.kind ≠ .comma) tokens := by
    intro x hx tokens hq
    apply Outer.of_forall
    intro t ht
    rcases isTypePart_iff.1 ((hpart x hx tokens hq).2 t ht) with hk | ⟨w, hk⟩ <;> simp [hk, Kind.nesting]
  induction xs with
  | nil => exact .nil ⟨⟨[], .nil, .nil⟩, by simp⟩
  | cons x xs ih =>
    have hx := List.mem_cons_self (a := x) (l := xs)
    have hmem : ∀ y ∈ xs, y ∈ x :: xs := fun y hy => List.mem_cons_of_mem _ hy
    cases xs with
    | nil =>
      rw [List.map_cons, List.map_nil, List.intercalate_singleton]
      refine (hread x hx rest hrest).mono fun tokens hq => ?_
      obtain ⟨hne, htyped⟩ := hpart x hx tokens hq
      exact ⟨⟨[tokens], .single hne (houter x hx tokens hq), .cons hq .nil⟩, fun t ht => .inl (htyped t ht)⟩
    | cons y xs =>
      have htail : Reads .c false false ([',', ' '].intercalate ((y :: xs).map text)) rest
          (CommaList Q (y :: xs)) :=
        ih (fun z hz => hread z (hmem z hz)) (fun z hz => hblank z (hmem z hz))
          (fun z hz => hpart z (hmem z hz)) (fun z hz => houter z (hmem z hz))
      have hhead : EndsBlank ([',', ' '].intercalate ((y :: xs).map text) ++ rest) := by
        cases xs with
        | nil => simpa using hblank y (hmem y List.mem_cons_self) rest
        | cons z xs =>
          rw [List.map_cons, List.map_cons, List.intercalate_cons_cons, List.append_assoc, List.append_assoc]
          exact hblank y (hmem y List.mem_cons_self) _
      have hspaced : Reads .c false false ([' '] ++ [',', ' '].intercalate ((y :: xs).map text)) rest
          (CommaList Q (y :: xs)) := htail.afterSpace hhead
      have hcomma : Reads .c false false ([','] ++ ([' '] ++ [',', ' '].intercalate ((y :: xs).map text))) rest
          fun tokens => ∃ (t : Of .comma) (more : List Token), tokens = t.1 :: more ∧
            CommaList Q (y :: xs) more := by
        refine (reads_sign rfl rfl).append hspaced ?_
        rintro _ more ⟨t, rfl, -⟩ hlist
        exact ⟨t, more, rfl, hlist⟩
      have hboth : Reads .c false false
          (text x ++ ([','] ++ ([' '] ++ [',', ' '].intercalate ((y :: xs).map text)))) rest
          (CommaList Q (x :: y :: xs)) := by
        refine (hread x hx _ (endsWord_cons rfl)).append hcomma ?_
        rintro tokens _ hq ⟨t, more, rfl, ⟨parts, hsep, hall⟩, hmore⟩
        obtain ⟨hne, htyped⟩ := hpart x hx tokens hq
        refine ⟨⟨tokens :: parts, .cons hne (houter x hx tokens hq) t.2 hsep, .cons hq hall⟩, ?_⟩
        intro u hu
        rcases List.mem_append.1 hu with hu | hu
        · exact .inl (htyped u hu)
        · rcases List.mem_cons.1 hu with rfl | hu
          · exact .inr t.2
          · exact hmore u hu
      simpa [List.intercalate_cons_cons] using hboth

/-! ## Parameters -/

/-- A parameter that is read: its type, which is not empty, and then its name. -/
def IsParameter (p : Parameter) (tokens : List Token) : Prop :=
  ∃ d : Declared, tokens = d.tokens ∧ d.parameter = { p with type := KotlinType.cType p.type } ∧ d.type ≠ []

theorem reads_parameter {p : Parameter} (hname : IsWord p.name) (hrest : EndsWord rest) :
    Reads .c false false ((KotlinType.cType p.type).toList ++ ([' '] ++ p.name.toList)) rest (IsParameter p) := by
  have hspaced : Reads .c false false ([' '] ++ p.name.toList) rest (Single (.identifier p.name) false) :=
    (reads_word hname hrest).afterSpace (endsBlank_word hname)
  have htype : Reads .c false false (KotlinType.cType p.type).toList ([' '] ++ p.name.toList ++ rest)
      (IsType p.type false) := reads_type p.type (endsWord_cons rfl)
  refine htype.append hspaced ?_
  rintro type _ htype ⟨t, rfl, -⟩
  refine ⟨⟨type, p.name, t, htype.typed⟩, rfl, ?_, ?_⟩
  · simp [Declared.parameter, htype.render_eq]
  · obtain ⟨first, more, _, rfl, -⟩ := htype.exists_first
    simp

theorem IsParameter.typed {p : Parameter} {tokens : List Token} (h : IsParameter p tokens) :
    2 ≤ tokens.length ∧ ∀ t ∈ tokens, isTypePart t = true := by
  obtain ⟨d, rfl, -, htype⟩ := h
  constructor
  · have := List.length_pos_iff.2 htype
    simp only [Declared.tokens, List.length_append, List.length_singleton]
    omega
  · intro t ht
    rcases List.mem_append.1 ht with ht | ht
    · exact d.typed t ht
    · rw [List.mem_singleton.1 ht]
      exact isTypePart_iff.2 (.inr ⟨_, d.nameToken.2⟩)

/-- Parameters of two tokens and more are no single `void`. -/
theorem length_ne_one {tokens : List Token} {parts : List (List Token)} (h : Separated .comma tokens parts)
    (hparts : ∀ part ∈ parts, 2 ≤ part.length) : tokens.length ≠ 1 := by
  cases h with
  | nil => simp
  | single _ _ =>
    have := hparts tokens List.mem_cons_self
    omega
  | @cons part rest _ _ _ _ _ _ =>
    have := hparts part List.mem_cons_self
    simp only [List.length_append, List.length_cons]
    omega

theorem exists_declared {ps : List Parameter} {parts : List (List Token)}
    (h : List.Forall₂ IsParameter ps parts) : ∃ ds : List Declared, parts = ds.map Declared.tokens ∧
      ds.map Declared.parameter = ps.map (fun p => { p with type := KotlinType.cType p.type }) ∧
      ∀ part ∈ parts, 2 ≤ part.length := by
  induction h with
  | nil => exact ⟨[], rfl, rfl, by simp⟩
  | cons hp _ ih =>
    have hlong := hp.typed.1
    obtain ⟨d, rfl, hd, -⟩ := hp
    obtain ⟨ds, rfl, hds, hparts⟩ := ih
    exact ⟨d :: ds, rfl, by simp [hd, hds], List.forall_mem_cons.2 ⟨hlong, hparts⟩⟩

/-- The text of the parameters, in parentheses. -/
def listText (s : Signature) : List Char :=
  ['('] ++ ([',', ' '].intercalate (s.parameters.map fun p =>
    (KotlinType.cType p.type).toList ++ ([' '] ++ p.name.toList)) ++ [')'])

/-- The parameters in parentheses are read as what is declared. -/
theorem reads_list {s : Signature} (h : ∀ p ∈ s.parameters, IsWord p.name) :
    Reads .c false false (listText s) rest fun tokens => ∃ g : Group .paren, tokens = g.tokens ∧
      ParameterList g.inside (declared s).parameters := by
  have hinside : Reads .c false false ([',', ' '].intercalate (s.parameters.map fun p =>
      (KotlinType.cType p.type).toList ++ ([' '] ++ p.name.toList))) ([')'] ++ rest)
      (CommaList IsParameter s.parameters) := by
    apply reads_commaList
    · intro p hp rest hrest
      exact reads_parameter (h p hp) hrest
    · intro p hp rest
      rw [List.append_assoc]
      exact endsBlank_type p.type
    · intro p hp tokens hq
      have := hq.typed
      exact ⟨by rintro rfl; simp at this, this.2⟩
    · exact endsWord_cons rfl
  have hclosed : Reads .c false false ([',', ' '].intercalate (s.parameters.map fun p =>
      (KotlinType.cType p.type).toList ++ ([' '] ++ p.name.toList)) ++ [')']) rest fun tokens =>
        ∃ (inside : List Token) (last : Of (.closing .paren)), tokens = inside ++ [last.1] ∧
          CommaList IsParameter s.parameters inside := by
    refine hinside.append (reads_sign (k := .closing .paren) rfl rfl) ?_
    rintro inside _ hlist ⟨last, rfl, -⟩
    exact ⟨inside, last, rfl, hlist⟩
  refine (reads_sign (k := .opening .paren) rfl rfl).append hclosed ?_
  rintro _ _ ⟨first, rfl, -⟩ ⟨inside, last, rfl, ⟨parts, hsep, hall⟩, -⟩
  obtain ⟨ds, rfl, hds, hlong⟩ := exists_declared hall
  have hlist : ParameterList inside (ds.map Declared.parameter) := by
    refine .declared ds hsep fun t ht => length_ne_one hsep hlong ?_
    rw [ht]
    rfl
  refine ⟨⟨first, inside, last, (hsep.nested rfl).balanced .paren⟩, rfl, ?_⟩
  rw [declared, ← hds]
  exact hlist

/-! ## Bodies -/

/-- The token is no brace. -/
def Unbraced (t : Token) : Prop := t.kind ≠ .opening .brace ∧ t.kind ≠ .closing .brace

theorem unbraced_single {k : Kind} {text : List Char} {startsLine : Bool}
    (h : Reads .c false false text rest (Single k startsLine))
    (hk : k ≠ .opening .brace ∧ k ≠ .closing .brace) :
    Reads .c false false text rest fun tokens => ∀ t ∈ tokens, Unbraced t := by
  refine h.mono ?_
  rintro tokens ⟨t, rfl, -⟩ u hu
  rw [List.mem_singleton.1 hu, Unbraced, t.2]
  exact hk

theorem unbraced_word {w : String} (h : IsWord w) (hrest : EndsWord rest) :
    Reads .c false false w.toList rest fun tokens => ∀ t ∈ tokens, Unbraced t :=
  unbraced_single (reads_word h hrest) ⟨nofun, nofun⟩

theorem unbraced_sign {c : Char} {k : Kind} (hscan : Source.scan .c false c rest = Source.single k)
    (hline : endsLine c = false) (hk : k ≠ .opening .brace ∧ k ≠ .closing .brace) :
    Reads .c false false [c] rest fun tokens => ∀ t ∈ tokens, Unbraced t :=
  unbraced_single (reads_sign hscan hline) hk

theorem unbraced_space (hrest : EndsBlank rest) :
    Reads .c false false [' '] rest fun tokens => ∀ t ∈ tokens, Unbraced t :=
  (reads_space hrest).mono fun tokens hempty => by simp [hempty]

/-- The arguments of a call hold no brace. -/
theorem unbraced_arguments {names : List String} (h : ∀ name ∈ names, IsWord name) (hrest : EndsWord rest) :
    Reads .c false false ([',', ' '].intercalate (names.map String.toList)) rest fun tokens =>
      ∀ t ∈ tokens, Unbraced t := by
  have hlist : Reads .c false false ([',', ' '].intercalate (names.map String.toList)) rest
      (CommaList (fun name => Single (.identifier name) false) names) := by
    apply reads_commaList
    · intro name hname rest hrest
      exact reads_word (h name hname) hrest
    · intro name hname rest
      exact endsBlank_word (h name hname)
    · rintro name hname _ ⟨t, rfl, -⟩
      constructor
      · simp
      · intro u hu
        rw [List.mem_singleton.1 hu]
        exact isTypePart_iff.2 (.inr ⟨name, t.2⟩)
    · exact hrest
  refine hlist.mono fun tokens hread t ht => ?_
  unfold Unbraced
  rcases hread.typed t ht with htyped | hcomma
  · rcases isTypePart_iff.1 htyped with hk | ⟨w, hk⟩ <;> simp [hk]
  · simp [hcomma]

theorem unbraced_arrow : Reads .c false false ['-', '>'] rest fun tokens => ∀ t ∈ tokens, Unbraced t :=
  unbraced_single (.token (k := .arrow) rfl rfl) (by simp)

/-- The name of a table of symbols may start with a digit. -/
theorem unbraced_wordlike {text : List Char} (hne : text ≠ []) (h : ∀ c ∈ text, Source.isWordPart c = true)
    (hrest : ∀ c ∈ rest.head?, Source.isWordPart c = false ∧ c ≠ '.' ∧ c ≠ '\'') :
    Reads .c false false text rest fun tokens => ∀ t ∈ tokens, Unbraced t := by
  refine (reads_wordlike hne h hrest).mono fun tokens hword t ht => ?_
  have hk := hword t ht
  constructor <;> intro hbrace <;> rw [hbrace] at hk <;> cases hk

/-- The call of the library's function, up to the end of the body. -/
def call (s : Signature) : List Char :=
  s.name.toList ++ (['('] ++ ([',', ' '].intercalate ((s.parameters.map Parameter.name).map String.toList)
    ++ ([')'] ++ ([';'] ++ [' ']))))

/-- The text of a body between its braces. -/
def inside (library : String) (s : Signature) : List Char :=
  [' '] ++ ("return".toList ++ ([' '] ++ ((library ++ "_symbols").toList ++ (['('] ++ ([')'] ++ (['-', '>'] ++
    ("kotlin".toList ++ (['.'] ++ ("root".toList ++ (['.'] ++ call s))))))))))

theorem unbraced_call {s : Signature} (hname : IsWord s.name)
    (hparameters : ∀ p ∈ s.parameters, IsWord p.name) :
    Reads .c false false (call s) ('\x7d' :: rest) fun tokens => ∀ t ∈ tokens, Unbraced t := by
  have hnames : ∀ name ∈ s.parameters.map Parameter.name, IsWord name := by
    intro name hname
    obtain ⟨p, hp, rfl⟩ := List.mem_map.1 hname
    exact hparameters p hp
  unfold call
  refine .append_forall (unbraced_word hname (endsWord_cons rfl)) ?_
  refine .append_forall (unbraced_sign (k := .opening .paren) rfl rfl (by simp)) ?_
  refine .append_forall (unbraced_arguments hnames (endsWord_cons rfl)) ?_
  refine .append_forall (unbraced_sign (k := .closing .paren) rfl rfl (by simp)) ?_
  refine .append_forall (unbraced_sign (k := .semicolon) rfl rfl (by simp)) ?_
  exact unbraced_space (endsBlank_cons rfl)

theorem unbraced_inside {library : String} {s : Signature}
    (hlibrary : ∀ c ∈ library.toList, Source.isWordPart c = true) (hname : IsWord s.name)
    (hparameters : ∀ p ∈ s.parameters, IsWord p.name) :
    Reads .c false false (inside library s) ('\x7d' :: rest) fun tokens => ∀ t ∈ tokens, Unbraced t := by
  have hsymbols : ∀ c ∈ (library ++ "_symbols").toList, Source.isWordPart c = true := by
    intro c hc
    rw [String.toList_append, List.mem_append] at hc
    rcases hc with hc | hc
    · exact hlibrary c hc
    · have hsuffix : "_symbols".toList.all Source.isWordPart = true := by decide
      exact List.all_eq_true.1 hsuffix c hc
  have hne : (library ++ "_symbols").toList ≠ [] := by simp
  have hblank : ∀ more, EndsBlank ((library ++ "_symbols").toList ++ more) := by
    intro more c hc
    rw [List.head?_append_of_ne_nil _ hne] at hc
    exact isBlank_of_isWordPart (hsymbols c (List.mem_of_mem_head? hc))
  unfold inside
  refine .append_forall (unbraced_space (endsBlank_cons rfl)) ?_
  refine .append_forall (unbraced_word (by decide) (endsWord_cons rfl)) ?_
  refine .append_forall (unbraced_space ?_) ?_
  · rw [List.append_assoc]
    exact hblank _
  refine .append_forall (unbraced_wordlike hne hsymbols ?_) ?_
  · intro c hc
    cases hc
    decide
  refine .append_forall (unbraced_sign (k := .opening .paren) rfl rfl (by simp)) ?_
  refine .append_forall (unbraced_sign (k := .closing .paren) rfl rfl (by simp)) ?_
  refine .append_forall unbraced_arrow ?_
  refine .append_forall (unbraced_word (by decide) (endsWord_cons rfl)) ?_
  refine .append_forall (unbraced_sign (k := .dot) rfl rfl (by simp)) ?_
  refine .append_forall (unbraced_word (by decide) (endsWord_cons rfl)) ?_
  exact .append_forall (unbraced_sign (k := .dot) rfl rfl (by simp)) (unbraced_call hname hparameters)

/-- The text of a body. -/
def bodyText (library : String) (s : Signature) : List Char := ['\x7b'] ++ (inside library s ++ ['\x7d'])

/-- A body is read as a block that holds no other. -/
theorem reads_body {library : String} {s : Signature}
    (hlibrary : ∀ c ∈ library.toList, Source.isWordPart c = true) (hname : IsWord s.name)
    (hparameters : ∀ p ∈ s.parameters, IsWord p.name) :
    Reads .c false false (bodyText library s) rest fun tokens => ∃ body : Group .brace, tokens = body.tokens := by
  have hclosed : Reads .c false false (inside library s ++ ['\x7d']) rest fun tokens =>
      ∃ (inside : List Token) (last : Of (.closing .brace)), tokens = inside ++ [last.1] ∧
        ∀ t ∈ inside, Unbraced t := by
    refine (unbraced_inside hlibrary hname hparameters).append (reads_sign (k := .closing .brace) rfl rfl) ?_
    rintro inside _ hinside ⟨last, rfl, -⟩
    exact ⟨inside, last, rfl, hinside⟩
  refine (reads_sign (k := .opening .brace) rfl rfl).append hclosed ?_
  rintro _ _ ⟨first, rfl, -⟩ ⟨inside, last, rfl, hinside⟩
  exact ⟨⟨first, inside, last, .of_forall hinside⟩, rfl⟩

/-! ## Lines -/

/-- The text of a prototype. -/
def headText (s : Signature) : List Char :=
  (KotlinType.cType s.result).toList ++ ([' '] ++ (s.name.toList ++ listText s))

theorem toList_line (library : String) (s : Signature) :
    (line library s).toList = headText s ++ ([' '] ++ (bodyText library s ++ ['\n'])) := by
  simp [line, headText, listText, bodyText, inside, call, Function.comp_def]

/-- The names in a signature are words. -/
def Plain (s : Signature) : Prop := IsWord s.name ∧ ∀ p ∈ s.parameters, IsWord p.name

instance (s : Signature) : Decidable (Plain s) :=
  inferInstanceAs (Decidable (_ ∧ ∀ p ∈ s.parameters, IsWord p.name))

/-- What stands before a body is read as the prototype of what is declared. -/
theorem reads_head {s : Signature} (h : Plain s) : Reads .c true false (headText s) rest fun tokens =>
    ∃ p : Prototype, tokens = p.tokens ∧ p.signature = declared s := by
  have hnamed : Reads .c false false (s.name.toList ++ listText s) rest fun tokens =>
      ∃ (name : Of (.identifier s.name)) (g : Group .paren), tokens = name.1 :: g.tokens ∧
        ParameterList g.inside (declared s).parameters := by
    refine (reads_word h.1 (endsWord_cons rfl)).append (reads_list h.2) ?_
    rintro _ _ ⟨name, rfl, -⟩ ⟨g, rfl, hlist⟩
    exact ⟨name, g, rfl, hlist⟩
  have hspaced : Reads .c false false ([' '] ++ (s.name.toList ++ listText s)) rest fun tokens =>
      ∃ (name : Of (.identifier s.name)) (g : Group .paren), tokens = name.1 :: g.tokens ∧
        ParameterList g.inside (declared s).parameters := by
    apply hnamed.afterSpace
    rw [List.append_assoc]
    exact endsBlank_word h.1
  refine Reads.append (reads_type s.result (endsWord_cons rfl)) hspaced ?_
  rintro type _ htype ⟨name, g, rfl, hlist⟩
  obtain ⟨first, more, word, rfl, hfirst, hword, hstarts⟩ := htype.exists_first
  have hmore : ∀ t ∈ more, isTypePart t = true := fun t ht => htype.typed t (List.mem_cons_of_mem _ ht)
  refine ⟨⟨first, word, more, s.name, name, g, _, hstarts, hfirst, hword, hmore, hlist⟩, rfl, ?_⟩
  simp [Prototype.signature, htype.render_eq, declared]

/-- Each line defines what the signature declares. -/
theorem reads_line {library : String} {s : Signature}
    (hlibrary : ∀ c ∈ library.toList, Source.isWordPart c = true) (h : Plain s) (hrest : EndsBlank rest) :
    Reads .c true true (line library s).toList rest fun tokens => ∃ (p : Prototype) (body : Group .brace),
      tokens = p.tokens ++ body.tokens ∧ p.signature = declared s := by
  have hended : Reads .c false true (bodyText library s ++ ['\n']) rest fun tokens =>
      ∃ body : Group .brace, tokens = body.tokens := by
    refine (reads_body hlibrary h.1 h.2).append (reads_newline hrest) ?_
    rintro _ _ ⟨body, rfl⟩ rfl
    exact ⟨body, List.append_nil _⟩
  have hspaced : Reads .c false true ([' '] ++ (bodyText library s ++ ['\n'])) rest fun tokens =>
      ∃ body : Group .brace, tokens = body.tokens := hended.afterSpace (endsBlank_cons rfl)
  rw [toList_line]
  refine (reads_head h).append hspaced ?_
  rintro _ _ ⟨p, rfl, hp⟩ ⟨body, rfl⟩
  exact ⟨p, body, rfl, hp⟩

/-- The text of all lines. -/
def linesText (library : String) (signatures : List Signature) : List Char :=
  signatures.flatMap fun s => (line library s).toList

theorem endsBlank_lines {library : String} (signatures : List Signature) (hrest : EndsBlank rest) :
    EndsBlank (linesText library signatures ++ rest) := by
  cases signatures with
  | nil => exact hrest
  | cons s signatures =>
    rw [linesText, List.flatMap_cons, toList_line, headText]
    simp only [List.append_assoc]
    exact endsBlank_type s.result

/-- The lines are definitions one after another. -/
theorem reads_lines {library : String} {signatures : List Signature}
    (hlibrary : ∀ c ∈ library.toList, Source.isWordPart c = true) (h : ∀ s ∈ signatures, Plain s)
    (hrest : EndsBlank rest) :
    Reads .c true true (linesText library signatures) rest fun tokens =>
      Items tokens (signatures.map declared) := by
  induction signatures with
  | nil => exact .nil .nil
  | cons s signatures ih =>
    have htail := ih fun s' hs' => h s' (List.mem_cons_of_mem _ hs')
    refine (reads_line hlibrary (h s List.mem_cons_self) (endsBlank_lines signatures hrest)).append htail ?_
    rintro _ tokens ⟨p, body, rfl, hp⟩ hitems
    rw [List.append_assoc, List.map_cons, ← hp]
    exact .definition p body hitems

/-! ## The source -/

theorem reads_linkage :
    Reads .c true false ("extern".toList ++ ([' '] ++ ['"', 'C', '"'])) (' ' :: rest) ScopeHead := by
  have hliteral : Reads .c false false ['"', 'C', '"'] (' ' :: rest) (Single (.string "C") false) :=
    .token (k := .string "C") rfl rfl
  have hspaced : Reads .c false false ([' '] ++ ['"', 'C', '"']) (' ' :: rest) (Single (.string "C") false) :=
    hliteral.afterSpace (endsBlank_cons rfl)
  have hword : Reads .c true false "extern".toList ([' '] ++ ['"', 'C', '"'] ++ ' ' :: rest)
      (Single (.identifier "extern") true) := reads_word (by decide) (endsWord_cons rfl)
  refine hword.append hspaced ?_
  rintro _ _ ⟨word, rfl, -⟩ ⟨literal, rfl, -⟩
  exact .linkage word literal

theorem toList_source (header library : String) (signatures : List Signature) :
    (source header library signatures).toList =
      ('#' :: ("include \"".toList ++ (header.toList ++ ['"']))) ++ (['\n'] ++
        (("extern".toList ++ ([' '] ++ ['"', 'C', '"'])) ++ ([' '] ++ (['\x7b'] ++ (['\n'] ++
          (linesText library signatures ++ (['\x7d'] ++ ['\n']))))))) := by
  have hlines : (String.join (signatures.map (line library))).toList = linesText library signatures := by
    simp [linesText, List.flatMap_map]
  simp [source, hlines]

/-- The source is a block of definitions. -/
theorem reads_source {header library : String} {signatures : List Signature}
    (hheader : ∀ c ∈ header.toList, endsLine c = false)
    (hlibrary : ∀ c ∈ library.toList, Source.isWordPart c = true) (h : ∀ s ∈ signatures, Plain s) :
    Reads .c true true (source header library signatures).toList [] fun tokens =>
      Items tokens (signatures.map declared) := by
  have hclose : Reads .c true true (['\x7d'] ++ ['\n']) [] fun tokens =>
      ∃ last : Of (.closing .brace), tokens = [last.1] := by
    refine (reads_sign (k := .closing .brace) rfl rfl).append (reads_newline nofun) ?_
    rintro _ _ ⟨last, rfl, -⟩ rfl
    exact ⟨last, rfl⟩
  have hinside : Reads .c true true (linesText library signatures ++ (['\x7d'] ++ ['\n'])) [] fun tokens =>
      ∃ (inside : List Token) (last : Of (.closing .brace)), tokens = inside ++ [last.1] ∧
        Items inside (signatures.map declared) := by
    refine (reads_lines hlibrary h (endsBlank_cons rfl)).append hclose ?_
    rintro inside _ hitems ⟨last, rfl⟩
    exact ⟨inside, last, rfl, hitems⟩
  have hbroken : Reads .c false true (['\n'] ++ (linesText library signatures ++ (['\x7d'] ++ ['\n']))) []
      fun tokens => ∃ (inside : List Token) (last : Of (.closing .brace)), tokens = inside ++ [last.1] ∧
        Items inside (signatures.map declared) := by
    apply hinside.afterNewline
    rw [List.append_nil]
    exact endsBlank_lines signatures (endsBlank_cons rfl)
  have hblock : Reads .c false true (['\x7b'] ++ (['\n'] ++ (linesText library signatures ++
      (['\x7d'] ++ ['\n'])))) [] fun tokens => ∃ (first : Of (.opening .brace)) (inside : List Token)
        (last : Of (.closing .brace)), tokens = first.1 :: (inside ++ [last.1]) ∧
          Items inside (signatures.map declared) := by
    refine (reads_sign (k := .opening .brace) rfl rfl).append hbroken ?_
    rintro _ _ ⟨first, rfl, -⟩ ⟨inside, last, rfl, hitems⟩
    exact ⟨first, inside, last, rfl, hitems⟩
  have hscope : Reads .c true true (("extern".toList ++ ([' '] ++ ['"', 'C', '"'])) ++ ([' '] ++ (['\x7b'] ++
      (['\n'] ++ (linesText library signatures ++ (['\x7d'] ++ ['\n'])))))) [] fun tokens =>
        Items tokens (signatures.map declared) := by
    refine reads_linkage.append (hblock.afterSpace (endsBlank_cons rfl)) ?_
    rintro head _ hhead ⟨first, inside, last, rfl, hitems⟩
    have hblock := Items.scope first last hhead hitems .nil
    rwa [List.append_nil] at hblock
  have hlines : Reads .c true true (['\n'] ++ (("extern".toList ++ ([' '] ++ ['"', 'C', '"'])) ++ ([' '] ++
      (['\x7b'] ++ (['\n'] ++ (linesText library signatures ++ (['\x7d'] ++ ['\n']))))))) []
        fun tokens => Items tokens (signatures.map declared) := by
    apply hscope.afterNewline
    rw [List.append_nil, List.append_assoc]
    exact endsBlank_word (by decide)
  rw [toList_source]
  refine (reads_directive ?_ ?_).append hlines fun _ _ hempty hitems => by simpa [hempty] using hitems
  · intro c hc
    simp only [List.mem_append, List.mem_singleton] at hc
    rcases hc with hc | hc | rfl
    · have hfront : "include \"".toList.any endsLine = false := by decide
      exact eq_false_of_ne_true (List.any_eq_false.1 hfront c hc)
    · exact hheader c hc
    · rfl
  · -- The line ends with the quotation mark, so no backslash continues it.
    rw [← List.append_assoc, List.getLast?_concat]
    simp

/-- What a forwarding function of a signature declares: its name, its parameters, and types that are passed as
those of the signature. -/
structure Forwards (s found : Signature) : Prop where
  name_eq : found.name = s.name
  arity_eq : found.arity = s.arity
  names_eq : found.parameters.map Parameter.name = s.parameters.map Parameter.name
  result_passed : (SlotType.ofText .clang found.result).tag.passed
    = (SlotType.ofText .konan s.result).tag.passed
  passed : List.Forall₂ (fun p q => (SlotType.ofText .clang q.type).tag.passed
    = (SlotType.ofText .konan p.type).tag.passed) s.parameters found.parameters

theorem forwards_declared (s : Signature) : Forwards s (declared s) := by
  constructor
  · rw [declared]
  · simp only [declared, Signature.arity, List.length_map]
  · simp only [declared, List.map_map, Function.comp_def]
  · rw [declared, KotlinType.passed_cType]
  · rw [declared, List.forall₂_map_right_iff, List.forall₂_same]
    intro p _
    rw [KotlinType.passed_cType]

end

/-- The source of the forwarding functions is read as their declarations. -/
theorem ofC_source {header library : String} {signatures : List Signature}
    (hheader : ∀ c ∈ header.toList, endsLine c = false)
    (hlibrary : ∀ c ∈ library.toList, Source.isWordPart c = true) (h : ∀ s ∈ signatures, Plain s) :
    Signature.ofC (source header library signatures) = .ok (signatures.map declared) := by
  obtain ⟨tokens, htokens, hitems⟩ := (reads_source hheader hlibrary h).tokenize
  simp [Signature.ofC, htokens, headers_of_file hitems]

/-- Each of these declarations forwards to the function of its signature. -/
theorem forall₂_forwards (signatures : List Signature) :
    List.Forall₂ Forwards signatures (signatures.map declared) := by
  rw [List.forall₂_map_right_iff]
  exact List.forall₂_same.2 fun s _ => forwards_declared s

/-- The source of the forwarding functions is read as one declaration for each signature, and each passes its
arguments and its result as the Kotlin function that it calls. -/
theorem ofC_forwarding {header library : String} {signatures : List Signature}
    (hheader : ∀ c ∈ header.toList, endsLine c = false)
    (hlibrary : ∀ c ∈ library.toList, Source.isWordPart c = true) (h : ∀ s ∈ signatures, Plain s) :
    ∃ found, Signature.ofC (source header library signatures) = .ok found ∧
      List.Forall₂ Forwards signatures found := by
  exact ⟨signatures.map declared, ofC_source hheader hlibrary h, forall₂_forwards signatures⟩

/-- A function of a library: its types are known, nullable, a callback, and known to nobody. -/
def visit : Signature where
  name := "visit"
  result := "kotlin.String?"
  parameters := [⟨"each", "CFunction"⟩, ⟨"_limit", " ULong "⟩, ⟨"rest", "Map<K, V>"⟩]

theorem ofC_forwardingVisit : source "out/libdemo_api.h" "libdemo_kt" [visit] =
      "#include \"out/libdemo_api.h\"\nextern \"C\" \x7b\n"
        ++ "const char* visit(void* each, unsigned long long _limit, void rest) "
        ++ "\x7b return libdemo_kt_symbols()->kotlin.root.visit(each, _limit, rest); \x7d\n\x7d\n" ∧
    ∃ found, Signature.ofC (source "out/libdemo_api.h" "libdemo_kt" [visit]) = .ok found ∧
      List.Forall₂ Forwards [visit] found :=
  ⟨by decide +kernel, ofC_forwarding (fun c hc => eq_false_of_ne_true (List.any_eq_false.1 (by decide) c hc))
    (List.all_eq_true.1 (by decide)) (by decide)⟩

end Forwarding

end ForeignModule
