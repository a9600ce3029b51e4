import ForeignModule.Native.Binding
import ForeignModule.Proofs.Abi.LastSegment
import ForeignModule.Proofs.Native.Binding
import ForeignModule.Proofs.Signature.RustExport
import ForeignModule.Proofs.Token.Rendering

/-!
# Raw pointers in Rust headers

A raw pointer should be passed as a C string when it points to a `c_char`, under whatever path, and
as a plain pointer otherwise (`RawPointer.Passes`). The type tables see the text of the type, and
that text has a blank behind `const` or `mut` only if a word follows. So:

* `RawPointer.passes_iff` says exactly when the tables read a raw pointer as they should: the
  pointee starts with a word, and ends like a path to `c_char` only if it is one;
* `describe_rawPointer` says so of each parameter and result that a file's exported functions have.
-/

namespace ForeignModule.Abi

open Token Signature.RustExport

/-! ## Paths -/

/-- The generic arguments of one segment of a path. -/
inductive Arguments : List Token → Prop where
  | none : Arguments []
  | angle (g : Group .angle) : Arguments g.tokens
  | turbofish (separator : Of .pathSeparator) (g : Group .angle) :
      Arguments (separator.1 :: g.tokens)

/-- A path that ends in a name and starts with a word. -/
inductive RelativePath (name : String) : List Token → Prop where
  | name (word : Of (.identifier name)) : RelativePath name [word.1]
  | segment {s : String} (word : Of (.identifier s)) {arguments rest : List Token}
      (separator : Of .pathSeparator) : Arguments arguments → RelativePath name rest →
      RelativePath name (word.1 :: (arguments ++ separator.1 :: rest))

/-- A path that ends in a name, with any start. -/
inductive PathTo (name : String) : List Token → Prop where
  | relative {tokens : List Token} : RelativePath name tokens → PathTo name tokens
  | rooted (separator : Of .pathSeparator) {tokens : List Token} :
      RelativePath name tokens → PathTo name (separator.1 :: tokens)
  | qualified (g : Group .angle) (separator : Of .pathSeparator) {tokens : List Token} :
      RelativePath name tokens → PathTo name (g.tokens ++ separator.1 :: tokens)

/-- The last token is a name with nothing before it but what a path separator ends. -/
def EndsIn (name : String) (tokens : List Token) : Prop :=
  ∃ before last, tokens = before ++ [last] ∧ last.kind = .identifier name ∧
    ∀ t, before.getLast? = some t → t.kind = .pathSeparator

theorem EndsIn.append {name : String} {tokens : List Token} (h : EndsIn name tokens)
    (front : List Token) {separator : Token} (hs : separator.kind = .pathSeparator) :
    EndsIn name (front ++ separator :: tokens) := by
  obtain ⟨before, last, rfl, hlast, hbefore⟩ := h
  refine ⟨front ++ separator :: before, last, by simp, hlast, fun t ht => ?_⟩
  cases hb : before.getLast? with
  | none =>
    rw [List.getLast?_eq_none_iff.1 hb] at ht
    have : separator = t := by simpa using ht
    exact this ▸ hs
  | some u =>
    have : u = t := by simpa [List.getLast?_append, List.getLast?_cons, hb] using ht
    exact this ▸ hbefore u hb

theorem RelativePath.endsIn {name : String} {tokens : List Token} (h : RelativePath name tokens) :
    EndsIn name tokens := by
  induction h with
  | name word => exact ⟨[], word.1, rfl, word.2, by simp⟩
  | @segment _ word arguments _ separator _ _ ih =>
    rw [← List.cons_append]
    exact ih.append _ separator.2

theorem PathTo.endsIn {name : String} {tokens : List Token} (h : PathTo name tokens) :
    EndsIn name tokens := by
  cases h with
  | relative h => exact h.endsIn
  | rooted separator h => exact h.endsIn.append [] separator.2
  | qualified g separator h => exact h.endsIn.append _ separator.2

/-! ## The last segment of a type -/

section LastSegment

variable {tokens : List Token}

/-- The text of a type that ends in a name ends in that name as the tables see it. -/
theorem lastSegment_of_endsIn (h : EndsIn "c_char" tokens) :
    RustType.lastSegment (Token.render tokens).toList = "c_char".toList := by
  obtain ⟨before, last, rfl, hlast, hbefore⟩ := h
  rcases List.eq_nil_or_concat before with rfl | ⟨init, separator, rfl⟩
  · have : (Token.render ([] ++ [last])).toList = "c_char".toList := by
      simp [Token.render, Kind.render, hlast, Kind.text]
    rw [this]
    decide
  · have hseparator : separator.kind = .pathSeparator := hbefore separator (by simp)
    have htext : (Token.render (init.concat separator ++ [last])).toList
        = Kind.lead (init.map kind) .pathSeparator ++ ("::".toList ++ "c_char".toList) := by
      simp only [Token.render, List.concat_eq_append, List.map_append, List.map_cons, List.map_nil,
        hseparator, hlast, Kind.render_concat, Kind.lead_concat]
      simp [Kind.gap, Kind.spaced, Kind.isWordlike, Kind.text, Kind.name]
    rw [htext, RustType.lastSegment, Text.afterLast?_separator (by decide), Option.getD_some]
    decide

theorem eq_identifier_of_text {k : Kind} (hl : k.Lexical)
    (h : k.text.toList = "c_char".toList) : k = .identifier "c_char" := by
  cases k with
  | identifier s => exact congrArg Kind.identifier (String.toList_inj.1 h)
  | number s =>
    obtain ⟨c, hc, hdigit⟩ := hl.1
    have hs : s.toList = "c_char".toList := h
    have : 'c' = c := by simpa [hs] using hc
    exact absurd hdigit (this ▸ by decide)
  | opening b => cases b <;> exact absurd h (by decide)
  | closing b => cases b <;> exact absurd h (by decide)
  | punctuation c => simp [Kind.text, Char.toString] at h
  | string s => simp [Kind.text] at h
  | character s => simp [Kind.text] at h
  | lifetime s => simp [Kind.text] at h
  | _ => exact absurd h (by decide)

/-- Neither end of a written-out list is blank. -/
theorem isBlank_render (hl : ∀ t ∈ tokens, t.kind.Lexical) (hv : ∀ t ∈ tokens, t.kind.Visible) :
    (∀ c, (Token.render tokens).toList.head? = some c → Text.isBlank c = false) ∧
      ∀ c, (Token.render tokens).toList.getLast? = some c → Text.isBlank c = false := by
  constructor <;> intro c hc
  · cases tokens with
    | nil => simp [Token.render, Kind.render] at hc
    | cons t rest =>
      have ht := hl t (by simp)
      rw [Token.render, List.map_cons, Kind.head?_render ht] at hc
      exact Kind.isBlank_end ht (hv t (by simp)) (.inl hc)
  · rcases List.eq_nil_or_concat tokens with rfl | ⟨before, last, rfl⟩
    · simp [Token.render, Kind.render] at hc
    · have ht := hl last (by simp)
      rw [Token.render, List.concat_eq_append, List.map_append, List.map_cons, List.map_nil,
        Kind.getLast?_render ht] at hc
      exact Kind.isBlank_end ht (hv last (by simp)) (.inr hc)

theorem blank_or_colon {front : List Char} (h : (Text.trimEnd front).getLast? = some ':') {c : Char}
    (hc : front.getLast? = some c) : Text.isBlank c = true ∨ c = ':' := by
  obtain ⟨stop, hstop, hblank⟩ := Text.exists_trimEnd front
  rcases List.eq_nil_or_concat stop with rfl | ⟨init, a, rfl⟩
  · rw [List.append_nil] at hstop
    rw [← hstop, hc, Option.some.injEq] at h
    exact .inr h
  · have : a = c := by
      rw [hstop] at hc
      simpa using hc
    exact .inl (this ▸ hblank a (by simp))

/-- The tables see a name at the end of a type only where one stands. -/
theorem endsIn_of_lastSegment (hne : tokens ≠ []) (hl : ∀ t ∈ tokens, t.kind.Lexical)
    (hv : ∀ t ∈ tokens, t.kind.Visible) (hcolon : Outer (·.kind ≠ .colon) tokens)
    (h : RustType.lastSegment (Token.render tokens).toList = "c_char".toList) :
    EndsIn "c_char" tokens := by
  rcases List.eq_nil_or_concat tokens with rfl | ⟨before, last, rfl⟩
  · exact absurd rfl hne
  obtain ⟨hstart, hstop⟩ := isBlank_render hl hv
  obtain ⟨front, htext, hfront⟩ := exists_front_of_lastSegment hstart hstop h
  rw [List.concat_eq_append] at hl hv hcolon htext ⊢
  rw [Token.render, List.map_append, List.map_cons, List.map_nil] at htext
  have hlexical : ∀ a ∈ before.map kind ++ [last.kind], a.Lexical := by
    intro a ha
    obtain ⟨t, ht, rfl⟩ := List.mem_map.1 (show a ∈ (before ++ [last]).map kind by simpa using ha)
    exact hl t ht
  have hends : ∀ c, front.getLast? = some c → Text.isBlank c = true ∨ c = ':' := by
    intro c hc
    rcases hfront with rfl | hfront
    · simp at hc
    · exact blank_or_colon hfront hc
  have hname : ∀ c ∈ "c_char".toList, Source.isWordPart c = true := List.all_eq_true.1 (by decide)
  obtain ⟨hword, hlead⟩ := Kind.eq_lead_of_word hlexical (hv last (by simp)) htext (by decide)
    hname hends
  have hlast : last.kind = .identifier "c_char" := eq_identifier_of_text (hl last (by simp)) hword
  refine ⟨before, last, rfl, hlast, fun t ht => ?_⟩
  rcases List.eq_nil_or_concat before with rfl | ⟨init, u, rfl⟩
  · simp at ht
  have hut : u = t := by simpa using ht
  subst hut
  -- What comes before the name ends in the token before it, and that in a colon.
  have hu : u.kind.Lexical := hl u (by simp)
  rw [List.concat_eq_append, List.map_append, List.map_cons, List.map_nil] at hlead
  rcases hfront with rfl | hfront
  · rw [Kind.lead_concat, Kind.render_concat] at hlead
    have := (List.append_eq_nil_iff.1 (List.append_eq_nil_iff.1 hlead.symm).1).2
    exact absurd this (Kind.text_ne_nil hu)
  · rw [hlead, Kind.trimEnd_lead hu (hv u (by simp)), Kind.getLast?_render hu] at hfront
    rcases Kind.eq_of_getLast?_colon hu hfront with hk | hk
    · have htokens : init.concat u ++ [last] = init ++ [u, last] := by simp
      have := hcolon.of_concat htokens (by simp [hk, Kind.nesting]) (by simp [hlast, Kind.nesting])
      exact absurd hk this
    · exact hk

end LastSegment

/-! ## Raw pointers -/

/-- A raw pointer type as it is written. No colon stands in a type outside brackets, and none starts
with an arrow. -/
structure RawPointer where
  star : Of .star
  isMut : Bool
  word : Of (.identifier (if isMut then "mut" else "const"))
  pointee : List Token
  nonempty : pointee ≠ []
  visible : ∀ t ∈ pointee, t.kind.Visible
  noColon : Outer (·.kind ≠ .colon) pointee
  noArrow : ∀ t ∈ pointee.head?, t.kind ≠ .arrow

namespace RawPointer

variable (p : RawPointer)

/-- The tokens of the type. -/
def tokens : List Token := p.star.1 :: p.word.1 :: p.pointee

/-- The slot is the one for this pointer: a C string for a `c_char`, else a plain pointer. -/
def Passes (slot : SlotType) : Prop :=
  (PathTo "c_char" p.pointee → slot = .known .cstring) ∧
    (¬PathTo "c_char" p.pointee → slot = .known .pointer)

/-- Does the pointee start with a word? -/
def startsWithWord : Bool := p.pointee.head?.any (·.kind.isWordlike)

/-- The tables see the pointee as what it is: it starts with a word, and ends like a path to
`c_char` only if it is one. -/
def Readable : Prop :=
  p.startsWithWord = true ∧ (EndsIn "c_char" p.pointee → PathTo "c_char" p.pointee)

/-- The word behind the star. -/
def mutability : String := if p.isMut then "mut" else "const"

/-- What stands in the text of the type before that of the pointee. -/
def front : List Char :=
  '*' :: (p.mutability.toList ++ if p.startsWithWord then [' '] else [])

theorem toList_render :
    (Token.render p.tokens).toList = p.front ++ (Token.render p.pointee).toList := by
  have hstar : Kind.spaced .star (.identifier p.mutability) = false := rfl
  have hword : p.word.1.kind = .identifier p.mutability := p.word.2
  cases hp : p.pointee with
  | nil => exact absurd hp p.nonempty
  | cons t rest =>
    have harrow : (t.kind == .arrow) = false := by
      simpa using p.noArrow t (by simp [hp])
    have hspaced : Kind.spaced (.identifier p.mutability) t.kind = t.kind.isWordlike := by
      have hleft : (Kind.identifier p.mutability == .comma) = false ∧
          (Kind.identifier p.mutability == .arrow) = false := ⟨rfl, rfl⟩
      simp [Kind.spaced, harrow, hleft.1, hleft.2, show (Kind.identifier p.mutability).isWordlike
        = true from rfl]
    simp only [tokens, hp, Token.render, List.map_cons, p.star.2, hword, Kind.render, hstar,
      hspaced, front, startsWithWord, List.head?_cons, Option.any_some]
    cases t.kind.isWordlike <;> simp [Kind.text, Kind.name]

theorem visible_tokens : ∀ t ∈ p.tokens, t.kind.Visible := by
  intro t ht
  simp only [tokens, List.mem_cons] at ht
  rcases ht with rfl | rfl | ht
  · rw [p.star.2]
    decide
  · rw [p.word.2]
    cases p.isMut <;> decide
  · exact p.visible t ht

/-- A type that starts with a star is no function, option or reference. -/
theorem tagOf?_star (rest : List Char) :
    RustType.tagOf? ('*' :: rest) = match RustType.pointee? ('*' :: rest) with
      | some inner =>
        some (if RustType.lastSegment inner = "c_char".toList then .cstring else .pointer)
      | none => RustType.table.lookup (.ofList (RustType.lastSegment ('*' :: rest))) := by
  have hpayload : RustType.payload? ('*' :: rest) = none := by
    simp [RustType.payload?, Text.stripStart?]
  have hfunction : RustType.isFunction ('*' :: rest) = false := by
    simp [RustType.isFunction, RustType.dropStart, Text.stripStart?, List.isPrefixOf]
  have hreferent : RustType.referent? ('*' :: rest) = none := by
    simp [RustType.referent?, Text.stripStart?]
  rw [RustType.tagOf?]
  split
  · rename_i inner hinner
    rw [hpayload] at hinner
    cases hinner
  · rewrite [RustType.plainTag?, if_neg (by simp), hfunction, if_neg (by simp), hreferent]
    cases RustType.pointee? ('*' :: rest) <;> rfl

variable {p} (hl : ∀ t ∈ p.tokens, t.kind.Lexical)
include hl

theorem tag?_render :
    RustType.tag? (Token.render p.tokens)
      = RustType.tagOf? (p.front ++ (Token.render p.pointee).toList) := by
  obtain ⟨hstart, hstop⟩ := isBlank_render hl p.visible_tokens
  rw [RustType.tag?, Text.trim_eq_self hstart hstop, p.toList_render]

/-- Behind a blank the tables see the pointee. -/
theorem tag?_of_startsWithWord (h : p.startsWithWord = true) :
    RustType.tag? (Token.render p.tokens) =
      some (if RustType.lastSegment (Token.render p.pointee).toList = "c_char".toList then .cstring
        else .pointer) := by
  have hpointee : RustType.pointee? (p.front ++ (Token.render p.pointee).toList)
      = some (Token.render p.pointee).toList := by
    cases hm : p.isMut <;>
      simp [front, mutability, h, hm, RustType.pointee?, Text.stripStart?]
  rw [tag?_render hl]
  simp only [front, List.cons_append] at hpointee ⊢
  rw [tagOf?_star, hpointee]

/-- Without a blank they see no pointer, and go by the end of the whole text. -/
theorem tag?_of_not_startsWithWord (h : p.startsWithWord = false) :
    RustType.tag? (Token.render p.tokens) =
      RustType.table.lookup (.ofList (RustType.lastSegment (Token.render p.tokens).toList)) := by
  obtain ⟨c, rest, hc, hblank⟩ : ∃ c rest, (Token.render p.pointee).toList = c :: rest ∧ c ≠ ' ' := by
    have hl' : ∀ t ∈ p.pointee, t.kind.Lexical := fun t ht => hl t (by simp [tokens, ht])
    have hstart := (isBlank_render hl' p.visible).1
    cases hr : (Token.render p.pointee).toList with
    | nil =>
      cases hp : p.pointee with
      | nil => exact absurd hp p.nonempty
      | cons t tail =>
        have ht : t.kind.Lexical := hl' t (by simp [hp])
        have := Kind.head?_render ht (tail.map kind)
        rw [hp, Token.render, List.map_cons] at hr
        rw [hr, List.head?_nil] at this
        exact absurd (List.head?_eq_none_iff.1 this.symm) (Kind.text_ne_nil ht)
    | cons c rest =>
      refine ⟨c, rest, rfl, ?_⟩
      rintro rfl
      exact absurd (hstart ' ' (by simp [hr])) (by decide)
  have hpointee : RustType.pointee? (p.front ++ (Token.render p.pointee).toList) = none := by
    cases hm : p.isMut <;>
      simp [front, mutability, h, hm, RustType.pointee?, Text.stripStart?, hc, Ne.symm hblank]
  rw [tag?_render hl, p.toList_render]
  simp only [front, List.cons_append] at hpointee ⊢
  rw [tagOf?_star, hpointee]

/-- The tables read a raw pointer as they should exactly if they see its pointee as what it is. -/
theorem passes_iff : p.Passes (SlotType.ofText .rust (Token.render p.tokens)) ↔ p.Readable := by
  unfold Readable
  have hl' : ∀ t ∈ p.pointee, t.kind.Lexical := fun t ht => hl t (by simp [tokens, ht])
  cases h : p.startsWithWord with
  | true =>
    have hends : RustType.lastSegment (Token.render p.pointee).toList = "c_char".toList ↔
        EndsIn "c_char" p.pointee :=
      ⟨endsIn_of_lastSegment p.nonempty hl' p.visible p.noColon, lastSegment_of_endsIn⟩
    simp only [SlotType.ofText, tag?_of_startsWithWord hl h, Passes, SlotType.known.injEq, true_and]
    by_cases he : EndsIn "c_char" p.pointee
    · simp [hends.2 he, he]
    · have hpath : ¬PathTo "c_char" p.pointee := fun hpath => he hpath.endsIn
      have hnot : RustType.lastSegment (Token.render p.pointee).toList ≠ "c_char".toList :=
        fun hs => he (hends.1 hs)
      simp only [if_neg hnot, hpath, he, false_imp_iff, not_false_eq_true, true_imp_iff, and_self]
  | false =>
    refine iff_of_false (fun hpasses => ?_) (by simp)
    simp only [SlotType.ofText, tag?_of_not_startsWithWord hl h, Passes] at hpasses
    by_cases hpath : PathTo "c_char" p.pointee
    · -- The whole type ends in `c_char`, which is an integer without a pointer before it.
      have hend : EndsIn "c_char" p.tokens := by
        obtain ⟨before, last, hp, hlast, hbefore⟩ := hpath.endsIn
        cases before with
        | nil => simp [startsWithWord, hp, hlast, Kind.isWordlike] at h
        | cons t rest =>
          refine ⟨p.star.1 :: p.word.1 :: t :: rest, last, by simp [tokens, hp], hlast, ?_⟩
          simpa [List.getLast?_cons] using hbefore
      have hsigned : RustType.table.lookup (.ofList "c_char".toList) = some (.signed .w8) := by decide
      rw [lastSegment_of_endsIn hend, hsigned] at hpasses
      exact absurd (hpasses.1 hpath) (by simp)
    · -- No type that is known by its name is a plain pointer.
      have hnone : ∀ name, RustType.table.lookup name ≠ some .pointer := by
        intro name hname
        obtain ⟨_, _, htable, _⟩ := List.lookup_eq_some_iff.1 hname
        have hmem : (name, Tag.pointer) ∈ RustType.table := by simp [htable]
        have : ∀ entry ∈ RustType.table, entry.2 ≠ .pointer := by decide
        exact this _ hmem rfl
      have hslot := hpasses.2 hpath
      split at hslot
      · rename_i tag htag
        injection hslot with hslot
        exact hnone _ (hslot ▸ htag)
      · cases hslot

end RawPointer

/-! ## Files -/

/-- The `i`-th parameter has this type, whatever its pattern. -/
def HasParameter (h : Header) (i : Nat) (p : RawPointer) : Prop :=
  ∃ pattern colon, h.parameters[i]? = some (pattern ++ colon :: p.tokens) ∧
    colon.kind = .colon ∧ Outer (·.kind ≠ .colon) pattern

/-- The result has this type. -/
def HasResult (h : Header) (p : RawPointer) : Prop := ∃ arrow, h.result = some (arrow, p.tokens)

/-- In every file and for every exported function, the last of its name, each raw pointer in the
header is described as it should be exactly if its pointee is readable. -/
theorem describe_rawPointer {source : String} {tokens : List Token} {before after : List Header}
    {h : Header} (htokens : tokenize .rust source = .ok tokens)
    (hfile : Exports tokens (before ++ h :: after)) (hlast : ∀ g ∈ after, g.name ≠ h.name) :
    ∃ signatures d, Signature.ofRust source = .ok signatures ∧
      (Signature.describe .rust signatures).lookup h.name = some d ∧
      (∀ i p, HasParameter h i p →
        ∃ slot, d.parameters[i]? = some slot ∧ (p.Passes slot ↔ p.Readable)) ∧
      ∀ p, HasResult h p → (p.Passes d.result ↔ p.Readable) := by
  have hlexical : ∀ t ∈ h.tokens, t.kind.Lexical := fun t ht =>
    lexical_of_tokenize (by decide) htokens t (hfile.subset h (by simp) t ht)
  have hread : Signature.ofRust source
      = .ok (before.map Header.signature ++ h.signature :: after.map Header.signature) := by
    simp [Signature.ofRust, htokens, functions_of_exports hfile]
  have hdescribe := Signature.lookup_describe .rust (before.map Header.signature) h.signature
    (after.map Header.signature) (by simpa [Header.signature] using hlast)
  refine ⟨_, _, hread, hdescribe, ?_, ?_⟩
  · rintro i p ⟨pattern, colon, hi, hcolon, hpattern⟩
    have hmem := h.mem_of_parameter (List.mem_of_getElem? hi)
    have hl : ∀ t ∈ p.tokens, t.kind.Lexical := fun t ht => hlexical t (hmem t (by simp [ht]))
    have htype : (parameter (pattern ++ colon :: p.tokens)).type = Token.render p.tokens := by
      simp [parameter, breakTopLevel?_append hpattern hcolon]
    refine ⟨SlotType.ofText .rust (Token.render p.tokens), ?_, p.passes_iff hl⟩
    simp [Descriptor.ofSignature, Header.signature, hi, htype]
  · rintro p ⟨arrow, hr⟩
    have hl : ∀ t ∈ p.tokens, t.kind.Lexical := fun t ht => hlexical t (h.mem_of_result hr t ht)
    have htype : h.signature.result = Token.render p.tokens := by
      simp [Header.signature, hr]
    rw [Descriptor.ofSignature, htype]
    exact p.passes_iff hl

/-! ### A pointer to a pointer -/

/-- A function that takes a pointer to a pointer and returns a text. -/
def nestedSource : String := "extern \"C\" fn f(p: *mut *mut u8) -> *const c_char;"

/-- A token of a text without line ends. -/
def tokenAt (kind : Kind) (start stop : Nat) : Token :=
  { kind, span := { start := { offset := start, line := 1, column := start + 1 }, stop }
    startsLine := start == 0 }

/-- The type of its parameter. -/
def nestedPointer : RawPointer where
  star := ⟨tokenAt .star 19 20, rfl⟩
  isMut := true
  word := ⟨tokenAt (.identifier "mut") 20 23, rfl⟩
  pointee := [tokenAt .star 24 25, tokenAt (.identifier "mut") 25 28,
    tokenAt (.identifier "u8") 29 31]
  nonempty := by simp
  visible := by decide
  noColon := .of_forall (by decide)
  noArrow := by decide

/-- The type of its result. -/
def nestedText : RawPointer where
  star := ⟨tokenAt .star 36 37, rfl⟩
  isMut := false
  word := ⟨tokenAt (.identifier "const") 37 42, rfl⟩
  pointee := [tokenAt (.identifier "c_char") 43 49]
  nonempty := by simp
  visible := by decide
  noColon := .of_forall (by decide)
  noArrow := by decide

/-- The name of its parameter and the colon behind it. -/
def nestedPattern : List Token := [tokenAt (.identifier "p") 16 17, tokenAt .colon 17 18]

/-- Its header. -/
def nestedHeader : Header where
  mark := ⟨tokenAt (.identifier "extern") 0 6, rfl⟩
  abi := ⟨tokenAt (.string "C") 7 10, rfl⟩
  qualifiers := []
  fn := ⟨tokenAt (.identifier "fn") 11 13, rfl⟩
  name := "f"
  nameToken := ⟨tokenAt (.identifier "f") 14 15, rfl⟩
  generics := none
  list :=
    { first := ⟨tokenAt (.opening .paren) 15 16, rfl⟩
      inside := nestedPattern ++ nestedPointer.tokens
      last := ⟨tokenAt (.closing .paren) 31 32, rfl⟩
      balanced := .of_forall (by decide) }
  parameters := [nestedPattern ++ nestedPointer.tokens]
  result := some (⟨tokenAt .arrow 33 35, rfl⟩, nestedText.tokens)
  qualified := Header.qualified_nil
  listed := .single (by simp [nestedPattern]) (.of_forall (by decide))
  resulting := by
    intro r hr
    injection hr with hr
    exact hr ▸ .of_forall (by decide)

theorem tokenize_nestedSource :
    tokenize .rust nestedSource = .ok (nestedHeader.tokens ++ [tokenAt .semicolon 49 50]) :=
  tokenize_eq_ok (by decide +kernel)

theorem exports_nestedTokens :
    Exports (nestedHeader.tokens ++ [tokenAt .semicolon 49 50]) ([] ++ nestedHeader :: []) := by
  refine .function nestedHeader (fun t ht => ?_) (.other (fun _ => .nil) .nil)
  injection ht with ht
  exact ht ▸ rfl

/-- The result of the sample points to a `c_char` and is described as a text. -/
theorem describe_nestedText :
    ∃ signatures d, Signature.ofRust nestedSource = .ok signatures ∧
      (Signature.describe .rust signatures).lookup "f" = some d ∧
      HasResult nestedHeader nestedText ∧ nestedText.Passes d.result := by
  obtain ⟨signatures, d, hread, hdescribe, _, hresult⟩ :=
    describe_rawPointer tokenize_nestedSource exports_nestedTokens (by simp)
  have hhas : HasResult nestedHeader nestedText := ⟨_, rfl⟩
  have hpath : PathTo "c_char" nestedText.pointee := .relative (.name ⟨_, rfl⟩)
  exact ⟨signatures, d, hread, hdescribe, hhas, (hresult nestedText hhas).2 ⟨rfl, fun _ => hpath⟩⟩

/-- Its parameter points to a pointer and is in no table. -/
theorem describe_nestedPointer :
    ∃ signatures d slot, Signature.ofRust nestedSource = .ok signatures ∧
      (Signature.describe .rust signatures).lookup "f" = some d ∧
      HasParameter nestedHeader 0 nestedPointer ∧ d.parameters[0]? = some slot ∧
      slot = .unmapped "*mut*mut u8" ∧ ¬nestedPointer.Passes slot := by
  have hread : Signature.ofRust nestedSource
      = .ok [⟨"f", "*const c_char", [⟨"p", "*mut*mut u8"⟩]⟩] := by
    simp only [Signature.ofRust, tokenize_nestedSource]
    exact congrArg Except.ok (by decide +kernel)
  have hparameter : HasParameter nestedHeader 0 nestedPointer :=
    ⟨[tokenAt (.identifier "p") 16 17], tokenAt .colon 17 18, rfl, rfl, .of_forall (by decide)⟩
  refine ⟨_, ⟨[.unmapped "*mut*mut u8"], .known .cstring⟩, _, hread, by decide +kernel, hparameter,
    rfl, rfl, fun hpasses => ?_⟩
  by_cases hpath : PathTo "c_char" nestedPointer.pointee
  · exact absurd (hpasses.1 hpath) (by simp)
  · exact absurd (hpasses.2 hpath) (by simp)

end ForeignModule.Abi
