import ForeignModule.Proofs.Abi.CType
import ForeignModule.Proofs.Native.Binding
import ForeignModule.Proofs.Signature.CHeader
import ForeignModule.Proofs.Token.Rendering

/-!
# Qualifiers in C headers

`Qualified plain full` says that a token list is another one with qualifiers put in, any number of
them at any place, and `IsQualified` says so of all types in a header.

`describe_qualified`: the functions of two files with such headers have the same names and
parameters, and their values are passed in the same way. Headers are recognized with qualifiers as
without them, since a qualifier is a word as a type has. The text of a type is cut into words where
its tokens were (`parts_render`), so qualifiers are dropped again wherever they stand.
-/

namespace ForeignModule.Signature

namespace CHeader

open Abi Token

/-! ## Types -/

/-- The second list is the first one with qualifiers put in. -/
inductive Qualified : List Token → List Token → Prop where
  | nil : Qualified [] []
  | keep {t u : Token} {plain full : List Token} : u.kind = t.kind → Qualified plain full →
      Qualified (t :: plain) (u :: full)
  | insert {u : Token} {word : String} {plain full : List Token} : u.kind = .identifier word →
      word ∈ CType.qualifiers → Qualified plain full → Qualified plain (u :: full)

/-- A text of words and stars has the parts of its tokens: no two of them run together. -/
theorem parts_render {kinds : List Kind} (h : ∀ k ∈ kinds, k = .star ∨ ∃ s, k = .identifier s) :
    CType.parts (Kind.render kinds).toList
      = kinds.flatMap fun k => CType.parts k.text.toList := by
  induction kinds with
  | nil => rfl
  | cons left tail ih =>
    have htail := ih fun k hk => h k (by simp [hk])
    cases tail with
    | nil => simp [Kind.render]
    | cons right rest =>
      rw [List.flatMap_cons, ← htail]
      -- A blank is written between two words only, and a star needs none.
      rcases h left (by simp) with rfl | ⟨s, rfl⟩
      · have hgap : Kind.star.spaced right = false := by
          have hright := h right (by simp)
          rcases hright with rfl | ⟨s, rfl⟩ <;> rfl
        have htext : (Kind.render (.star :: right :: rest)).toList
            = '*' :: (Kind.render (right :: rest)).toList := by
          simp [Kind.render, hgap, Kind.text, Kind.name]
        rw [htext, CType.parts_star]
        rfl
      · rcases h right (by simp) with rfl | ⟨s', rfl⟩
        · -- A star follows the word at once and ends it.
          have htext : (Kind.render (.identifier s :: .star :: rest)).toList
              = s.toList ++ (Kind.render (.star :: rest)).toList := by
            simp [Kind.render, Kind.spaced, Kind.isWordlike, Kind.text]
          have hhead : (Kind.render (.star :: rest)).toList.head? = some '*' :=
            Kind.head?_render (k := .star) trivial rest
          rw [htext, CType.parts_append]
          · rfl
          · intro c hc
            rw [hhead] at hc
            obtain rfl : '*' = c := by simpa using hc
            decide
        · have htext : (Kind.render (.identifier s :: .identifier s' :: rest)).toList
              = s.toList ++ ' ' :: (Kind.render (.identifier s' :: rest)).toList := by
            simp [Kind.render, Kind.spaced, Kind.isWordlike, Kind.text]
          have hblank : Text.isBlank ' ' = true := by decide
          rw [htext, CType.parts_append (by simp [CType.Solid, hblank]), CType.parts_blank hblank]
          rfl

theorem bare_render {tokens : List Token} (h : ∀ t ∈ tokens, isTypePart t = true) :
    CType.bare (Token.render tokens).toList
      = tokens.flatMap fun t => CType.bare t.kind.text.toList := by
  have hkinds : ∀ k ∈ tokens.map Token.kind, k = .star ∨ ∃ s, k = .identifier s := by
    intro k hk
    obtain ⟨t, ht, rfl⟩ := List.mem_map.1 hk
    exact isTypePart_iff.1 (h t ht)
  rw [CType.bare, Token.render, parts_render hkinds, List.filter_flatMap, List.flatMap_map]
  rfl

/-- Nothing is left of a qualifier. -/
theorem bare_qualifier {word : String} (h : word ∈ CType.qualifiers) :
    CType.bare word.toList = [] := by
  have hall : ∀ word ∈ CType.qualifiers, CType.bare word.toList = [] := by decide
  exact hall word h

namespace Qualified

variable {plain full : List Token}

theorem typed (h : Qualified plain full) (hplain : ∀ t ∈ plain, isTypePart t = true) :
    ∀ t ∈ full, isTypePart t = true := by
  induction h with
  | nil => exact hplain
  | @keep t u _ _ hkind _ ih =>
    intro v hv
    rcases List.mem_cons.1 hv with rfl | hv
    · have ht := hplain t (by simp)
      rwa [isTypePart, hkind]
    · exact ih (fun w hw => hplain w (by simp [hw])) v hv
  | insert hkind _ _ ih =>
    intro v hv
    rcases List.mem_cons.1 hv with rfl | hv
    · exact isTypePart_iff.2 (.inr ⟨_, hkind⟩)
    · exact ih hplain v hv

theorem flatMap_bare (h : Qualified plain full) :
    (full.flatMap fun t => CType.bare t.kind.text.toList)
      = plain.flatMap fun t => CType.bare t.kind.text.toList := by
  induction h with
  | nil => rfl
  | keep hkind _ ih => rw [List.flatMap_cons, List.flatMap_cons, hkind, ih]
  | insert hkind hword _ ih =>
    rw [List.flatMap_cons, hkind, ih]
    simp [Kind.text, bare_qualifier hword]

/-- Qualifiers in a type do not change how a value of it is passed. -/
theorem tag?_render (h : Qualified plain full) (hplain : ∀ t ∈ plain, isTypePart t = true) :
    CType.tag? (Token.render full) = CType.tag? (Token.render plain) := by
  apply CType.tag?_congr
  rw [bare_render (h.typed hplain), bare_render hplain, h.flatMap_bare]

end Qualified

/-! ## Headers -/

/-- The second parameter is the first one with qualifiers put into its type. -/
structure Declared.IsQualified (p q : Declared) : Prop where
  named : q.name = p.name
  qualified : Qualified p.type q.type

/-- The second parameter list is the first one with qualifiers put into the types. A `void` that
stands for no parameter at all has no type. -/
inductive QualifiedList : List Token → List Token → Prop where
  | void (t u : Of (.identifier "void")) : QualifiedList [t.1] [u.1]
  | declared {plain full : List Token} {ps qs : List Declared} :
      Separated .comma plain (ps.map Declared.tokens) →
      Separated .comma full (qs.map Declared.tokens) →
      (∀ t : Of (.identifier "void"), plain ≠ [t.1] ∧ full ≠ [t.1]) →
      List.Forall₂ Declared.IsQualified ps qs → QualifiedList plain full

/-- The second header is the first one with qualifiers put into its types. -/
structure Prototype.IsQualified (p q : Prototype) : Prop where
  named : q.name = p.name
  result : Qualified (p.first :: p.more) (q.first :: q.more)
  listed : QualifiedList p.list.inside q.list.inside

end CHeader

end Signature

namespace Abi

/-- The tag with which a slot is bound, and whether its type is in no table. -/
def SlotType.binding (s : SlotType) : Tag × Bool := (s.tag, s.isUnmapped)

/-- How the parameters and the result of a function are bound. -/
def Descriptor.bindings (d : Descriptor) : List (Tag × Bool) × (Tag × Bool) :=
  (d.parameters.map SlotType.binding, d.result.binding)

/-- How a type is bound depends on its tag alone. -/
theorem SlotType.binding_ofText {left right : String} (h : CType.tag? left = CType.tag? right) :
    (SlotType.ofText .clang left).binding = (SlotType.ofText .clang right).binding := by
  unfold SlotType.ofText
  simp only [h]
  cases CType.tag? right <;> rfl

end Abi

namespace Signature

open Abi Token

/-- The name of a function and those of its parameters. -/
def names (s : Signature) : String × List String := (s.name, s.parameters.map Parameter.name)

/-- The name of a function and how it is bound. -/
def bound (b : Backend) (s : Signature) : String × List (Tag × Bool) × (Tag × Bool) :=
  (s.name, (Descriptor.ofSignature b s).bindings)

/-- All types in a signature. -/
def types (s : Signature) : List String := s.result :: s.parameters.map Parameter.type

namespace CHeader

theorem map_eq_of_forall₂ {α β : Type} {R : α → α → Prop} {f : α → β} {ps qs : List α}
    (h : List.Forall₂ R ps qs) (hf : ∀ p q, R p q → f q = f p) : qs.map f = ps.map f := by
  induction h with
  | nil => rfl
  | cons hp _ ih => rw [List.map_cons, List.map_cons, hf _ _ hp, ih]

theorem Declared.IsQualified.binding {p q : Declared} (h : p.IsQualified q) :
    (q.parameter.name, (SlotType.ofText .clang q.parameter.type).binding)
      = (p.parameter.name, (SlotType.ofText .clang p.parameter.type).binding) :=
  Prod.ext h.named (SlotType.binding_ofText (h.qualified.tag?_render p.typed))

/-- Qualified parameters have their names and are bound as without qualifiers. -/
theorem QualifiedList.parameters {plain full : List Token} (h : QualifiedList plain full) :
    ((CHeader.parameters full).map fun p => (p.name, (SlotType.ofText .clang p.type).binding))
      = (CHeader.parameters plain).map fun p => (p.name, (SlotType.ofText .clang p.type).binding) := by
  cases h with
  | void t u => rw [parameters_of_list (.void u), parameters_of_list (.void t)]
  | @declared _ _ ps qs hps hqs hvoid hall =>
    rw [parameters_of_list (.declared qs hqs fun t => (hvoid t).2),
      parameters_of_list (.declared ps hps fun t => (hvoid t).1)]
    rw [List.map_map, List.map_map]
    exact map_eq_of_forall₂ hall fun _ _ hp => hp.binding

namespace Prototype.IsQualified

variable {p q : Prototype}

theorem parameters (h : p.IsQualified q) :
    (q.parameters.map fun p => (p.name, (SlotType.ofText .clang p.type).binding))
      = p.parameters.map fun p => (p.name, (SlotType.ofText .clang p.type).binding) := by
  rw [← parameters_of_list q.listed, ← parameters_of_list p.listed]
  exact h.listed.parameters

theorem names_eq (h : p.IsQualified q) : q.signature.names = p.signature.names := by
  have hparameters := congrArg (List.map Prod.fst) h.parameters
  simp only [List.map_map] at hparameters
  exact Prod.ext h.named hparameters

theorem bound_eq (h : p.IsQualified q) : q.signature.bound .clang = p.signature.bound .clang := by
  have hparameters := congrArg (List.map Prod.snd) h.parameters
  simp only [List.map_map] at hparameters
  have hfirst : isTypePart p.first = true := isTypePart_iff.2 (.inr ⟨_, p.isWord⟩)
  have hresult : CType.tag? q.signature.result = CType.tag? p.signature.result :=
    h.result.tag?_render (by simpa [hfirst] using p.typed)
  simp only [bound, Descriptor.bindings, Descriptor.ofSignature, List.map_map,
    SlotType.binding_ofText hresult, Prod.mk.injEq, and_true]
  exact ⟨h.named, hparameters⟩

end Prototype.IsQualified

end CHeader

/-! ## Files -/

section Files

variable {α : Type} {bare qualified : List Signature}

/-- What the exported declarations say depends on what the declarations say, if that includes their
names. -/
theorem map_exports_congr {told : Signature → String × α} (hname : ∀ s, (told s).1 = s.name)
    (h : qualified.map told = bare.map told) :
    (exports qualified).map told = (exports bare).map told := by
  -- Names are compared by what is told, so the search can be made there.
  have htold : ∀ signatures : List Signature, (exports signatures).map told
      = ((signatures.map told).map Prod.fst).eraseDups.filterMap fun name =>
          (signatures.map told).reverse.find? (·.1 == name) := by
    intro signatures
    rw [exports, List.map_filterMap, ← List.map_reverse, List.map_map]
    congr 1
    · funext name
      rw [List.find?_map]
      congr 2
      funext s
      simp [hname]
    · congr 1
      exact List.map_congr_left fun s _ => (hname s).symm
  rw [htold, htold, h]

/-- The described functions, each with how it is bound. -/
def bindings (b : Backend) (signatures : List Signature) :
    List (String × List (Tag × Bool) × (Tag × Bool)) :=
  (describe b signatures).map fun entry => (entry.1, entry.2.bindings)

theorem bindings_eq (b : Backend) (signatures : List Signature) :
    bindings b signatures = (exports signatures).map (bound b) := by
  rw [bindings, describe_eq, List.map_map]
  rfl

end Files

/-- Two files whose functions have the same headers but for qualifiers in the types declare
functions of the same names and parameters, which are bound in the same way. A type that is words
with stars behind them besides its qualifiers is a text, if it is a `char` and a star, or else a
pointer. -/
theorem describe_qualified {plain full : String} {plainTokens fullTokens : List Token}
    {ps qs : List CHeader.Prototype} (hplain : tokenize .c plain = .ok plainTokens)
    (hfull : tokenize .c full = .ok fullTokens)
    (hps : CHeader.Items plainTokens (ps.map CHeader.Prototype.signature))
    (hqs : CHeader.Items fullTokens (qs.map CHeader.Prototype.signature))
    (h : List.Forall₂ CHeader.Prototype.IsQualified ps qs) :
    ofC plain = .ok (ps.map CHeader.Prototype.signature) ∧
      ofC full = .ok (qs.map CHeader.Prototype.signature) ∧
      (qs.map fun q => q.signature.names) = (ps.map fun p => p.signature.names) ∧
      bindings .clang (qs.map CHeader.Prototype.signature)
        = bindings .clang (ps.map CHeader.Prototype.signature) ∧
      ∀ q ∈ qs, ∀ type ∈ q.signature.types, ∀ (words : List (List Char)) (n : Nat), words ≠ [] →
        CType.bare type.toList = words.map .word ++ List.replicate (n + 1) .star →
        SlotType.ofText .clang type
          = .known (if words = ["char".toList] ∧ n = 0 then .cstring else .pointer) := by
  have hbound : (qs.map CHeader.Prototype.signature).map (bound .clang)
      = (ps.map CHeader.Prototype.signature).map (bound .clang) := by
    rw [List.map_map, List.map_map]
    exact CHeader.map_eq_of_forall₂ h fun _ _ hp => hp.bound_eq
  refine ⟨by simp [ofC, hplain, CHeader.headers_of_file hps],
    by simp [ofC, hfull, CHeader.headers_of_file hqs], ?_, ?_, ?_⟩
  · exact CHeader.map_eq_of_forall₂ h fun _ _ hp => hp.names_eq
  · rw [bindings_eq, bindings_eq]
    exact map_exports_congr (fun s => rfl) hbound
  · intro q _ type _ words n hne hwords
    simp only [SlotType.ofText, CType.tag?_of_bare hne hwords]

/-! ### A text that nobody else may change -/

namespace CHeader

/-- A header without qualifiers. -/
def plainSource : String := "char *f(int n);"

/-- The same header with one qualifier at the front, one behind the star and one behind a word. -/
def qualifiedSource : String := "const char *restrict f(int const n);"

/-- The parameter of the header without qualifiers. -/
def plainParameter : Declared where
  type := [⟨.identifier "int", ⟨⟨8, 1, 9⟩, 11⟩, false⟩]
  name := "n"
  nameToken := ⟨⟨.identifier "n", ⟨⟨12, 1, 13⟩, 13⟩, false⟩, rfl⟩
  typed := by decide

/-- The parameter of the header with qualifiers. -/
def qualifiedParameter : Declared where
  type := [⟨.identifier "int", ⟨⟨23, 1, 24⟩, 26⟩, false⟩,
    ⟨.identifier "const", ⟨⟨27, 1, 28⟩, 32⟩, false⟩]
  name := "n"
  nameToken := ⟨⟨.identifier "n", ⟨⟨33, 1, 34⟩, 34⟩, false⟩, rfl⟩
  typed := by decide

/-- The header without qualifiers. -/
def plainPrototype : Prototype where
  first := ⟨.identifier "char", ⟨⟨0, 1, 1⟩, 4⟩, true⟩
  word := "char"
  more := [⟨.star, ⟨⟨5, 1, 6⟩, 6⟩, false⟩]
  name := "f"
  nameToken := ⟨⟨.identifier "f", ⟨⟨6, 1, 7⟩, 7⟩, false⟩, rfl⟩
  list :=
    { first := ⟨⟨.opening .paren, ⟨⟨7, 1, 8⟩, 8⟩, false⟩, rfl⟩
      inside := plainParameter.tokens
      last := ⟨⟨.closing .paren, ⟨⟨13, 1, 14⟩, 14⟩, false⟩, rfl⟩
      balanced := .of_forall (by decide) }
  parameters := [plainParameter.parameter]
  starts := rfl
  isWord := rfl
  notOther := by decide
  typed := by decide
  listed := .declared [plainParameter] (.single (by simp [Declared.tokens])
    (.of_forall (by decide))) (by simp [Declared.tokens, plainParameter])

/-- The header with qualifiers. -/
def qualifiedPrototype : Prototype where
  first := ⟨.identifier "const", ⟨⟨0, 1, 1⟩, 5⟩, true⟩
  word := "const"
  more := [⟨.identifier "char", ⟨⟨6, 1, 7⟩, 10⟩, false⟩, ⟨.star, ⟨⟨11, 1, 12⟩, 12⟩, false⟩,
    ⟨.identifier "restrict", ⟨⟨12, 1, 13⟩, 20⟩, false⟩]
  name := "f"
  nameToken := ⟨⟨.identifier "f", ⟨⟨21, 1, 22⟩, 22⟩, false⟩, rfl⟩
  list :=
    { first := ⟨⟨.opening .paren, ⟨⟨22, 1, 23⟩, 23⟩, false⟩, rfl⟩
      inside := qualifiedParameter.tokens
      last := ⟨⟨.closing .paren, ⟨⟨34, 1, 35⟩, 35⟩, false⟩, rfl⟩
      balanced := .of_forall (by decide) }
  parameters := [qualifiedParameter.parameter]
  starts := rfl
  isWord := rfl
  notOther := by decide
  typed := by decide
  listed := .declared [qualifiedParameter] (.single (by simp [Declared.tokens])
    (.of_forall (by decide))) (by simp [Declared.tokens, qualifiedParameter])

theorem isQualified_qualifiedPrototype : plainPrototype.IsQualified qualifiedPrototype where
  named := rfl
  result :=
    .insert rfl (by decide) (.keep rfl (.keep rfl (.insert rfl (by decide) .nil)))
  listed := by
    have hplain : Separated .comma plainParameter.tokens ([plainParameter].map Declared.tokens) :=
      .single (by decide) (.of_forall (by decide))
    have hfull : Separated .comma qualifiedParameter.tokens
        ([qualifiedParameter].map Declared.tokens) :=
      .single (by decide) (.of_forall (by decide))
    have htype : Qualified plainParameter.type qualifiedParameter.type :=
      .keep rfl (.insert rfl (by decide) .nil)
    refine .declared hplain hfull (fun t => ⟨?_, ?_⟩) (.cons ⟨rfl, htype⟩ .nil)
    · simp [plainPrototype, plainParameter, Declared.tokens]
    · simp [qualifiedPrototype, qualifiedParameter, Declared.tokens]

theorem plainTokens_items :
    Items (plainPrototype.tokens ++ [⟨.semicolon, ⟨⟨14, 1, 15⟩, 15⟩, false⟩])
      ([plainPrototype].map Prototype.signature) :=
  .declaration plainPrototype ⟨_, rfl⟩ .nil

theorem qualifiedTokens_items :
    Items (qualifiedPrototype.tokens ++ [⟨.semicolon, ⟨⟨35, 1, 36⟩, 36⟩, false⟩])
      ([qualifiedPrototype].map Prototype.signature) :=
  .declaration qualifiedPrototype ⟨_, rfl⟩ .nil

theorem tokenize_plainSource : tokenize .c plainSource
    = .ok (plainPrototype.tokens ++ [⟨.semicolon, ⟨⟨14, 1, 15⟩, 15⟩, false⟩]) :=
  Token.tokenize_eq_ok (by decide +kernel)

theorem tokenize_qualifiedSource : tokenize .c qualifiedSource
    = .ok (qualifiedPrototype.tokens ++ [⟨.semicolon, ⟨⟨35, 1, 36⟩, 36⟩, false⟩]) :=
  Token.tokenize_eq_ok (by decide +kernel)

end CHeader

/-- The result is a text with qualifiers as without them. -/
theorem describe_qualified_restrict :
    ofC CHeader.plainSource = .ok [CHeader.plainPrototype.signature] ∧
      ofC CHeader.qualifiedSource = .ok [CHeader.qualifiedPrototype.signature] ∧
      bindings .clang [CHeader.qualifiedPrototype.signature]
        = bindings .clang [CHeader.plainPrototype.signature] ∧
      CHeader.qualifiedPrototype.signature.result = "const char*restrict" ∧
      SlotType.ofText .clang CHeader.qualifiedPrototype.signature.result = .known .cstring := by
  obtain ⟨hplain, hfull, -, hbound, hpointer⟩ :=
    describe_qualified CHeader.tokenize_plainSource CHeader.tokenize_qualifiedSource
      CHeader.plainTokens_items CHeader.qualifiedTokens_items
      (.cons CHeader.isQualified_qualifiedPrototype .nil)
  have hmem : CHeader.qualifiedPrototype.signature.result
      ∈ CHeader.qualifiedPrototype.signature.types := List.mem_cons_self
  refine ⟨hplain, hfull, hbound, by decide +kernel, ?_⟩
  exact hpointer _ List.mem_cons_self _ hmem ["char".toList] 0 (by simp) (by decide +kernel)

end ForeignModule.Signature
