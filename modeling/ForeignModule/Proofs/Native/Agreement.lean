import ForeignModule.Proofs.Native.Declaration
import ForeignModule.Proofs.Native.Outcome
import ForeignModule.Proofs.Text.Search

/-!
# Do the texts of a module declare what is bound?

The text that declares a module is read back here (`Declaration.functions?`), and the source of the
forwarding functions is read as a C source. Each of them declares the functions that are bound, and
each of these with the types of the declaration that stands for it. But a binding takes one
declaration of each name, and the texts list all that they are given: a name that is declared twice
is there twice. So the texts agree with the binding exactly if no name is declared twice
(`texts_agree`).
-/

namespace ForeignModule.Declaration

open ForeignModule.Abi

/-! ## Reading a declaration -/

/-- What the declaration of a function shows: names, and types as they are written there. -/
structure Shown where
  name : String
  parameters : List (String × String)
  result : String
deriving DecidableEq, Repr

/-- What is shown of a signature. -/
def Shown.ofSignature (b : Backend) (s : Signature) : Shown where
  name := s.name
  parameters := s.parameters.map fun p => (p.name, (Presentation.ofParameter b p.type).name)
  result := (Presentation.ofResult b s.result).name

/-- Reads a parameter that a blank precedes. -/
def parameter? (text : List Char) : Option (String × String) := do
  let text ← Text.stripStart? [' '] text
  let name := text.takeWhile (· != ':')
  let type ← Text.stripStart? [':', ' '] (text.drop name.length)
  pure (.ofList name, .ofList type)

/-- Reads what stands between parentheses. -/
def parameters? (inside : List Char) : Option (List (String × String)) :=
  if inside = [] then some [] else ((' ' :: inside).splitOn ',').mapM parameter?

/-- Reads the line that declares a function. -/
def shown? (line : List Char) : Option Shown := do
  let text ← Text.stripStart? " export function ".toList line
  let name := text.takeWhile (· != '(')
  let text ← Text.stripStart? ['('] (text.drop name.length)
  let inside := text.takeWhile (· != ')')
  let text ← Text.stripStart? [')', ':', ' '] (text.drop inside.length)
  let result ← Text.stripEnd? [';'] text
  let parameters ← parameters? inside
  pure { name := .ofList name, parameters, result := .ofList result }

/-- The functions that a text declares in a module, line by line. -/
def functions? (module text : String) : Option (List Shown) := do
  let text ← Text.stripStart? ("declare module \"*/" ++ module ++ "\" \x7b\n").toList text.toList
  let lines ← Text.stripEnd? "\n\x7d\n\n".toList text
  if lines = [] then pure [] else (lines.splitOn '\n').mapM shown?

/-- The names of a signature do not take up the signs that a declaration sets around them. -/
structure Legible (s : Signature) : Prop where
  name : ∀ c ∈ s.name.toList, c ≠ '(' ∧ c ≠ '\n'
  parameters : ∀ p ∈ s.parameters, ∀ c ∈ p.name.toList, c ≠ ':' ∧ c ≠ ',' ∧ c ≠ ')' ∧ c ≠ '\n'

instance (s : Signature) : Decidable (Legible s) :=
  decidable_of_iff (s.name.toList.all (fun c => c != '(' && c != '\n') = true
      ∧ s.parameters.all (fun p => p.name.toList.all fun c =>
        c != ':' && c != ',' && c != ')' && c != '\n') = true) <| by
    simp only [List.all_eq_true, Bool.and_eq_true, bne_iff_ne, and_assoc]
    exact ⟨fun h => ⟨h.1, h.2⟩, fun h => ⟨h.name, h.parameters⟩⟩

section Reading

variable {b : Backend} {s : Signature} {p : Parameter} {signatures : List Signature}

/-- What was written part by part is read part by part. -/
theorem mapM_map_some {α β γ : Type} {xs : List α} {text : α → β} {read : β → Option γ}
    {value : α → γ} (h : ∀ x ∈ xs, read (text x) = some (value x)) :
    (xs.map text).mapM read = some (xs.map value) := by
  induction xs with
  | nil => rfl
  | cons x rest ih =>
    obtain ⟨hx, hrest⟩ := List.forall_mem_cons.1 h
    rw [List.map_cons, List.mapM_cons, hx, ih hrest]
    rfl

/-- The names of presentations are plain words. -/
theorem name_presentation (shown : Presentation) :
    ∀ c ∈ shown.name.toList, c ≠ ',' ∧ c ≠ ')' ∧ c ≠ '\n' := by
  have hall : shown.name.toList.all (fun c => c != ',' && c != ')' && c != '\n') = true := by
    cases shown <;> decide
  simpa [List.all_eq_true, and_assoc] using hall

/-- The text of a parameter. -/
def parameterText (b : Backend) (p : Parameter) : List Char :=
  p.name.toList ++ ([':', ' '] ++ (Presentation.ofParameter b p.type).name.toList)

theorem parameter?_text (h : ∀ c ∈ p.name.toList, c ≠ ':') :
    parameter? (' ' :: parameterText b p)
      = some (p.name, (Presentation.ofParameter b p.type).name) := by
  have hname : (parameterText b p).takeWhile (· != ':') = p.name.toList := Text.takeWhile_before h
  have htype : (parameterText b p).drop p.name.toList.length
      = [':', ' '] ++ (Presentation.ofParameter b p.type).name.toList := List.drop_left
  have hblank := Text.stripStart?_append [' '] (parameterText b p)
  rw [List.singleton_append] at hblank
  simp only [parameter?, hblank, Option.bind_eq_bind, Option.bind_some, hname, htype,
    Text.stripStart?_append, String.ofList_toList]
  rfl

/-- A blank behind each comma is a blank before each part. -/
theorem cons_intercalate {parts : List (List Char)} (h : parts ≠ []) :
    ' ' :: [',', ' '].intercalate parts = [','].intercalate (parts.map (' ' :: ·)) := by
  induction parts with
  | nil => exact absurd rfl h
  | cons part rest ih =>
    cases rest with
    | nil => simp
    | cons next rest =>
      have htail := ih (by simp)
      rw [List.intercalate_cons_cons, List.map_cons, List.map_cons, List.intercalate_cons_cons]
      rw [List.map_cons] at htail
      rw [← htail]
      simp

/-- The text between the parentheses. -/
def insideText (b : Backend) (s : Signature) : List Char :=
  [',', ' '].intercalate (s.parameters.map (parameterText b))

theorem parameters?_text (h : Legible s) :
    parameters? (insideText b s) = some (Shown.ofSignature b s).parameters := by
  unfold parameters?
  by_cases hnil : s.parameters = []
  · simp [insideText, Shown.ofSignature, hnil]
  · have hne : insideText b s ≠ [] := by
      obtain ⟨p, rest, hp⟩ := List.exists_cons_of_ne_nil hnil
      cases rest <;> simp [insideText, hp, parameterText, List.intercalate_cons_cons]
    have hcomma : ∀ part ∈ s.parameters.map fun p => ' ' :: parameterText b p, ',' ∉ part := by
      intro part hpart
      obtain ⟨p, hp, rfl⟩ := List.mem_map.1 hpart
      have hname := h.parameters p hp
      have htype := name_presentation (Presentation.ofParameter b p.type)
      simp only [parameterText, List.mem_cons, List.mem_append, List.not_mem_nil, or_false]
      rintro (hc | hc | hc | hc)
      · cases hc
      · exact (hname _ hc).2.1 rfl
      · rcases hc with hc | hc <;> cases hc
      · exact (htype _ hc).1 rfl
    have hsplit : (' ' :: insideText b s).splitOn ','
        = s.parameters.map fun p => ' ' :: parameterText b p := by
      rw [insideText, cons_intercalate (by simpa using hnil), List.map_map]
      exact List.splitOn_intercalate ',' hcomma (by simpa using hnil)
    rw [if_neg hne, hsplit]
    exact mapM_map_some fun p hp => parameter?_text fun c hc => (h.parameters p hp c hc).1

/-- No parenthesis closes before the end of the parameters. -/
theorem insideText_ne (h : Legible s) : ∀ c ∈ insideText b s, c ≠ ')' ∧ c ≠ '\n' := by
  refine Text.forall_mem_intercalate (by simp) ?_
  intro part hpart c hc
  obtain ⟨p, hp, rfl⟩ := List.mem_map.1 hpart
  rcases List.mem_append.1 hc with hc | hc
  · exact (h.parameters p hp c hc).2.2
  · rcases List.mem_append.1 hc with hc | hc
    · have hsigns : ∀ c ∈ [':', ' '], c ≠ ')' ∧ c ≠ '\n' := by simp
      exact hsigns c hc
    · exact (name_presentation _ c hc).2

/-- The text of a line, cut where it is read. -/
theorem toList_line (b : Backend) (s : Signature) : (line b s).toList
    = " export function ".toList ++ (s.name.toList ++ (['('] ++ (insideText b s ++
        ([')', ':', ' '] ++ ((Presentation.ofResult b s.result).name.toList ++ [';']))))) := by
  have hparameters : (", ".intercalate (s.parameters.map fun p =>
      p.name ++ ": " ++ (Presentation.ofParameter b p.type).name)).toList = insideText b s := by
    rw [String.toList_intercalate, List.map_map]
    refine congrArg _ (List.map_congr_left fun p _ => ?_)
    simp [parameterText]
  have hsigns : "(".toList = ['('] ∧ "): ".toList = [')', ':', ' '] ∧ ";".toList = [';'] :=
    ⟨by simp, by simp, by simp⟩
  unfold line
  simp only [String.toList_append, hparameters, hsigns, List.append_assoc]

theorem shown?_line (h : Legible s) :
    shown? (line b s).toList = some (.ofSignature b s) := by
  have hname : ∀ rest, (s.name.toList ++ (['('] ++ rest)).takeWhile (· != '(') = s.name.toList :=
    fun rest => Text.takeWhile_before fun c hc => (h.name c hc).1
  have hinside : ∀ rest, (insideText b s ++ ([')', ':', ' '] ++ rest)).takeWhile (· != ')')
      = insideText b s :=
    fun rest => Text.takeWhile_before fun c hc => (insideText_ne h c hc).1
  rw [toList_line]
  simp only [shown?, Text.stripStart?_append, Text.stripEnd?_append, Option.bind_eq_bind,
    Option.bind_some, hname, hinside, List.drop_left, parameters?_text h, String.ofList_toList]
  rfl

/-- A line ends where it should. -/
theorem line_ne (h : Legible s) : '\n' ∉ (line b s).toList := by
  rw [toList_line]
  simp only [List.mem_append]
  rintro (hc | hc | hc | hc | hc | hc | hc)
  · revert hc
    decide
  · exact (h.name _ hc).2 rfl
  · revert hc
    decide
  · exact (insideText_ne h _ hc).2 rfl
  · revert hc
    decide
  · exact (name_presentation _ _ hc).2.2 rfl
  · revert hc
    decide

/-- Each signature is declared, in order and with repetitions. -/
theorem functions?_module (b : Backend) (module : String) (h : ∀ s ∈ signatures, Legible s) :
    functions? module (Declaration.module b module signatures)
      = some (signatures.map (Shown.ofSignature b)) := by
  have hlines : (Declaration.module b module signatures).toList
      = ("declare module \"*/" ++ module ++ "\" \x7b\n").toList ++
        (['\n'].intercalate (signatures.map fun s => (line b s).toList) ++
          "\n\x7d\n\n".toList) := by
    have hbreak : "\n".toList = ['\n'] := by simp
    unfold Declaration.module
    simp only [String.toList_append, String.toList_intercalate, List.map_map,
      Function.comp_def, List.append_assoc, hbreak]
  simp only [functions?, hlines, Text.stripStart?_append, Text.stripEnd?_append,
    Option.bind_eq_bind, Option.bind_some]
  by_cases hnil : signatures = []
  · simp [hnil]
  · have hne : ['\n'].intercalate (signatures.map fun s => (line b s).toList) ≠ [] := by
      obtain ⟨s, rest, hs⟩ := List.exists_cons_of_ne_nil hnil
      cases rest <;> simp [hs, toList_line, List.intercalate_cons_cons]
    have hends : ∀ part ∈ signatures.map fun s => (line b s).toList, '\n' ∉ part := by
      intro part hpart
      obtain ⟨s, hs, rfl⟩ := List.mem_map.1 hpart
      exact line_ne (h s hs)
    rw [if_neg hne, List.splitOn_intercalate '\n' hends (by simpa using hnil)]
    exact mapM_map_some fun s hs => shown?_line (h s hs)

end Reading

end ForeignModule.Declaration

namespace ForeignModule.Native

open ForeignModule.Abi

/-! ## Texts and bindings -/

section Agreement

variable {α : Type} {b : Backend} {signatures : List Signature} {m : Binding} {nameOf : α → String}
  {shows : Signature → α → Prop} {found : List α} {name : String}

/-- The last declaration of a name. -/
structure Last (signatures : List Signature) (name : String) (s : Signature) : Prop where
  name_eq : s.name = name
  split : ∃ before after, signatures = before ++ s :: after ∧ ∀ t ∈ after, t.name ≠ name

/-- The functions that a text declares are those that are bound, and each of them is declared with
the types of the declaration that it is bound by. -/
structure Covers (b : Backend) (signatures : List Signature) (m : Binding) (nameOf : α → String)
    (shows : Signature → α → Prop) (found : List α) : Prop where
  names : ∀ name, name ∈ found.map nameOf ↔ name ∈ m.names
  types : ∀ name ∈ m.names, ∃ s, Last signatures name s
    ∧ (∃ f, m.function? name = some f ∧ f.descriptor = Descriptor.ofSignature b s)
    ∧ ∃ d ∈ found, nameOf d = name ∧ shows s d

/-- A text that agrees with a binding declares each function once. -/
structure Agrees (b : Backend) (signatures : List Signature) (m : Binding) (nameOf : α → String)
    (shows : Signature → α → Prop) (found : List α) : Prop
    extends Covers b signatures m nameOf shows found where
  once : (found.map nameOf).Nodup

/-- A name that is declared is declared for the last time somewhere. -/
theorem exists_last (h : ∃ s ∈ signatures, s.name = name) : ∃ s, Last signatures name s := by
  induction signatures with
  | nil => simp at h
  | cons s rest ih =>
    by_cases hrest : ∃ t ∈ rest, t.name = name
    · obtain ⟨t, hname, before, after, rfl, hlast⟩ := ih hrest
      exact ⟨t, hname, s :: before, after, rfl, hlast⟩
    · have hlast : ∀ t ∈ rest, t.name ≠ name := fun t ht heq => hrest ⟨t, ht, heq⟩
      obtain ⟨t, ht, hname⟩ := h
      rcases List.mem_cons.1 ht with rfl | ht
      · exact ⟨t, hname, [], rest, rfl, hlast⟩
      · exact absurd hname (hlast t ht)

variable {l : Library} (hexposes : Exposes b signatures l m)
  (hshows : List.Forall₂ shows signatures found) (hname : ∀ s d, shows s d → nameOf d = s.name)
include hshows hname

/-- A text with one declaration for each signature has the names of the signatures, as often. -/
theorem map_nameOf : found.map nameOf = signatures.map Signature.name := by
  induction hshows with
  | nil => rfl
  | cons hsd _ ih => rw [List.map_cons, List.map_cons, ih, hname _ _ hsd]

include hexposes

theorem covers_of_shows : Covers b signatures m nameOf shows found where
  names := by
    intro name
    rw [map_nameOf hshows hname, hexposes.mem_names, List.mem_map]
  types := by
    intro name hmem
    obtain ⟨s, hlast⟩ := exists_last ((hexposes.mem_names name).1 hmem)
    obtain ⟨rfl, before, after, hsplit, hafter⟩ := id hlast
    obtain ⟨f, hfound, hbound⟩ := hexposes.function? before s after hsplit hafter
    have hs : s ∈ signatures := by simp [hsplit]
    obtain ⟨d, hd, hsd⟩ := exists_partner hshows s hs
    exact ⟨s, hlast, ⟨f, hfound, hbound.descriptor⟩, d, hd, hname s d hsd, hsd⟩

/-- All that can be amiss is that a name is declared more than once. -/
theorem agrees_iff : Agrees b signatures m nameOf shows found
    ↔ (signatures.map Signature.name).Nodup := by
  rw [← map_nameOf hshows hname]
  exact ⟨Agrees.once, fun once => ⟨covers_of_shows hexposes hshows hname, once⟩⟩

end Agreement

/-! ## The texts of a module -/

section Texts

variable {b : Backend} {module : String} {artifact : Path} {signatures : List Signature}
  {strict : Bool} {library : Except LibraryFault Library} {m : Binding}
  {header table : String}

/-- The texts of a module declare the functions that are bound, with the types by which they are
bound. They agree with the binding, which has each function once, exactly if no name is declared
twice. -/
theorem texts_agree (hbind : bind b module artifact signatures strict library = .ok m)
    (hlegible : ∀ s ∈ signatures, Declaration.Legible s)
    (hheader : ∀ c ∈ header.toList, endsLine c = false)
    (htable : ∀ c ∈ table.toList, Source.isWordPart c = true)
    (hplain : b = .konan → ∀ s ∈ signatures, Forwarding.Plain s) :
    (∃ shown, Declaration.functions? module m.declarations = some shown
      ∧ Covers b signatures m (·.name) (fun s d => d = .ofSignature b s) shown
      ∧ (Agrees b signatures m (·.name) (fun s d => d = .ofSignature b s) shown
        ↔ (signatures.map Signature.name).Nodup))
    ∧ (b = .konan →
      ∃ found, Signature.ofC (Forwarding.source header table signatures) = .ok found
        ∧ Covers b signatures m (·.name) Forwarding.Forwards found
        ∧ (Agrees b signatures m (·.name) Forwarding.Forwards found
          ↔ (signatures.map Signature.name).Nodup)) := by
  obtain ⟨-, l, -, hbound, hdeclarations⟩ := bound_of_bind hbind
  have hexposes := exposes_of_bound hbound
  constructor
  · have hshown : List.Forall₂ (fun s d => d = Declaration.Shown.ofSignature b s) signatures
        (signatures.map (Declaration.Shown.ofSignature b)) := by
      rw [List.forall₂_map_right_iff]
      exact List.forall₂_same.2 fun s _ => rfl
    have hname : ∀ s d, d = Declaration.Shown.ofSignature b s → d.name = s.name := by
      rintro s d rfl
      rfl
    rw [hdeclarations]
    exact ⟨_, Declaration.functions?_module b module hlegible,
      covers_of_shows hexposes hshown hname, agrees_iff hexposes hshown hname⟩
  · intro hkonan
    have hforwards := Forwarding.forall₂_forwards signatures
    have hname : ∀ s d, Forwarding.Forwards s d → d.name = s.name := fun _ _ h => h.name_eq
    exact ⟨_, Forwarding.ofC_source hheader htable (hplain hkonan),
      covers_of_shows hexposes hforwards hname, agrees_iff hexposes hforwards hname⟩

/-- One function of a Kotlin library. -/
def greeting : List Signature := [⟨"greet", "kotlin.String", [⟨"name", "String?"⟩]⟩]

theorem texts_agree_greeting : ∃ m,
    bind .konan "hi.kt" "out/libhi.so" greeting true (.ok ⟨[("greet", fun _ => .nothing)]⟩) = .ok m
    ∧ (∃ shown, Declaration.functions? "hi.kt" m.declarations = some shown
      ∧ Agrees .konan greeting m (·.name) (fun s d => d = .ofSignature .konan s) shown)
    ∧ ∃ found, Signature.ofC (Forwarding.source "libhi_api.h" "libhi" greeting) = .ok found
      ∧ Agrees .konan greeting m (·.name) Forwarding.Forwards found := by
  have hlegible : ∀ s ∈ greeting, Declaration.Legible s := by decide
  have hheader : ∀ c ∈ "libhi_api.h".toList, endsLine c = false :=
    fun c hc => eq_false_of_ne_true (List.any_eq_false.1 (by decide) c hc)
  have htable : ∀ c ∈ "libhi".toList, Source.isWordPart c = true :=
    List.all_eq_true.1 (by decide)
  have hplain : ∀ s ∈ greeting, Forwarding.Plain s := by decide
  have hnodup : (greeting.map Signature.name).Nodup := by decide
  refine ⟨_, rfl, ?_⟩
  obtain ⟨⟨shown, hshown, -, hagrees⟩, hforwarding⟩ :=
    texts_agree (rfl : bind .konan "hi.kt" "out/libhi.so" greeting true
      (.ok ⟨[("greet", fun _ => .nothing)]⟩) = .ok _) hlegible hheader htable fun _ => hplain
  obtain ⟨found, hfound, -, hforwards⟩ := hforwarding rfl
  exact ⟨⟨shown, hshown, hagrees.2 hnodup⟩, found, hfound, hforwards.2 hnodup⟩

/-- Two functions of one name, as Kotlin has them. -/
def overloads : List Signature :=
  [⟨"size", "Int", [⟨"n", "Int"⟩]⟩, ⟨"size", "Int", [⟨"text", "String"⟩]⟩]

/-- Only the second function is bound; both texts declare the two of them. -/
theorem texts_disagree : ∃ m,
    bind .konan "m.kt" "out/libm.so" overloads false (.ok ⟨[("size", fun _ => .nothing)]⟩) = .ok m
    ∧ m.names = ["size"]
    ∧ (∃ shown, Declaration.functions? "m.kt" m.declarations = some shown
      ∧ ¬ Agrees .konan overloads m (·.name) (fun s d => d = .ofSignature .konan s) shown)
    ∧ ∃ found, Signature.ofC (Forwarding.source "libm_api.h" "libm" overloads) = .ok found
      ∧ ¬ Agrees .konan overloads m (·.name) Forwarding.Forwards found := by
  have hlegible : ∀ s ∈ overloads, Declaration.Legible s := by decide
  have hheader : ∀ c ∈ "libm_api.h".toList, endsLine c = false :=
    fun c hc => eq_false_of_ne_true (List.any_eq_false.1 (by decide) c hc)
  have htable : ∀ c ∈ "libm".toList, Source.isWordPart c = true :=
    List.all_eq_true.1 (by decide)
  have hplain : ∀ s ∈ overloads, Forwarding.Plain s := by decide
  refine ⟨_, rfl, by decide +kernel,
    ⟨_, Declaration.functions?_module .konan "m.kt" hlegible, ?_⟩,
    _, Forwarding.ofC_source hheader htable hplain, ?_⟩
  · intro hagrees
    exact absurd hagrees.once (by decide)
  · intro hagrees
    exact absurd hagrees.once (by decide)

end Texts

end ForeignModule.Native
