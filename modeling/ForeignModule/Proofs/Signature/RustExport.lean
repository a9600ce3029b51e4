import ForeignModule.Proofs.Token.Nesting
import ForeignModule.Signature.RustExport

/-!
# Rust files and the functions that they export

* `Header` is the header of a function marked `extern "C"`, token by token;
* `Exports tokens headers` says that these are the headers in a file, in order. Everything else in
  the file is passed over, whatever it is, as long as no mark in it is taken for that of a function.

`functions_of_exports`: the scan finds exactly those headers.
-/

namespace ForeignModule.Signature.RustExport

open Token

/-! ## Headers -/

/-- Does a header end before this token, when it stands outside brackets? -/
def endsHeader (t : Token) : Bool := t.kind.opens .brace || t.kind == .semicolon || t.isWord "where"

/-- May the token stand between a mark and the word `fn` that belongs to it? -/
def isQualifier (t : Token) : Bool := !t.isWord "fn" && !endsSearch t.kind

/-- The header of an exported function, from its mark up to what ends it. -/
structure Header where
  mark : Of (.identifier "extern")
  abi : Of (.string "C")
  qualifiers : List Token
  fn : Of (.identifier "fn")
  name : String
  nameToken : Of (.identifier name)
  generics : Option (Group .angle)
  list : Group .paren
  parameters : List (List Token)
  result : Option (Of .arrow × List Token)
  qualified : ∀ t ∈ qualifiers, isQualifier t = true
  listed : Separated .comma list.inside parameters
  resulting : ∀ r ∈ result, Outer (fun t => endsHeader t = false) r.2

namespace Header

theorem qualified_nil : ∀ t ∈ ([] : List Token), isQualifier t = true := List.forall_mem_nil _

variable (h : Header)

/-- The tokens of the generic parameters. -/
def genericTokens : List Token := h.generics.elim [] Group.tokens

/-- The tokens of the arrow and the result type. -/
def resultTokens : List Token := h.result.elim [] fun r => r.1.1 :: r.2

/-- The tokens behind the mark. -/
def behindMark : List Token :=
  h.qualifiers ++ h.fn.1 :: h.nameToken.1 :: (h.genericTokens ++ (h.list.tokens ++ h.resultTokens))

/-- All tokens of the header. -/
def tokens : List Token := h.mark.1 :: h.abi.1 :: h.behindMark

/-- What the header says. -/
def signature : Signature where
  name := h.name
  result := h.result.elim unitType fun r => Token.render r.2
  parameters := h.parameters.map parameter

/-- The tokens of a parameter are tokens of its header. -/
theorem mem_of_parameter {part : List Token} (hp : part ∈ h.parameters) :
    ∀ t ∈ part, t ∈ h.tokens := by
  intro t ht
  have hin := h.listed.subset part hp t ht
  simp [tokens, behindMark, Group.tokens, hin]

/-- The tokens of a result type are tokens of its header. -/
theorem mem_of_result {arrow : Of .arrow} {type : List Token} (hr : h.result = some (arrow, type)) :
    ∀ t ∈ type, t ∈ h.tokens := by
  intro t ht
  simp [tokens, behindMark, resultTokens, hr, ht]

end Header

/-! ## Reading a header -/

section Reading

variable {t : Token} {tokens rest : List Token}

/-- The search for `fn` passes over qualifiers. -/
theorem afterFn?_append (hq : ∀ q ∈ tokens, isQualifier q = true) (ht : t.isWord "fn" = true)
    (rest : List Token) (taken : Nat) :
    afterFn? taken (tokens ++ t :: rest) = some (rest, taken + tokens.length + 1) := by
  induction tokens generalizing taken with
  | nil => simp [afterFn?, ht]
  | cons q tail ih =>
    have hfirst : q.isWord "fn" = false ∧ endsSearch q.kind = false := by
      simpa [isQualifier] using hq q (by simp)
    have htail := ih (fun u hu => hq u (by simp [hu])) (taken + 1)
    rw [List.cons_append, afterFn?]
    simp only [hfirst.1, hfirst.2, Bool.false_eq_true, if_false, htail, List.length_cons]
    congr 2
    omega

/-- Inside brackets the result type goes on. -/
theorem resultTokens_inside (h : Nested tokens) {depth : Int} (hd : 1 ≤ depth) :
    resultTokens depth (tokens ++ rest) = tokens ++ resultTokens depth rest := by
  have hopen : ¬depth ≤ 0 := by omega
  induction h generalizing depth rest with
  | nil => rfl
  | @other t tail h0 _ ih =>
    rw [List.cons_append, resultTokens]
    simp [hopen, h0, ih hd hopen]
  | @group b first last mid tail ho hc _ _ ihm iht =>
    -- Braces leave the depth alone, and all other brackets raise it until their partner.
    by_cases hb : b = .brace
    · subst hb
      rw [List.cons_append, List.append_assoc, List.cons_append, resultTokens]
      simp only [hopen, decide_false, Bool.and_false, Bool.false_eq_true, if_false, ho, Kind.opens,
        beq_self_eq_true, Bool.true_or, if_true]
      rw [ihm hd hopen, resultTokens]
      simp [hopen, hc, Kind.closes, iht hd hopen]
    · have hup : ¬depth + 1 ≤ 0 := by omega
      rw [List.cons_append, List.append_assoc, List.cons_append, resultTokens]
      simp only [hopen, decide_false, Bool.and_false, Bool.false_eq_true, if_false, ho, Kind.opens,
        Kind.closes, beq_eq_false_iff_ne.2 hb, Bool.or_self, Kind.nesting]
      rw [ihm (by omega) hup, resultTokens]
      have hdown : depth + 1 + -1 = depth := by omega
      simp [hup, hc, Kind.opens, Kind.closes, hb, Kind.nesting, hdown, iht hd hopen]

/-- The result type ends where the header does. -/
theorem resultTokens_append (h : Outer (fun t => endsHeader t = false) tokens)
    (hr : ∀ t, rest.head? = some t → endsHeader t = true) :
    resultTokens 0 (tokens ++ rest) = tokens := by
  induction h with
  | nil =>
    cases rest with
    | nil => rfl
    | cons t tail =>
      have ht := hr t rfl
      simp only [endsHeader] at ht
      simp [resultTokens, ht]
  | @other t tail h0 hp _ ih =>
    simp only [endsHeader] at hp
    rw [List.cons_append, resultTokens]
    simp [hp, h0, ih]
  | @group b first last mid tail ho hc hp hi _ ih =>
    have hb : b ≠ .brace := by
      rintro rfl
      simp [endsHeader, ho, Kind.opens] at hp
    have hword : first.isWord "where" = false := by simp [isWord, ho]
    have hbrace : (b == .brace) = false := by simpa using hb
    rw [List.cons_append, List.append_assoc, List.cons_append, resultTokens]
    simp only [ho, Kind.opens, Kind.closes, hbrace, hword, show (Kind.opening b == .semicolon) = false
      from rfl, Bool.or_self, Bool.false_and, Bool.false_eq_true, if_false, Kind.nesting]
    rw [resultTokens_inside hi (by omega), resultTokens]
    simp [hc, Kind.opens, Kind.closes, hb, Kind.nesting, ih]

end Reading

namespace Header

variable (h : Header) {rest : List Token}

theorem generics?_genericTokens :
    generics? (h.genericTokens ++ (h.list.tokens ++ rest)) = some h.genericTokens.length := by
  refine length_optionalGroup h.generics fun t ht => ?_
  obtain rfl : h.list.first.1 = t := by simpa [Group.tokens] using ht
  simp [h.list.first.2]

/-- A header is read as what it says, up to where it ends. -/
theorem function?_behindMark (hr : ∀ t, rest.head? = some t → endsHeader t = true) :
    function? (h.behindMark ++ rest) = some (h.signature, h.behindMark.length) := by
  have hfn : h.fn.1.isWord "fn" = true := by simp [isWord, h.fn.2]
  have hname : h.nameToken.1.identifier? = some h.name := by
    simp [Token.identifier?, h.nameToken.2, Kind.identifier?]
  have hafter := afterFn?_append h.qualified hfn (h.nameToken.1 ::
    (h.genericTokens ++ (h.list.tokens ++ (h.resultTokens ++ rest)))) 0
  have hparameters : Parameter.list parameter h.list.inside = h.parameters.map parameter := by
    rw [Parameter.list, h.listed.splitTopLevel rfl, h.listed.filter_isEmpty]
  have hsplit : h.behindMark ++ rest = h.qualifiers ++ h.fn.1 :: h.nameToken.1 ::
      (h.genericTokens ++ (h.list.tokens ++ (h.resultTokens ++ rest))) := by
    simp [behindMark]
  rw [hsplit, function?, hafter]
  simp only [Option.bind_eq_bind, Option.bind_some, List.head?_cons, List.tail_cons, hname,
    generics?_genericTokens, List.drop_left, Group.group?_tokens, hparameters]
  cases hres : h.result with
  | none =>
    -- What ends a header is no arrow, so no result type is looked for.
    have harrow : rest.head?.any (·.kind == .arrow) = false := by
      cases rest with
      | nil => rfl
      | cons t tail =>
        have ht := hr t rfl
        have hne : t.kind ≠ .arrow := by
          intro hk
          simp [endsHeader, hk, Kind.opens, isWord] at ht
        simpa using hne
    simp only [resultTokens, hres, Option.elim_none, List.nil_append, harrow]
    simp [signature, behindMark, resultTokens, hres]
    omega
  | some r =>
    have harrow : r.1.1.kind = .arrow := r.1.2
    have htype := resultTokens_append (h.resulting r (by simp [hres])) hr
    simp only [resultTokens, hres, Option.elim_some, List.cons_append, List.head?_cons,
      Option.any_some, harrow, beq_self_eq_true, if_true, List.tail_cons, htype]
    simp [signature, behindMark, resultTokens, hres]
    omega

end Header

/-! ## Files -/

/-- No function follows a mark here: the search for `fn` ends before it finds one, or no name comes
behind it, as in the type of a function pointer. -/
inductive NoFunction : List Token → Prop where
  | nil : NoFunction []
  | ended {t : Token} {rest : List Token} : endsSearch t.kind = true → NoFunction (t :: rest)
  | pointer {t : Token} {rest : List Token} : t.isWord "fn" = true →
      (∀ u, rest.head? = some u → u.identifier? = none) → NoFunction (t :: rest)
  | qualifier {t : Token} {rest : List Token} : isQualifier t = true → NoFunction rest →
      NoFunction (t :: rest)

/-- Does the mark `extern "C"` stand at the front? -/
def marked : List Token → Bool
  | t :: rest => t.isWord "extern" && rest.head?.any (·.kind == .string "C")
  | [] => false

/-- The headers of the functions that a file exports, in order. -/
inductive Exports : List Token → List Header → Prop where
  | nil : Exports [] []
  | other {t : Token} {rest : List Token} {headers : List Header} :
      (marked (t :: rest) = true → NoFunction rest.tail) → Exports rest headers →
      Exports (t :: rest) headers
  | function (h : Header) {rest : List Token} {headers : List Header} :
      (∀ t, rest.head? = some t → endsHeader t = true) → Exports rest headers →
      Exports (h.tokens ++ rest) (h :: headers)

/-- The tokens of a header are tokens of its file. -/
theorem Exports.subset {tokens : List Token} {headers : List Header} (h : Exports tokens headers) :
    ∀ g ∈ headers, ∀ t ∈ g.tokens, t ∈ tokens := by
  induction h with
  | nil => simp
  | other _ _ ih => exact fun g hg t ht => List.mem_cons_of_mem _ (ih g hg t ht)
  | function h _ _ ih =>
    intro g hg t ht
    rcases List.mem_cons.1 hg with rfl | hg
    · exact List.mem_append_left _ ht
    · exact List.mem_append_right _ (ih g hg t ht)

theorem NoFunction.afterFn? {tokens : List Token} (h : NoFunction tokens) (taken : Nat) :
    (afterFn? taken tokens).bind (fun found => found.1.head?.bind Token.identifier?) = none := by
  induction h generalizing taken with
  | nil => rfl
  | @ended t rest ht =>
    have hfn : t.isWord "fn" = false := by
      cases hk : t.kind <;> simp_all [isWord, endsSearch]
    simp [RustExport.afterFn?, hfn, ht]
  | @pointer t rest ht hr =>
    cases rest with
    | nil => simp [RustExport.afterFn?, ht]
    | cons u tail => simp [RustExport.afterFn?, ht, hr u rfl]
  | @qualifier t rest ht _ ih =>
    have hq : t.isWord "fn" = false ∧ endsSearch t.kind = false := by
      simpa [isQualifier] using ht
    simp [RustExport.afterFn?, hq.1, hq.2, ih]

theorem NoFunction.function? {tokens : List Token} (h : NoFunction tokens) :
    function? tokens = none := by
  have hnone := h.afterFn? 0
  rw [RustExport.function?]
  cases hfn : RustExport.afterFn? 0 tokens with
  | none => rfl
  | some found =>
    obtain ⟨rest, before⟩ := found
    cases rest with
    | nil => rfl
    | cons t tail =>
      have ht : t.identifier? = none := by simpa [hfn] using hnone
      simp [ht]

/-- Tokens that belong to the function before are passed over. -/
theorem functions_append (tokens rest : List Token) :
    functions tokens.length (tokens ++ rest) = functions 0 rest := by
  induction tokens with
  | nil => rfl
  | cons t tail ih => exact ih

/-- The scan finds exactly the headers of a file. -/
theorem functions_of_exports {tokens : List Token} {headers : List Header}
    (h : Exports tokens headers) : functions 0 tokens = headers.map Header.signature := by
  induction h with
  | nil => rfl
  | @other t rest headers hmark _ ih =>
    rw [functions]
    by_cases hm : marked (t :: rest) = true
    · have hnone := (hmark hm).function?
      simp only [marked] at hm
      simp only [hm, if_true, hnone, ih]
    · simp only [marked, Bool.not_eq_true] at hm
      simp only [hm, Bool.false_eq_true, if_false, ih]
  | @function h rest headers hr _ ih =>
    have hmark : h.mark.1.isWord "extern" = true := by simp [isWord, h.mark.2]
    have habi : (h.abi.1.kind == .string "C") = true := by simp [h.abi.2]
    have hskip := functions_append (h.abi.1 :: h.behindMark) rest
    simp only [List.length_cons, List.cons_append] at hskip
    rw [Header.tokens, List.cons_append, List.cons_append, functions]
    simp only [hmark, List.head?_cons, Option.any_some, habi, Bool.and_self, if_true,
      List.tail_cons, h.function?_behindMark hr, hskip, ih, List.map_cons]

end ForeignModule.Signature.RustExport
